/-!
# Configuration

Machines of this family differ in a few points on which programs rely. A `Config`
settles them, and says who drives the timers and what the random bytes grow from.
-/

namespace Chip8

/-- What becomes of a word that stands for no instruction. -/
inductive UnknownPolicy
  | strict
  | lenient
  deriving DecidableEq, Repr

/-- Which register a shift reads. -/
inductive ShiftSource
  | vx
  | vy
  deriving DecidableEq, Repr

/-- Who drives the timers. -/
inductive TimerMode
  /-- Every executed instruction is a tick. -/
  | perStep
  /-- Ticks come from outside, at their own rate. -/
  | external
  deriving DecidableEq, Repr

structure Config where
  unknownPolicy : UnknownPolicy := .strict
  shiftSource : ShiftSource := .vx
  /-- Whether the operations `or`, `and` and `xor` clear the flag register. -/
  logicResetsFlag : Bool := false
  timerMode : TimerMode := .perStep
  /-- What the random bytes grow from; without it they differ from run to run. -/
  seed : Option UInt64 := none
  deriving DecidableEq, Repr

end Chip8
