import Chip8.Config
import Chip8.Instruction.Basic

/-!
# Arithmetic on registers

An operation on two registers computes a result and, for most operations, a flag.
Both depend on the old bytes only. A difference sets the flag if the minuend is
strictly the larger, and a shift puts the bit it drops into the flag.
-/

namespace Chip8

/-- The byte that stands for a truth value. -/
def flagByte (b : Bool) : UInt8 := if b then 1 else 0

namespace Operation

/-- The byte that a shift reads. -/
def shifted (config : Config) (a b : UInt8) : UInt8 :=
  match config.shiftSource with
  | .vx => a
  | .vy => b

def logicFlag (config : Config) : Option UInt8 :=
  if config.logicResetsFlag then some 0 else none

/-- The result and the flag of an operation on the bytes `a` and `b`, of which the
first will be replaced by the result. -/
def apply (config : Config) (a b : UInt8) : Operation → UInt8 × Option UInt8
  | set => (b, none)
  | or => (a ||| b, logicFlag config)
  | and => (a &&& b, logicFlag config)
  | xor => (a ^^^ b, logicFlag config)
  | add => (a + b, some (flagByte (256 ≤ a.toNat + b.toNat)))
  | sub => (a - b, some (flagByte (b < a)))
  | subReverse => (b - a, some (flagByte (a < b)))
  | shiftRight => let s := shifted config a b; (s / 2, some (s % 2))
  | shiftLeft => let s := shifted config a b; (s * 2, some (s / 128))

end Operation

end Chip8
