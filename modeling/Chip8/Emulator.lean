import Chip8.Keyboard
import Chip8.Pacer
import Chip8.Phosphor

/-!
# The emulator

The emulator shows a paced machine in a window, plays its tone and hands it the keys.
It reacts to events, also after it has asked to exit. A redraw lets time pass; if the
machine faults, the redraw ends there and the emulator asks to exit with the fault.

A window has a frame to draw to only after the emulator was resumed. A redraw before
that lets time pass and then finds nothing to draw to.
-/

namespace Chip8

structure Emulator where
  pacer : Pacer
  glow : Phosphor
  /-- What the window shows, absent before there is a window. -/
  frame : Option Frame
  tone : Bool
  exiting : Bool
  fault : Option Fault

namespace Emulator

inductive Event
  | close
  | key (physical : PhysicalKey) (logical : LogicalKey) (pressed : Bool)
  /-- The window is to be redrawn, `dt` seconds after the last time. -/
  | redraw (dt : Float32)
  | ignored

inductive Outcome
  | completed (emulator : Emulator)
  /-- There was nothing to draw to. -/
  | frameless (emulator : Emulator)

def Outcome.emulator : Outcome → Emulator
  | completed e => e
  | frameless e => e

/-- The emulator of a program, refused if the program is too large. -/
def ofProgram (program : List UInt8) (config : Config) (entropy : UInt64) (rate : Float32) :
    Except Fault Emulator :=
  (Machine.ofProgram program).value.map fun machine =>
    { pacer := .ofRate machine (.ofConfig config entropy) rate
      glow := .dark
      frame := none
      tone := false
      exiting := false
      fault := none }

def refusalMessage (fault : Fault) : String :=
  "Failed to load ROM into CHIP-8 memory: " ++ fault.message

def exitMessage (fault : Fault) : String := "Chip8 Execution error: " ++ fault.message

def resume (e : Emulator) : Emulator := { e with frame := some .fresh }

/-- Lets time pass on the screen, if there is a frame to draw to. -/
def shade (e : Emulator) (dt : Float32) : Outcome :=
  match e.frame with
  | none => .frameless e
  | some _ =>
    let glow := e.glow.shade e.pacer.machine.picture dt
    .completed { e with glow := glow, frame := some glow.frame }

def update? (budget : Nat) (e : Emulator) (dt : Float32) :
    Option (Except Fault Signal × Emulator) :=
  (e.pacer.update? budget dt).map fun u => (u.result, { e with pacer := u.pacer })

def exit (e : Emulator) : Emulator := { e with exiting := true }

/-- Lets time pass and draws. -/
def redraw? (budget : Nat) (e : Emulator) (dt : Float32) : Option Outcome :=
  (e.update? budget dt).map fun
    | (.error fault, e) => .completed { e.exit with fault := some fault }
    | (.ok _, e) => { e with tone := e.pacer.machine.timers.sounding }.shade dt

def turnKey (e : Emulator) (physical : PhysicalKey) (pressed : Bool) : Emulator :=
  match Keyboard.key? physical with
  | none => e
  | some k => { e with pacer := e.pacer.turnKey k pressed }

/-- What an event leads to, absent if the budget of a redraw does not suffice. -/
def handle? (budget : Nat) (e : Emulator) : Event → Option Outcome
  | .close => some (.completed e.exit)
  | .key _ .escape _ => some (.completed e.exit)
  | .key physical .other pressed => some (.completed (e.turnKey physical pressed))
  | .redraw dt => e.redraw? budget dt
  | .ignored => some (.completed e)

end Emulator

end Chip8
