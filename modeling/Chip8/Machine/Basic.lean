import Chip8.Fault
import Chip8.Font
import Chip8.Log
import Chip8.Machine.CallStack
import Chip8.Machine.Keypad
import Chip8.Machine.Timers
import Chip8.Picture

/-!
# The machine

A `Machine` is everything a program can see or change: memory, picture, registers,
index, program counter, call stack, timers and keypad. Beside them it remembers the
word fetched last and whether the last instruction touched the picture.

`Machine.powerOn` is the machine before any program runs: the font is in memory, all
else is zero, and execution begins at `Machine.start`. A reset brings every machine
back to it, and `load` puts a program there.
-/

namespace Chip8

abbrev Registers := Table UInt8

/-- The state of a machine. -/
structure Machine where
  memory : Memory
  picture : Picture
  pc : UInt16
  index : UInt16
  registers : Registers
  stack : CallStack
  timers : Timers
  keypad : Keypad
  /-- The word fetched last. -/
  word : Word
  /-- Whether the last instruction touched the picture. -/
  repainted : Bool
  deriving DecidableEq

namespace Machine

/-- The address of the first byte of a program. -/
def start : Nat := 0x200

/-- The number of bytes a program may have. -/
def capacity : Nat := Memory.size - start

def powerOn : Machine where
  memory := Memory.zero.store Font.base Font.bytes
  picture := .blank
  pc := UInt16.ofNat start
  index := 0
  registers := .ofFn fun _ => 0
  stack := .empty
  timers := .stopped
  keypad := .released
  word := 0
  repainted := false

/-- The machine after a reset, which leaves nothing of its past. -/
def reset (_ : Machine) : Machine := powerOn

/-- The machine with a program in memory, refused if the program is too large. All
else stays as it is, so an earlier program shows beyond the end of a shorter one. -/
def load (m : Machine) (program : List UInt8) : Logged (Except Fault Machine) :=
  if program.length ≤ capacity then
    ⟨.ok { m with memory := m.memory.store start program }, [.loaded program.length start]⟩
  else
    ⟨.error (.programTooLarge program.length capacity), []⟩

def ofProgram (program : List UInt8) : Logged (Except Fault Machine) := powerOn.load program

def tick (m : Machine) : Machine := { m with timers := m.timers.tick }

def ticks (m : Machine) (count : Nat) : Machine := { m with timers := m.timers.ticks count }

def turnKey (m : Machine) (k : Nibble) (pressed : Bool) : Machine :=
  { m with keypad := m.keypad.turn k pressed }

def register (m : Machine) (x : Nibble) : UInt8 := m.registers.entry x

def setRegister (m : Machine) (x : Nibble) (v : UInt8) : Machine :=
  { m with registers := m.registers.put x v }

/-- The register that receives carries, borrows and collisions. -/
def flagRegister : Nibble := Nibble.ofNat 0xF

/-- The bytes of memory from address `first` up to but not including `last`, absent
if they are not in memory. -/
def dump? (m : Machine) (first last : Nat) : Option (List UInt8) :=
  if first ≤ last ∧ last ≤ Memory.size then some (m.memory.slice first (last - first)) else none

/-- The word to be executed next, absent if it does not lie in memory. -/
def fetch? (m : Machine) : Option Word :=
  if m.pc.toNat + 1 < Memory.size then some (m.memory.word m.pc.toNat) else none

theorem ticks_zero (m : Machine) : m.ticks 0 = m := by
  simp [ticks]

theorem ticks_succ (m : Machine) (count : Nat) :
    m.ticks (count + 1) = (m.ticks count).tick := by
  simp [ticks, tick, Timers.tick, Timers.ticks_ticks]

theorem register_setRegister (m : Machine) (x y : Nibble) (v : UInt8) :
    (m.setRegister x v).register y = if x = y then v else m.register y :=
  Table.entry_put m.registers x y v

theorem register_setRegister_self (m : Machine) (x : Nibble) (v : UInt8) :
    (m.setRegister x v).register x = v := by
  rw [register_setRegister, if_pos rfl]

theorem load_eq_ok_iff {m n : Machine} {program : List UInt8} :
    (m.load program).value = .ok n ↔
      program.length ≤ capacity ∧ n = { m with memory := m.memory.store start program } := by
  unfold load
  split
  · rename_i h
    simp [h, eq_comm]
  · rename_i h
    simp [h]

theorem fetch?_eq_none_iff {m : Machine} : m.fetch? = none ↔ 0xFFF ≤ m.pc.toNat := by
  unfold fetch? Memory.size
  split
  · simp only [reduceCtorEq, false_iff]
    omega
  · simp only [true_iff]
    omega

end Machine

end Chip8
