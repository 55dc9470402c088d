import Chip8.Machine.Arithmetic
import Chip8.Machine.Basic
import Chip8.Random.Source

/-!
# Execution

`Instruction.execute` carries out one instruction on a machine whose program counter
points at it. What it leaves behind is an `Effect`; a refused instruction leaves
nothing behind, so it cannot have changed anything. Drawing, clearing and waiting for
a key ask for the next frame before execution goes on.
-/

namespace Chip8

inductive Signal
  /-- The next instruction may follow. -/
  | proceed
  /-- The picture should be shown before the next instruction. -/
  | awaitFrame
  deriving DecidableEq, Repr

/-- What an executed instruction leaves behind. -/
structure Effect where
  machine : Machine
  random : Random.Source
  signal : Signal
  log : List Log.Record

namespace Machine

def advance (m : Machine) : Machine := { m with pc := m.pc + 2 }

/-- The machine past the following instruction, or at it, as the condition says. -/
def skipIf (m : Machine) (condition : Bool) : Machine :=
  if condition then m.advance.advance else m.advance

def goTo (m : Machine) (target : Nat) : Machine := { m with pc := UInt16.ofNat target }

/-- The machine after an operation on two registers. The flag is written last, so it
stays also where the result should have gone to the flag register. -/
def operate (m : Machine) (config : Config) (operation : Operation) (x y : Nibble) : Machine :=
  match operation.apply config (m.register x) (m.register y) with
  | (result, none) => m.setRegister x result
  | (result, some flag) => (m.setRegister x result).setRegister flagRegister flag

def sprite (m : Machine) (x y rows : Nibble) : Picture :=
  Picture.sprite (m.register x) (m.register y) (m.memory.slice m.index.toNat rows.val)

/-- The machine with a sprite laid over its picture. The flag register says whether
a pixel was turned off. -/
def draw (m : Machine) (sprite : Picture) : Machine :=
  { m.setRegister flagRegister (flagByte (m.picture.overlaps sprite)) with
    picture := m.picture.xor sprite
    repainted := true }

def decimalDigits (v : UInt8) : List UInt8 := [v / 100, v / 10 % 10, v % 10]

def storeAtIndex (m : Machine) (bytes : List UInt8) : Machine :=
  { m with memory := m.memory.store m.index.toNat bytes }

/-- The machine with the registers up to `x` loaded from the index on. -/
def loadFromIndex (m : Machine) (x : Nibble) : Machine :=
  { m with
    registers := .ofFn fun r =>
      if r ≤ x then m.memory.read (m.index.toNat + r.val) else m.register r }

end Machine

namespace Instruction

/-- The effect of an instruction on a machine whose program counter points at it. -/
def execute (config : Config) (random : Random.Source) (m : Machine) :
    Instruction → Except Fault Effect
  | clear => frame { m.advance with picture := .blank, repainted := true }
  | ret =>
    match m.stack.pop? with
    | none => .error (.stackUnderflow m.pc)
    | some (address, stack) => done { m with pc := address, stack := stack }
  | jump target => done (m.goTo target.val)
  | jumpOffset target => done (m.goTo (target.val + (m.register (Nibble.ofNat 0)).toNat))
  | call target =>
    match m.stack.push? (m.pc + 2) with
    | none => .error (.stackOverflow m.pc)
    | some stack => done { m.goTo target.val with stack := stack }
  | skipEqByte x value => done (m.skipIf (m.register x == value))
  | skipNeByte x value => done (m.skipIf (m.register x != value))
  | skipEq x y => done (m.skipIf (m.register x == m.register y))
  | skipNe x y => done (m.skipIf (m.register x != m.register y))
  | setByte x value => done (m.advance.setRegister x value)
  | addByte x value => done (m.advance.setRegister x (m.register x + value))
  | operate operation x y => done (m.advance.operate config operation x y)
  | setIndex target => done { m.advance with index := UInt16.ofNat target.val }
  | addIndex x =>
    done { m.advance with
      index := UInt16.ofNat ((m.index.toNat + (m.register x).toNat) % Memory.size) }
  | Instruction.random x mask =>
    .ok ⟨m.advance.setRegister x (random.next &&& mask), random.rest, .proceed, []⟩
  | draw x y rows => frame (m.advance.draw (m.sprite x y rows))
  | skipPressed x => done (m.skipIf (m.keypad.entry (Nibble.ofByte (m.register x))))
  | skipReleased x => done (m.skipIf (!m.keypad.entry (Nibble.ofByte (m.register x))))
  | awaitKey x =>
    match m.keypad.lowest? with
    | none => frame m
    | some key => done (m.advance.setRegister x key.toByte)
  | getDelay x => done (m.advance.setRegister x m.timers.delay)
  | setDelay x => done { m.advance with timers := { m.timers with delay := m.register x } }
  | setSound x => done { m.advance with timers := { m.timers with sound := m.register x } }
  | setGlyph x =>
    done { m.advance with index := Font.glyphAddress (Nibble.ofByte (m.register x)) }
  | storeDecimal x => done (m.advance.storeAtIndex (Machine.decimalDigits (m.register x)))
  | storeRegisters x =>
    done (m.advance.storeAtIndex (m.registers.toList.take (x.val + 1)))
  | loadRegisters x => done (m.advance.loadFromIndex x)
  | unknown word =>
    match config.unknownPolicy with
    | .strict => .error (.unknownWord word m.pc)
    | .lenient => .ok ⟨m.advance, random, .proceed, [.skipped m.pc word]⟩
where
  done (m : Machine) : Except Fault Effect := .ok ⟨m, random, .proceed, []⟩
  frame (m : Machine) : Except Fault Effect := .ok ⟨m, random, .awaitFrame, []⟩

end Instruction

end Chip8
