import Chip8.Pacer
import Chip8.Phosphor

/-!
# Guarded execution

The operations of a machine once more, with nothing left to wrap or to be missed. Every
slot, byte, register, key and row is looked up by its number and may turn out not to be
there, every sum has to fit into sixteen bits, every difference has to exist, and loops
go one element at a time. An operation is absent as soon as one of its checks fails. The
program counter moves on before an instruction is executed and is put back if the
instruction is refused.
-/

namespace Chip8.Guarded

/-- The sum of two numbers, absent if sixteen bits cannot hold it. -/
def sum? (a b : Nat) : Option Nat := if a + b < 0x10000 then some (a + b) else none

/-- The difference of two numbers, absent if it is below zero. -/
def difference? (a b : Nat) : Option Nat := if b ≤ a then some (a - b) else none

/-- Replaces the entry with the number `k`. -/
def put? {α : Type} {n : Nat} (v : Vector α n) (k : Nat) (a : α) : Option (Vector α n) :=
  if h : k < n then some (v.set k a) else none

/-- The byte that stands `k` places behind the index. -/
def byteAt? (m : Machine) (k : Nat) : Option UInt8 := do
  let a ← sum? m.index.toNat k
  m.memory[a % Memory.size]?

/-- The same byte, if the address is reckoned in sixteen bits and may run round. -/
def byteAround? (m : Machine) (k : Nat) : Option UInt8 :=
  m.memory[(m.index + UInt16.ofNat k).toNat % Memory.size]?

def putByteAt? (m : Machine) (k : Nat) (b : UInt8) : Option Machine := do
  let a ← sum? m.index.toNat k
  let memory ← put? m.memory (a % Memory.size) b
  some { m with memory := memory }

def register? (m : Machine) (x : Nat) : Option UInt8 := m.registers[x]?

def putRegister? (m : Machine) (x : Nat) (v : UInt8) : Option Machine := do
  let registers ← put? m.registers x v
  some { m with registers := registers }

def skipIf? (m : Machine) (condition : Bool) : Option Machine :=
  if condition then do
    let pc ← sum? m.pc.toNat 2
    some { m with pc := UInt16.ofNat pc }
  else some m

/-- Turns over one pixel of a row and tells whether it was on. -/
def flip? (line : Row) (column : Nat) : Option (Row × Bool) :=
  if column < 64 then some (line ^^^ BitVec.twoPow 64 (63 - column), line.getMsbD column)
  else none

/-- Turns over the pixel that stands for the bit `k` of a byte shown from column `x` on,
and remembers whether one was on. -/
def flipBit? (x : Nat) (b : UInt8) : Row × Bool → Nat → Option (Row × Bool)
  | (line, erased), k =>
    if b.toBitVec.getMsbD k then do
      let column ← sum? x k
      let (line, lit) ← flip? line column
      some (line, erased || lit)
    else some (line, erased)

/-- Shows a byte in a row from column `x` on, as far as there are columns. -/
def flipRow? (line : Row) (x : Nat) (b : UInt8) : Option (Row × Bool) := do
  let columns ← difference? 64 x
  (List.range (min 8 columns)).foldlM (flipBit? x b) (line, false)

/-- Lays the row `k` of a sprite over a picture and remembers whether a pixel was turned
off. The rows are looked up with `byte?`. -/
def drawRow? (byte? : Nat → Option UInt8) (x y : Nat) :
    Picture × Bool → Nat → Option (Picture × Bool)
  | (picture, erased), k => do
    let b ← byte? k
    let line ← picture[(y + k) % 32]?
    let (line, hit) ← flipRow? line x b
    let picture ← put? picture ((y + k) % 32) line
    some (picture, erased || hit)

def drawRows? (byte? : Nat → Option UInt8) (picture : Picture) (x y rows : Nat) :
    Option (Picture × Bool) :=
  (List.range rows).foldlM (drawRow? byte? x y) (picture, false)

/-- Draws in place. The flag register is written after it may have been read. -/
def draw? (byte? : Nat → Option UInt8) (m : Machine) (x y rows : Nibble) : Option Machine := do
  let vx ← register? m x.val
  let vy ← register? m y.val
  let (picture, erased) ← drawRows? byte? m.picture (vx.toNat % 64) (vy.toNat % 32) rows.val
  let m ← putRegister? { m with picture := picture } 15 (flagByte erased)
  some { m with repainted := true }

def storeRegister? (m : Machine) (k : Nat) : Option Machine := do
  let v ← register? m k
  putByteAt? m k v

def storeRegisters? (m : Machine) (count : Nat) : Option Machine :=
  (List.range count).foldlM storeRegister? m

def loadRegister? (m : Machine) (k : Nat) : Option Machine := do
  let v ← byteAt? m k
  putRegister? m k v

def loadRegisters? (m : Machine) (count : Nat) : Option Machine :=
  (List.range count).foldlM loadRegister? m

/-- The effect of the instruction that stands at `pc` on a machine whose program counter
is past it. -/
def execute? (config : Config) (random : Random.Source) (m : Machine) (pc : UInt16) :
    Instruction → Option (Except Fault Effect)
  | .clear => frame { m with picture := .blank, repainted := true }
  | .ret =>
    if m.stack.depth = 0 then some (.error (.stackUnderflow pc))
    else do
      let depth ← difference? m.stack.depth 1
      let address ← m.stack.slots[depth]?
      done { m with pc := address, stack := ⟨m.stack.slots, depth⟩ }
  | .jump target => done { m with pc := UInt16.ofNat target.val }
  | .jumpOffset target => do
    let v ← register? m 0
    let pc ← sum? target.val v.toNat
    done { m with pc := UInt16.ofNat pc }
  | .call target =>
    if m.stack.depth = 16 then some (.error (.stackOverflow pc))
    else do
      let slots ← put? m.stack.slots m.stack.depth m.pc
      let depth ← sum? m.stack.depth 1
      done { m with pc := UInt16.ofNat target.val, stack := ⟨slots, depth⟩ }
  | .skipEqByte x value => do done (← skipIf? m ((← register? m x.val) == value))
  | .skipNeByte x value => do done (← skipIf? m ((← register? m x.val) != value))
  | .skipEq x y => do
    done (← skipIf? m ((← register? m x.val) == (← register? m y.val)))
  | .skipNe x y => do
    done (← skipIf? m ((← register? m x.val) != (← register? m y.val)))
  | .setByte x value => do done (← putRegister? m x.val value)
  | .addByte x value => do done (← putRegister? m x.val ((← register? m x.val) + value))
  | .operate operation x y => do
    match operation.apply config (← register? m x.val) (← register? m y.val) with
    | (result, none) => done (← putRegister? m x.val result)
    | (result, some flag) => done (← putRegister? (← putRegister? m x.val result) 15 flag)
  | .setIndex target => done { m with index := UInt16.ofNat target.val }
  | .addIndex x => do
    let index ← sum? m.index.toNat (← register? m x.val).toNat
    done { m with index := UInt16.ofNat (index % Memory.size) }
  | .random x mask => do
    let m ← putRegister? m x.val (random.next &&& mask)
    some (.ok ⟨m, random.rest, .proceed, []⟩)
  | .draw x y rows => do frame (← draw? (byteAt? m) m x y rows)
  | .skipPressed x => do
    done (← skipIf? m (← m.keypad[(← register? m x.val).toNat % 16]?))
  | .skipReleased x => do
    done (← skipIf? m (!(← m.keypad[(← register? m x.val).toNat % 16]?)))
  | .awaitKey x =>
    match m.keypad.lowest? with
    | none => frame { m with pc := pc }
    | some key => do done (← putRegister? m x.val key.toByte)
  | .getDelay x => do done (← putRegister? m x.val m.timers.delay)
  | .setDelay x => do done { m with timers := ⟨← register? m x.val, m.timers.sound⟩ }
  | .setSound x => do done { m with timers := ⟨m.timers.delay, ← register? m x.val⟩ }
  | .setGlyph x => do
    done { m with index := Font.glyphAddress (Nibble.ofByte (← register? m x.val)) }
  | .storeDecimal x => do
    let v ← register? m x.val
    done (← putByteAt? (← putByteAt? (← putByteAt? m 0 (v / 100)) 1 (v / 10 % 10)) 2 (v % 10))
  | .storeRegisters x => do done (← storeRegisters? m (x.val + 1))
  | .loadRegisters x => do done (← loadRegisters? m (x.val + 1))
  | .unknown word =>
    match config.unknownPolicy with
    | .strict => some (.error (.unknownWord word pc))
    | .lenient => some (.ok ⟨m, random, .proceed, [.skipped pc word]⟩)
where
  done (m : Machine) : Option (Except Fault Effect) := some (.ok ⟨m, random, .proceed, []⟩)
  frame (m : Machine) : Option (Except Fault Effect) := some (.ok ⟨m, random, .awaitFrame, []⟩)

def fetch? (m : Machine) : Option (Except Fault Word) := do
  let second ← sum? m.pc.toNat 1
  if Memory.size ≤ second then some (.error (.fetchOutOfBounds m.pc))
  else do
    let high ← m.memory[m.pc.toNat]?
    let low ← m.memory[second]?
    some (.ok (.ofBytes high low))

def step? (interpreter : Interpreter) (m : Machine) : Option Interpreter.Step := do
  match ← fetch? m with
  | .error fault => some ⟨.error fault, { m with repainted := false }, interpreter, []⟩
  | .ok word =>
    let pc ← sum? m.pc.toNat 2
    let ahead := { m with repainted := false, word := word, pc := UInt16.ofNat pc }
    match ← execute? interpreter.config interpreter.random ahead m.pc (.decode word) with
    | .error fault =>
      some ⟨.error fault, { ahead with pc := m.pc }, interpreter, [.fetched m.pc word]⟩
    | .ok effect =>
      some ⟨.ok effect.signal, Interpreter.afterStep interpreter.config effect.machine,
        { interpreter with random := effect.random }, .fetched m.pc word :: effect.log⟩

/-- Copies bytes to consecutive addresses. -/
def copy? : Memory → Nat → List UInt8 → Option Memory
  | memory, _, [] => some memory
  | memory, a, b :: bs => do copy? (← put? memory a b) (← sum? a 1) bs

def load? (m : Machine) (program : List UInt8) : Option (Except Fault Machine) :=
  if Machine.capacity < program.length then
    some (.error (.programTooLarge program.length Machine.capacity))
  else do
    let memory ← copy? m.memory Machine.start program
    some (.ok { m with memory := memory })

/-- Resets a machine in place, memory byte by byte and then one field after the other. -/
def reset? (m : Machine) : Option Machine := do
  let memory ← copy? m.memory 0 (List.replicate Memory.size 0)
  let memory ← copy? memory Font.base Font.bytes
  let m := { m with memory := memory }
  let m := { m with picture := .blank }
  let m := { m with pc := UInt16.ofNat Machine.start }
  let m := { m with index := 0 }
  let m := { m with registers := .ofFn fun _ => 0 }
  let m := { m with stack := ⟨.replicate 16 0, m.stack.depth⟩ }
  let m := { m with stack := ⟨m.stack.slots, 0⟩ }
  let m := { m with timers := ⟨0, m.timers.sound⟩ }
  let m := { m with timers := ⟨m.timers.delay, 0⟩ }
  let m := { m with keypad := .ofFn fun _ => false }
  let m := { m with word := 0 }
  let m := { m with repainted := false }
  some m

def turnKey? (m : Machine) (k : Nibble) (pressed : Bool) : Option Machine := do
  let keypad ← put? m.keypad k.val pressed
  some { m with keypad := keypad }

/-- The view of the live part of a call stack. -/
def live? (s : CallStack) : Option (List UInt16) :=
  if s.depth ≤ 16 then some (s.slots.toList.take s.depth) else none

/-- Spends time on guarded instructions. The inner option is that of the budget. -/
def runInstructions? : (budget : Nat) → (earlier : List Log.Record) → Pacer →
    Option (Option Pacer.Update)
  | 0, earlier, p =>
    some (if p.period ≤ p.cpuTime then none else some ⟨.ok .proceed, p, earlier.reverse⟩)
  | budget + 1, earlier, p =>
    if p.period ≤ p.cpuTime then do
      let s ← step? p.interpreter p.machine
      let q : Pacer := ⟨s.machine, s.interpreter, p.period, p.cpuTime - p.period, p.timerTime⟩
      match s.result with
      | .ok .proceed => runInstructions? budget (s.log.reverse ++ earlier) q
      | .ok .awaitFrame => some (some ⟨.ok .awaitFrame, q.forfeit, earlier.reverse ++ s.log⟩)
      | .error fault => some (some ⟨.error fault, q, earlier.reverse ++ s.log⟩)
    else some (some ⟨.ok .proceed, p, earlier.reverse⟩)

def update? (budget : Nat) (p : Pacer) (dt : Float32) : Option (Option Pacer.Update) :=
  match Pacer.runTimers? budget { p with cpuTime := p.cpuTime + dt } dt with
  | none => some none
  | some q => runInstructions? budget [] q

/-- The brightness of every pixel, in rows. -/
abbrev Rows := Vector (Vector Float32 64) 32

def rows (glow : Phosphor) : Rows := .ofFn fun y => .ofFn fun x => glow[64 * y.val + x.val]

def pixel? (rows : Rows) (x y : Nat) : Option Float32 := do
  let row ← rows[y]?
  row[x]?

def putPixel? (rows : Rows) (x y : Nat) (b : Float32) : Option Rows := do
  let row ← rows[y]?
  let row ← put? row x b
  put? rows y row

/-- Lets time pass for the pixel with the number `i` and writes its bytes. -/
def shadePixel? (picture : Picture) (dt : Float32) : Rows × Frame → Nat → Option (Rows × Frame)
  | (rows, frame), i => do
    let x := i % 64
    let y := i / 64
    let lit ← picture.lit? x y
    let b ← pixel? rows x y
    let rows ← putPixel? rows x y (Phosphor.fade dt lit b)
    let b ← pixel? rows x y
    let frame ← put? frame (4 * i) 0
    let frame ← put? frame (4 * i + 1) 255
    let frame ← put? frame (4 * i + 2) 0
    let frame ← put? frame (4 * i + 3) (Phosphor.opacity b)
    some (rows, frame)

/-- Lets time pass for one pixel after the other. -/
def shade? (picture : Picture) (dt : Float32) (rows : Rows) (frame : Frame) :
    Option (Rows × Frame) :=
  (List.range 2048).foldlM (shadePixel? picture dt) (rows, frame)

end Chip8.Guarded
