import Chip8.Instruction.Basic

/-!
# Decoding

`Instruction.decode` reads a word. The top nibble selects a group; four groups hold
several instructions, told apart by the low nibble or the low byte. Every word has
exactly one reading, the ones that stand for nothing being `unknown`.
-/

namespace Chip8

/-- The operation that the low nibble of a register instruction selects. -/
def Operation.ofNibble? (n : Nibble) : Option Operation :=
  match n.val with
  | 0x0 => some .set
  | 0x1 => some .or
  | 0x2 => some .and
  | 0x3 => some .xor
  | 0x4 => some .add
  | 0x5 => some .sub
  | 0x6 => some .shiftRight
  | 0x7 => some .subReverse
  | 0xE => some .shiftLeft
  | _ => none

namespace Instruction

/-- The instructions without operands, which fill their whole word. -/
def decodeBare? (w : Word) : Option Instruction :=
  match w.toNat with
  | 0x00E0 => some .clear
  | 0x00EE => some .ret
  | _ => none

/-- The instructions on keys, told apart by the low byte. -/
def decodeKeypad? (w : Word) : Option Instruction :=
  match w.nn.toNat with
  | 0x9E => some (.skipPressed w.x)
  | 0xA1 => some (.skipReleased w.x)
  | _ => none

/-- The instructions on one register, told apart by the low byte. -/
def decodeRegister? (w : Word) : Option Instruction :=
  match w.nn.toNat with
  | 0x07 => some (.getDelay w.x)
  | 0x0A => some (.awaitKey w.x)
  | 0x15 => some (.setDelay w.x)
  | 0x18 => some (.setSound w.x)
  | 0x1E => some (.addIndex w.x)
  | 0x29 => some (.setGlyph w.x)
  | 0x33 => some (.storeDecimal w.x)
  | 0x55 => some (.storeRegisters w.x)
  | 0x65 => some (.loadRegisters w.x)
  | _ => none

/-- The documented instruction of a word, absent if it has none. -/
def decode? (w : Word) : Option Instruction :=
  match w.group.val with
  | 0x0 => decodeBare? w
  | 0x1 => some (.jump w.nnn)
  | 0x2 => some (.call w.nnn)
  | 0x3 => some (.skipEqByte w.x w.nn)
  | 0x4 => some (.skipNeByte w.x w.nn)
  | 0x5 => if w.n.val = 0 then some (.skipEq w.x w.y) else none
  | 0x6 => some (.setByte w.x w.nn)
  | 0x7 => some (.addByte w.x w.nn)
  | 0x8 => (Operation.ofNibble? w.n).map fun op => .operate op w.x w.y
  | 0x9 => if w.n.val = 0 then some (.skipNe w.x w.y) else none
  | 0xA => some (.setIndex w.nnn)
  | 0xB => some (.jumpOffset w.nnn)
  | 0xC => some (.random w.x w.nn)
  | 0xD => some (.draw w.x w.y w.n)
  | 0xE => decodeKeypad? w
  | _ => decodeRegister? w

def decode (w : Word) : Instruction := (decode? w).getD (.unknown w)

end Instruction

end Chip8
