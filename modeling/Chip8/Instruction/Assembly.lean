import Chip8.Instruction.Decode
import Chip8.Text.Hex

/-!
# Assembly text

An instruction is written as a `Statement`: a mnemonic and its operands. Registers
are written with one hexadecimal digit, bytes, addresses and unknown words in
hexadecimal after `0x`, and the height of a sprite in decimal. The word of an
`unknown` instruction is written as data, so no word is without a text.
-/

namespace Chip8

/-- What a mnemonic is applied to. -/
inductive Operand
  | register (x : Nibble)
  | byte (value : UInt8)
  | address (target : Address)
  | word (value : Word)
  /-- The height of a sprite. -/
  | height (rows : Nibble)
  | index
  /-- The memory that the index points at. -/
  | pointed
  | key
  | delay
  | sound
  | glyph
  | decimal
  deriving DecidableEq, Repr

def Operand.text : Operand → String
  | register x => String.ofList ['V', Text.Hex.digit x]
  | byte value => Text.Hex.marked 2 value.toNat
  | address target => Text.Hex.marked 3 target.val
  | word value => Text.Hex.marked 4 value.toNat
  | height rows => toString rows.val
  | index => "I"
  | pointed => "[I]"
  | key => "K"
  | delay => "DT"
  | sound => "ST"
  | glyph => "F"
  | decimal => "B"

structure Statement where
  mnemonic : String
  operands : List Operand
  deriving DecidableEq, Repr

/-- The operands follow the mnemonic after a blank and are parted by commas. -/
def Statement.text (s : Statement) : String :=
  match s.operands with
  | [] => s.mnemonic
  | operands => s.mnemonic ++ " " ++ String.intercalate ", " (operands.map Operand.text)

def Operation.mnemonic : Operation → String
  | set => "LD"
  | or => "OR"
  | and => "AND"
  | xor => "XOR"
  | add => "ADD"
  | sub => "SUB"
  | shiftRight => "SHR"
  | subReverse => "SUBN"
  | shiftLeft => "SHL"

namespace Instruction

def statement : Instruction → Statement
  | clear => ⟨"CLS", []⟩
  | ret => ⟨"RET", []⟩
  | jump target => ⟨"JP", [.address target]⟩
  | jumpOffset target => ⟨"JP", [.register (Nibble.ofNat 0), .address target]⟩
  | call target => ⟨"CALL", [.address target]⟩
  | skipEqByte x value => ⟨"SE", [.register x, .byte value]⟩
  | skipNeByte x value => ⟨"SNE", [.register x, .byte value]⟩
  | skipEq x y => ⟨"SE", [.register x, .register y]⟩
  | skipNe x y => ⟨"SNE", [.register x, .register y]⟩
  | setByte x value => ⟨"LD", [.register x, .byte value]⟩
  | addByte x value => ⟨"ADD", [.register x, .byte value]⟩
  | operate op x y => ⟨op.mnemonic, [.register x, .register y]⟩
  | setIndex target => ⟨"LD", [.index, .address target]⟩
  | addIndex x => ⟨"ADD", [.index, .register x]⟩
  | random x mask => ⟨"RND", [.register x, .byte mask]⟩
  | draw x y rows => ⟨"DRW", [.register x, .register y, .height rows]⟩
  | skipPressed x => ⟨"SKP", [.register x]⟩
  | skipReleased x => ⟨"SKNP", [.register x]⟩
  | awaitKey x => ⟨"LD", [.register x, .key]⟩
  | getDelay x => ⟨"LD", [.register x, .delay]⟩
  | setDelay x => ⟨"LD", [.delay, .register x]⟩
  | setSound x => ⟨"LD", [.sound, .register x]⟩
  | setGlyph x => ⟨"LD", [.glyph, .register x]⟩
  | storeDecimal x => ⟨"LD", [.decimal, .register x]⟩
  | storeRegisters x => ⟨"LD", [.pointed, .register x]⟩
  | loadRegisters x => ⟨"LD", [.register x, .pointed]⟩
  | unknown word => ⟨"DW", [.word word]⟩

def text (i : Instruction) : String := i.statement.text

end Instruction

end Chip8
