import Chip8.Instruction.Word

/-!
# Instructions

An `Instruction` is what a word asks the machine to do, with the operands the word
carries. Registers are named by nibbles and targets by addresses. A word that asks
for nothing known is an instruction too, `unknown`, which keeps the word; what
becomes of it is decided when it is executed.
-/

namespace Chip8

/-- The operations on two registers, of which the first receives the result. -/
inductive Operation
  | set
  | or
  | and
  | xor
  | add
  | sub
  | shiftRight
  | subReverse
  | shiftLeft
  deriving DecidableEq, Repr

/-- What an instruction word asks for. -/
inductive Instruction
  /-- Turn every pixel off. -/
  | clear
  /-- Resume after the most recent call. -/
  | ret
  | jump (target : Address)
  /-- Go on at `target` plus the first register. -/
  | jumpOffset (target : Address)
  /-- Go on at `target` and remember where to return to. -/
  | call (target : Address)
  /-- Skip the next instruction if the register holds `value`. -/
  | skipEqByte (x : Nibble) (value : UInt8)
  | skipNeByte (x : Nibble) (value : UInt8)
  | skipEq (x y : Nibble)
  | skipNe (x y : Nibble)
  | setByte (x : Nibble) (value : UInt8)
  /-- Add `value` to the register, modulo 256 and without a carry. -/
  | addByte (x : Nibble) (value : UInt8)
  | operate (operation : Operation) (x y : Nibble)
  | setIndex (target : Address)
  /-- Add the register to the index, modulo the size of memory. -/
  | addIndex (x : Nibble)
  /-- Put a random byte, masked by `mask`, into the register. -/
  | random (x : Nibble) (mask : UInt8)
  /-- Draw the sprite of `rows` bytes at the index, at the position in two registers. -/
  | draw (x y rows : Nibble)
  /-- Skip the next instruction if the key named by the register is pressed. -/
  | skipPressed (x : Nibble)
  | skipReleased (x : Nibble)
  /-- Wait until a key is pressed and put it into the register. -/
  | awaitKey (x : Nibble)
  | getDelay (x : Nibble)
  | setDelay (x : Nibble)
  | setSound (x : Nibble)
  /-- Point the index at the glyph of the digit in the register. -/
  | setGlyph (x : Nibble)
  /-- Store the three decimal digits of the register at the index. -/
  | storeDecimal (x : Nibble)
  /-- Store the registers up to `x` at the index. -/
  | storeRegisters (x : Nibble)
  /-- Load the registers up to `x` from the index. -/
  | loadRegisters (x : Nibble)
  /-- A word that no other case matches. -/
  | unknown (word : Word)
  deriving DecidableEq, Repr

end Chip8
