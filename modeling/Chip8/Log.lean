import Chip8.Instruction.Listing

/-!
# The log

Loading, resetting and executing are recorded in a log. Addresses are written in at
least three digits and words in four. The record of a fetched instruction is the line
that a listing has for it, after the mark `0x` (`Record.text_fetched`).
-/

namespace Chip8

namespace Log

inductive Level
  | trace
  | debug
  | warning
  deriving DecidableEq, Repr

inductive Record
  /-- A program of `size` bytes was put at the address `start`. -/
  | loaded (size start : Nat)
  | reset (pc : UInt16)
  /-- The word at `pc` was fetched to be executed. -/
  | fetched (pc : UInt16) (word : Word)
  /-- The word at `pc` stands for no instruction and was passed over. -/
  | skipped (pc : UInt16) (word : Word)
  deriving DecidableEq, Repr

def Record.level : Record → Level
  | loaded _ _ => .debug
  | reset _ => .debug
  | fetched _ _ => .trace
  | skipped _ _ => .warning

def Record.text : Record → String
  | loaded size start =>
    "loaded " ++ toString size ++ " byte program at " ++ Text.Hex.marked 3 start
  | reset pc => "machine reset, pc = " ++ Text.Hex.marked 3 pc.toNat
  | fetched pc word =>
    Text.Hex.marked 3 pc.toNat ++ ": " ++ Text.Hex.padded 4 word.toNat ++ "  " ++
      (Instruction.decode word).text
  | skipped pc word =>
    "skipping unknown opcode " ++ Text.Hex.marked 4 word.toNat ++ " at " ++
      Text.Hex.marked 3 pc.toNat

/-- The record of a fetched instruction shows the line of a listing. -/
theorem Record.text_fetched (pc : UInt16) (word : Word) :
    (fetched pc word).text = "0x" ++ Listing.line pc word := by
  change Text.Hex.marked 3 pc.toNat ++ ": " ++ _ ++ "  " ++ _ = _
  simp only [Listing.line, Text.Hex.marked, String.append_assoc]

end Log

/-- A value and the records written on the way to it, the earliest first. -/
structure Logged (α : Type) where
  value : α
  log : List Log.Record

end Chip8
