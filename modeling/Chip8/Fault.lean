import Chip8.Instruction.Word
import Chip8.Text.Hex

/-!
# Faults

A fault says why a program could not be loaded or why an instruction could not be
executed. Faults of execution carry the address of the instruction.
-/

namespace Chip8

inductive Fault
  /-- The program of `size` bytes does not fit into the `limit` bytes there are. -/
  | programTooLarge (size limit : Nat)
  | unknownWord (word : Word) (pc : UInt16)
  /-- A call was made while all slots of the call stack were in use. -/
  | stackOverflow (pc : UInt16)
  /-- A return was made while no call was open. -/
  | stackUnderflow (pc : UInt16)
  /-- The word at this address does not lie in memory. -/
  | fetchOutOfBounds (pc : UInt16)
  deriving DecidableEq, Repr

instance decidableEqOutcome {α : Type} [DecidableEq α] : DecidableEq (Except Fault α)
  | .ok a, .ok b => decidable_of_iff (a = b) (by simp)
  | .error f, .error g => decidable_of_iff (f = g) (by simp)
  | .ok _, .error _ => isFalse (by simp)
  | .error _, .ok _ => isFalse (by simp)

def Fault.message : Fault → String
  | programTooLarge size limit =>
    "Program is too large (" ++ toString size ++ " bytes), max size is " ++ toString limit ++
      " bytes"
  | unknownWord word pc =>
    "Unknown opcode " ++ Text.Hex.marked 4 word.toNat ++ " at address " ++
      Text.Hex.marked 3 pc.toNat
  | stackOverflow pc =>
    "Stack overflow: more than 16 nested calls at address " ++ Text.Hex.marked 3 pc.toNat
  | stackUnderflow pc =>
    "Stack underflow: return with empty call stack at address " ++ Text.Hex.marked 3 pc.toNat
  | fetchOutOfBounds pc =>
    "Instruction fetch out of bounds at address " ++ Text.Hex.marked 4 pc.toNat

end Chip8
