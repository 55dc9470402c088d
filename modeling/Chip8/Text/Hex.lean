import Chip8.Nibble

/-!
# Hexadecimal text

Numbers are written in upper-case hexadecimal, padded with zeros on the left to a
least width. A number that needs more digits than the width is written in full, so
the text always determines the number.
-/

namespace Chip8.Text.Hex

def alphabet : Table Char :=
  #v['0', '1', '2', '3', '4', '5', '6', '7', '8', '9', 'A', 'B', 'C', 'D', 'E', 'F']

def digit (d : Nibble) : Char := alphabet.entry d

/-- Exactly `width` digits of `n`, the highest first; higher digits are left out. -/
def fixed : Nat → Nat → List Char
  | 0, _ => []
  | width + 1, n => fixed width (n / 16) ++ [digit (Nibble.ofNat n)]

/-- The number of digits of `n`; zero has one digit. -/
def length (n : Nat) : Nat := n.log2 / 4 + 1

/-- The number `n` in at least `width` digits. -/
def padded (width n : Nat) : String := String.ofList (fixed (max width (length n)) n)

/-- The number `n` in at least `width` digits after the mark `0x`. -/
def marked (width n : Nat) : String := "0x" ++ padded width n

@[simp] theorem length_fixed (width n : Nat) : (fixed width n).length = width := by
  induction width generalizing n with
  | zero => rfl
  | succ width ih => simp [fixed, ih]

end Chip8.Text.Hex
