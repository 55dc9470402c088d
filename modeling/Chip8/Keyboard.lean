import Chip8.Nibble

/-!
# The keyboard

The keypad is a square of four by four keys. It is played on the square of keys at the
left of a keyboard, named here by what is printed on them.
-/

namespace Chip8

/-- A key of the keyboard, by its place. -/
inductive PhysicalKey
  | digit (d : Fin 10)
  | letter (c : Char)
  | space
  | escape
  /-- A key that is none of these, by a number of its own. -/
  | other (code : Nat)
  deriving DecidableEq, Repr

/-- What a key of the keyboard means in the user's layout. -/
inductive LogicalKey
  | escape
  | other
  deriving DecidableEq, Repr

namespace Keyboard

/-- The key of the keyboard for each key of the keypad. -/
def layout : Table PhysicalKey :=
  #v[.letter 'X', .digit 1, .digit 2, .digit 3,
    .letter 'Q', .letter 'W', .letter 'E', .letter 'A',
    .letter 'S', .letter 'D', .letter 'Z', .letter 'C',
    .digit 4, .letter 'R', .letter 'F', .letter 'V']

/-- The key of the keypad that a key of the keyboard plays. -/
def key? (physical : PhysicalKey) : Option Nibble :=
  (List.finRange 16).find? fun k => layout.entry k == physical

end Keyboard

end Chip8
