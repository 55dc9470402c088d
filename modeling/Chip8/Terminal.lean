import Chip8.Picture

/-!
# The picture in a terminal

A terminal shows a picture in characters, one line for each row.
-/

namespace Chip8.Terminal

def pixel (lit : Bool) : Char := if lit then '#' else ' '

def line (p : Picture) (y : Fin 32) : String :=
  String.ofList ((List.finRange 64).map fun x => pixel (p.lit x y))

def lines (p : Picture) : List String := (List.finRange 32).map (line p)

/-- The text that puts a picture over the one shown before. -/
def screen (p : Picture) : String := "\x1b[H" ++ "\n".intercalate (lines p)

end Chip8.Terminal
