import Chip8.Picture

/-!
# The fading picture

The screen glows green. A pixel that is on has brightness one; after it is turned off
its brightness fades in proportion to the time that passes, and no further than to
zero. The window shows a frame of bytes, four for each pixel: red, green, blue and
opacity. All pixels have the same colour, and the brightness is the opacity.
-/

namespace Chip8

/-- The brightness of every pixel, row by row from the top left. -/
abbrev Phosphor := Vector Float32 2048

/-- The bytes shown in a window, four for each pixel. -/
abbrev Frame := Vector UInt8 8192

namespace Phosphor

def dark : Phosphor := Vector.replicate 2048 0.0

/-- The brightness lost in a second. -/
def decayRate : Float32 := 10.0

/-- A number, or zero if it is not above zero. -/
def clampBelow (b : Float32) : Float32 := if 0.0 < b then b else 0.0

/-- The brightness of a pixel `dt` seconds after it was `b`. -/
def fade (dt : Float32) (lit : Bool) (b : Float32) : Float32 :=
  if lit then 1.0 else clampBelow (b - decayRate * dt)

/-- The opacity of a brightness. -/
def opacity (b : Float32) : UInt8 := (b * 255.0).toUInt8

/-- The pixel at a place, counted row by row. -/
def litAt (picture : Picture) (place : Fin 2048) : Bool :=
  picture.lit ⟨place.val % 64, by omega⟩ ⟨place.val / 64, by omega⟩

/-- The glow `dt` seconds later, over the given picture. -/
def shade (glow : Phosphor) (picture : Picture) (dt : Float32) : Phosphor :=
  Vector.ofFn fun place : Fin 2048 => fade dt (litAt picture place) glow[place]

/-- The frame that shows a glow. -/
def frame (glow : Phosphor) : Frame :=
  Vector.ofFn fun place : Fin 8192 =>
    match place.val % 4 with
    | 0 => 0
    | 1 => 255
    | 2 => 0
    | _ => opacity glow[place.val / 4]

/-- Places are counted in rows of 64 columns. -/
theorem litAt_row (picture : Picture) (x : Fin 64) (y : Fin 32)
    (h : 64 * y.val + x.val < 2048) :
    litAt picture ⟨64 * y.val + x.val, h⟩ = picture.lit x y := by
  have hx : (64 * y.val + x.val) % 64 = x.val := by omega
  have hy : (64 * y.val + x.val) / 64 = y.val := by omega
  simp [litAt, hx, hy]

theorem getElem_shade (glow : Phosphor) (picture : Picture) (dt : Float32) {i : Nat}
    (hi : i < 2048) :
    (glow.shade picture dt)[i] = fade dt (litAt picture ⟨i, hi⟩) glow[i] := by
  simp [shade]

/-- The bytes of a pixel. -/
theorem getElem_frame (glow : Phosphor) {i : Nat} (hi : i < 2048) :
    glow.frame[4 * i] = 0 ∧ glow.frame[4 * i + 1] = 255 ∧ glow.frame[4 * i + 2] = 0 ∧
      glow.frame[4 * i + 3] = opacity glow[i] := by
  have hplace : (4 * i + 3) / 4 = i := by omega
  simp [frame, Nat.add_mod, hplace]

end Phosphor

namespace Frame

def fresh : Frame := Vector.replicate 8192 0

end Frame

end Chip8
