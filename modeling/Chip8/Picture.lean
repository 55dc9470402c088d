/-!
# The picture

A picture has 32 rows of 64 pixels. A row is a word of 64 bits whose top bit is the
leftmost pixel. Drawing lays a sprite over a picture: a pixel of the sprite turns a
pixel of the picture over. A sprite is a picture too, so laying it over is the
exclusive or of two pictures, and it erases something exactly if the two overlap.
-/

namespace Chip8

/-- A row of pixels, the leftmost one in the top bit. -/
abbrev Row := BitVec 64

/-- The rows of the screen, the top one first. -/
abbrev Picture := Vector Row 32

namespace Picture

def width : Nat := 64

def height : Nat := 32

def blank : Picture := Vector.replicate 32 0

/-- Whether the pixel in column `x` of row `y` is on. -/
def lit (p : Picture) (x : Fin 64) (y : Fin 32) : Bool := p[y].getMsbD x.val

/-- The pixel at a position that may lie off the screen. -/
def lit? (p : Picture) (x y : Nat) : Option Bool :=
  if h : x < 64 ∧ y < 32 then some (p.lit ⟨x, h.1⟩ ⟨y, h.2⟩) else none

/-- The pixels that are on in one of two pictures but not in both. -/
def xor (p q : Picture) : Picture := Vector.zipWith (· ^^^ ·) p q

/-- The pixels that are on in both pictures. -/
def common (p q : Picture) : Picture := Vector.zipWith (· &&& ·) p q

def overlaps (p q : Picture) : Bool := p.common q != blank

/-- The row that shows the byte `b` from column `x` on. What would stand right of
the screen is dropped. -/
def stamp (x : Nat) (b : UInt8) : Row := (b.toBitVec.setWidth 64 <<< 56) >>> x

/-- The picture of a sprite. Its origin is taken modulo the size of the screen, rows
below the bottom go on at the top, and columns right of the screen are dropped. -/
def sprite (x y : UInt8) (rows : List UInt8) : Picture :=
  Vector.ofFn fun r : Fin 32 =>
    match rows[(r.val + (32 - y.toNat % 32)) % 32]? with
    | some b => stamp (x.toNat % 64) b
    | none => 0

@[simp] theorem lit_blank (x : Fin 64) (y : Fin 32) : blank.lit x y = false := by
  simp [lit, blank]

theorem lit_xor (p q : Picture) (x : Fin 64) (y : Fin 32) :
    (p.xor q).lit x y = (p.lit x y ^^ q.lit x y) := by
  simp [lit, xor]

theorem lit_common (p q : Picture) (x : Fin 64) (y : Fin 32) :
    (p.common q).lit x y = (p.lit x y && q.lit x y) := by
  simp [lit, common]

/-- A picture is determined by its pixels. -/
theorem ext_lit {p q : Picture} (h : ∀ x y, p.lit x y = q.lit x y) : p = q := by
  apply Vector.ext
  intro y hy
  apply BitVec.eq_of_getMsbD_eq
  intro x hx
  exact h ⟨x, hx⟩ ⟨y, hy⟩

theorem overlaps_eq_true_iff {p q : Picture} :
    p.overlaps q = true ↔ ∃ x y, p.lit x y = true ∧ q.lit x y = true := by
  rw [overlaps, bne_iff_ne]
  constructor
  · intro h
    by_cases hxy : ∃ x y, p.lit x y = true ∧ q.lit x y = true
    · exact hxy
    · refine absurd (ext_lit fun x y => ?_) h
      rw [lit_common, lit_blank, Bool.and_eq_false_iff]
      cases hp : p.lit x y
      · exact .inl rfl
      · exact .inr (Bool.eq_false_iff.2 fun hq => hxy ⟨x, y, hp, hq⟩)
  · rintro ⟨x, y, hp, hq⟩ h
    have := lit_common p q x y
    simp [h, hp, hq] at this

end Picture

end Chip8
