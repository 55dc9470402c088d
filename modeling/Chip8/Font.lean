import Chip8.Nibble

/-!
# The font

Every machine holds sixteen glyphs, one for each hexadecimal digit. A glyph has
five rows of four columns; a row is a byte whose high half holds the columns, the
leftmost one in the top bit. The glyphs stand one after the other from the address
`Font.base` on.
-/

namespace Chip8.Font

/-- The rows of all glyphs, digit by digit. -/
def bytes : List UInt8 :=
  [0xF0, 0x90, 0x90, 0x90, 0xF0, -- 0
   0x20, 0x60, 0x20, 0x20, 0x70, -- 1
   0xF0, 0x10, 0xF0, 0x80, 0xF0, -- 2
   0xF0, 0x10, 0xF0, 0x10, 0xF0, -- 3
   0x90, 0x90, 0xF0, 0x10, 0x10, -- 4
   0xF0, 0x80, 0xF0, 0x10, 0xF0, -- 5
   0xF0, 0x80, 0xF0, 0x90, 0xF0, -- 6
   0xF0, 0x10, 0x20, 0x40, 0x40, -- 7
   0xF0, 0x90, 0xF0, 0x90, 0xF0, -- 8
   0xF0, 0x90, 0xF0, 0x10, 0xF0, -- 9
   0xF0, 0x90, 0xF0, 0x90, 0x90, -- A
   0xE0, 0x90, 0xE0, 0x90, 0xE0, -- B
   0xF0, 0x80, 0x80, 0x80, 0xF0, -- C
   0xE0, 0x90, 0x90, 0x90, 0xE0, -- D
   0xF0, 0x80, 0xF0, 0x80, 0xF0, -- E
   0xF0, 0x80, 0xF0, 0x80, 0x80] -- F

def base : Nat := 0x50

def glyphSize : Nat := 5

/-- The rows of the glyph of the digit `d`, the top row first. -/
def glyph (d : Nibble) : List UInt8 := (bytes.drop (glyphSize * d.val)).take glyphSize

def glyphAddress (d : Nibble) : UInt16 := UInt16.ofNat (base + glyphSize * d.val)

theorem length_bytes : bytes.length = 80 := rfl

theorem toNat_glyphAddress (d : Nibble) : (glyphAddress d).toNat = 0x50 + 5 * d.val := by
  simp only [glyphAddress, base, glyphSize, UInt16.toNat_ofNat']
  omega

end Chip8.Font
