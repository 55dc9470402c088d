import Chip8.Memory
import Chip8.Picture

/-!
# Sprites row by row

A stamped row shows the bits of its byte from one column on, and a sprite that is read
from memory gains one row with each byte. So laying a sprite over a picture, which is
one exclusive or, can be done a row at a time.
-/

namespace Chip8.Picture

variable {p q : Picture} {x y : UInt8}

theorem row_ne_zero_iff {line : Row} : line ≠ 0 ↔ ∃ c, c < 64 ∧ line.getMsbD c = true := by
  constructor
  · intro h
    by_cases hc : ∃ c, c < 64 ∧ line.getMsbD c = true
    · exact hc
    · refine absurd (BitVec.eq_of_getMsbD_eq fun c hlt => ?_) h
      rw [Bool.eq_false_iff.2 fun hlit => hc ⟨c, hlt, hlit⟩]
      simp
  · rintro ⟨c, -, hlit⟩ rfl
    simp at hlit

theorem getMsbD_stamp (x c : Nat) (b : UInt8) (hc : c < 64) :
    (stamp x b).getMsbD c = (decide (x ≤ c) && b.toBitVec.getMsbD (c - x)) := by
  by_cases hx : x ≤ c
  · have hlt : ¬ c < x := by omega
    simp [stamp, BitVec.getMsbD_ushiftRight, BitVec.getMsbD_shiftLeft, BitVec.getMsbD_setWidth,
      hx, hlt, hc]
  · have hlt : c < x := by omega
    simp [stamp, BitVec.getMsbD_ushiftRight, hx, hlt]

theorem getElem_xor {r : Nat} (hr : r < 32) : (p.xor q)[r] = p[r] ^^^ q[r] := by
  simp [xor]

/-- Two pictures overlap if they do so in some row. -/
theorem overlaps_eq_true_iff_row :
    p.overlaps q = true ↔ ∃ r, ∃ hr : r < 32, p[r] &&& q[r] ≠ 0 := by
  have hcommon : ∀ r, (hr : r < 32) → (p.common q)[r] = p[r] &&& q[r] := by
    intro r hr
    simp [common]
  rw [overlaps, bne_iff_ne]
  constructor
  · intro h
    by_cases hr : ∃ r, ∃ hr : r < 32, p[r] &&& q[r] ≠ 0
    · exact hr
    · refine absurd (Vector.ext fun r hlt => ?_) h
      rw [hcommon r hlt, Classical.not_not.1 fun hne => hr ⟨r, hlt, hne⟩]
      simp [blank]
  · rintro ⟨r, hr, hne⟩ h
    refine hne ?_
    rw [← hcommon r hr, h]
    simp [blank]

theorem xor_blank (p : Picture) : p.xor blank = p := by
  apply ext_lit
  intro c r
  rw [lit_xor, lit_blank, Bool.xor_false]

theorem overlaps_blank (p : Picture) : p.overlaps blank = false := by
  rw [Bool.eq_false_iff, ne_eq, overlaps_eq_true_iff]
  simp

theorem sprite_nil (x y : UInt8) : sprite x y [] = blank := by
  apply Vector.ext
  intro r hr
  simp [sprite, blank]

/-- A pixel of a sprite is on where a row of it shows one: rows that would stand below the bottom
go on at the top, the top bit is the leftmost column, and columns right of the screen are none. -/
theorem lit_sprite_eq_true_iff {rows : List UInt8} (hrows : rows.length ≤ 32) {c : Fin 64}
    {r : Fin 32} :
    (sprite x y rows).lit c r = true ↔
      ∃ row column b, rows[row]? = some b ∧ b.toBitVec.getMsbD column = true ∧
        c.val = x.toNat % 64 + column ∧ r.val = (y.toNat % 32 + row) % 32 := by
  simp only [lit, sprite, Vector.getElem_ofFn, Fin.getElem_fin]
  constructor
  · intro h
    split at h
    · rename_i b hb
      rw [getMsbD_stamp _ _ _ c.isLt, Bool.and_eq_true, decide_eq_true_eq] at h
      exact ⟨_, c.val - x.toNat % 64, b, hb, h.2, by omega, by omega⟩
    · simp at h
  · rintro ⟨row, column, b, hb, hbit, hc, hr⟩
    obtain ⟨hlt, -⟩ := List.getElem?_eq_some_iff.1 hb
    have hrow : (r.val + (32 - y.toNat % 32)) % 32 = row := by omega
    rw [hrow, hb, getMsbD_stamp _ _ _ c.isLt, hc, Nat.add_sub_cancel_left, hbit]
    simp

/-- The row `r` of a sprite that was read from memory: the byte that stands as far from the
first one as `r` is below the origin, if so many bytes were read. -/
theorem getElem_sprite_slice (m : Memory) (a count : Nat) {r : Nat} (hr : r < 32) :
    (sprite x y (m.slice a count))[r] =
      if (r + (32 - y.toNat % 32)) % 32 < count then
        stamp (x.toNat % 64) (m.read (a + (r + (32 - y.toNat % 32)) % 32))
      else 0 := by
  simp only [sprite, Vector.getElem_ofFn]
  split
  · rename_i b hb
    obtain ⟨hlt, rfl⟩ := List.getElem?_eq_some_iff.1 hb
    rw [Memory.length_slice] at hlt
    rw [if_pos hlt, Memory.getElem_slice]
  · rename_i hb
    rw [List.getElem?_eq_none_iff, Memory.length_slice] at hb
    rw [if_neg (by omega)]

section Next

variable {count r : Nat} (hr : r < 32) (hnext : (r + (32 - y.toNat % 32)) % 32 = count)
include hnext

/-- The row that is next in a sprite is empty until its byte is read. -/
theorem getElem_sprite_slice_next (m : Memory) (a : Nat) :
    (sprite x y (m.slice a count))[r] = 0 := by
  rw [getElem_sprite_slice m a count hr, hnext, if_neg (Nat.lt_irrefl count)]

theorem sprite_slice_succ (m : Memory) (a : Nat) :
    sprite x y (m.slice a (count + 1)) =
      (sprite x y (m.slice a count)).set r (stamp (x.toNat % 64) (m.read (a + count))) := by
  apply Vector.ext
  intro k hk
  rw [getElem_sprite_slice m a (count + 1) hk, Vector.getElem_set,
    getElem_sprite_slice m a count hk]
  by_cases hrk : r = k
  · subst hrk
    simp [hnext]
  · have hne : (k + (32 - y.toNat % 32)) % 32 ≠ count := by omega
    have hiff : (k + (32 - y.toNat % 32)) % 32 < count + 1 ↔
        (k + (32 - y.toNat % 32)) % 32 < count := by
      omega
    simp only [hrk, if_false, hiff]

end Next

variable {r : Nat}

theorem xor_set (line : Row) (hr : r < 32) :
    p.xor (q.set r line) = (p.xor q).set r (p[r] ^^^ line) := by
  apply Vector.ext
  intro k hk
  rw [getElem_xor hk, Vector.getElem_set, Vector.getElem_set, getElem_xor hk]
  by_cases hrk : r = k
  · subst hrk
    simp
  · simp [hrk]

/-- A row that was empty adds what it shares with the picture itself. -/
theorem overlaps_set (line : Row) (hr : r < 32) (hq : q[r] = 0) :
    p.overlaps (q.set r line) = (p.overlaps q || p[r] &&& line != 0) := by
  rw [Bool.eq_iff_iff, Bool.or_eq_true, bne_iff_ne, overlaps_eq_true_iff_row,
    overlaps_eq_true_iff_row]
  constructor
  · rintro ⟨k, hk, hne⟩
    by_cases hrk : r = k
    · subst hrk
      rw [Vector.getElem_set_self] at hne
      exact .inr hne
    · rw [Vector.getElem_set_ne _ _ hrk] at hne
      exact .inl ⟨k, hk, hne⟩
  · rintro (⟨k, hk, hne⟩ | hne)
    · have hrk : r ≠ k := by
        rintro rfl
        simp [hq] at hne
      exact ⟨k, hk, by rwa [Vector.getElem_set_ne _ _ hrk]⟩
    · exact ⟨r, hr, by rwa [Vector.getElem_set_self]⟩

end Chip8.Picture
