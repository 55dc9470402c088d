import Chip8.Proofs.Guarded.Basic
import Chip8.Proofs.Memory
import Chip8.Proofs.Sprite

/-!
# Guarded loops

A loop that goes one element at a time is followed by an invariant, which a round carries
from one number of elements to the next (`foldlM_range`). Each of the loops here ends,
with no check failing, in what the machine does at one stroke: turning over the pixels
of a row and the rows of a sprite is an exclusive or, copying registers or bytes is
storing a list, and going over the pixels of a frame remakes all of it. In the last of
these a vector is already new below some place and still old from there on (`upTo`), and
a round only moves the place.

Where bytes are looked up or put behind the index, the index has to name a byte of
memory, so that no address needs more than sixteen bits. A sprite is drawn all the same
from any index if addresses run round (`draw?_around`).
-/

namespace Chip8

namespace Guarded

/-- What every round of a loop carries on holds at its end. -/
theorem foldlM_range {σ : Type} {f : σ → Nat → Option σ} {P : Nat → σ → Prop} {s : σ} {n : Nat}
    (hs : P 0 s) (hround : ∀ k t, k < n → P k t → ∃ u, f t k = some u ∧ P (k + 1) u) :
    ∃ t, (List.range n).foldlM f s = some t ∧ P n t := by
  induction n with
  | zero => exact ⟨s, rfl, hs⟩
  | succ n ih =>
      obtain ⟨t, ht, hp⟩ := ih fun k t hk => hround k t (by omega)
      obtain ⟨u, hu, hq⟩ := hround n t (by omega) hp
      refine ⟨u, ?_, hq⟩
      rw [List.range_succ, List.foldlM_append, ht]
      simp [hu]

/-- A loop whose rounds are known one by one. -/
theorem foldlM_range_eq_some {σ : Type} {f : σ → Nat → Option σ} {n : Nat} (g : Nat → σ)
    (hround : ∀ k < n, f (g k) k = some (g (k + 1))) :
    (List.range n).foldlM f (g 0) = some (g n) := by
  obtain ⟨t, ht, rfl⟩ := foldlM_range (f := f) (P := fun k t => t = g k) (n := n) rfl
    fun k t hk hp => ⟨g (k + 1), hp ▸ hround k hk, rfl⟩
  exact ht

theorem sum?_eq_some {a b : Nat} (h : a + b < 0x10000) : sum? a b = some (a + b) := if_pos h

theorem difference?_eq_some {a b : Nat} (h : b ≤ a) : difference? a b = some (a - b) := if_pos h

theorem put?_eq_some {α : Type} {n k : Nat} (v : Vector α n) (h : k < n) (a : α) :
    put? v k a = some (v.set k a) := dif_pos h

section UpTo

variable {α : Type} {n k : Nat}

/-- What is new below the place `k` and old from there on. -/
def upTo (old new : Vector α n) (k : Nat) : Vector α n :=
  .ofFn fun place => if place.val < k then new[place] else old[place]

theorem getElem_upTo (old new : Vector α n) {i : Nat} (hi : i < n) :
    (upTo old new k)[i] = if i < k then new[i] else old[i] :=
  Vector.getElem_ofFn _

theorem upTo_zero (old new : Vector α n) : upTo old new 0 = old := by
  apply Vector.ext
  intro i hi
  rw [getElem_upTo, if_neg (Nat.not_lt_zero i)]

theorem upTo_size (old new : Vector α n) : upTo old new n = new := by
  apply Vector.ext
  intro i hi
  rw [getElem_upTo, if_pos hi]

theorem getElem_upTo_self (old new : Vector α n) (h : k < n) : (upTo old new k)[k] = old[k] := by
  rw [getElem_upTo, if_neg (Nat.lt_irrefl k)]

theorem getElem_upTo_succ (old new : Vector α n) (h : k < n) :
    (upTo old new (k + 1))[k] = new[k] := by
  rw [getElem_upTo, if_pos (Nat.lt_succ_self k)]

theorem set_upTo (old new : Vector α n) (h : k < n) :
    (upTo old new k).set k new[k] = upTo old new (k + 1) := by
  apply Vector.ext
  intro i hi
  rw [Vector.getElem_set]
  by_cases hik : k = i
  · subst hik
    rw [if_pos rfl, getElem_upTo_succ]
  · have hiff : i < k + 1 ↔ i < k := by omega
    rw [if_neg hik, getElem_upTo, getElem_upTo]
    simp only [hiff]

theorem put?_upTo (old new : Vector α n) (h : k < n) {a : α} (ha : new[k] = a) :
    put? (upTo old new k) k a = some (upTo old new (k + 1)) := by
  rw [put?_eq_some _ h, ← ha, set_upTo]

end UpTo

section Row

variable {line : Row} {x : Nat} {b : UInt8}

/-- The pixels that the first `k` bits of a byte turn over. -/
def shown (x : Nat) (b : UInt8) (k c : Nat) : Bool :=
  decide (x ≤ c ∧ c < x + k) && b.toBitVec.getMsbD (c - x)

theorem shown_succ (k c : Nat) :
    shown x b (k + 1) c = if c = x + k then b.toBitVec.getMsbD k else shown x b k c := by
  unfold shown
  split
  · rename_i hc
    subst hc
    simp
  · rename_i hc
    have hiff : x ≤ c ∧ c < x + (k + 1) ↔ x ≤ c ∧ c < x + k := by omega
    rw [decide_eq_decide.2 hiff]

theorem shown_next (k : Nat) : shown x b k (x + k) = false := by
  simp [shown]

/-- All the bits for which there are columns make up a stamped row. -/
theorem shown_columns {c : Nat} (hc : c < 64) :
    shown x b (min 8 (64 - x)) c = (Picture.stamp x b).getMsbD c := by
  rw [Picture.getMsbD_stamp x c b hc]
  unfold shown
  by_cases hx : c - x < 8
  · have hiff : x ≤ c ∧ c < x + min 8 (64 - x) ↔ x ≤ c := by omega
    rw [decide_eq_decide.2 hiff]
  · rw [BitVec.getMsbD_of_ge _ _ (by omega)]
    simp

/-- A row in which the first `k` bits of a byte are turned over, and whether that put out
a pixel. -/
structure Turned (line : Row) (x : Nat) (b : UInt8) (k : Nat) (t : Row × Bool) : Prop where
  row : ∀ c < 64, t.1.getMsbD c = (line.getMsbD c ^^ shown x b k c)
  erased : t.2 = true ↔ ∃ c < 64, line.getMsbD c = true ∧ shown x b k c = true

theorem Turned.zero : Turned line x b 0 (line, false) := by
  have hnone : ∀ c, shown x b 0 c = false := by
    intro c
    simp only [shown, Bool.and_eq_false_imp, decide_eq_true_eq]
    omega
  constructor
  · simp [hnone]
  · simp [hnone]

/-- A bit that is not set shows nothing. -/
theorem Turned.keep {t : Row × Bool} {k : Nat} (h : Turned line x b k t)
    (hb : b.toBitVec.getMsbD k = false) : Turned line x b (k + 1) t := by
  have hsame : shown x b (k + 1) = shown x b k := by
    funext c
    rw [shown_succ, hb]
    split
    · rename_i hc
      rw [hc, shown_next]
    · rfl
  obtain ⟨hrow, herased⟩ := h
  rw [← hsame] at hrow herased
  exact ⟨hrow, herased⟩

theorem Turned.flip {t : Row × Bool} {k : Nat} (h : Turned line x b k t) (hk : x + k < 64)
    (hb : b.toBitVec.getMsbD k = true) :
    Turned line x b (k + 1)
      (t.1 ^^^ BitVec.twoPow 64 (63 - (x + k)), t.2 || t.1.getMsbD (x + k)) := by
  have hlit : t.1.getMsbD (x + k) = line.getMsbD (x + k) := by
    rw [h.row _ hk, shown_next, Bool.xor_false]
  constructor
  · intro c hc
    have hcolumn : (BitVec.twoPow 64 (63 - (x + k))).getMsbD c = decide (c = x + k) := by
      rw [BitVec.getMsbD_twoPow]
      have hiff : c = 64 - (63 - (x + k)) - 1 ↔ c = x + k := by omega
      have hlt : 63 - (x + k) < 64 := by omega
      simp [hiff, hlt]
    rw [BitVec.getMsbD_xor, h.row c hc, hcolumn, shown_succ, hb]
    by_cases hx : c = x + k
    · subst hx
      simp [shown_next]
    · simp [hx]
  · simp only [Bool.or_eq_true, hlit, h.erased]
    constructor
    · rintro (⟨c, hc, hline, hshown⟩ | hline)
      · have hnext : shown x b (k + 1) c = true := by
          rw [shown_succ, hb]
          split
          · rfl
          · exact hshown
        exact ⟨c, hc, hline, hnext⟩
      · exact ⟨x + k, hk, hline, by rw [shown_succ, if_pos rfl, hb]⟩
    · rintro ⟨c, hc, hline, hshown⟩
      by_cases hx : c = x + k
      · exact .inr (hx ▸ hline)
      · rw [shown_succ, if_neg hx] at hshown
        exact .inl ⟨c, hc, hline, hshown⟩

theorem Turned.flipBit? {t : Row × Bool} {k : Nat} (h : Turned line x b k t)
    (hk : x + k < 64) : ∃ u, flipBit? x b t k = some u ∧ Turned line x b (k + 1) u := by
  cases hb : b.toBitVec.getMsbD k with
  | false => exact ⟨t, by simp [Guarded.flipBit?, hb], h.keep hb⟩
  | true =>
      have hcolumn : sum? x k = some (x + k) := sum?_eq_some (by omega)
      have hflip := h.flip hk hb
      have hround : Guarded.flipBit? x b t k = some (t.1 ^^^ BitVec.twoPow 64 (63 - (x + k)),
          t.2 || t.1.getMsbD (x + k)) := by
        simp [Guarded.flipBit?, flip?, hb, hcolumn, hk]
      exact ⟨_, hround, hflip⟩

/-- Showing a byte in a row is an exclusive or with the stamped row. -/
theorem flipRow?_eq (line : Row) (b : UInt8) (hx : x < 64) :
    flipRow? line x b = some (line ^^^ Picture.stamp x b, line &&& Picture.stamp x b != 0) := by
  obtain ⟨⟨row, erased⟩, ht, hrow, herased⟩ := foldlM_range (f := flipBit? x b)
    (n := min 8 (64 - x)) (.zero : Turned line x b 0 (line, false))
    fun k t hk h => h.flipBit? (by omega)
  have hline : row = line ^^^ Picture.stamp x b := by
    apply BitVec.eq_of_getMsbD_eq
    intro c hc
    rw [hrow c hc, shown_columns hc, BitVec.getMsbD_xor]
  have hhit : erased = (line &&& Picture.stamp x b != 0) := by
    rw [Bool.eq_iff_iff, herased, bne_iff_ne, Picture.row_ne_zero_iff]
    constructor
    · rintro ⟨c, hc, hlit, hshown⟩
      rw [shown_columns hc] at hshown
      exact ⟨c, hc, by simp [hlit, hshown]⟩
    · rintro ⟨c, hc, hboth⟩
      rw [BitVec.getMsbD_and, Bool.and_eq_true] at hboth
      exact ⟨c, hc, hboth.1, by rw [shown_columns hc, hboth.2]⟩
  rw [flipRow?, difference?_eq_some (by omega)]
  simp only [Option.bind_eq_bind, Option.bind_some, ht, hline, hhit]

end Row

variable {m : Machine}

theorem byteAt?_eq {k : Nat} (h : m.index.toNat + k < 0x10000) :
    byteAt? m k = some (m.memory.read (m.index.toNat + k)) := by
  simp [byteAt?, sum?_eq_some h, Memory.read, Memory.size]

/-- Sixteen bits run round at a multiple of the size of memory. -/
theorem byteAround?_eq (m : Machine) (k : Nat) :
    byteAround? m k = some (m.memory.read (m.index.toNat + k)) := by
  have hplace : (m.index + UInt16.ofNat k).toNat % 4096 = (m.index.toNat + k) % 4096 := by
    rw [UInt16.toNat_add, UInt16.toNat_ofNat']
    omega
  rw [byteAround?, Memory.size, hplace]
  exact Vector.getElem?_eq_getElem (Nat.mod_lt _ (by decide))

theorem putByteAt?_eq {k : Nat} (h : m.index.toNat + k < 0x10000) (b : UInt8) :
    putByteAt? m k b = some { m with memory := m.memory.write (m.index.toNat + k) b } := by
  have hput := put?_eq_some m.memory (Nat.mod_lt (m.index.toNat + k) (by decide : 0 < 4096)) b
  simp only [putByteAt?, sum?_eq_some h, Memory.size, hput, Option.bind_eq_bind, Option.bind_some]
  rfl

@[simp] theorem register?_eq (m : Machine) (x : Nibble) :
    register? m x.val = some (m.register x) := by
  simp [register?, Machine.register, Table.entry]

@[simp] theorem putRegister?_eq (m : Machine) (x : Nibble) (v : UInt8) :
    putRegister? m x.val v = some (m.setRegister x v) := by
  simp [putRegister?, put?_eq_some m.registers x.isLt, Machine.setRegister, Table.put]

theorem putRegister?_flag (m : Machine) (v : UInt8) :
    putRegister? m 15 v = some (m.setRegister Machine.flagRegister v) :=
  putRegister?_eq m Machine.flagRegister v

/-- The picture after the first `k` rows of a sprite were laid over it, and whether they
turned off a pixel. -/
def drawn (m : Machine) (x y : UInt8) (k : Nat) : Picture × Bool :=
  (m.picture.xor (.sprite x y (m.memory.slice m.index.toNat k)),
    m.picture.overlaps (.sprite x y (m.memory.slice m.index.toNat k)))

theorem drawn_zero (m : Machine) (x y : UInt8) : drawn m x y 0 = (m.picture, false) := by
  have hblank : Picture.sprite x y (m.memory.slice m.index.toNat 0) = .blank :=
    Picture.sprite_nil x y
  rw [drawn, hblank, Picture.xor_blank, Picture.overlaps_blank]

theorem drawRow?_drawn {byte? : Nat → Option UInt8} (x y : UInt8) {k : Nat} (hk : k < 16)
    (hbyte : byte? k = some (m.memory.read (m.index.toNat + k))) :
    drawRow? byte? (x.toNat % 64) (y.toNat % 32) (drawn m x y k) k =
      some (drawn m x y (k + 1)) := by
  obtain ⟨r, hrow⟩ : ∃ r, r = (y.toNat % 32 + k) % 32 := ⟨_, rfl⟩
  have hr : r < 32 := by omega
  have hnext : (r + (32 - y.toNat % 32)) % 32 = k := by omega
  -- A sprite has fewer rows than the screen, so this one has not been drawn on yet.
  have hempty := Picture.getElem_sprite_slice_next (x := x) hr hnext m.memory m.index.toNat
  have hline : (drawn m x y k).1[r]? = some m.picture[r] := by
    rw [drawn, Vector.getElem?_eq_getElem hr, Picture.getElem_xor hr, hempty]
    simp
  have hflip := flipRow?_eq m.picture[r] (m.memory.read (m.index.toNat + k))
    (Nat.mod_lt x.toNat (by decide : 0 < 64))
  have hput := put?_eq_some (drawn m x y k).1 hr (m.picture[r] ^^^
    Picture.stamp (x.toNat % 64) (m.memory.read (m.index.toNat + k)))
  have hxor := Picture.xor_set (p := m.picture)
    (q := .sprite x y (m.memory.slice m.index.toNat k))
    (Picture.stamp (x.toNat % 64) (m.memory.read (m.index.toNat + k))) hr
  have hoverlaps := Picture.overlaps_set (p := m.picture)
    (Picture.stamp (x.toNat % 64) (m.memory.read (m.index.toNat + k))) hr hempty
  rw [drawRow?, ← hrow, hbyte, hline]
  simp only [Option.bind_eq_bind, Option.bind_some, hflip, hput]
  simp only [drawn, Picture.sprite_slice_succ hr hnext, hxor, hoverlaps]

/-- Drawing rows one by one lays the sprite of these rows over the picture, if the bytes
behind the index are found. -/
theorem drawRows?_eq {byte? : Nat → Option UInt8} (x y : UInt8) {rows : Nat} (hrows : rows ≤ 16)
    (hbytes : ∀ k < rows, byte? k = some (m.memory.read (m.index.toNat + k))) :
    drawRows? byte? m.picture (x.toNat % 64) (y.toNat % 32) rows = some (drawn m x y rows) := by
  rw [drawRows?, ← drawn_zero m x y]
  exact foldlM_range_eq_some (drawn m x y) fun k hk =>
    drawRow?_drawn x y (by omega) (hbytes k hk)

theorem draw?_eq {byte? : Nat → Option UInt8} (x y rows : Nibble)
    (hbytes : ∀ k < rows.val, byte? k = some (m.memory.read (m.index.toNat + k))) :
    draw? byte? m x y rows = some (m.draw (m.sprite x y rows)) := by
  have hrows := drawRows?_eq (m.register x) (m.register y) (Nat.le_of_lt rows.isLt) hbytes
  simp only [draw?, register?_eq, hrows, putRegister?_flag, Option.bind_eq_bind, Option.bind_some]
  rfl

/-- If addresses run round, the index may be anything. -/
theorem draw?_around (m : Machine) (x y rows : Nibble) :
    draw? (byteAround? m) m x y rows = some (m.draw (m.sprite x y rows)) :=
  draw?_eq x y rows fun k _ => byteAround?_eq m k

/-- The machine with its first `k` registers loaded from the index on. -/
def loaded (m : Machine) (k : Nat) : Machine :=
  { m with
    registers := .ofFn fun r =>
      if r.val < k then m.memory.read (m.index.toNat + r.val) else m.register r }

theorem memory_loaded (m : Machine) (k : Nat) : (loaded m k).memory = m.memory := by
  simp only [loaded]

theorem index_loaded (m : Machine) (k : Nat) : (loaded m k).index = m.index := by
  simp only [loaded]

theorem loaded_zero (m : Machine) : loaded m 0 = m := by
  have hregisters : Table.ofFn m.register = m.registers := by
    apply Table.ext_entry
    intro r
    rw [Table.entry_ofFn, Machine.register]
  simp only [loaded, Nat.not_lt_zero, if_false]
  rw [hregisters]

section Loop

variable (hi : m.index.toNat ≤ 0x0FFF)
include hi

/-- One more byte is put behind those that were stored from the index on. -/
theorem putByteAt?_storeAtIndex (bytes : List UInt8) (hb : bytes.length ≤ 16) (b : UInt8) :
    putByteAt? (m.storeAtIndex bytes) bytes.length b = some (m.storeAtIndex (bytes ++ [b])) := by
  rw [putByteAt?_eq (by simp only [Machine.storeAtIndex]; omega)]
  simp only [Machine.storeAtIndex, Memory.store_append, Memory.store_cons, Memory.store_nil]

theorem storeRegister?_stored {k : Nat} (hk : k < 16) :
    storeRegister? (m.storeAtIndex (m.registers.toList.take k)) k =
      some (m.storeAtIndex (m.registers.toList.take (k + 1))) := by
  have hregister : register? (m.storeAtIndex (m.registers.toList.take k)) k =
      some m.registers[k] := Vector.getElem?_eq_getElem _
  have hlength : (m.registers.toList.take k).length = k := by
    simp only [List.length_take, Vector.length_toList]
    omega
  have hput := putByteAt?_storeAtIndex hi (m.registers.toList.take k) (by omega)
    m.registers[k]
  have hlast : m.registers.toList.take (k + 1) =
      m.registers.toList.take k ++ [m.registers[k]] :=
    List.take_succ_eq_append_getElem (by simp only [Vector.length_toList]; omega)
  rw [hlength] at hput
  rw [storeRegister?, hregister, Option.bind_eq_bind, Option.bind_some, hput, hlast]

theorem storeRegisters?_eq (count : Nat) (hc : count ≤ 16) :
    storeRegisters? m count = some (m.storeAtIndex (m.registers.toList.take count)) := by
  have hloop := foldlM_range_eq_some (f := storeRegister?) (n := count)
    (fun k => m.storeAtIndex (m.registers.toList.take k)) fun k hk =>
      storeRegister?_stored hi (by omega)
  exact hloop

theorem loadRegister?_loaded {k : Nat} (hk : k < 16) :
    loadRegister? (loaded m k) k = some (loaded m (k + 1)) := by
  have hbyte : byteAt? (loaded m k) k = some (m.memory.read (m.index.toNat + k)) := by
    rw [byteAt?_eq (by rw [index_loaded]; omega), memory_loaded, index_loaded]
  have hput := putRegister?_eq (loaded m k) ⟨k, hk⟩ (m.memory.read (m.index.toNat + k))
  rw [loadRegister?, hbyte, Option.bind_eq_bind, Option.bind_some, hput]
  simp only [loaded, Machine.setRegister, Option.some.injEq, Machine.mk.injEq, true_and, and_true]
  apply Table.ext_entry
  intro r
  rw [Table.entry_put, Table.entry_ofFn, Table.entry_ofFn]
  by_cases hr : (⟨k, hk⟩ : Nibble) = r
  · subst hr
    simp
  · have hne : k ≠ r.val := fun h => hr (Fin.ext h)
    have hiff : r.val < k + 1 ↔ r.val < k := by omega
    simp only [hr, if_false, hiff]

theorem loadRegisters?_eq (x : Nibble) :
    loadRegisters? m (x.val + 1) = some (m.loadFromIndex x) := by
  have hloop := foldlM_range_eq_some (f := loadRegister?) (n := x.val + 1) (loaded m) fun k hk =>
    loadRegister?_loaded hi (by omega)
  have hlast : loaded m (x.val + 1) = m.loadFromIndex x := by
    simp only [loaded, Machine.loadFromIndex, Fin.le_def, Nat.lt_succ_iff]
  rw [loaded_zero, hlast] at hloop
  exact hloop

end Loop

/-- Copying bytes one by one stores them all, if there is room for them. -/
theorem copy?_eq (memory : Memory) {a : Nat} {bytes : List UInt8}
    (h : a + bytes.length ≤ 4096) : copy? memory a bytes = some (memory.store a bytes) := by
  induction bytes generalizing memory a with
  | nil => rfl
  | cons b bytes ih =>
      rw [List.length_cons] at h
      have ha : a < 4096 := by omega
      have hwrite : memory.set a b = memory.write a b := by
        simp only [Memory.write, Nat.mod_eq_of_lt ha]
      rw [copy?, put?_eq_some memory ha, sum?_eq_some (by omega)]
      simp only [Option.bind_eq_bind, Option.bind_some]
      rw [ih _ (by omega), Memory.store_cons, hwrite]

section Rows

variable {x y : Nat} (glow : Phosphor) (hx : x < 64) (hy : y < 32)
include hx hy

theorem pixel?_rows : pixel? (rows glow) x y = some glow[64 * y + x] := by
  simp [pixel?, rows, hx, hy]

theorem putPixel?_rows (b : Float32) :
    putPixel? (rows glow) x y b = some (rows (glow.set (64 * y + x) b)) := by
  have hrow : (rows glow)[y]? = some (rows glow)[y] := Vector.getElem?_eq_getElem hy
  rw [putPixel?, hrow, Option.bind_eq_bind, Option.bind_some, put?_eq_some _ hx,
    Option.bind_some, put?_eq_some _ hy, Option.some.injEq]
  apply Vector.ext
  intro j hj
  apply Vector.ext
  intro i hi
  rw [Vector.getElem_set]
  by_cases hjy : y = j
  · subst hjy
    by_cases hix : x = i
    · subst hix
      simp [rows]
    · simp [rows, Vector.getElem_set, hix]
  · have hne : 64 * y + x ≠ 64 * j + i := by omega
    simp [rows, Vector.getElem_set, hjy, hne]

end Rows

theorem shadePixel?_upTo (glow : Phosphor) (old : Frame) (picture : Picture) (dt : Float32)
    {i : Nat} (hi : i < 2048) :
    shadePixel? picture dt (rows (upTo glow (glow.shade picture dt) i),
        upTo old (glow.shade picture dt).frame (4 * i)) i =
      some (rows (upTo glow (glow.shade picture dt) (i + 1)),
        upTo old (glow.shade picture dt).frame (4 * (i + 1))) := by
  have hx : i % 64 < 64 := by omega
  have hy : i / 64 < 32 := by omega
  have hplace : 64 * (i / 64) + i % 64 = i := by omega
  have hlit : picture.lit? (i % 64) (i / 64) = some (Phosphor.litAt picture ⟨i, hi⟩) :=
    dif_pos ⟨hx, hy⟩
  have hold := pixel?_rows (upTo glow (glow.shade picture dt) i) hx hy
  have hput := putPixel?_rows (upTo glow (glow.shade picture dt) i) hx hy (glow.shade picture dt)[i]
  have hnew := pixel?_rows (upTo glow (glow.shade picture dt) (i + 1)) hx hy
  have hfade := Phosphor.getElem_shade glow picture dt hi
  obtain ⟨hred, hgreen, hblue, hopacity⟩ := Phosphor.getElem_frame (glow.shade picture dt) hi
  simp only [hplace, getElem_upTo_self, getElem_upTo_succ, set_upTo] at hold hput hnew
  simp only [shadePixel?, hlit, hold, ← hfade, hput, hnew, Option.bind_eq_bind, Option.bind_some,
    put?_upTo _ _ _ hred, put?_upTo _ _ _ hgreen, put?_upTo _ _ _ hblue, put?_upTo _ _ _ hopacity,
    Nat.mul_succ]

theorem shade?_eq (glow : Phosphor) (old : Frame) (picture : Picture) (dt : Float32) :
    shade? picture dt (rows glow) old =
      some (rows (glow.shade picture dt), (glow.shade picture dt).frame) := by
  have hloop := foldlM_range_eq_some (f := shadePixel? picture dt) (n := 2048)
    (fun i => (rows (upTo glow (glow.shade picture dt) i),
      upTo old (glow.shade picture dt).frame (4 * i)))
    fun i hi => shadePixel?_upTo glow old picture dt hi
  rw [upTo_zero, upTo_zero, upTo_size, upTo_size] at hloop
  exact hloop

end Guarded

end Chip8
