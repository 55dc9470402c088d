import Chip8.Memory

/-!
# Bytes in memory

A memory is determined by its bytes (`Memory.ext_read`), and an address by its remainder modulo
the size of memory. Stored bytes are read back at their places, as long as there are no more of
them than memory has, and every other byte is what it was.
-/

namespace Chip8

namespace Memory

variable {m n : Memory} {a b : Nat} {bytes : List UInt8}

/-- A memory is determined by its bytes. -/
theorem ext_read (h : ∀ a, m.read a = n.read a) : m = n := by
  apply Vector.ext
  intro a ha
  have hread := h a
  simpa only [read, Nat.mod_eq_of_lt ha] using hread

theorem read_congr (h : a % size = b % size) : m.read a = m.read b := by
  rw [size] at h
  simp only [read, h]

theorem read_mod (m : Memory) (a : Nat) : m.read (a % size) = m.read a :=
  read_congr (Nat.mod_mod a size)

theorem read_add_congr (h : a % size = b % size) (k : Nat) : m.read (a + k) = m.read (b + k) :=
  read_congr (by rw [Nat.add_mod, h, ← Nat.add_mod])

/-- What was stored is read back. -/
theorem read_store_add (m : Memory) (a : Nat) {k : Nat} {v : UInt8} (hlength : bytes.length ≤ 4096)
    (hv : bytes[k]? = some v) : (m.store a bytes).read (a + k) = v := by
  obtain ⟨hk, -⟩ := List.getElem?_eq_some_iff.1 hv
  -- The way from `a` to its place, round the end of memory, is `k` again, as no two places agree.
  have hplace : (a + k + (4096 - a % 4096)) % 4096 = k := by omega
  rw [read_store _ _ _ hlength, hplace, hv, Option.getD_some]

theorem slice_store (m : Memory) (a : Nat) (hlength : bytes.length ≤ 4096) :
    (m.store a bytes).slice a bytes.length = bytes := by
  apply List.ext_getElem (length_slice _ _ _)
  intro k _ hk
  rw [getElem_slice, read_store_add m a hlength (List.getElem?_eq_getElem hk)]

theorem slice_congr {count : Nat} (h : ∀ k < count, n.read (a + k) = m.read (a + k)) :
    n.slice a count = m.slice a count :=
  List.map_congr_left fun k hk => h k (List.mem_range.1 hk)

/-- A part of consecutive bytes. -/
theorem slice_add (m : Memory) (a : Nat) {first count total : Nat} (h : first + count ≤ total) :
    m.slice (a + first) count = ((m.slice a total).drop first).take count := by
  apply List.ext_getElem
  · simp
    omega
  · intro k _ _
    rw [getElem_slice, List.getElem_take, List.getElem_drop, getElem_slice, Nat.add_assoc]

/-- Storing the bytes that are there already changes nothing. -/
theorem store_eq_self (hlength : bytes.length ≤ 4096)
    (h : ∀ k v, bytes[k]? = some v → m.read (a + k) = v) : m.store a bytes = m := by
  apply ext_read
  intro b
  rw [read_store _ _ _ hlength]
  cases hv : bytes[(b + (4096 - a % 4096)) % 4096]? with
  | none => rw [Option.getD_none]
  | some v =>
      have hplace : (a + (b + (4096 - a % 4096)) % 4096) % size = b % size := by
        rw [size]
        omega
      rw [Option.getD_some, ← h _ v hv, read_congr hplace]

/-- Storing changes no byte that is not among those stored. -/
theorem read_store_of_forall_ne (hlength : bytes.length ≤ 4096) (hb : b < size)
    (h : ∀ k < bytes.length, (a + k) % size ≠ b) : (m.store a bytes).read b = m.read b := by
  have houtside : bytes.length ≤ (b + (4096 - a % 4096)) % 4096 := by
    refine Nat.not_lt.1 fun hinside => h _ hinside ?_
    simp only [size] at hb ⊢
    omega
  rw [read_store _ _ _ hlength, List.getElem?_eq_none houtside, Option.getD_none]

theorem store_append (m : Memory) (a : Nat) (first rest : List UInt8) :
    m.store a (first ++ rest) = (m.store a first).store (a + first.length) rest := by
  induction first generalizing m a with
  | nil => simp
  | cons b first ih =>
      rw [List.cons_append, store_cons, store_cons, ih, List.length_cons]
      congr 1
      omega

/-- Storing as many zeros as there are bytes leaves nothing else. -/
theorem store_replicate_zero (m : Memory) : m.store 0 (List.replicate size 0) = zero := by
  have hlength : (List.replicate size (0 : UInt8)).length ≤ 4096 :=
    Nat.le_of_eq List.length_replicate
  apply ext_read
  intro a
  have hplace : (a + (4096 - 0 % 4096)) % 4096 < size := Nat.mod_lt _ (by decide)
  rw [read_store _ _ _ hlength, List.getElem?_replicate, if_pos hplace, read_zero,
    Option.getD_some]

end Memory

end Chip8
