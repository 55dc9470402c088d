/-!
# Nibbles

A nibble is a number below sixteen. It names one of the sixteen registers, one of
the sixteen keys, one hexadecimal digit, or the height of a sprite. A byte has a
low nibble (`ofByte`), and a byte below sixteen is itself a nibble (`ofByte?`).

What nibbles name is kept in a `Table`, one value for each of them.
-/

namespace Chip8

/-- A number below sixteen. -/
abbrev Nibble := Fin 16

namespace Nibble

def ofNat (n : Nat) : Nibble := Fin.ofNat 16 n

def ofByte (b : UInt8) : Nibble := ofNat b.toNat

/-- The nibble equal to the byte `b`, absent for sixteen and above. -/
def ofByte? (b : UInt8) : Option Nibble :=
  if h : b.toNat < 16 then some ⟨b.toNat, h⟩ else none

def toByte (n : Nibble) : UInt8 := UInt8.ofNat n.val

@[simp] theorem val_ofNat (n : Nat) : (ofNat n).val = n % 16 := by
  simp only [ofNat, Fin.val_ofNat]

@[simp] theorem val_ofByte (b : UInt8) : (ofByte b).val = b.toNat % 16 := by
  simp only [ofByte, val_ofNat]

@[simp] theorem toNat_toByte (n : Nibble) : n.toByte.toNat = n.val := by
  simp only [toByte, UInt8.toNat_ofNat']
  omega

@[simp] theorem ofByte_toByte (n : Nibble) : ofByte n.toByte = n := by
  apply Fin.ext
  rw [val_ofByte, toNat_toByte]
  omega

theorem ofByte?_eq_some_iff {b : UInt8} {n : Nibble} :
    ofByte? b = some n ↔ b.toNat = n.val := by
  unfold ofByte?
  split
  · simp [Fin.ext_iff]
  · simp only [reduceCtorEq, false_iff]
    omega

end Nibble

/-- One value for each nibble. -/
abbrev Table (α : Type) := Vector α 16

namespace Table

variable {α : Type}

def entry (t : Table α) (k : Nibble) : α := t[k]

def put (t : Table α) (k : Nibble) (a : α) : Table α := t.set k a

def ofFn (f : Nibble → α) : Table α := Vector.ofFn f

theorem entry_put (t : Table α) (k j : Nibble) (a : α) :
    (t.put k a).entry j = if k = j then a else t.entry j := by
  simp [entry, put, Vector.getElem_set, Fin.ext_iff]

@[simp] theorem entry_ofFn (f : Nibble → α) (k : Nibble) : (ofFn f).entry k = f k := by
  simp [entry, ofFn]

/-- A table is determined by its values. -/
theorem ext_entry {t u : Table α} (h : ∀ k, t.entry k = u.entry k) : t = u := by
  apply Vector.ext
  intro k hk
  exact h ⟨k, hk⟩

end Table

end Chip8
