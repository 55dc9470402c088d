/-!
# Memory

Memory is a ring of 4096 bytes: an address names a byte by its remainder modulo
4096, so reading and writing never fail. `slice` reads consecutive bytes and
`store` writes them, both running round the end of memory. An instruction word
takes two bytes, the high one first.
-/

namespace Chip8

/-- An address of memory as an instruction can name it. -/
abbrev Address := Fin 4096

abbrev Memory := Vector UInt8 4096

namespace Memory

def size : Nat := 4096

def zero : Memory := Vector.replicate 4096 0

def read (m : Memory) (a : Nat) : UInt8 := m[a % 4096]

def write (m : Memory) (a : Nat) (b : UInt8) : Memory := m.set (a % 4096) b

/-- The `count` bytes from the address `a` on. -/
def slice (m : Memory) (a count : Nat) : List UInt8 :=
  (List.range count).map fun k => m.read (a + k)

/-- The memory in which the given bytes stand from the address `a` on. -/
def store : Memory → Nat → List UInt8 → Memory
  | m, _, [] => m
  | m, a, b :: bs => store (m.write a b) (a + 1) bs

@[simp] theorem read_zero (a : Nat) : zero.read a = 0 := by simp [read, zero]

theorem read_write (m : Memory) (a b : Nat) (v : UInt8) :
    (m.write a v).read b = if a % 4096 = b % 4096 then v else m.read b := by
  simp only [read, write, Vector.getElem_set]

@[simp] theorem store_nil (m : Memory) (a : Nat) : m.store a [] = m := rfl

theorem store_cons (m : Memory) (a : Nat) (b : UInt8) (bs : List UInt8) :
    m.store a (b :: bs) = (m.write a b).store (a + 1) bs := rfl

/-- After bytes were stored from the address `a` on, the address `b` holds the byte that
stands as far behind the first one as `b` is behind `a`, or what it held before. -/
theorem read_store (m : Memory) (a b : Nat) {bytes : List UInt8} (h : bytes.length ≤ 4096) :
    (m.store a bytes).read b = (bytes[(b + (4096 - a % 4096)) % 4096]?).getD (m.read b) := by
  induction bytes generalizing m a with
  | nil => simp
  | cons v vs ih =>
    rw [List.length_cons] at h
    rw [store_cons, ih _ _ (by omega), read_write]
    split
    · rw [show (b + (4096 - a % 4096)) % 4096 = 0 by omega,
        List.getElem?_eq_none (by omega : vs.length ≤ (b + (4096 - (a + 1) % 4096)) % 4096)]
      simp
    · rw [show (b + (4096 - a % 4096)) % 4096 = (b + (4096 - (a + 1) % 4096)) % 4096 + 1 by omega,
        List.getElem?_cons_succ]

@[simp] theorem length_slice (m : Memory) (a count : Nat) :
    (m.slice a count).length = count := by simp [slice]

theorem getElem_slice (m : Memory) (a count k : Nat) (h : k < (m.slice a count).length) :
    (m.slice a count)[k] = m.read (a + k) := by simp [slice]

end Memory

end Chip8
