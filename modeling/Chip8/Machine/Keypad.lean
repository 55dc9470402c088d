import Chip8.Nibble

/-!
# The keypad

The keypad has sixteen keys, named by nibbles. Of several pressed keys the lowest
one counts.
-/

namespace Chip8

abbrev Keypad := Table Bool

namespace Keypad

def released : Keypad := .ofFn fun _ => false

def turn (keys : Keypad) (k : Nibble) (pressed : Bool) : Keypad := keys.put k pressed

/-- The pressed keys in ascending order. -/
def pressed (keys : Keypad) : List Nibble := (List.finRange 16).filter fun k => keys.entry k

/-- The lowest pressed key. -/
def lowest? (keys : Keypad) : Option Nibble := keys.pressed.head?

@[simp] theorem mem_pressed {keys : Keypad} {k : Nibble} :
    k ∈ keys.pressed ↔ keys.entry k = true := by
  simp [pressed, List.mem_finRange]

theorem lowest?_eq_none_iff {keys : Keypad} :
    keys.lowest? = none ↔ ∀ k, keys.entry k = false := by
  rw [lowest?, List.head?_eq_none_iff, List.eq_nil_iff_forall_not_mem]
  simp only [mem_pressed, Bool.not_eq_true]

/-- The lowest of the keys that are pressed. -/
theorem lowest?_eq_some_iff {keys : Keypad} {key : Nibble} :
    keys.lowest? = some key ↔ keys.entry key = true ∧ ∀ k, keys.entry k = true → key ≤ k := by
  rw [lowest?, pressed, List.head?_filter, List.find?_eq_some_iff_getElem]
  constructor
  · rintro ⟨hkey, i, hi, rfl, hbefore⟩
    refine ⟨hkey, fun k hk => Nat.not_lt.1 fun hlt => ?_⟩
    have hk' := hbefore k.val (by simpa using hlt)
    simp [hk] at hk'
  · rintro ⟨hkey, hlowest⟩
    refine ⟨hkey, key.val, by simp, by simp, fun j hj => ?_⟩
    have hlt := key.isLt
    rw [Bool.not_eq_true', List.getElem_finRange, Bool.eq_false_iff]
    intro hpressed
    have hle := hlowest _ hpressed
    rw [Fin.le_def] at hle
    simp at hle
    omega

theorem exists_lowest? {keys : Keypad} (h : ∃ k, keys.entry k = true) :
    ∃ key, keys.lowest? = some key := by
  rw [← Option.isSome_iff_exists, Option.isSome_iff_ne_none, ne_eq, lowest?_eq_none_iff]
  obtain ⟨k, hk⟩ := h
  exact fun hreleased => by simp [hreleased k] at hk

theorem entry_turn (keys : Keypad) (k j : Nibble) (pressed : Bool) :
    (keys.turn k pressed).entry j = if k = j then pressed else keys.entry j :=
  Table.entry_put keys k j pressed

end Keypad

end Chip8
