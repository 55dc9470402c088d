import Chip8.Text.Hex

/-!
# Reading text

How what was written is read back. A hexadecimal number is read digit by digit, and a number
written in any width is the one that is read. A line is parted into fields at blanks and
commas, so fields without either that are put together with commas come apart again.
-/

namespace Chip8.Text

namespace Hex

/-- The digit that a character shows. -/
def digit? (c : Char) : Option Nibble := (List.finRange 16).find? fun d => digit d == c

/-- The number that a row of digits shows, absent if there is anything else in the row. -/
def number? (digits : List Char) : Option Nat :=
  digits.foldlM (fun n c => (digit? c).map fun d => 16 * n + d.val) 0

theorem digit?_digit (d : Nibble) : digit? (digit d) = some d := by
  revert d
  decide

theorem number?_append_digit (digits : List Char) (d : Nibble) :
    number? (digits ++ [digit d]) = (number? digits).map fun n => 16 * n + d.val := by
  simp only [number?, List.foldlM_append, List.foldlM_cons, List.foldlM_nil, digit?_digit]
  cases List.foldlM (fun n c => (digit? c).map fun d => 16 * n + d.val) 0 digits <;> rfl

/-- Digits that were left out are missing when the others are read. -/
theorem number?_fixed (width n : Nat) :
    number? (fixed width n) = some (n % Nat.pow 16 width) := by
  induction width generalizing n with
  | zero => simp [fixed, number?, Nat.mod_one]
  | succ width ih =>
      have hsplit : n % Nat.pow 16 (width + 1) = n % 16 + 16 * (n / 16 % Nat.pow 16 width) := by
        rw [← Nat.mod_mul, Nat.mul_comm]
        rfl
      rw [fixed, number?_append_digit, ih, Option.map_some, Nibble.val_ofNat, hsplit, Nat.add_comm]

theorem lt_pow_length (n : Nat) : n < Nat.pow 16 (length n) := by
  have hbits : n < Nat.pow 2 (4 * length n) :=
    Nat.lt_of_lt_of_le Nat.lt_log2_self
      (Nat.pow_le_pow_right (by decide) (by rw [length]; omega))
  rwa [show Nat.pow 2 (4 * length n) = Nat.pow 16 (length n) from Nat.pow_mul 2 4 _] at hbits

theorem length_le {width n : Nat} (hwidth : 0 < width) (h : n < Nat.pow 16 width) :
    length n ≤ width := by
  have hlog : n.log2 < 4 * width := by
    by_cases hn : n = 0
    · rw [hn, Nat.log2_zero]
      omega
    · rw [Nat.log2_lt hn, Nat.pow_mul]
      exact h
  rw [length]
  omega

/-- The text of a number shows that number. -/
theorem number?_padded (width n : Nat) : number? (padded width n).toList = some n := by
  have hlt : n < Nat.pow 16 (max width (length n)) :=
    Nat.lt_of_lt_of_le (lt_pow_length n) (Nat.pow_le_pow_right (by decide) (Nat.le_max_right _ _))
  rw [padded, String.toList_ofList, number?_fixed, Nat.mod_eq_of_lt hlt]

theorem length_padded {width n : Nat} (hwidth : 0 < width) (h : n < Nat.pow 16 width) :
    (padded width n).toList.length = width := by
  rw [padded, String.toList_ofList, length_fixed, Nat.max_eq_left (length_le hwidth h)]

end Hex

/-- The characters that part the fields of a line. -/
def isGap (c : Char) : Bool := c == ' ' || c == ','

/-- The fields of a row of characters, each of them between gaps and without one. -/
def split (chars : List Char) : List (List Char) := (chars.splitOnP isGap).filter (· != [])

/-- The fields of a line. -/
def fields (line : String) : List String := (split line.toList).map String.ofList

/-- A text that is one field. -/
structure IsField (field : String) : Prop where
  nonempty : field ≠ ""
  unparted : ∀ c ∈ field.toList, isGap c = false

instance (field : String) : Decidable (IsField field) :=
  decidable_of_iff (field ≠ "" ∧ field.toList.any isGap = false)
    ⟨fun h => ⟨h.1, by simpa using h.2⟩, fun h => ⟨h.nonempty, by simpa using h.unparted⟩⟩

theorem split_gap_cons {c : Char} (hc : isGap c = true) (rest : List Char) :
    split (c :: rest) = split rest := by
  rw [split, List.splitOnP_cons_eq_if_modifyHead, if_pos hc]
  rfl

theorem IsField.split_append_cons {field : String} (h : IsField field) {c : Char}
    (hc : isGap c = true) (rest : List Char) :
    split (field.toList ++ c :: rest) = field.toList :: split rest := by
  rw [split, List.splitOnP_append_cons_of_forall_mem h.unparted c hc, List.filter_cons_of_pos]
  · rfl
  · simpa using h.nonempty

theorem IsField.fields_eq {field : String} (h : IsField field) : fields field = [field] := by
  rw [fields, split, List.splitOnP_eq_singleton h.unparted]
  simp [h.nonempty]

/-- A field goes on as long as there is no gap. -/
theorem IsField.append {field rest : String} (h : IsField field)
    (hrest : ∀ c ∈ rest.toList, isGap c = false) : IsField (field ++ rest) := by
  constructor
  · intro hempty
    exact h.nonempty (String.append_eq_empty_iff.1 hempty).1
  · intro c hc
    rw [String.toList_append, List.mem_append] at hc
    rcases hc with hc | hc
    · exact h.unparted c hc
    · exact hrest c hc

theorem IsField.fields_append_blank {field : String} (h : IsField field) (rest : String) :
    fields (field ++ " " ++ rest) = field :: fields rest := by
  have hchars : (field ++ " " ++ rest).toList = field.toList ++ ' ' :: rest.toList := by
    simp [String.toList_append]
  rw [fields, hchars, h.split_append_cons rfl, List.map_cons, String.ofList_toList, fields]

theorem IsField.fields_append_comma {field : String} (h : IsField field) (rest : String) :
    fields (field ++ ", " ++ rest) = field :: fields rest := by
  have hchars : (field ++ ", " ++ rest).toList = field.toList ++ ',' :: ' ' :: rest.toList := by
    simp [String.toList_append]
  rw [fields, hchars, h.split_append_cons rfl, split_gap_cons rfl, List.map_cons,
    String.ofList_toList, fields]

/-- Fields that are put together with commas are parted again. -/
theorem fields_intercalate {parts : List String} (h : ∀ part ∈ parts, IsField part) :
    fields (String.intercalate ", " parts) = parts := by
  induction parts with
  | nil => rfl
  | cons part rest ih =>
      have hpart := h part List.mem_cons_self
      have hrest := ih fun part hmem => h part (List.mem_cons_of_mem _ hmem)
      cases rest with
      | nil => rw [String.intercalate_singleton, hpart.fields_eq]
      | cons next rest =>
          rw [String.intercalate_cons_cons, hpart.fields_append_comma, hrest]

namespace Hex

theorem isGap_of_mem_fixed {width n : Nat} {c : Char} (h : c ∈ fixed width n) :
    isGap c = false := by
  have hdigit : ∀ d : Nibble, isGap (digit d) = false := by decide
  induction width generalizing n with
  | zero => cases h
  | succ width ih =>
      rw [fixed, List.mem_append, List.mem_singleton] at h
      rcases h with h | rfl
      · exact ih h
      · exact hdigit _

theorem isField_padded (width n : Nat) : IsField (padded width n) := by
  have hlength : 0 < (padded width n).toList.length := by
    rw [padded, String.toList_ofList, length_fixed, length]
    omega
  constructor
  · intro hempty
    rw [hempty] at hlength
    exact Nat.lt_irrefl 0 hlength
  · rw [padded, String.toList_ofList]
    intro c hc
    exact isGap_of_mem_fixed hc

theorem isField_marked (width n : Nat) : IsField (marked width n) := by
  have hmark : IsField "0x" := by decide
  exact hmark.append (isField_padded width n).unparted

end Hex

/-- What is written item by item is read item by item. -/
theorem mapM_map_eq_some {α β : Type} {write : α → β} {read? : β → Option α}
    (h : ∀ a, read? (write a) = some a) (items : List α) :
    (items.map write).mapM read? = some items := by
  induction items with
  | nil => rfl
  | cons a rest ih =>
      rw [List.map_cons, List.mapM_cons, h, ih]
      rfl

end Chip8.Text
