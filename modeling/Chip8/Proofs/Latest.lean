/-!
# What is found last

The state of a key or a tone is what the latest event says that says anything about it. Looked
up in a list of events this is `findSome?` over the reversed list. The latest finding in two
lists is that of the second or else of the first, and behind it nothing is found.
-/

namespace Chip8

/-- What is found last in two lists is found last in the second, or else in the first. -/
theorem getD_findSome?_reverse_append {α β : Type} (f : α → Option β) (first rest : List α)
    (start : β) :
    ((first ++ rest).reverse.findSome? f).getD start =
      (rest.reverse.findSome? f).getD ((first.reverse.findSome? f).getD start) := by
  rw [List.reverse_append, List.findSome?_append, Option.getD_or]

/-- What is found last stands somewhere, and nothing is found behind it. -/
theorem findSome?_reverse_eq_some_iff {α β : Type} {f : α → Option β} {items : List α} {b : β} :
    items.reverse.findSome? f = some b ↔
      ∃ before a after, items = before ++ a :: after ∧ f a = some b ∧ ∀ x ∈ after, f x = none := by
  rw [List.findSome?_eq_some_iff]
  constructor
  · rintro ⟨after, a, before, hitems, ha, hafter⟩
    refine ⟨before.reverse, a, after.reverse, ?_, ha, fun x hx => hafter x (List.mem_reverse.1 hx)⟩
    rw [← List.reverse_reverse items, hitems]
    simp
  · rintro ⟨before, a, after, rfl, ha, hafter⟩
    refine ⟨after.reverse, a, before.reverse, ?_, ha, fun x hx => hafter x (List.mem_reverse.1 hx)⟩
    simp

end Chip8
