/-!
# The call stack

The call stack has sixteen slots, of which the lowest `depth` hold the addresses to
return to. Pushing onto a full stack and popping an empty one are refused. A slot
above `depth` keeps what was last pushed there; the view `live` does not show it.
-/

namespace Chip8

structure CallStack where
  slots : Vector UInt16 16
  depth : Nat
  deriving DecidableEq, Repr

namespace CallStack

def empty : CallStack := ⟨Vector.replicate 16 0, 0⟩

/-- The addresses to return to, the oldest first. -/
def live (s : CallStack) : List UInt16 := s.slots.toList.take s.depth

/-- The stack with `address` on top, absent if all slots are in use. -/
def push? (s : CallStack) (address : UInt16) : Option CallStack :=
  if h : s.depth < 16 then some ⟨s.slots.set s.depth address, s.depth + 1⟩ else none

/-- The newest address and the stack below it, absent if no slot is in use. -/
def pop? (s : CallStack) : Option (UInt16 × CallStack) :=
  if h : 0 < s.depth ∧ s.depth ≤ 16 then
    some (s.slots[s.depth - 1], { s with depth := s.depth - 1 })
  else none

@[simp] theorem live_empty : empty.live = [] := rfl

theorem length_live {s : CallStack} (h : s.depth ≤ 16) : s.live.length = s.depth := by
  simp [live, h]

theorem live_push? {s t : CallStack} {address : UInt16} (h : s.push? address = some t) :
    t.live = s.live ++ [address] := by
  unfold push? at h
  split at h
  · cases h
    simp only [live, Vector.toList_set]
    rw [List.take_succ_eq_append_getElem (by simpa)]
    simp [List.take_set_of_le]
  · cases h

theorem live_pop? {s t : CallStack} {address : UInt16} (h : s.pop? = some (address, t)) :
    s.live = t.live ++ [address] := by
  unfold pop? at h
  split at h
  · rename_i hd
    cases h
    simp only [live]
    conv => lhs; rw [show s.depth = s.depth - 1 + 1 by omega]
    rw [List.take_succ_eq_append_getElem (by simp; omega)]
    simp
  · cases h

theorem getLast?_live {s : CallStack} (hpos : 0 < s.depth) (hle : s.depth ≤ 16) :
    s.live.getLast? = s.slots[s.depth - 1]? := by
  have hlt : s.depth - 1 < 16 := by omega
  rw [live, List.getLast?_take, if_neg (by omega)]
  simp [hlt]

end CallStack

end Chip8
