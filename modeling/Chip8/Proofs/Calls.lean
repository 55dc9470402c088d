import Chip8.Proofs.Action

/-!
# Calls and returns

The sixteen slots and the depth of a call stack stand for a list of open calls. Along a
run a `CallEvent` is recorded for every call and every return that was carried out, and
`CallEvent.unmatched` reads off the calls that are still open: a return closes the one
made last. Calls and returns that are refused are no events. After any run without a
reset the live addresses of the stack are those behind the open calls, so nothing but
calls and returns moves the stack, and the stale slots above it never show.
-/

namespace Chip8

inductive CallEvent
  /-- A call was carried out, the call itself standing at `address`. -/
  | call (address : UInt16)
  | ret

namespace CallEvent

/-- The open calls after an event, the oldest first. -/
def after (calls : List UInt16) : CallEvent → List UInt16
  | call address => calls ++ [address]
  | ret => calls.dropLast

/-- The calls that no return has closed, the oldest first. -/
def unmatched (events : List CallEvent) : List UInt16 := events.foldl after []

end CallEvent

def Interpreter.callEvent? (interpreter : Interpreter) (m : Machine) : Option CallEvent :=
  match interpreter.executed? m with
  | some (.call _) => some (.call m.pc)
  | some .ret => some .ret
  | _ => none

namespace Action

def callEvents (m : Machine) : Action → List CallEvent
  | step interpreter => (interpreter.callEvent? m).toList
  | _ => []

end Action

/-- The calls and returns of a run, in order. -/
def Machine.callTrace (m : Machine) (actions : List Action) : List CallEvent :=
  m.trace Action.callEvents actions

/-- The stack holds the addresses behind the given calls, which are no more than sixteen. -/
structure CallStack.Holds (s : CallStack) (calls : List UInt16) : Prop where
  depth_le : s.depth ≤ 16
  live_eq : s.live.map UInt16.toNat = calls.map fun address => address.toNat + 2

variable {m n : Machine} {calls : List UInt16} {interpreter : Interpreter}

namespace CallStack.Holds

theorem length_eq {s : CallStack} (h : s.Holds calls) : calls.length = s.depth := by
  rw [← length_live h.depth_le]
  simpa using (congrArg List.length h.live_eq).symm

/-- Where a return leads while calls are open: behind the one made last. -/
theorem of_pop? {s t : CallStack} {address : UInt16} (h : s.Holds calls)
    (hp : s.pop? = some (address, t)) :
    ∃ earlier last, calls = earlier ++ [last] ∧ address.toNat = last.toNat + 2 ∧
      t.Holds earlier := by
  obtain ⟨hle, hd⟩ := depth_pop? hp
  have hlive : (calls.map fun address => address.toNat + 2) =
      t.live.map UInt16.toNat ++ [address.toNat] := by
    rw [← h.live_eq, live_pop? hp, List.map_append]
    rfl
  obtain ⟨earlier, newest, rfl, hearlier, hnewest⟩ := List.map_eq_append_iff.1 hlive
  obtain ⟨last, rfl, hlast⟩ := List.map_eq_singleton_iff.1 hnewest
  exact ⟨earlier, last, rfl, hlast.symm, by omega, hearlier.symm⟩

theorem push? {s t : CallStack} {pc : UInt16} (h : s.Holds calls) (hpc : pc.toNat ≤ 0xFFE)
    (hp : s.push? (pc + 2) = some t) : t.Holds (calls ++ [pc]) := by
  obtain ⟨hlt, hd⟩ := depth_push? hp
  refine ⟨by omega, ?_⟩
  rw [live_push? hp, List.map_append, List.map_append, h.live_eq]
  simp [toNat_add_two hpc]

/-- A step moves the stack as its call event moves the open calls. -/
theorem step (h : m.stack.Holds calls) :
    (interpreter.step m).machine.stack.Holds
      ((interpreter.callEvent? m).toList.foldl CallEvent.after calls) := by
  unfold Interpreter.callEvent?
  cases hi : interpreter.executed? m with
  | none =>
      obtain ⟨fault, hf⟩ := Interpreter.executed?_eq_none_iff.1 hi
      rw [(Interpreter.step_of_error hf).1]
      exact h
  | some i =>
      have hs := Interpreter.stackAfter?_step hi
      cases i with
      | ret =>
          obtain ⟨⟨address, t⟩, hp, ht⟩ := Option.map_eq_some_iff.1 hs
          obtain ⟨earlier, last, rfl, -, hholds⟩ := h.of_pop? hp
          simpa [CallEvent.after, ← ht] using hholds
      | call target => exact h.push? (Interpreter.pc_le_of_executed? hi) hs
      | _ =>
          rw [← Option.some.inj hs]
          exact h

theorem pc_ret (h : m.stack.Holds calls) (hret : interpreter.executed? m = some .ret) :
    ∃ earlier last, calls = earlier ++ [last] ∧
      (interpreter.step m).machine.pc.toNat = last.toNat + 2 := by
  have hs := Interpreter.stackAfter?_step hret
  obtain ⟨⟨address, t⟩, hp, -⟩ := Option.map_eq_some_iff.1 hs
  obtain ⟨earlier, last, hcalls, haddress, -⟩ := h.of_pop? hp
  have hpc := Interpreter.pc_step hret
  simp only [Instruction.target, live_pop? hp, List.getLast?_append, List.getLast?_singleton,
    Option.some_or, Option.map_some, Option.getD_some, UInt16.ofNat_toNat] at hpc
  exact ⟨earlier, last, hcalls, by rw [hpc, haddress]⟩

theorem call_refused_iff {target : Address} {fault : Fault} (h : m.stack.Holds calls)
    (hi : m.instruction? = some (.call target)) :
    (interpreter.step m).result = .error fault ↔
      fault = .stackOverflow m.pc ∧ calls.length = 16 := by
  have hlength := h.length_eq
  have hdepth := h.depth_le
  rw [Interpreter.result_step_eq_error_iff, Machine.fault?_of_instruction? hi]
  simp only [Instruction.fault?, Option.isNone_iff_eq_none, push?_eq_none_iff]
  by_cases hfull : 16 ≤ m.stack.depth
  · have hsixteen : calls.length = 16 := by omega
    simp [hfull, hsixteen, eq_comm]
  · have hfew : calls.length ≠ 16 := by omega
    simp [hfull, hfew]

theorem ret_refused_iff {fault : Fault} (h : m.stack.Holds calls)
    (hi : m.instruction? = some .ret) :
    (interpreter.step m).result = .error fault ↔
      fault = .stackUnderflow m.pc ∧ calls = [] := by
  rw [Interpreter.result_step_eq_error_iff, Machine.fault?_of_instruction? hi]
  simp only [Instruction.fault?, Option.isNone_iff_eq_none, pop?_eq_none_iff h.depth_le,
    ← h.length_eq, List.length_eq_zero_iff]
  by_cases hempty : calls = []
  · simp [hempty, eq_comm]
  · simp [hempty]

end CallStack.Holds

namespace Machine

theorem Fresh.holds_nil (h : m.Fresh) : m.stack.Holds [] := by
  obtain ⟨memory, rfl⟩ := h.eq_powerOn
  exact ⟨Nat.zero_le _, rfl⟩

theorem holds_perform? {action : Action} (h : m.stack.Holds calls) (ha : action.IsPlain)
    (hn : m.perform? action = some n) :
    n.stack.Holds ((action.callEvents m).foldl CallEvent.after calls) := by
  cases action with
  | step interpreter =>
      cases hn
      exact h.step
  | tick | turnKey =>
      cases hn
      exact h
  | load program =>
      cases hn
      rcases m.loaded_eq_or program with hl | hl
      · rw [hl]
        exact h
      · rw [hl]
        exact h
  | reset | update => exact ha.elim

theorem holds_run? {actions : List Action} (h : m.stack.Holds calls)
    (ha : ∀ action ∈ actions, action.IsPlain) (hn : m.run? actions = some n) :
    n.stack.Holds ((m.callTrace actions).foldl CallEvent.after calls) :=
  run?_trace hn h fun action hmem _ _ _ hk hl => holds_perform? hk (ha action hmem) hl

end Machine

/-- After any run of a fresh machine without a reset the live stack lists the addresses
behind the calls that are still open, in the order in which they were made. So a return
resumes behind the last open call, a call is refused exactly if sixteen are open, and a
return exactly if none is. -/
theorem live_eq_unmatched_calls {start m : Machine} {actions : List Action}
    (hstart : start.Fresh) (hactions : ∀ action ∈ actions, action.IsPlain)
    (h : start.run? actions = some m) :
    m.stack.live.map UInt16.toNat =
        (CallEvent.unmatched (start.callTrace actions)).map (fun address => address.toNat + 2) ∧
      (CallEvent.unmatched (start.callTrace actions)).length ≤ 16 ∧
      ∀ interpreter : Interpreter,
        (interpreter.executed? m = some .ret →
          ∃ earlier last, CallEvent.unmatched (start.callTrace actions) = earlier ++ [last] ∧
            (interpreter.step m).machine.pc.toNat = last.toNat + 2) ∧
        (∀ target, m.instruction? = some (.call target) → ∀ fault,
          ((interpreter.step m).result = .error fault ↔ fault = .stackOverflow m.pc ∧
            (CallEvent.unmatched (start.callTrace actions)).length = 16)) ∧
        (m.instruction? = some .ret → ∀ fault,
          ((interpreter.step m).result = .error fault ↔ fault = .stackUnderflow m.pc ∧
            CallEvent.unmatched (start.callTrace actions) = [])) := by
  have hholds : m.stack.Holds (CallEvent.unmatched (start.callTrace actions)) :=
    Machine.holds_run? hstart.holds_nil hactions h
  have hlength := hholds.length_eq
  have hdepth := hholds.depth_le
  refine ⟨hholds.live_eq, by omega, fun interpreter => ⟨?_, ?_, ?_⟩⟩
  · intro hret
    exact hholds.pc_ret hret
  · intro target hi fault
    exact hholds.call_refused_iff hi
  · intro hi fault
    exact hholds.ret_refused_iff hi

/-- A call that is still open around one that has returned, with a key turned in between. -/
def Action.nestedCalls : List Action :=
  [.load [0x22, 0x06, 0x00, 0x00, 0x00, 0x00, 0x22, 0x0A, 0x00, 0xEE, 0x00, 0xEE],
    .step (.ofConfig {} 0), .turnKey (Nibble.ofNat 3) true, .step (.ofConfig {} 0),
    .step (.ofConfig {} 0)]

theorem live_eq_unmatched_calls_of_nested :
    ∃ m, Machine.powerOn.run? Action.nestedCalls = some m ∧
      CallEvent.unmatched (Machine.powerOn.callTrace Action.nestedCalls) = [0x200] ∧
      m.stack.live.map UInt16.toNat = [0x202] := by
  have hrun : (Machine.powerOn.run? Action.nestedCalls).isSome := by decide +kernel
  have hopen : CallEvent.unmatched (Machine.powerOn.callTrace Action.nestedCalls) = [0x200] := by
    decide +kernel
  have hplain : ∀ action ∈ Action.nestedCalls, action.IsPlain := by
    simp [Action.nestedCalls, Action.IsPlain]
  obtain ⟨m, hm⟩ := Option.isSome_iff_exists.1 hrun
  obtain ⟨hlive, -⟩ := live_eq_unmatched_calls .bare hplain hm
  rw [hopen] at hlive
  exact ⟨m, hm, hopen, hlive⟩

end Chip8
