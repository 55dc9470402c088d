import Chip8.Proofs.Action

/-!
# Halted machines

A step that fails leaves a machine that has fetched and no more, and from there the same
failure comes back for ever: what decides it is the program counter, memory, the call
stack and the policy on unknown words, and none of these is moved by failing steps, ticks
or keys. `Machine.StillAs` says that all but the timers and the keypad is as it was.
-/

namespace Chip8

/-- The actions that go on with a run under one policy on unknown words: neither a reset
nor a program. -/
def Action.Continues (policy : UnknownPolicy) : Action → Prop
  | .step interpreter => interpreter.config.unknownPolicy = policy
  | .tick => True
  | .turnKey _ _ => True
  | .update pacer _ _ => pacer.interpreter.config.unknownPolicy = policy
  | .load _ => False
  | .reset => False

namespace Machine

/-- The machine `n` is what `s` was, but for the timers and the keypad. -/
def StillAs (n s : Machine) : Prop := n = { s with timers := n.timers, keypad := n.keypad }

variable {m n s : Machine} {fault : Fault} {policy : UnknownPolicy}

theorem StillAs.refl (s : Machine) : s.StillAs s := rfl

theorem StillAs.tick (h : n.StillAs s) : n.tick.StillAs s := by
  unfold StillAs at h ⊢
  rw [h]
  rfl

theorem StillAs.turnKey (h : n.StillAs s) (k : Nibble) (pressed : Bool) :
    (n.turnKey k pressed).StillAs s := by
  unfold StillAs at h ⊢
  rw [h]
  rfl

theorem StillAs.fault?_eq (h : n.StillAs s) : n.fault? policy = s.fault? policy := by
  rw [h]
  exact fault?_congr rfl rfl rfl

theorem StillAs.fetched (h : n.StillAs s) : n.fetched.StillAs s.fetched := by
  unfold StillAs at h ⊢
  rw [h]
  rfl

theorem fetched_fetched (m : Machine) : m.fetched.fetched = m.fetched := by
  have hfetch : m.fetched.fetch? = m.fetch? := rfl
  rw [Machine.fetched, hfetch, Machine.fetched]
  cases m.fetch? <;> rfl

/-- The machine that failed is as the fault tells, down to the word fetched last. -/
theorem fetched_eq_of_fault? (h : m.fault? policy = some fault) :
    m.fetched = { m with
      repainted := false
      word := if fault = .fetchOutOfBounds m.pc then m.word else m.memory.word m.pc.toNat } := by
  unfold fault? at h
  split at h
  · rename_i hw
    cases h
    simp [Machine.fetched, hw]
  · rename_i word hw
    have hne : fault ≠ .fetchOutOfBounds m.pc := by
      rintro rfl
      exact Instruction.fault?_ne_fetchOutOfBounds policy m (Instruction.decode word) m.pc h
    rw [if_neg hne, Machine.fetched, hw, (fetch?_eq_some_iff.1 hw).2, Option.getD_some]

/-- On a machine that fails as `s` does, the actions that go on with a run move nothing but
the timers and the keypad. -/
theorem StillAs.perform? {action : Action} (h : n.StillAs s) (hs : s.fetched = s)
    (hf : s.fault? policy = some fault) (ha : action.Continues policy)
    (hm : n.perform? action = some m) : m.StillAs s := by
  have hstep : ∀ (interpreter : Interpreter) (k : Machine),
      interpreter.config.unknownPolicy = policy → k.StillAs s →
        (interpreter.step k).machine.StillAs s := by
    intro interpreter k hi hk
    have hr : (interpreter.step k).result = .error fault := by
      rw [Interpreter.result_step_eq_error_iff, hi, hk.fault?_eq, hf]
    rw [(Interpreter.step_of_error hr).1, ← hs]
    exact hk.fetched
  cases action with
  | step interpreter =>
      cases hm
      exact hstep interpreter n ha h
  | tick =>
      cases hm
      exact h.tick
  | turnKey k pressed =>
      cases hm
      exact h.turnKey k pressed
  | update pacer budget dt =>
      obtain ⟨u, hu, rfl⟩ := Option.map_eq_some_iff.1 hm
      refine Pacer.update?_induction (P := fun k => k.StillAs s) hu h ?_ ?_
      · intro k hk
        exact hk.tick
      · intro interpreter k hi hk
        exact hstep interpreter k ((congrArg Config.unknownPolicy hi).trans ha) hk
  | load | reset => exact ha.elim

end Machine

/-- A batch that starts at a failure is empty or ends at once. -/
theorem Pacer.Batch.of_outcome_eq_error {s : Interpreter × Machine} {n : Nat} {u : Pacer.Update}
    {fault : Fault} (h : Pacer.Batch s n u) (hs : Interpreter.outcome s = .error fault) :
    n = 0 ∧ u.result = .ok .proceed ∨ n = 1 ∧ u.result = .error fault := by
  match n with
  | 0 => exact .inl ⟨rfl, h.proceed_iff.2 fun j hj => by omega⟩
  | 1 => exact .inr ⟨rfl, (h.error_iff fault).2 ⟨by omega, hs⟩⟩
  | n + 2 =>
      have hp := h.proceeded 0 (by omega)
      rw [Function.iterate_zero, id_eq, hs] at hp
      cases hp

/-- A step that fails changes nothing but what fetching changes, and from then on every step
under the same policy fails in the same way: steps, ticks, keys and updates in any order
leave the machine as it is but for its timers and keypad, every step is refused with that
same fault, and an update makes no step or one that is refused so. -/
theorem failed_step_halts {interpreter : Interpreter} {m : Machine} {fault : Fault}
    (h : (interpreter.step m).result = .error fault) :
    (interpreter.step m).interpreter = interpreter ∧
      (interpreter.step m).machine = { m with
        repainted := false
        word := if fault = .fetchOutOfBounds m.pc then m.word
          else m.memory.word m.pc.toNat } ∧
      ∀ (actions : List Action) (n : Machine),
        (∀ action ∈ actions, action.Continues interpreter.config.unknownPolicy) →
        (interpreter.step m).machine.run? actions = some n →
        n.StillAs (interpreter.step m).machine ∧
          (∀ other : Interpreter,
            other.config.unknownPolicy = interpreter.config.unknownPolicy →
              (other.step n).result = .error fault) ∧
          ∀ (p : Pacer) (budget : Nat) (dt : Float32) (u : Pacer.Update), p.machine = n →
            p.interpreter.config.unknownPolicy = interpreter.config.unknownPolicy →
            p.update? budget dt = some u →
            ∃ k j, Pacer.Batch (p.interpreter, Machine.tick^[k] n) j u ∧
              (j = 0 ∧ u.result = .ok .proceed ∨ j = 1 ∧ u.result = .error fault) := by
  have hf := Interpreter.result_step_eq_error_iff.1 h
  obtain ⟨hm, hi⟩ := Interpreter.step_of_error h
  -- The machine left behind fails as the one before did, from then on for ever.
  have hfix : m.fetched.fault? interpreter.config.unknownPolicy = some fault := by
    rw [← hf]
    exact Machine.fault?_congr rfl rfl rfl
  refine ⟨hi, by rw [hm, Machine.fetched_eq_of_fault? hf], fun actions n ha hn => ?_⟩
  rw [hm] at hn ⊢
  have hstill : n.StillAs m.fetched := by
    refine Machine.run?_induction (P := fun k => k.StillAs m.fetched) hn (.refl _) ?_
    intro action hmem k l hk hl
    exact hk.perform? m.fetched_fetched hfix (ha action hmem) hl
  have hstep : ∀ (other : Interpreter) (k : Machine),
      other.config.unknownPolicy = interpreter.config.unknownPolicy → k.StillAs m.fetched →
        (other.step k).result = .error fault := by
    intro other k ho hk
    rw [Interpreter.result_step_eq_error_iff, ho, hk.fault?_eq, hfix]
  refine ⟨hstill, fun other ho => hstep other n ho hstill, ?_⟩
  rintro p budget dt u rfl hp hu
  obtain ⟨k, j, -, hj⟩ := Pacer.update?_batch hu
  have hticks : (Machine.tick^[k] p.machine).StillAs m.fetched :=
    Function.Iterate.rec (fun l : Machine => l.StillAs m.fetched) hstill (fun l hl => hl.tick) k
  exact ⟨k, j, hj, hj.of_outcome_eq_error (hstep p.interpreter _ hp hticks)⟩

/-- A return without a call, after which time passes, a key is pressed and steps go on. -/
theorem failed_step_halts_at_return :
    ∃ n, ((Interpreter.ofConfig {} 0).step (Machine.powerOn.loaded [0x00, 0xEE])).machine.run?
        [.tick, .turnKey (Nibble.ofNat 3) true, .step (.ofConfig {} 1),
          .update (.ofRate .powerOn (.ofConfig {} 2) 700.0) 2 0.002] = some n ∧
      n.StillAs ((Interpreter.ofConfig {} 0).step (Machine.powerOn.loaded [0x00, 0xEE])).machine ∧
      ((Interpreter.ofConfig {} 3).step n).result = .error (.stackUnderflow 0x200) := by
  have hr : ((Interpreter.ofConfig {} 0).step (Machine.powerOn.loaded [0x00, 0xEE])).result =
      .error (.stackUnderflow 0x200) := by decide +kernel
  have hs : (((Interpreter.ofConfig {} 0).step (Machine.powerOn.loaded [0x00, 0xEE])).machine.run?
      [.tick, .turnKey (Nibble.ofNat 3) true, .step (.ofConfig {} 1),
        .update (.ofRate .powerOn (.ofConfig {} 2) 700.0) 2 0.002]).isSome := by
    decide +kernel
  obtain ⟨n, hn⟩ := Option.isSome_iff_exists.1 hs
  obtain ⟨-, -, hlater⟩ := failed_step_halts hr
  obtain ⟨hstill, hstep, -⟩ := hlater _ n (by simp [Action.Continues, Pacer.ofRate,
    Interpreter.ofConfig]) hn
  exact ⟨n, hn, hstill, hstep _ rfl⟩

end Chip8
