import Chip8.Pacer
import Chip8.Proofs.Step
import Mathlib.Logic.Function.Iterate

/-!
# Updates as batches of steps

An update of a pacer is a batch: some ticks, then some steps, all of which but the last
asked to proceed. `Batch s n u` says so of the steps, `s` being the interpreter and the
machine after the ticks. Everything that ticks and steps preserve is preserved by
updates (`update?_induction`), and where ticks do not come from outside, all that
updates do is to walk along the one sequence of steps of a machine, however time was
handed out to them.
-/

namespace Chip8

namespace Interpreter

/-- An interpreter and the machine it drives, one step later. -/
def drive (s : Interpreter × Machine) : Interpreter × Machine :=
  ((s.1.step s.2).interpreter, (s.1.step s.2).machine)

def outcome (s : Interpreter × Machine) : Except Fault Signal := (s.1.step s.2).result

theorem config_drive (s : Interpreter × Machine) : (drive s).1.config = s.1.config := by
  cases h : (s.1.step s.2).result with
  | error fault => rw [drive, (step_of_error h).2]
  | ok signal =>
      obtain ⟨-, effect, -, -, -, -, hi⟩ := step_of_ok h
      rw [drive, hi]

theorem config_iterate_drive (s : Interpreter × Machine) (n : Nat) :
    (drive^[n] s).1.config = s.1.config := by
  induction n with
  | zero => rfl
  | succ n ih => rw [Function.iterate_succ_apply', config_drive, ih]

end Interpreter

open Interpreter

theorem Machine.ticks_eq_iterate (m : Machine) (count : Nat) :
    m.ticks count = Machine.tick^[count] m := by
  induction count with
  | zero => exact m.ticks_zero
  | succ count ih => rw [m.ticks_succ, ih, Function.iterate_succ_apply']

namespace Pacer

/-- The steps of an update: `n` of them from `s` on, each but the last asking to proceed,
the last one settling the result. -/
structure Batch (s : Interpreter × Machine) (n : Nat) (u : Update) : Prop where
  reached : (u.pacer.interpreter, u.pacer.machine) = drive^[n] s
  proceeded : ∀ j, j + 1 < n → outcome (drive^[j] s) = .ok .proceed
  error_iff : ∀ fault,
    u.result = .error fault ↔ 1 ≤ n ∧ outcome (drive^[n - 1] s) = .error fault
  awaitFrame_iff :
    u.result = .ok .awaitFrame ↔ 1 ≤ n ∧ outcome (drive^[n - 1] s) = .ok .awaitFrame
  forfeited : u.result = .ok .awaitFrame → u.pacer.cpuTime = 0.0
  proceed_iff : u.result = .ok .proceed ↔ ∀ j < n, outcome (drive^[j] s) = .ok .proceed

variable {s : Interpreter × Machine} {n budget : Nat} {p q : Pacer} {dt : Float32} {u : Update}

theorem Batch.none (hs : s = (u.pacer.interpreter, u.pacer.machine))
    (hu : u.result = .ok .proceed) : Batch s 0 u := by
  subst hs
  constructor
  · rfl
  · intro j hj
    omega
  · simp [hu]
  · simp [hu]
  · simp [hu]
  · simp [hu]

/-- A single step is a batch. -/
theorem Batch.single (hs : drive s = (u.pacer.interpreter, u.pacer.machine))
    (hr : outcome s = u.result) (hc : u.result = .ok .awaitFrame → u.pacer.cpuTime = 0.0) :
    Batch s 1 u := by
  constructor
  · exact hs.symm
  · intro j hj
    omega
  · simp [hr]
  · simp [hr]
  · exact hc
  · simp [hr]

/-- A step that asks to proceed is followed by a batch. -/
theorem Batch.cons (hs : outcome s = .ok .proceed) (h : Batch (drive s) n u) :
    Batch s (n + 1) u := by
  -- The first step only proceeds, so any other result is that of the later steps.
  have hlast : ∀ r, r ≠ .ok .proceed →
      (1 ≤ n + 1 ∧ outcome (drive^[n + 1 - 1] s) = r ↔
        1 ≤ n ∧ outcome (drive^[n - 1] (drive s)) = r) := by
    intro r hr
    cases n with
    | zero => simpa [hs] using hr.symm
    | succ n => simp [Function.iterate_succ_apply]
  constructor
  · rw [h.reached, Function.iterate_succ_apply]
  · intro j hj
    cases j with
    | zero => exact hs
    | succ j =>
        rw [Function.iterate_succ_apply]
        exact h.proceeded j (by omega)
  · intro fault
    rw [h.error_iff, hlast _ (by simp)]
  · rw [h.awaitFrame_iff, hlast _ (by simp)]
  · exact h.forfeited
  · rw [h.proceed_iff]
    constructor
    · intro hall j hj
      cases j with
      | zero => exact hs
      | succ j =>
          rw [Function.iterate_succ_apply]
          exact hall j (by omega)
    · intro hall j hj
      have hj' := hall (j + 1) (by omega)
      rwa [Function.iterate_succ_apply] at hj'

theorem drive_of_stepOnce {v : Update} (h : p.stepOnce = v) :
    drive (p.interpreter, p.machine) = (v.pacer.interpreter, v.pacer.machine) ∧
      outcome (p.interpreter, p.machine) = v.result := by
  subst h
  exact ⟨rfl, rfl⟩

theorem runInstructions?_batch {earlier : List Log.Record}
    (h : runInstructions? budget earlier p = some u) :
    ∃ n, Batch (p.interpreter, p.machine) n u := by
  induction budget generalizing earlier p with
  | zero =>
      rw [runInstructions?] at h
      split at h
      · cases h
      · cases h
        exact ⟨0, .none rfl rfl⟩
  | succ budget ih =>
      rw [runInstructions?] at h
      split at h
      · split at h
        · rename_i q log hq
          obtain ⟨hd, ho⟩ := drive_of_stepOnce hq
          obtain ⟨n, hn⟩ := ih h
          exact ⟨n + 1, .cons ho (hd ▸ hn)⟩
        · rename_i q log hq
          obtain ⟨hd, ho⟩ := drive_of_stepOnce hq
          cases h
          exact ⟨1, .single hd ho fun _ => rfl⟩
        · rename_i q log hq
          obtain ⟨hd, ho⟩ := drive_of_stepOnce hq
          cases h
          exact ⟨1, .single hd ho (by simp)⟩
      · cases h
        exact ⟨0, .none rfl rfl⟩

/-- Saved-up time is spent on ticks, and on none where every step is one. -/
theorem runTimers?_ticks (h : runTimers? budget p dt = some q) :
    ∃ k, (p.interpreter.config.timerMode = .perStep → k = 0) ∧
      q.interpreter = p.interpreter ∧ q.machine = Machine.tick^[k] p.machine := by
  unfold runTimers? at h
  split at h
  · cases h
    exact ⟨0, fun _ => rfl, rfl, rfl⟩
  · rename_i hm
    obtain ⟨⟨k, time⟩, -, rfl⟩ := Option.map_eq_some_iff.1 h
    exact ⟨k, by simp [hm], rfl, p.machine.ticks_eq_iterate k⟩

theorem update?_batch (h : p.update? budget dt = some u) :
    ∃ k n, (p.interpreter.config.timerMode = .perStep → k = 0) ∧
      Batch (p.interpreter, Machine.tick^[k] p.machine) n u := by
  obtain ⟨q, hq, hu⟩ := Option.bind_eq_some_iff.1 h
  obtain ⟨k, hk, hi, hm⟩ := runTimers?_ticks hq
  obtain ⟨n, hn⟩ := runInstructions?_batch hu
  rw [hi, hm] at hn
  exact ⟨k, n, hk, hn⟩

/-- What ticks and steps preserve is preserved by updates. The interpreters that take part
are those of one configuration. -/
theorem update?_induction {P : Machine → Prop} (h : p.update? budget dt = some u)
    (hp : P p.machine) (htick : ∀ m : Machine, P m → P m.tick)
    (hstep : ∀ (interpreter : Interpreter) (m : Machine),
      interpreter.config = p.interpreter.config → P m → P (interpreter.step m).machine) :
    P u.pacer.machine := by
  obtain ⟨k, n, -, hn⟩ := update?_batch h
  have hticks : P (Machine.tick^[k] p.machine) := Function.Iterate.rec P hp htick k
  have hsteps : ∀ j, P (drive^[j] (p.interpreter, Machine.tick^[k] p.machine)).2 := by
    intro j
    induction j with
    | zero => exact hticks
    | succ j ih =>
        rw [Function.iterate_succ_apply']
        exact hstep _ _ (config_iterate_drive _ j) ih
  have hu := hsteps n
  rw [← hn.reached] at hu
  exact hu

/-- The pacer `q` is left behind when `p` is handed the given times one after the other. -/
inductive Updates : Pacer → List Float32 → Pacer → Prop
  | nil (p : Pacer) : Updates p [] p
  | cons {p q : Pacer} {budget : Nat} {dt : Float32} {dts : List Float32} {u : Update}
      (h : p.update? budget dt = some u) (rest : Updates u.pacer dts q) :
      Updates p (dt :: dts) q

theorem Updates.reaches {dts : List Float32} (h : Updates p dts q)
    (hm : p.interpreter.config.timerMode = .perStep) :
    ∃ n, (q.interpreter, q.machine) = drive^[n] (p.interpreter, p.machine) := by
  induction h with
  | nil p => exact ⟨0, rfl⟩
  | @cons p q budget dt dts u hu _ ih =>
      obtain ⟨k, n, hk, hn⟩ := update?_batch hu
      rw [hk hm, Function.iterate_zero, id_eq] at hn
      have hc := config_iterate_drive (p.interpreter, p.machine) n
      rw [← hn.reached] at hc
      obtain ⟨l, hl⟩ := ih (by rw [hc, hm])
      refine ⟨l + n, ?_⟩
      rw [hl, hn.reached, Function.iterate_add_apply]

/-- Of two states that steps lead to from one state, one leads to the other. -/
theorem drive_iterate_comparable (s : Interpreter × Machine) (j k : Nat) :
    ∃ n, drive^[k] s = drive^[n] (drive^[j] s) ∨ drive^[j] s = drive^[n] (drive^[k] s) := by
  rcases Nat.le_total j k with hjk | hkj
  · obtain ⟨n, rfl⟩ := Nat.exists_eq_add_of_le' hjk
    exact ⟨n, .inl (Function.iterate_add_apply drive n j s)⟩
  · obtain ⟨n, rfl⟩ := Nat.exists_eq_add_of_le' hkj
    exact ⟨n, .inr (Function.iterate_add_apply drive n k s)⟩

/-- An update that comes to an end is a batch of steps after some ticks, after none where
every step ticks. There, however time is cut up and whatever an instruction costs, the
machine stays on the one path that its steps lay out: of two pacers that started with
the same machine and interpreter, one goes on to where the other is. -/
theorem updates_follow_steps :
    (∀ (p : Pacer) (budget : Nat) (dt : Float32) (u : Update), p.update? budget dt = some u →
      ∃ k n, (p.interpreter.config.timerMode = .perStep → k = 0) ∧
        Batch (p.interpreter, Machine.tick^[k] p.machine) n u) ∧
      ∀ (machine : Machine) (interpreter : Interpreter) (rate₁ rate₂ : Float32)
        (dts₁ dts₂ : List Float32) (p q : Pacer),
        interpreter.config.timerMode = .perStep →
        Updates (ofRate machine interpreter rate₁) dts₁ p →
        Updates (ofRate machine interpreter rate₂) dts₂ q →
        ∃ n, (q.interpreter, q.machine) = drive^[n] (p.interpreter, p.machine) ∨
          (p.interpreter, p.machine) = drive^[n] (q.interpreter, q.machine) := by
  refine ⟨fun p budget dt u h => update?_batch h, ?_⟩
  intro machine interpreter rate₁ rate₂ dts₁ dts₂ p q hm hp hq
  obtain ⟨j, hj⟩ := hp.reaches hm
  obtain ⟨k, hk⟩ := hq.reaches hm
  rw [hj, hk]
  exact drive_iterate_comparable _ j k

/-- A machine that counts in its first register for ever. -/
def countingMachine : Machine :=
  { Machine.powerOn with
    memory := Machine.powerOn.memory.store Machine.start [0x70, 0x01, 0x12, 0x00] }

/-- The counting machine at two rates, handed time at once and in two parts. -/
theorem updates_follow_steps_of_counting :
    ∃ u v w, (ofRate countingMachine (.ofConfig {} 0) 100.0).update? 4 0.03 = some u ∧
      (ofRate countingMachine (.ofConfig {} 0) 50.0).update? 4 0.03 = some v ∧
      v.pacer.update? 4 0.02 = some w ∧
      (∃ n, Batch (.ofConfig {} 0, countingMachine) n u) ∧
      ∃ n, (w.pacer.interpreter, w.pacer.machine) =
          drive^[n] (u.pacer.interpreter, u.pacer.machine) ∨
        (u.pacer.interpreter, u.pacer.machine) =
          drive^[n] (w.pacer.interpreter, w.pacer.machine) := by
  have hfirst : ((ofRate countingMachine (.ofConfig {} 0) 100.0).update? 4 0.03).isSome := by
    decide +kernel
  have hsecond : (((ofRate countingMachine (.ofConfig {} 0) 50.0).update? 4 0.03).bind fun v =>
      v.pacer.update? 4 0.02).isSome := by
    decide +kernel
  obtain ⟨u, hu⟩ := Option.isSome_iff_exists.1 hfirst
  obtain ⟨w, hvw⟩ := Option.isSome_iff_exists.1 hsecond
  obtain ⟨v, hv, hw⟩ := Option.bind_eq_some_iff.1 hvw
  obtain ⟨k, n, hk, hn⟩ := updates_follow_steps.1 _ _ _ _ hu
  have hpath := updates_follow_steps.2 countingMachine (.ofConfig {} 0) 100.0 50.0 [0.03]
    [0.03, 0.02] u.pacer w.pacer rfl (.cons hu (.nil _)) (.cons hv (.cons hw (.nil _)))
  rw [hk rfl] at hn
  exact ⟨u, v, w, hu, hv, hw, ⟨n, hn⟩, hpath⟩

end Pacer

end Chip8
