import Chip8.Proofs.Sharing

/-!
# Two runs side by side

A `Service` says how requests are carried out: by the interpreter alone, as `serve` does, or
together with something that its driver adds. `history` lists what came of a row of requests,
one step for each, and `reached` is where they led. Two histories are compared by what is
`visible` of every step, which is all but the configuration of the interpreter, so two runs
under different configurations can be seen to be one run.

Two steps are compared by `visible_step_followedBy`: a configuration is asked by the execution
of an instruction and by the tick at the end of the step, and in no other place.

The machines of two runs may differ as well. Then they are compared through a view, and two steps
that have fetched one word are seen alike if what they execute is seen alike, `seen_step_congr`.
-/

namespace Chip8

/-- What is seen of an effect through a view of the machine. -/
def Effect.seen {α : Type} (view : Machine → α) (e : Effect) :
    α × Random.Source × Signal × List Log.Record :=
  (view e.machine, e.random, e.signal, e.log)

namespace Interpreter

/-- A way to carry out requests. -/
abbrev Service := Interpreter → Machine → Request → Step

/-- What is seen of a step, and the source of random bytes it leaves behind. -/
def Step.visible (s : Step) : Answer × Random.Source := (s.answer, s.interpreter.random)

/-- What is seen of a step through a view of the machine. -/
def Step.seen {α : Type} (view : Machine → α) (s : Step) :
    Except Fault Signal × α × Interpreter × List Log.Record :=
  (s.result, view s.machine, s.interpreter, s.log)

/-- A step after which a driver does something to the machine, unless the step has failed. -/
def Step.followedBy (s : Step) (act : Machine → Machine) : Step :=
  match s.result with
  | .ok _ => { s with machine := act s.machine }
  | .error _ => s

variable {f g : Service} {i j : Interpreter} {m n : Machine} {requests : List Request}
  {word : Word}

theorem eq_of_config_eq (hconfig : j.config = i.config) (hrandom : j.random = i.random) :
    j = i := by
  cases i
  cases j
  cases hconfig
  cases hrandom
  rfl

/-- What came of the requests, one step for each. -/
def history (f : Service) : Interpreter → Machine → List Request → List Step
  | _, _, [] => []
  | i, m, r :: rest => f i m r :: history f (f i m r).interpreter (f i m r).machine rest

/-- The interpreter and the machine behind the requests. -/
def reached (f : Service) : Interpreter → Machine → List Request → Interpreter × Machine
  | i, m, [] => (i, m)
  | i, m, r :: rest => reached f (f i m r).interpreter (f i m r).machine rest

/-- Two services do the same to a machine, and go on to do so, as long as the interpreters are
related in the way `R` in view of the requests that are still to come. -/
def Lockstep (f g : Service) (R : Interpreter → Interpreter → Machine → List Request → Prop) :
    Prop :=
  ∀ i j m r rest, R i j m (r :: rest) →
    (g j m r).visible = (f i m r).visible ∧
      R (f i m r).interpreter (g j m r).interpreter (f i m r).machine rest

@[simp] theorem Step.followedBy_id (s : Step) : s.followedBy id = s := by
  unfold followedBy
  split <;> rfl

@[simp] theorem Step.interpreter_followedBy (s : Step) (act : Machine → Machine) :
    (s.followedBy act).interpreter = s.interpreter := by
  unfold followedBy
  split <;> rfl

/-- Two steps look alike if the instruction has one effect under both configurations and a
driver makes up for the difference in the ticks. -/
theorem visible_step_followedBy {act : Machine → Machine} (hrandom : j.random = i.random)
    (hexecute : ∀ instruction, m.instruction? = some instruction →
      instruction.execute j.config j.random m.fetched =
        instruction.execute i.config i.random m.fetched)
    (hafter : ∀ k, act (afterStep j.config k) = afterStep i.config k) :
    ((j.step m).followedBy act).visible = (i.step m).visible := by
  cases hw : m.fetch? with
  | none =>
      rw [step_of_fetch?_eq_none hw, step_of_fetch?_eq_none hw]
      simp only [Step.followedBy, Step.visible, Step.answer, hrandom]
  | some word =>
      have hsame := hexecute (Instruction.decode word) (by rw [Machine.instruction?, hw]; rfl)
      cases he : (Instruction.decode word).execute i.config i.random m.fetched with
      | error fault =>
          rw [step_of_execute_eq_error hw he, step_of_execute_eq_error hw (hsame.trans he)]
          simp only [Step.followedBy, Step.visible, Step.answer, hrandom]
      | ok effect =>
          rw [step_of_execute_eq_ok hw he, step_of_execute_eq_ok hw (hsame.trans he)]
          simp only [Step.followedBy, Step.visible, Step.answer, hafter]

theorem Step.machine_eq_of_visible {s t : Step} (h : t.visible = s.visible) :
    t.machine = s.machine :=
  congrArg (fun v : Answer × Random.Source => v.1.machine) h

namespace Lockstep

variable {R : Interpreter → Interpreter → Machine → List Request → Prop}

theorem history_eq (h : Lockstep f g R) (hr : R i j m requests) :
    (history g j m requests).map Step.visible = (history f i m requests).map Step.visible := by
  induction requests generalizing i j m with
  | nil => rfl
  | cons r rest ih =>
      obtain ⟨hvisible, hnext⟩ := h i j m r rest hr
      rw [history, history, List.map_cons, List.map_cons, hvisible,
        Step.machine_eq_of_visible hvisible, ih hnext]

theorem reached_eq (h : Lockstep f g R) (hr : R i j m requests) :
    (reached g j m requests).2 = (reached f i m requests).2 ∧
      R (reached f i m requests).1 (reached g j m requests).1 (reached f i m requests).2 [] := by
  induction requests generalizing i j m with
  | nil => exact ⟨rfl, hr⟩
  | cons r rest ih =>
      obtain ⟨hvisible, hnext⟩ := h i j m r rest hr
      rw [reached, reached, Step.machine_eq_of_visible hvisible]
      exact ih hnext

end Lockstep

theorem reached_append (f : Service) (i : Interpreter) (m : Machine)
    (requests others : List Request) :
    reached f i m (requests ++ others) =
      reached f (reached f i m requests).1 (reached f i m requests).2 others := by
  induction requests generalizing i m with
  | nil => rfl
  | cons r rest ih => exact ih (f i m r).interpreter (f i m r).machine

theorem Step.seen_eq {α : Type} {view : Machine → α} {s t : Step}
    (hresult : t.result = s.result) (hmachine : view t.machine = view s.machine)
    (hinterpreter : t.interpreter = s.interpreter) (hlog : t.log = s.log) :
    t.seen view = s.seen view := by
  simp only [seen, hresult, hmachine, hinterpreter, hlog]

theorem Step.view_eq_of_seen {α : Type} {view : Machine → α} {s t : Step}
    (h : t.seen view = s.seen view) : view t.machine = view s.machine :=
  congrArg (fun seen => seen.2.1) h

theorem Step.interpreter_eq_of_seen {α : Type} {view : Machine → α} {s t : Step}
    (h : t.seen view = s.seen view) : t.interpreter = s.interpreter :=
  congrArg (fun seen => seen.2.2.1) h

/-- Two machines that fetch one word are seen to go on alike, if this holds of the execution and
a tick at the end does not tell them apart. -/
theorem seen_step_congr {α : Type} {view : Machine → α} (hm : m.fetch? = some word)
    (hn : n.fetch? = some word) (hpc : n.pc = m.pc) (hfetched : view n.fetched = view m.fetched)
    (hexecute :
      ((Instruction.decode word).execute i.config i.random n.fetched).map (Effect.seen view) =
        ((Instruction.decode word).execute i.config i.random m.fetched).map (Effect.seen view))
    (hafter : ∀ k l : Machine, view k = view l →
      view (afterStep i.config k) = view (afterStep i.config l)) :
    (i.step n).seen view = (i.step m).seen view := by
  -- Both executions fail or both succeed, since what is seen of them is the same.
  cases he : (Instruction.decode word).execute i.config i.random m.fetched with
  | error fault =>
      cases hf : (Instruction.decode word).execute i.config i.random n.fetched with
      | error other =>
          rw [he, hf] at hexecute
          cases hexecute
          rw [step_of_execute_eq_error hm he, step_of_execute_eq_error hn hf, hpc]
          exact Step.seen_eq rfl hfetched rfl rfl
      | ok effect =>
          rw [he, hf] at hexecute
          cases hexecute
  | ok effect =>
      cases hf : (Instruction.decode word).execute i.config i.random n.fetched with
      | error other =>
          rw [he, hf] at hexecute
          cases hexecute
      | ok other =>
          rw [he, hf] at hexecute
          simp only [Except.map, Effect.seen, Except.ok.injEq, Prod.mk.injEq] at hexecute
          obtain ⟨hview, hrandom, hsignal, hlog⟩ := hexecute
          rw [step_of_execute_eq_ok hm he, step_of_execute_eq_ok hn hf, hrandom, hsignal, hlog,
            hpc]
          exact Step.seen_eq rfl (hafter _ _ hview) rfl rfl

end Interpreter

end Chip8
