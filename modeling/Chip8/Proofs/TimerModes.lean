import Chip8.Proofs.Toggles

/-!
# Who drives the timers

An interpreter may drive the timers itself, or leave that to whoever drives the interpreter.
`serveTicked` is such a driver: it ticks the timers after every step that succeeds, and not
after one that fails. The two ways cannot be told apart. No instruction asks for the mode, so
the tick at the end of a step is all that depends on it.
-/

namespace Chip8.Interpreter

variable {i j : Interpreter}

/-- Requests carried out by an interpreter whose driver ticks the timers. -/
def serveTicked : Service
  | interpreter, m, .step => (interpreter.step m).followedBy Machine.tick
  | interpreter, m, r => interpreter.serve m r

/-- Of two interpreters that agree in all else, the first one drives the timers and the second
one does not. -/
structure Relieved (i j : Interpreter) : Prop where
  random : j.random = i.random
  config : j.config = { i.config with timerMode := .external }
  timerMode : i.config.timerMode = .perStep

@[simp] theorem interpreter_serveTicked (interpreter : Interpreter) (m : Machine) (r : Request) :
    (serveTicked interpreter m r).interpreter = (interpreter.serve m r).interpreter := by
  cases r with
  | step => exact Step.interpreter_followedBy _ _
  | _ => rfl

theorem Relieved.visible_step (h : Relieved i j) (m : Machine) :
    ((j.step m).followedBy Machine.tick).visible = (i.step m).visible := by
  refine visible_step_followedBy h.random (fun instruction _ => ?_) (fun k => ?_)
  · rw [h.config, h.random]
    exact Instruction.execute_congr (Instruction.meetsToggle_timerMode _ _ _ _)
  · rw [afterStep, afterStep, h.config, h.timerMode]

theorem Relieved.visible_serve (h : Relieved i j) (m : Machine) (r : Request) :
    (serveTicked j m r).visible = (i.serve m r).visible := by
  cases r with
  | step => exact h.visible_step m
  | _ => simp only [serveTicked, serve, Step.visible, Step.answer, reset, h.random]

theorem lockstep_relieved : Lockstep serve serveTicked fun i j _ _ => Relieved i j := by
  intro i j m r rest h
  have hvisible := h.visible_serve m r
  refine ⟨hvisible, congrArg Prod.snd hvisible, ?_, ?_⟩
  · rw [interpreter_serveTicked, config_serve, config_serve, h.config]
  · rw [config_serve, h.timerMode]

/-- The two modes of the timers agree. An interpreter that drives the timers gives the same
answers, machines and random bytes as one that differs from it in the mode only and whose
driver ticks the timers after every step that succeeds. -/
theorem timer_modes_agree (config : Config) (random : Random.Source) (m : Machine)
    (requests : List Request) :
    (history serveTicked ⟨{ config with timerMode := .external }, random⟩ m requests).map
        Step.visible =
      (history serve ⟨{ config with timerMode := .perStep }, random⟩ m requests).map
        Step.visible :=
  lockstep_relieved.history_eq ⟨rfl, rfl, rfl⟩

end Chip8.Interpreter
