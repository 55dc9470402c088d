import Chip8.Proofs.Batch

/-!
# Runs of a machine

An `Action` is one thing that may be done to a machine from outside: a step by some
interpreter, a tick, a turn of a key, a program or a reset, or an update by a pacer that
is given the machine. A run performs actions one after the other. Only an update may be
without an end, and then so is the run. A machine is `Reachable` if a run leads to it
from a machine that is fresh.
-/

namespace Chip8

inductive Action
  | step (interpreter : Interpreter)
  | tick
  | turnKey (k : Nibble) (pressed : Bool)
  | load (program : List UInt8)
  | reset
  /-- The pacer is given the machine, and then the time `dt`. -/
  | update (pacer : Pacer) (budget : Nat) (dt : Float32)

namespace Action

/-- The actions other than resets and updates. -/
def IsPlain : Action → Prop
  | step _ => True
  | tick => True
  | turnKey _ _ => True
  | load _ => True
  | reset => False
  | update _ _ _ => False

/-- The actions by which a loaded program is run. -/
def Drives : Action → Prop
  | step _ => True
  | tick => True
  | turnKey _ _ => True
  | load _ => False
  | reset => False
  | update _ _ _ => False

end Action

namespace Machine

/-- The machine after a program was put into it, the same one if that was refused. -/
def loaded (m : Machine) (program : List UInt8) : Machine :=
  match (m.load program).value with
  | .ok n => n
  | .error _ => m

def perform? (m : Machine) : Action → Option Machine
  | .step interpreter => some (interpreter.step m).machine
  | .tick => some m.tick
  | .turnKey k pressed => some (m.turnKey k pressed)
  | .load program => some (m.loaded program)
  | .reset => some m.reset
  | .update pacer budget dt =>
    (Pacer.update? budget { pacer with machine := m } dt).map fun u => u.pacer.machine

def run? : Machine → List Action → Option Machine
  | m, [] => some m
  | m, action :: rest => (m.perform? action).bind fun n => n.run? rest

/-- What a run records, action by action. -/
def trace {α : Type} (record : Machine → Action → List α) : Machine → List Action → List α
  | _, [] => []
  | m, action :: rest =>
    record m action ++ ((m.perform? action).map fun n => n.trace record rest).getD []

/-- A machine that has just been switched on, with or without a program. -/
inductive Fresh : Machine → Prop
  | bare : Fresh powerOn
  | ofProgram {program : List UInt8} {m : Machine} (h : (ofProgram program).value = .ok m) :
      Fresh m

def Reachable (m : Machine) : Prop :=
  ∃ start actions, Fresh start ∧ start.run? actions = some m

variable {m n : Machine} {actions : List Action}

theorem run?_append (m : Machine) (first rest : List Action) :
    m.run? (first ++ rest) = (m.run? first).bind fun n => n.run? rest := by
  induction first generalizing m with
  | nil => rfl
  | cons action first ih =>
      rw [List.cons_append, run?, run?, Option.bind_assoc]
      exact congrArg _ (funext ih)

/-- What every action of a run preserves holds at the end of the run. -/
theorem run?_induction {P : Machine → Prop} (h : m.run? actions = some n) (hm : P m)
    (hstep : ∀ action ∈ actions, ∀ k l, P k → k.perform? action = some l → P l) : P n := by
  induction actions generalizing m with
  | nil =>
      cases h
      exact hm
  | cons action rest ih =>
      obtain ⟨k, hk, hrest⟩ := Option.bind_eq_some_iff.1 h
      have hp := hstep action List.mem_cons_self m k hm hk
      exact ih hrest hp fun a ha => hstep a (List.mem_cons_of_mem action ha)

/-- Without updates every run comes to an end. -/
theorem exists_run?_of_isPlain (h : ∀ action ∈ actions, action.IsPlain) :
    ∃ n, m.run? actions = some n := by
  induction actions generalizing m with
  | nil => exact ⟨m, rfl⟩
  | cons action rest ih =>
      have hrest : ∀ k : Machine, ∃ n, k.run? rest = some n := fun k =>
        ih fun a ha => h a (List.mem_cons_of_mem action ha)
      cases action with
      | update => exact (h _ List.mem_cons_self).elim
      | _ => exact hrest _

section Trace

variable {α β : Type} {record : Machine → Action → List α}

theorem trace_cons {action : Action} {rest : List Action} (h : m.perform? action = some n) :
    m.trace record (action :: rest) = record m action ++ n.trace record rest := by
  rw [trace, h, Option.map_some, Option.getD_some]

/-- What a run records it records in its first part, or in the rest from where that has led. -/
theorem trace_append (m : Machine) (first rest : List Action) :
    m.trace record (first ++ rest) =
      m.trace record first ++ ((m.run? first).map fun n => n.trace record rest).getD [] := by
  induction first generalizing m with
  | nil => rfl
  | cons action first ih =>
      rw [List.cons_append, trace, trace, run?, List.append_assoc]
      cases m.perform? action with
      | none => rfl
      | some k => rw [Option.map_some, Option.getD_some, ih]; rfl

/-- If every action of a run keeps the machine in step with a value that its records move, then
at the end of the run the machine is in step with that value moved by the whole trace. -/
theorem run?_trace {P : Machine → β → Prop} {after : β → α → β} {b : β}
    (h : m.run? actions = some n) (hm : P m b)
    (hstep : ∀ action ∈ actions, ∀ k l c, P k c → k.perform? action = some l →
      P l ((record k action).foldl after c)) : P n ((m.trace record actions).foldl after b) := by
  induction actions generalizing m b with
  | nil =>
      cases h
      exact hm
  | cons action rest ih =>
      obtain ⟨k, hk, hrest⟩ := Option.bind_eq_some_iff.1 h
      have hhead := hstep action List.mem_cons_self m k b hm hk
      rw [trace_cons hk, List.foldl_append]
      exact ih hrest hhead fun a ha => hstep a (List.mem_cons_of_mem action ha)

/-- A part of the machine that every action moves as its records say is moved by a run as the
trace of the run says. -/
theorem run?_foldl_trace {view : Machine → β} {after : β → α → β} (h : m.run? actions = some n)
    (hstep : ∀ action ∈ actions, ∀ k l, k.perform? action = some l →
      view l = (record k action).foldl after (view k)) :
    view n = (m.trace record actions).foldl after (view m) := by
  refine run?_trace (P := fun k b => view k = b) h rfl fun action hmem k l c hk hl => ?_
  rw [← hk]
  exact hstep action hmem k l hl

end Trace

/-- A program moves nothing but memory, and does so without regard to the machine. -/
theorem loaded_eq (m : Machine) (program : List UInt8) :
    m.loaded program = { m with memory :=
      if program.length ≤ capacity then m.memory.store start program else m.memory } := by
  unfold loaded load
  by_cases h : program.length ≤ capacity
  · simp only [if_pos h]
  · simp only [if_neg h]

theorem loaded_eq_or (m : Machine) (program : List UInt8) :
    m.loaded program = m ∨
      m.loaded program = { m with memory := m.memory.store start program } := by
  rw [loaded_eq]
  split
  · exact .inr rfl
  · exact .inl rfl

/-- The fresh machines differ from each other in memory only. -/
theorem Fresh.eq_powerOn (h : Fresh m) : ∃ memory, m = { powerOn with memory := memory } := by
  cases h with
  | bare => exact ⟨_, rfl⟩
  | ofProgram h => exact ⟨_, (load_eq_ok_iff.1 h).2⟩

end Machine

end Chip8
