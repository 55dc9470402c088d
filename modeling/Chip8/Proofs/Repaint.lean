import Chip8.Proofs.Batch
import Chip8.Proofs.Frame

/-!
# Repainting

A machine tells in two ways that its picture was touched: it remembers so until the next
step, and the step asks for the next frame. Both are set by the same instructions, and no
other instruction changes a pixel. A batch ends as soon as a step asks for the next frame, so
only its last step can touch the picture, and an update that does not ask for the next frame
leaves the picture as it was. A `Viewer` takes a new picture only when an update asks for it;
what it shows is never out of date.
-/

namespace Chip8

namespace Interpreter

variable {interpreter : Interpreter} {m : Machine} {i : Instruction}

theorem repainted_step_eq_true_iff :
    (interpreter.step m).machine.repainted = true ↔
      ∃ i, interpreter.executed? m = some i ∧ i.paints = true := by
  cases hi : interpreter.executed? m with
  | none =>
      simp [(step_of_executed?_eq_none hi).1, Machine.fetched]
  | some i => simp [repainted_step hi]

theorem result_step_eq_awaitFrame_iff :
    (interpreter.step m).result = .ok .awaitFrame ↔
      ∃ i, interpreter.executed? m = some i ∧ i.signal m = .awaitFrame := by
  cases hi : interpreter.executed? m with
  | none =>
      obtain ⟨fault, hf⟩ := executed?_eq_none_iff.1 hi
      simp [hf]
  | some i => simp [result_step hi]

theorem result_step_of_paints (hi : interpreter.executed? m = some i) (hp : i.paints = true) :
    (interpreter.step m).result = .ok .awaitFrame :=
  result_step_eq_awaitFrame_iff.2 ⟨i, hi, Instruction.signal_eq_awaitFrame_iff.2 (.inl hp)⟩

/-- Only a step that carries out a painting instruction changes the picture. -/
theorem picture_step_eq_or (interpreter : Interpreter) (m : Machine) :
    (interpreter.step m).machine.picture = m.picture ∨
      ∃ i, interpreter.executed? m = some i ∧ i.paints = true := by
  cases hi : interpreter.executed? m with
  | none =>
      rw [(step_of_executed?_eq_none hi).1]
      exact .inl rfl
  | some i =>
      cases hp : i.paints with
      | false => exact .inl (picture_step hi hp)
      | true => exact .inr ⟨i, rfl, hp⟩

end Interpreter

open Interpreter

theorem Machine.picture_iterate_tick (m : Machine) (k : Nat) :
    (Machine.tick^[k] m).picture = m.picture := by
  rw [← m.ticks_eq_iterate]
  rfl

namespace Pacer

variable {s : Interpreter × Machine} {n j budget : Nat} {p : Pacer} {dt : Float32} {u : Update}

/-- The instruction that the step `j` of a batch from `s` on carries out. -/
def batchInstruction? (s : Interpreter × Machine) (j : Nat) : Option Instruction :=
  (drive^[j] s).1.executed? (drive^[j] s).2

/-- A batch goes on only while no step asks for the next frame. -/
theorem Batch.last_of_paints {i : Instruction} (h : Batch s n u) (hj : j < n)
    (hi : batchInstruction? s j = some i) (hp : i.paints = true) : j + 1 = n := by
  have hawait : outcome (drive^[j] s) = .ok .awaitFrame := result_step_of_paints hi hp
  by_cases hlast : j + 1 < n
  · rw [h.proceeded j hlast] at hawait
    cases hawait
  · omega

theorem Batch.picture_eq (h : Batch s n u) (hu : u.result ≠ .ok .awaitFrame) :
    u.pacer.machine.picture = s.2.picture := by
  have hsame : ∀ j ≤ n, (drive^[j] s).2.picture = s.2.picture := by
    intro j
    induction j with
    | zero => exact fun _ => rfl
    | succ j ih =>
        intro hj
        rw [Function.iterate_succ_apply', ← ih (by omega)]
        rcases picture_step_eq_or (drive^[j] s).1 (drive^[j] s).2 with hkept | ⟨i, hi, hp⟩
        · exact hkept
        · -- A painting step would be the last one and settle the result.
          have hlast := h.last_of_paints (by omega) hi hp
          have hawait : outcome (drive^[n - 1] s) = .ok .awaitFrame := by
            rw [show n - 1 = j by omega]
            exact result_step_of_paints hi hp
          exact absurd (h.awaitFrame_iff.2 ⟨by omega, hawait⟩) hu
  have hn := hsame n (Nat.le_refl n)
  rw [← h.reached] at hn
  exact hn

theorem picture_update? (h : p.update? budget dt = some u) (hu : u.result ≠ .ok .awaitFrame) :
    u.pacer.machine.picture = p.machine.picture := by
  obtain ⟨k, n, -, hn⟩ := update?_batch h
  rw [hn.picture_eq hu]
  exact p.machine.picture_iterate_tick k

end Pacer

/-- A paced machine and the picture that is shown of it. -/
structure Viewer where
  pacer : Pacer
  shown : Picture

namespace Viewer

inductive Event
  | update (budget : Nat) (dt : Float32)
  | turnKey (k : Nibble) (pressed : Bool)

/-- The viewer after an event. The picture is taken anew only if an update asks for the next
frame. -/
def handle? (v : Viewer) : Event → Option Viewer
  | .update budget dt => (v.pacer.update? budget dt).map fun u =>
    ⟨u.pacer, if u.result = .ok .awaitFrame then u.pacer.machine.picture else v.shown⟩
  | .turnKey k pressed => some { v with pacer := v.pacer.turnKey k pressed }

def run? : Viewer → List Event → Option Viewer
  | v, [] => some v
  | v, event :: rest => (v.handle? event).bind fun w => w.run? rest

/-- What is shown is the picture of the machine. -/
def Current (v : Viewer) : Prop := v.shown = v.pacer.machine.picture

variable {v w : Viewer} {events : List Event}

theorem Current.handle? {event : Event} (h : v.Current) (hw : v.handle? event = some w) :
    w.Current := by
  cases event with
  | update budget dt =>
      obtain ⟨u, hu, rfl⟩ := Option.map_eq_some_iff.1 hw
      unfold Current
      split
      · rfl
      · rename_i hr
        rw [Pacer.picture_update? hu hr]
        exact h
  | turnKey k pressed =>
      cases hw
      exact h

theorem Current.run? (h : v.Current) (hw : v.run? events = some w) : w.Current := by
  induction events generalizing v with
  | nil =>
      cases hw
      exact h
  | cons event rest ih =>
      obtain ⟨next, hnext, hrest⟩ := Option.bind_eq_some_iff.1 hw
      exact ih (h.handle? hnext) hrest

end Viewer

/-- A step remembers that it touched the picture exactly if it cleared it or drew, and asks
for the next frame exactly if it did so or waited for a key; a step that changes a pixel does
both. Of the steps of an update at most one touches the picture, the last one, in whatever way
the update is read as a batch; an update that does not ask for the next frame leaves every
pixel as it was. So whoever takes a new picture only when an update asks for the next frame
always shows the current one. -/
theorem repaints_are_signalled :
    (∀ (interpreter : Interpreter) (m : Machine),
      ((interpreter.step m).machine.repainted = true ↔
        ∃ i, interpreter.executed? m = some i ∧ i.paints = true) ∧
      ((interpreter.step m).result = .ok .awaitFrame ↔
        ∃ i, interpreter.executed? m = some i ∧
          (i.paints = true ∨ (∃ x, i = .awaitKey x) ∧ ∀ k, m.keypad.entry k = false)) ∧
      ∀ x y, (interpreter.step m).machine.picture.lit x y ≠ m.picture.lit x y →
        (interpreter.step m).machine.repainted = true ∧
          (interpreter.step m).result = .ok .awaitFrame) ∧
    (∀ (p : Pacer) (budget : Nat) (dt : Float32) (u : Pacer.Update),
      p.update? budget dt = some u →
      (∃ k n, Pacer.Batch (p.interpreter, Machine.tick^[k] p.machine) n u) ∧
      (∀ k n j, Pacer.Batch (p.interpreter, Machine.tick^[k] p.machine) n u → j < n →
        ∀ i, Pacer.batchInstruction? (p.interpreter, Machine.tick^[k] p.machine) j = some i →
          i.paints = true → j + 1 = n) ∧
      (u.result ≠ .ok .awaitFrame → u.pacer.machine.picture = p.machine.picture)) ∧
    ∀ (v w : Viewer) (events : List Viewer.Event), v.shown = v.pacer.machine.picture →
      v.run? events = some w → w.shown = w.pacer.machine.picture := by
  refine ⟨fun interpreter m => ⟨repainted_step_eq_true_iff, ?_, fun x y hxy => ?_⟩, ?_, ?_⟩
  · simp only [result_step_eq_awaitFrame_iff, Instruction.signal_eq_awaitFrame_iff]
  · rcases picture_step_eq_or interpreter m with hkept | ⟨i, hi, hp⟩
    · rw [hkept] at hxy
      exact absurd rfl hxy
    · exact ⟨repainted_step_eq_true_iff.2 ⟨i, hi, hp⟩, result_step_of_paints hi hp⟩
  · intro p budget dt u hu
    obtain ⟨k, n, -, hn⟩ := Pacer.update?_batch hu
    exact ⟨⟨k, n, hn⟩, fun k n j hbatch hj i hi hp => hbatch.last_of_paints hj hi hp,
      fun hr => Pacer.picture_update? hu hr⟩
  · intro v w events hv hw
    exact Viewer.Current.run? hv hw

/-- A machine that draws the glyph of zero and then jumps in place. -/
def glyphMachine : Machine :=
  { Machine.powerOn with
    memory := Machine.powerOn.memory.store Machine.start [0xD0, 0x05, 0x12, 0x02]
    index := 0x50 }

/-- The first pixel of the glyph gives the drawing step away. The glyph is shown after the
update that drew it, and stays while a key is pressed and the machine jumps in place. -/
theorem repaints_are_signalled_of_glyph :
    ((Interpreter.ofConfig {} 0).step glyphMachine).result = .ok .awaitFrame ∧
    ∃ u v w, (Pacer.ofRate glyphMachine (.ofConfig {} 0) 100.0).update? 4 0.03 = some u ∧
      (u.pacer.turnKey (Nibble.ofNat 3) true).update? 4 0.02 = some v ∧
      v.pacer.machine.picture = u.pacer.machine.picture ∧
      Viewer.run? ⟨.ofRate glyphMachine (.ofConfig {} 0) 100.0, .blank⟩
        [.update 4 0.03, .turnKey (Nibble.ofNat 3) true, .update 4 0.02] = some w ∧
      w.shown = w.pacer.machine.picture ∧ w.shown ≠ .blank := by
  have hpixel : ((Interpreter.ofConfig {} 0).step glyphMachine).machine.picture.lit 0 0 ≠
      glyphMachine.picture.lit 0 0 := by
    decide +kernel
  have hupdates : (((Pacer.ofRate glyphMachine (.ofConfig {} 0) 100.0).update? 4 0.03).bind
      fun u => ((u.pacer.turnKey (Nibble.ofNat 3) true).update? 4 0.02).map
        Pacer.Update.result) = some (.ok .proceed) := by
    decide +kernel
  have hrun : (Viewer.run? ⟨.ofRate glyphMachine (.ofConfig {} 0) 100.0, .blank⟩
      [.update 4 0.03, .turnKey (Nibble.ofNat 3) true, .update 4 0.02]).map
        (fun w => decide (w.shown = .blank)) = some false := by
    decide +kernel
  obtain ⟨u, hu, hlater⟩ := Option.bind_eq_some_iff.1 hupdates
  obtain ⟨v, hv, hproceed⟩ := Option.map_eq_some_iff.1 hlater
  obtain ⟨w, hw, hshown⟩ := Option.map_eq_some_iff.1 hrun
  obtain ⟨-, -, hchanged⟩ := repaints_are_signalled.1 (.ofConfig {} 0) glyphMachine
  obtain ⟨-, -, hsame⟩ := repaints_are_signalled.2.1 _ _ _ _ hv
  have hcurrent := repaints_are_signalled.2.2 _ w _ rfl hw
  exact ⟨(hchanged 0 0 hpixel).2, u, v, w, hu, hv, hsame (by simp [hproceed]), hw, hcurrent,
    of_decide_eq_false hshown⟩

end Chip8
