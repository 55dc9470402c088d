import Chip8.Proofs.Encoding
import Chip8.Proofs.History

/-!
# Toggles

Two configurations may differ in their policy on unknown words, in the register that shifts
read and in what becomes of the flag register after `or`, `and` and `xor`. An instruction meets
such a difference, `Instruction.meetsToggle`, only where it asks for the toggle in question and
the answers lead to different effects; every other instruction has one effect under both. So
two interpreters with one source of random bytes do the same until a difference is met, and
where they part at an unknown word, `PartAt` says how.
-/

namespace Chip8

namespace Operation

variable {c d : Config} {a b : UInt8}

/-- Whether the result of an operation on `a` and `b` depends on a toggle in which `c` and `d`
differ. -/
def meetsToggle (c d : Config) (a b : UInt8) : Operation → Bool
  | or => c.logicResetsFlag != d.logicResetsFlag
  | and => c.logicResetsFlag != d.logicResetsFlag
  | xor => c.logicResetsFlag != d.logicResetsFlag
  | shiftRight => c.shiftSource != d.shiftSource && a != b
  | shiftLeft => c.shiftSource != d.shiftSource && a != b
  | _ => false

theorem shifted_congr (h : (c.shiftSource != d.shiftSource && a != b) = false) :
    shifted d a b = shifted c a b := by
  rw [Bool.and_eq_false_iff] at h
  obtain hsource | hbytes := h
  · rw [shifted, shifted, bne_eq_false_iff_eq.1 hsource]
  · rw [bne_eq_false_iff_eq.1 hbytes]
    unfold shifted
    split <;> split <;> rfl

theorem apply_congr {operation : Operation} (h : operation.meetsToggle c d a b = false) :
    operation.apply d a b = operation.apply c a b := by
  cases operation with
  | or | and | xor =>
      have hflag : c.logicResetsFlag = d.logicResetsFlag := bne_eq_false_iff_eq.1 h
      simp only [apply, logicFlag, hflag]
  | shiftRight | shiftLeft => simp only [apply, shifted_congr h]
  | _ => rfl

end Operation

namespace Instruction

variable {c d : Config} {random : Random.Source} {m : Machine} {i : Instruction}

/-- Whether the effect of an instruction depends on a toggle in which `c` and `d` differ. -/
def meetsToggle (c d : Config) (m : Machine) : Instruction → Bool
  | operate operation x y => operation.meetsToggle c d (m.register x) (m.register y)
  | unknown _ => c.unknownPolicy != d.unknownPolicy
  | _ => false

/-- An instruction asks a configuration for nothing but the toggles that it meets. -/
theorem execute_congr (h : i.meetsToggle c d m = false) :
    i.execute d random m = i.execute c random m := by
  cases i with
  | operate operation x y =>
      have happly : operation.apply d (m.advance.register x) (m.advance.register y) =
          operation.apply c (m.advance.register x) (m.advance.register y) :=
        Operation.apply_congr h
      simp only [execute, Machine.operate, happly]
  | unknown word =>
      have hpolicy : c.unknownPolicy = d.unknownPolicy := bne_eq_false_iff_eq.1 h
      simp only [execute, hpolicy]
  | _ => rfl

theorem meetsToggle_fetched (i : Instruction) (m : Machine) :
    i.meetsToggle c d m.fetched = i.meetsToggle c d m := by
  cases i <;> rfl

/-- The mode of the timers is no toggle. -/
theorem meetsToggle_timerMode (c : Config) (mode : TimerMode) (m : Machine) (i : Instruction) :
    i.meetsToggle c { c with timerMode := mode } m = false := by
  cases i with
  | operate operation x y => cases operation <;> simp [meetsToggle, Operation.meetsToggle]
  | unknown word => simp [meetsToggle]
  | _ => rfl

end Instruction

namespace Interpreter

variable {first second strict lenient : Interpreter} {m : Machine} {i : Instruction}
  {requests : List Request} {word : Word}

/-- Whether a request is a step that meets a toggle in which the configuration `other`
differs. -/
def meets (other : Config) (interpreter : Interpreter) (m : Machine) : Request → Bool
  | .step => m.instruction?.any (Instruction.meetsToggle interpreter.config other m)
  | _ => false

/-- Whether one of the requests is such a step when its turn comes. -/
def meetsToggle (other : Config) : Interpreter → Machine → List Request → Bool
  | _, _, [] => false
  | interpreter, m, r :: rest =>
    interpreter.meets other m r ||
      meetsToggle other (interpreter.serve m r).interpreter (interpreter.serve m r).machine rest

/-- Two interpreters with one source and one mode of the timers, of which the first one will
carry out the requests without meeting a toggle in which they differ. -/
structure Undivided (first second : Interpreter) (m : Machine) (requests : List Request) :
    Prop where
  random : second.random = first.random
  timerMode : second.config.timerMode = first.config.timerMode
  free : first.meetsToggle second.config m requests = false

/-- At an unknown word the strict interpreter fails and stays, and the lenient one goes on. Its
machine is the other one past the word, and if it drives the timers then after a tick. -/
structure PartAt (strict lenient : Interpreter) (m : Machine) (word : Word) : Prop where
  fetched : m.fetch? = some word
  refused : (strict.step m).result = .error (.unknownWord word m.pc)
  stays : (strict.step m).machine.pc = m.pc
  skipped : (lenient.step m).result = .ok .proceed
  advanced : (lenient.step m).machine.pc.toNat = (strict.step m).machine.pc.toNat + 2
  machine : (lenient.step m).machine =
    afterStep lenient.config (strict.step m).machine.advance
  random : (lenient.step m).interpreter.random = (strict.step m).interpreter.random

theorem visible_step_congr (hrandom : second.random = first.random)
    (hmode : second.config.timerMode = first.config.timerMode)
    (hfree : first.meets second.config m .step = false) :
    (second.step m).visible = (first.step m).visible := by
  rw [← Step.followedBy_id (second.step m)]
  refine visible_step_followedBy hrandom (fun instruction hi => ?_) (fun k => ?_)
  · rw [meets, hi, Option.any_some, ← Instruction.meetsToggle_fetched] at hfree
    rw [hrandom, Instruction.execute_congr hfree]
  · rw [afterStep, afterStep, hmode, id]

theorem visible_serve_congr {r : Request} (hrandom : second.random = first.random)
    (hmode : second.config.timerMode = first.config.timerMode)
    (hfree : first.meets second.config m r = false) :
    (second.serve m r).visible = (first.serve m r).visible := by
  cases r with
  | step => exact visible_step_congr hrandom hmode hfree
  | _ => simp only [serve, Step.visible, Step.answer, reset, hrandom]

@[simp] theorem config_serve (interpreter : Interpreter) (m : Machine) (r : Request) :
    (interpreter.serve m r).interpreter.config = interpreter.config := by
  rw [interpreter_serve, spend]

@[simp] theorem config_reached_serve (interpreter : Interpreter) (m : Machine)
    (requests : List Request) :
    (reached serve interpreter m requests).1.config = interpreter.config := by
  induction requests generalizing interpreter m with
  | nil => rfl
  | cons r rest ih => rw [reached, ih, config_serve]

theorem lockstep_undivided : Lockstep serve serve Undivided := by
  intro first second m r rest ⟨hrandom, hmode, hfree⟩
  rw [meetsToggle, Bool.or_eq_false_iff] at hfree
  have hvisible := visible_serve_congr hrandom hmode hfree.1
  refine ⟨hvisible, congrArg Prod.snd hvisible, ?_, ?_⟩
  · rw [config_serve, config_serve, hmode]
  · rw [config_serve]
    exact hfree.2

/-- Two interpreters that disagree about unknown words part at the first one. -/
theorem partAt_of_unknown (hi : m.instruction? = some (.unknown word))
    (hstrict : strict.config.unknownPolicy = .strict)
    (hlenient : lenient.config.unknownPolicy = .lenient)
    (hrandom : lenient.random = strict.random) : PartAt strict lenient m word := by
  obtain ⟨fetched, hw, hdecode⟩ := Option.map_eq_some_iff.1 hi
  obtain rfl := Instruction.eq_of_decode_eq_unknown hdecode
  have hrefused : (strict.step m).result = .error (.unknownWord word m.pc) := by
    rw [result_step_eq_error_iff, Machine.fault?_of_instruction? hi, hstrict]
    rfl
  obtain ⟨hstrictMachine, hstrictInterpreter⟩ := step_of_error hrefused
  have hexecuted : lenient.executed? m = some (.unknown word) := by
    refine executed?_of_instruction? hi ?_
    rw [hlenient]
    rfl
  obtain ⟨effect, he, hresult, hmachine, hinterpreter⟩ := execute_of_executed? hexecuted
  obtain ⟨-, rfl⟩ := Instruction.of_execute_unknown he
  have hpc : (m.pc + 2).toNat = m.pc.toNat + 2 := toNat_add_two (pc_le_of_executed? hexecuted)
  refine ⟨hw, hrefused, ?_, hresult, ?_, ?_, ?_⟩
  · rw [hstrictMachine]
    rfl
  · rw [hmachine, hstrictMachine, pc_afterStep]
    exact hpc
  · rw [hmachine, hstrictMachine]
  · rw [hinterpreter, hstrictInterpreter, hrandom]

/-- Toggles are independent. Two interpreters with one source of random bytes and one mode of
the timers carry out any requests alike, whatever their other toggles, as long as no step of
the first one meets a toggle in which they differ. Where they then stand at an unknown word
about which they disagree, they part as `PartAt` says. -/
theorem toggles_are_orthogonal (hrandom : second.random = first.random)
    (hmode : second.config.timerMode = first.config.timerMode)
    (hfree : first.meetsToggle second.config m requests = false) :
    (history serve second m requests).map Step.visible =
        (history serve first m requests).map Step.visible ∧
      ∃ n, (reached serve first m requests).2 = n ∧ (reached serve second m requests).2 = n ∧
        (reached serve second m requests).1.random =
          (reached serve first m requests).1.random ∧
        ∀ word, n.instruction? = some (.unknown word) →
          (first.config.unknownPolicy = .strict → second.config.unknownPolicy = .lenient →
            PartAt (reached serve first m requests).1 (reached serve second m requests).1
              n word) ∧
          (first.config.unknownPolicy = .lenient → second.config.unknownPolicy = .strict →
            PartAt (reached serve second m requests).1 (reached serve first m requests).1
              n word) := by
  have hundivided : Undivided first second m requests := ⟨hrandom, hmode, hfree⟩
  obtain ⟨hmachine, hreached⟩ := lockstep_undivided.reached_eq hundivided
  refine ⟨lockstep_undivided.history_eq hundivided, _, rfl, hmachine, hreached.random, ?_⟩
  intro word hi
  refine ⟨fun hfirst hsecond => ?_, fun hfirst hsecond => ?_⟩
  · exact partAt_of_unknown hi (by rwa [config_reached_serve]) (by rwa [config_reached_serve])
      hreached.random
  · exact partAt_of_unknown hi (by rwa [config_reached_serve]) (by rwa [config_reached_serve])
      hreached.random.symm

/-- A shift of two equal registers and then a word that stands for nothing. -/
def quietShift : Machine :=
  Machine.powerOn.loaded [0x60, 0x05, 0x61, 0x05, 0x80, 0x16, 0x01, 0x23]

def quietShiftRequests : List Request :=
  [.step, .turnKey (Nibble.ofNat 3) true, .step, .tick, .step]

/-- An interpreter with all toggles as they are by default. -/
def untoggled : Interpreter := ⟨{}, .ofSeed 0⟩

/-- An interpreter with all toggles the other way. -/
def toggled : Interpreter :=
  ⟨{ unknownPolicy := .lenient, shiftSource := .vy, logicResetsFlag := true }, .ofSeed 0⟩

/-- They shift alike, since the registers are equal, and part at the word after it. -/
theorem toggles_are_orthogonal_of_quietShift :
    (history serve toggled quietShift quietShiftRequests).map Step.visible =
        (history serve untoggled quietShift quietShiftRequests).map Step.visible ∧
      PartAt (reached serve untoggled quietShift quietShiftRequests).1
        (reached serve toggled quietShift quietShiftRequests).1
        (reached serve untoggled quietShift quietShiftRequests).2 0x0123 := by
  have hrandom : toggled.random = untoggled.random := rfl
  have hmode : toggled.config.timerMode = untoggled.config.timerMode := rfl
  have hfree : untoggled.meetsToggle toggled.config quietShift quietShiftRequests = false := by
    decide +kernel
  have hunknown : (reached serve untoggled quietShift quietShiftRequests).2.instruction? =
      some (.unknown 0x0123) := by
    decide +kernel
  obtain ⟨hhistory, n, rfl, -, -, hpart⟩ := toggles_are_orthogonal hrandom hmode hfree
  exact ⟨hhistory, (hpart 0x0123 hunknown).1 rfl rfl⟩

end Interpreter

end Chip8
