import Chip8.Proofs.Encoding
import Chip8.Proofs.Execution

/-!
# What a step leaves behind

A step fetches, executes and may tick the timers. `Machine.fault?` says whether and why
the next step fails, and it asks for nothing but the program counter, memory, the stack
and the policy on unknown words. `Interpreter.executed?` is the instruction that a step
carries out. A step that fails leaves `Machine.fetched` behind; after a step that
succeeds the laws of `Instruction.execute` hold between the machine before and after,
since fetching and ticking touch none of what they speak about.
-/

namespace Chip8

namespace Machine

/-- The next instruction, absent if it does not lie in memory. -/
def instruction? (m : Machine) : Option Instruction := m.fetch?.map Instruction.decode

def fault? (m : Machine) (policy : UnknownPolicy) : Option Fault :=
  match m.fetch? with
  | none => some (.fetchOutOfBounds m.pc)
  | some word => (Instruction.decode word).fault? policy m

/-- The machine that has fetched its next word, or tried to. -/
def fetched (m : Machine) : Machine :=
  { m with repainted := false, word := m.fetch?.getD m.word }

theorem fetch?_eq_some_iff {m : Machine} {word : Word} :
    m.fetch? = some word ↔ m.pc.toNat ≤ 0xFFE ∧ word = m.memory.word m.pc.toNat := by
  unfold fetch? Memory.size
  split
  · rename_i h
    simp only [Option.some.injEq, eq_comm]
    exact ⟨fun hw => ⟨by omega, hw⟩, fun hw => hw.2⟩
  · rename_i h
    simp only [reduceCtorEq, false_iff, not_and]
    omega

theorem fetched_of_fetch?_eq_some {m : Machine} {word : Word} (h : m.fetch? = some word) :
    m.fetched = { m with repainted := false, word } := by
  simp [fetched, h]

/-- Whether the next step fails is settled by these three components and the policy. -/
theorem fault?_congr {m n : Machine} {policy : UnknownPolicy} (hpc : n.pc = m.pc)
    (hmemory : n.memory = m.memory) (hstack : n.stack = m.stack) :
    n.fault? policy = m.fault? policy := by
  have hfetch : n.fetch? = m.fetch? := by rw [fetch?, fetch?, hpc, hmemory]
  unfold fault?
  rw [hfetch, hpc]
  cases m.fetch? with
  | none => rfl
  | some word => exact Instruction.fault?_congr hpc hstack

theorem fault?_of_instruction? {m : Machine} {policy : UnknownPolicy} {i : Instruction}
    (h : m.instruction? = some i) : m.fault? policy = i.fault? policy m := by
  obtain ⟨word, hw, rfl⟩ := Option.map_eq_some_iff.1 h
  rw [fault?, hw]

theorem fetch?_of_instruction? {m : Machine} {i : Instruction} (h : m.instruction? = some i) :
    m.fetch? = some i.encode := by
  obtain ⟨word, hw, rfl⟩ := Option.map_eq_some_iff.1 h
  rw [hw, Instruction.encode_decode]

/-- The next instruction is a known one if the word that stands for it is met. -/
theorem instruction?_eq_some_iff {m : Machine} {i : Instruction}
    (hi : ∀ word, i ≠ .unknown word) : m.instruction? = some i ↔ m.fetch? = some i.encode := by
  refine ⟨fetch?_of_instruction?, fun h => ?_⟩
  rw [instruction?, h, Option.map_some, (Instruction.decode_eq_iff hi).2 rfl]

end Machine

/-- The ticks at the end of a step that succeeds. -/
def Config.ticksPerStep (config : Config) : Nat :=
  match config.timerMode with
  | .perStep => 1
  | .external => 0

/-! No instruction asks for the word fetched last or for whether the picture was touched. -/

namespace Instruction

variable (i : Instruction) (m : Machine)

theorem target_fetched : i.target m.fetched = i.target m := by cases i <;> rfl

theorem indexAfter_fetched : i.indexAfter m.fetched = i.indexAfter m := by cases i <;> rfl

theorem stackAfter?_fetched : i.stackAfter? m.fetched = i.stackAfter? m := by cases i <;> rfl

theorem timersAfter_fetched : i.timersAfter m.fetched = i.timersAfter m := by cases i <;> rfl

end Instruction

namespace Interpreter

variable {interpreter : Interpreter} {m : Machine} {i : Instruction}

/-- The instruction that a step carries out, absent if the step fails. -/
def executed? (interpreter : Interpreter) (m : Machine) : Option Instruction :=
  match (interpreter.step m).result with
  | .ok _ => m.instruction?
  | .error _ => none

theorem step_of_execute_eq_error {word : Word} {fault : Fault} (hw : m.fetch? = some word)
    (he : (Instruction.decode word).execute interpreter.config interpreter.random m.fetched
      = .error fault) :
    interpreter.step m = ⟨.error fault, m.fetched, interpreter, [.fetched m.pc word]⟩ := by
  rw [Machine.fetched_of_fetch?_eq_some hw] at he ⊢
  rw [step_of_fetch?_eq_some hw, executeWord, he]

theorem step_of_execute_eq_ok {word : Word} {effect : Effect} (hw : m.fetch? = some word)
    (he : (Instruction.decode word).execute interpreter.config interpreter.random m.fetched
      = .ok effect) :
    interpreter.step m = ⟨.ok effect.signal, afterStep interpreter.config effect.machine,
      { interpreter with random := effect.random }, .fetched m.pc word :: effect.log⟩ := by
  rw [Machine.fetched_of_fetch?_eq_some hw] at he
  rw [step_of_fetch?_eq_some hw, executeWord, he]

theorem result_step_eq_error_iff {fault : Fault} :
    (interpreter.step m).result = .error fault ↔
      m.fault? interpreter.config.unknownPolicy = some fault := by
  cases hw : m.fetch? with
  | none => simp [Machine.fault?, step_of_fetch?_eq_none hw, hw]
  | some word =>
      have hfault : m.fault? interpreter.config.unknownPolicy =
          (Instruction.decode word).fault? interpreter.config.unknownPolicy m.fetched := by
        rw [Machine.fault?, hw]
        exact (Instruction.fault?_congr rfl rfl).symm
      have hexecute : (Instruction.decode word).execute interpreter.config interpreter.random
          m.fetched = .error fault ↔ _ := Instruction.execute_eq_error_iff
      rw [hfault, ← hexecute]
      cases he : (Instruction.decode word).execute interpreter.config interpreter.random
        m.fetched with
      | error other => simp [step_of_execute_eq_error hw he]
      | ok effect => simp [step_of_execute_eq_ok hw he]

/-- A step that fails has fetched, and done nothing else. -/
theorem step_of_error {fault : Fault} (h : (interpreter.step m).result = .error fault) :
    (interpreter.step m).machine = m.fetched ∧ (interpreter.step m).interpreter = interpreter := by
  cases hw : m.fetch? with
  | none => simp [step_of_fetch?_eq_none hw, Machine.fetched, hw]
  | some word =>
      cases he : (Instruction.decode word).execute interpreter.config interpreter.random
        m.fetched with
      | error other =>
          rw [step_of_execute_eq_error hw he]
          exact ⟨rfl, rfl⟩
      | ok effect =>
          rw [step_of_execute_eq_ok hw he] at h
          cases h

/-- A step that succeeds has fetched, executed and then ticked as the configuration says. -/
theorem step_of_ok {signal : Signal} (h : (interpreter.step m).result = .ok signal) :
    ∃ word effect, m.fetch? = some word ∧
      (Instruction.decode word).execute interpreter.config interpreter.random m.fetched
        = .ok effect ∧
      effect.signal = signal ∧
      (interpreter.step m).machine = afterStep interpreter.config effect.machine ∧
      (interpreter.step m).interpreter = { interpreter with random := effect.random } := by
  cases hw : m.fetch? with
  | none => simp [step_of_fetch?_eq_none hw] at h
  | some word =>
      cases he : (Instruction.decode word).execute interpreter.config interpreter.random
        m.fetched with
      | error fault =>
          rw [step_of_execute_eq_error hw he] at h
          cases h
      | ok effect =>
          rw [step_of_execute_eq_ok hw he] at h ⊢
          cases h
          exact ⟨word, effect, rfl, he, rfl, rfl, rfl⟩

theorem result_step_eq_ok_of_executed? (h : interpreter.executed? m = some i) :
    ∃ signal, (interpreter.step m).result = .ok signal := by
  unfold executed? at h
  split at h
  · rename_i signal hs
    exact ⟨signal, hs⟩
  · cases h

theorem instruction?_of_executed? (h : interpreter.executed? m = some i) :
    m.instruction? = some i := by
  unfold executed? at h
  split at h
  · exact h
  · cases h

theorem pc_le_of_executed? (h : interpreter.executed? m = some i) : m.pc.toNat ≤ 0xFFE := by
  obtain ⟨word, hw, -⟩ := Option.map_eq_some_iff.1 (instruction?_of_executed? h)
  exact (Machine.fetch?_eq_some_iff.1 hw).1

/-- The instruction that a step carried out was executed on the fetched machine. -/
theorem execute_of_executed? (h : interpreter.executed? m = some i) :
    ∃ effect, i.execute interpreter.config interpreter.random m.fetched = .ok effect ∧
      (interpreter.step m).result = .ok effect.signal ∧
      (interpreter.step m).machine = afterStep interpreter.config effect.machine ∧
      (interpreter.step m).interpreter = { interpreter with random := effect.random } := by
  obtain ⟨signal, hs⟩ := result_step_eq_ok_of_executed? h
  obtain ⟨word, effect, hw, he, rfl, hmachine, hinterpreter⟩ := step_of_ok hs
  have hi := instruction?_of_executed? h
  rw [Machine.instruction?, hw, Option.map_some, Option.some.injEq] at hi
  rw [hi] at he
  exact ⟨effect, he, hs, hmachine, hinterpreter⟩

/-- A step carries out an instruction or fails. -/
theorem executed?_eq_none_iff :
    interpreter.executed? m = none ↔ ∃ fault, (interpreter.step m).result = .error fault := by
  constructor
  · intro h
    cases hr : (interpreter.step m).result with
    | error fault => exact ⟨fault, rfl⟩
    | ok signal =>
        obtain ⟨word, -, hw, -⟩ := step_of_ok hr
        simp [executed?, hr, Machine.instruction?, hw] at h
  · rintro ⟨fault, hf⟩
    simp [executed?, hf]

/-! Ticking the timers changes nothing but timers. -/

theorem afterStep_eq_ticks (config : Config) (m : Machine) :
    afterStep config m = m.ticks config.ticksPerStep := by
  unfold afterStep Config.ticksPerStep
  cases config.timerMode with
  | perStep => rfl
  | external => exact m.ticks_zero.symm

@[simp] theorem pc_afterStep (config : Config) (m : Machine) :
    (afterStep config m).pc = m.pc := by
  rw [afterStep_eq_ticks, Machine.ticks]

@[simp] theorem index_afterStep (config : Config) (m : Machine) :
    (afterStep config m).index = m.index := by
  rw [afterStep_eq_ticks, Machine.ticks]

@[simp] theorem stack_afterStep (config : Config) (m : Machine) :
    (afterStep config m).stack = m.stack := by
  rw [afterStep_eq_ticks, Machine.ticks]

@[simp] theorem register_afterStep (config : Config) (m : Machine) (x : Nibble) :
    (afterStep config m).register x = m.register x := by
  rw [afterStep_eq_ticks]
  rfl

theorem pc_step (h : interpreter.executed? m = some i) :
    (interpreter.step m).machine.pc = UInt16.ofNat (i.target m) := by
  obtain ⟨effect, he, -, hm, -⟩ := execute_of_executed? h
  rw [hm, pc_afterStep, Instruction.pc_execute he, Instruction.target_fetched]

theorem toNat_index_step (h : interpreter.executed? m = some i) :
    (interpreter.step m).machine.index.toNat = i.indexAfter m := by
  obtain ⟨effect, he, -, hm, -⟩ := execute_of_executed? h
  rw [hm, index_afterStep, (Instruction.leaves_execute he).index,
    Instruction.indexAfter_fetched]

theorem stackAfter?_step (h : interpreter.executed? m = some i) :
    i.stackAfter? m = some (interpreter.step m).machine.stack := by
  obtain ⟨effect, he, -, hm, -⟩ := execute_of_executed? h
  rw [hm, stack_afterStep, ← (Instruction.leaves_execute he).stack,
    Instruction.stackAfter?_fetched]

theorem timers_step (h : interpreter.executed? m = some i) :
    (interpreter.step m).machine.timers =
      (i.timersAfter m).ticks interpreter.config.ticksPerStep := by
  obtain ⟨effect, he, -, hm, -⟩ := execute_of_executed? h
  rw [hm, afterStep_eq_ticks, Machine.ticks, (Instruction.leaves_execute he).timers,
    Instruction.timersAfter_fetched]

end Interpreter

end Chip8
