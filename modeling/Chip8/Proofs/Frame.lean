import Chip8.Proofs.Step

/-!
# What an instruction touches

Most instructions touch registers and the program counter and no more. The others are told
apart here by what they do beyond that: `Instruction.paints` by the picture, `signal` by the
next frame they ask for, `stored` by the bytes they put into memory, `takesRandom` by the
random byte they take, and `records` by what they add to the log. `Instruction.Touches` says
that an effect goes no further, and the lemmas on steps say the same of the machine after a
step. A step that fails touches nothing of all this, but it too forgets that the picture was
touched before.
-/

namespace Chip8

namespace Instruction

/-- Whether an instruction touches the picture. -/
def paints : Instruction → Bool
  | clear => true
  | draw _ _ _ => true
  | _ => false

/-- Whether an instruction takes a random byte. -/
def takesRandom : Instruction → Bool
  | random _ _ => true
  | _ => false

/-- What an instruction asks for once it is carried out. -/
def signal (m : Machine) : Instruction → Signal
  | clear => .awaitFrame
  | draw _ _ _ => .awaitFrame
  | awaitKey _ => if m.keypad.lowest?.isSome then .proceed else .awaitFrame
  | _ => .proceed

/-- The bytes that an instruction puts into memory, from the index on. -/
def stored (m : Machine) : Instruction → List UInt8
  | storeDecimal x => Machine.decimalDigits (m.register x)
  | storeRegisters x => m.registers.toList.take (x.val + 1)
  | _ => []

/-- What an instruction adds to the log. -/
def records (m : Machine) : Instruction → List Log.Record
  | unknown word => [.skipped m.pc word]
  | _ => []

/-- The effect of the instruction `i` on the machine `m` goes no further than this. -/
structure Touches (i : Instruction) (random : Random.Source) (m : Machine) (effect : Effect) :
    Prop where
  memory : effect.machine.memory = m.memory.store m.index.toNat (i.stored m)
  picture : i.paints = false → effect.machine.picture = m.picture
  repainted : effect.machine.repainted = (i.paints || m.repainted)
  word : effect.machine.word = m.word
  keypad : effect.machine.keypad = m.keypad
  random : effect.random = if i.takesRandom then random.rest else random
  signal : effect.signal = i.signal m
  log : effect.log = i.records m

variable {config : Config} {random : Random.Source} {m : Machine} {i : Instruction}
  {effect : Effect}

theorem touches_execute (h : i.execute config random m = .ok effect) :
    i.Touches random m effect := by
  cases i with
  | clear | draw =>
      cases h
      exact ⟨rfl, nofun, rfl, rfl, rfl, rfl, rfl, rfl⟩
  | ret =>
      obtain ⟨address, stack, -, rfl⟩ := of_execute_ret h
      exact ⟨rfl, fun _ => rfl, rfl, rfl, rfl, rfl, rfl, rfl⟩
  | call =>
      obtain ⟨stack, -, rfl⟩ := of_execute_call h
      exact ⟨rfl, fun _ => rfl, rfl, rfl, rfl, rfl, rfl, rfl⟩
  | awaitKey =>
      obtain ⟨hk, rfl⟩ | ⟨key, hk, rfl⟩ := of_execute_awaitKey h
      · exact ⟨rfl, fun _ => rfl, rfl, rfl, rfl, rfl, by simp [signal, hk], rfl⟩
      · exact ⟨rfl, fun _ => rfl, rfl, rfl, rfl, rfl, by simp [signal, hk], rfl⟩
  | unknown =>
      obtain ⟨-, rfl⟩ := of_execute_unknown h
      exact ⟨rfl, fun _ => rfl, rfl, rfl, rfl, rfl, rfl, rfl⟩
  | operate =>
      obtain ⟨registers, rfl⟩ := of_execute_operate h
      exact ⟨rfl, fun _ => rfl, rfl, rfl, rfl, rfl, rfl, rfl⟩
  | skipEqByte | skipNeByte | skipEq | skipNe | skipPressed | skipReleased =>
      cases h
      rw [Machine.skipIf_eq]
      exact ⟨rfl, fun _ => rfl, rfl, rfl, rfl, rfl, rfl, rfl⟩
  | _ =>
      cases h
      exact ⟨rfl, fun _ => rfl, rfl, rfl, rfl, rfl, rfl, rfl⟩

theorem stored_fetched (i : Instruction) (m : Machine) : i.stored m.fetched = i.stored m := by
  cases i <;> rfl

theorem signal_fetched (i : Instruction) (m : Machine) : i.signal m.fetched = i.signal m := by
  cases i <;> rfl

theorem signal_eq_awaitFrame_iff :
    i.signal m = .awaitFrame ↔
      i.paints = true ∨ (∃ x, i = awaitKey x) ∧ ∀ k, m.keypad.entry k = false := by
  cases i with
  | awaitKey x =>
      rw [← Keypad.lowest?_eq_none_iff]
      cases h : m.keypad.lowest? <;> simp [signal, paints, h]
  | _ => simp [signal, paints]

end Instruction

namespace Interpreter

variable {interpreter : Interpreter} {m : Machine} {i : Instruction}

theorem afterStep_eq (config : Config) (m : Machine) :
    afterStep config m = { m with timers := (afterStep config m).timers } := by
  rw [afterStep_eq_ticks]
  rfl

/-- An instruction that is not refused is carried out. -/
theorem executed?_of_instruction? (hi : m.instruction? = some i)
    (hf : i.fault? interpreter.config.unknownPolicy m = none) :
    interpreter.executed? m = some i := by
  cases h : interpreter.executed? m with
  | none =>
      obtain ⟨fault, hr⟩ := executed?_eq_none_iff.1 h
      rw [result_step_eq_error_iff, Machine.fault?_of_instruction? hi, hf] at hr
      cases hr
  | some j =>
      have hj := instruction?_of_executed? h
      rw [← hi, hj]

/-- A step that carries out no instruction has fetched, and done nothing else. -/
theorem step_of_executed?_eq_none (h : interpreter.executed? m = none) :
    (interpreter.step m).machine = m.fetched ∧ (interpreter.step m).interpreter = interpreter := by
  obtain ⟨fault, hf⟩ := executed?_eq_none_iff.1 h
  exact step_of_error hf

theorem memory_step (h : interpreter.executed? m = some i) :
    (interpreter.step m).machine.memory = m.memory.store m.index.toNat (i.stored m) := by
  obtain ⟨effect, he, -, hm, -⟩ := execute_of_executed? h
  rw [hm, afterStep_eq, (Instruction.touches_execute he).memory, Instruction.stored_fetched]
  rfl

theorem picture_step (h : interpreter.executed? m = some i) (hi : i.paints = false) :
    (interpreter.step m).machine.picture = m.picture := by
  obtain ⟨effect, he, -, hm, -⟩ := execute_of_executed? h
  rw [hm, afterStep_eq, (Instruction.touches_execute he).picture hi]
  rfl

theorem repainted_step (h : interpreter.executed? m = some i) :
    (interpreter.step m).machine.repainted = i.paints := by
  obtain ⟨effect, he, -, hm, -⟩ := execute_of_executed? h
  rw [hm, afterStep_eq, (Instruction.touches_execute he).repainted]
  exact Bool.or_false _

/-- No step touches the keypad, whether it fails or not. -/
theorem keypad_step (interpreter : Interpreter) (m : Machine) :
    (interpreter.step m).machine.keypad = m.keypad := by
  cases h : interpreter.executed? m with
  | none =>
      rw [(step_of_executed?_eq_none h).1]
      rfl
  | some i =>
      obtain ⟨effect, he, -, hm, -⟩ := execute_of_executed? h
      rw [hm, afterStep_eq, (Instruction.touches_execute he).keypad]
      rfl

theorem result_step (h : interpreter.executed? m = some i) :
    (interpreter.step m).result = .ok (i.signal m) := by
  obtain ⟨effect, he, hr, -, -⟩ := execute_of_executed? h
  rw [hr, (Instruction.touches_execute he).signal, Instruction.signal_fetched]

theorem interpreter_step (h : interpreter.executed? m = some i) :
    (interpreter.step m).interpreter = { interpreter with
      random := if i.takesRandom then interpreter.random.rest else interpreter.random } := by
  obtain ⟨effect, he, -, -, hi⟩ := execute_of_executed? h
  rw [hi, (Instruction.touches_execute he).random]

end Interpreter

end Chip8
