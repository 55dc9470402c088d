import Chip8.Interpreter

/-!
# What an instruction leaves behind

`Instruction.execute` is described here one component at a time, so that facts about
steps and runs need not open it again. `fault?` says when an instruction is refused,
`target` where execution goes on, `indexAfter` where the index points afterwards,
`stackAfter?` what has become of the call stack and `timersAfter` of the timers. Targets and
indices are natural numbers, since a target may lie beyond what an address can name.
-/

namespace Chip8

namespace CallStack

variable {s t : CallStack} {address : UInt16}

theorem push?_eq_none_iff : s.push? address = none ↔ 16 ≤ s.depth := by
  unfold push?
  split <;> simp_all

theorem pop?_eq_none_iff (h : s.depth ≤ 16) : s.pop? = none ↔ s.depth = 0 := by
  unfold pop?
  split
  · simp only [reduceCtorEq, false_iff]
    omega
  · simp only [true_iff]
    omega

theorem depth_push? (h : s.push? address = some t) : s.depth < 16 ∧ t.depth = s.depth + 1 := by
  unfold push? at h
  split at h
  · cases h
    exact ⟨‹_›, rfl⟩
  · cases h

theorem depth_pop? (h : s.pop? = some (address, t)) : s.depth ≤ 16 ∧ s.depth = t.depth + 1 := by
  unfold pop? at h
  split at h
  · rename_i hd
    cases h
    exact ⟨hd.2, by simp only; omega⟩
  · cases h

end CallStack

/-- No sixteen bits are in the way of an address that was fetched from. -/
theorem toNat_add_two {pc : UInt16} (h : pc.toNat ≤ 0xFFE) : (pc + 2).toNat = pc.toNat + 2 := by
  rw [UInt16.toNat_add]
  exact Nat.mod_eq_of_lt (by simp; omega)

theorem ofNat_toNat_add_two (pc : UInt16) : UInt16.ofNat (pc.toNat + 2) = pc + 2 := by
  rw [UInt16.ofNat_add, UInt16.ofNat_toNat]
  rfl

namespace Machine

theorem skipIf_eq (m : Machine) (condition : Bool) :
    m.skipIf condition = { m with pc := m.pc + if condition then 4 else 2 } := by
  cases condition with
  | false => rfl
  | true =>
      have hpc : m.pc + 2 + 2 = m.pc + 4 := by rw [UInt16.add_assoc]; rfl
      simp [skipIf, advance, hpc]

end Machine

namespace Instruction

variable {config : Config} {random : Random.Source} {m : Machine} {i : Instruction}
  {effect : Effect}

/-- Why an instruction is refused, absent if it is not. -/
def fault? (policy : UnknownPolicy) (m : Machine) : Instruction → Option Fault
  | ret => if m.stack.pop?.isNone then some (.stackUnderflow m.pc) else none
  | call _ => if (m.stack.push? (m.pc + 2)).isNone then some (.stackOverflow m.pc) else none
  | unknown word =>
    match policy with
    | .strict => some (.unknownWord word m.pc)
    | .lenient => none
  | _ => none

def skips (m : Machine) : Instruction → Bool
  | skipEqByte x value => m.register x == value
  | skipNeByte x value => m.register x != value
  | skipEq x y => m.register x == m.register y
  | skipNe x y => m.register x != m.register y
  | skipPressed x => m.keypad.entry (Nibble.ofByte (m.register x))
  | skipReleased x => !m.keypad.entry (Nibble.ofByte (m.register x))
  | _ => false

/-- Where execution goes on after an instruction. -/
def target (m : Machine) : Instruction → Nat
  | ret => (m.stack.live.getLast?.map UInt16.toNat).getD 0
  | jump target => target.val
  | jumpOffset target => target.val + (m.register (Nibble.ofNat 0)).toNat
  | call target => target.val
  | awaitKey _ => m.pc.toNat + if m.keypad.lowest?.isSome then 2 else 0
  | i => m.pc.toNat + if i.skips m then 4 else 2

def indexAfter (m : Machine) : Instruction → Nat
  | setIndex target => target.val
  | addIndex x => (m.index.toNat + (m.register x).toNat) % Memory.size
  | setGlyph x => 0x50 + 5 * ((m.register x).toNat % 16)
  | _ => m.index.toNat

def stackAfter? (m : Machine) : Instruction → Option CallStack
  | ret => m.stack.pop?.map Prod.snd
  | call _ => m.stack.push? (m.pc + 2)
  | _ => some m.stack

def timersAfter (m : Machine) : Instruction → Timers
  | setDelay x => { m.timers with delay := m.register x }
  | setSound x => { m.timers with sound := m.register x }
  | _ => m.timers

theorem execute_eq_error_iff {fault : Fault} :
    i.execute config random m = .error fault ↔ i.fault? config.unknownPolicy m = some fault := by
  cases i with
  | ret => cases h : m.stack.pop? <;> simp [execute, execute.done, fault?, h]
  | call target =>
      cases h : m.stack.push? (m.pc + 2) <;> simp [execute, execute.done, fault?, h]
  | awaitKey x =>
      cases h : m.keypad.lowest? <;> simp [execute, execute.done, execute.frame, fault?, h]
  | unknown word => cases h : config.unknownPolicy <;> simp [execute, fault?, h]
  | _ => simp [execute, execute.done, execute.frame, fault?]

theorem fault?_congr {policy : UnknownPolicy} {n : Machine} (hpc : n.pc = m.pc)
    (hstack : n.stack = m.stack) : i.fault? policy n = i.fault? policy m := by
  cases i <;> simp only [fault?, hpc, hstack]

theorem fault?_ne_fetchOutOfBounds (policy : UnknownPolicy) (m : Machine) (i : Instruction)
    (pc : UInt16) : i.fault? policy m ≠ some (.fetchOutOfBounds pc) := by
  cases i with
  | unknown word => cases policy <;> simp [fault?]
  | _ => simp [fault?]

/-! The instructions that do one thing or another, as they go when they succeed. -/

theorem of_execute_ret (h : ret.execute config random m = .ok effect) :
    ∃ address stack, m.stack.pop? = some (address, stack) ∧
      effect = ⟨{ m with pc := address, stack := stack }, random, .proceed, []⟩ := by
  cases hp : m.stack.pop? with
  | none => simp [execute, hp] at h
  | some popped =>
      simp only [execute, hp, execute.done] at h
      cases h
      exact ⟨_, _, rfl, rfl⟩

theorem of_execute_call {target : Address}
    (h : (call target).execute config random m = .ok effect) :
    ∃ stack, m.stack.push? (m.pc + 2) = some stack ∧
      effect = ⟨{ m.goTo target.val with stack := stack }, random, .proceed, []⟩ := by
  cases hp : m.stack.push? (m.pc + 2) with
  | none => simp [execute, hp] at h
  | some pushed =>
      simp only [execute, hp, execute.done] at h
      cases h
      exact ⟨_, rfl, rfl⟩

/-- An operation on registers changes nothing but registers. -/
theorem of_execute_operate {operation : Operation} {x y : Nibble}
    (h : (operate operation x y).execute config random m = .ok effect) :
    ∃ registers,
      effect = ⟨{ m.advance with registers := registers }, random, .proceed, []⟩ := by
  cases h
  unfold Machine.operate
  split
  · exact ⟨_, rfl⟩
  · exact ⟨_, rfl⟩

theorem of_execute_awaitKey {x : Nibble}
    (h : (awaitKey x).execute config random m = .ok effect) :
    m.keypad.lowest? = none ∧ effect = ⟨m, random, .awaitFrame, []⟩ ∨
      ∃ key, m.keypad.lowest? = some key ∧
        effect = ⟨m.advance.setRegister x key.toByte, random, .proceed, []⟩ := by
  cases hk : m.keypad.lowest? with
  | none =>
      simp only [execute, hk, execute.frame] at h
      cases h
      exact .inl ⟨rfl, rfl⟩
  | some key =>
      simp only [execute, hk, execute.done] at h
      cases h
      exact .inr ⟨_, rfl, rfl⟩

theorem of_execute_unknown {word : Word}
    (h : (unknown word).execute config random m = .ok effect) :
    config.unknownPolicy = .lenient ∧
      effect = ⟨m.advance, random, .proceed, [.skipped m.pc word]⟩ := by
  cases hu : config.unknownPolicy with
  | strict => simp [execute, hu] at h
  | lenient =>
      simp only [execute, hu] at h
      cases h
      exact ⟨rfl, rfl⟩

/-! What has become of the program counter, the index, the stack and the timers. -/

theorem pc_execute (h : i.execute config random m = .ok effect) :
    effect.machine.pc = UInt16.ofNat (i.target m) := by
  cases i with
  | ret =>
      obtain ⟨address, stack, hp, rfl⟩ := of_execute_ret h
      simp [target, CallStack.live_pop? hp]
  | call =>
      obtain ⟨stack, -, rfl⟩ := of_execute_call h
      rfl
  | awaitKey =>
      obtain ⟨hk, rfl⟩ | ⟨key, hk, rfl⟩ := of_execute_awaitKey h
      · simp [target, hk]
      · simp [target, hk, Machine.setRegister, Machine.advance]
  | unknown =>
      obtain ⟨-, rfl⟩ := of_execute_unknown h
      simp [target, skips, Machine.advance]
  | operate =>
      obtain ⟨registers, rfl⟩ := of_execute_operate h
      simp [target, skips, Machine.advance]
  | skipEqByte | skipNeByte | skipEq | skipNe | skipPressed | skipReleased =>
      cases h
      rw [Machine.skipIf_eq]
      simp only [target, skips]
      split <;> simp_all
  | jump | jumpOffset => cases h; rfl
  | _ =>
      cases h
      simp [target, skips, Machine.setRegister, Machine.advance, Machine.draw,
        Machine.storeAtIndex, Machine.loadFromIndex]

/-- The effect of the instruction `i` on the index, the stack and the timers of `m`. -/
structure Leaves (i : Instruction) (m : Machine) (effect : Effect) : Prop where
  index : effect.machine.index.toNat = i.indexAfter m
  stack : i.stackAfter? m = some effect.machine.stack
  timers : effect.machine.timers = i.timersAfter m

theorem leaves_execute (h : i.execute config random m = .ok effect) : i.Leaves m effect := by
  cases i with
  | setIndex target =>
      cases h
      refine ⟨?_, rfl, rfl⟩
      simp only [indexAfter, UInt16.toNat_ofNat']
      omega
  | addIndex x =>
      cases h
      refine ⟨?_, rfl, rfl⟩
      simp only [indexAfter, Memory.size, UInt16.toNat_ofNat']
      omega
  | setGlyph x =>
      cases h
      exact ⟨by simp [indexAfter, Font.toNat_glyphAddress], rfl, rfl⟩
  | ret =>
      obtain ⟨address, stack, hp, rfl⟩ := of_execute_ret h
      exact ⟨rfl, by simp [stackAfter?, hp], rfl⟩
  | call =>
      obtain ⟨stack, hp, rfl⟩ := of_execute_call h
      exact ⟨rfl, hp, rfl⟩
  | awaitKey =>
      obtain ⟨-, rfl⟩ | ⟨key, -, rfl⟩ := of_execute_awaitKey h
      · exact ⟨rfl, rfl, rfl⟩
      · exact ⟨rfl, rfl, rfl⟩
  | unknown =>
      obtain ⟨-, rfl⟩ := of_execute_unknown h
      exact ⟨rfl, rfl, rfl⟩
  | operate =>
      obtain ⟨registers, rfl⟩ := of_execute_operate h
      exact ⟨rfl, rfl, rfl⟩
  | skipEqByte | skipNeByte | skipEq | skipNe | skipPressed | skipReleased =>
      cases h
      rw [Machine.skipIf_eq]
      exact ⟨rfl, rfl, rfl⟩
  | _ =>
      cases h
      exact ⟨rfl, rfl, rfl⟩

end Instruction

end Chip8
