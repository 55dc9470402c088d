import Chip8.Proofs.Action

/-!
# The range of a machine

In every machine that can be reached the sixteen bits of the program counter and of the
index are not used up: the index names a byte of memory, the program counter runs past
the end of memory by no more than a jump with an offset can carry it, and a return leads
back behind a call that lay in memory. `Machine.InRange` says this. The three bounds need
each other: a return takes the program counter from the stack, a call puts the program
counter there, and both only happen where fetching has found a word.
-/

namespace Chip8

namespace Machine

structure InRange (m : Machine) : Prop where
  depth_le : m.stack.depth ≤ 16
  index_le : m.index.toNat ≤ 0x0FFF
  pc_le : m.pc.toNat ≤ 0x10FE
  live_mem : ∀ address ∈ m.stack.live, 2 ≤ address.toNat ∧ address.toNat ≤ 0x1000

end Machine

variable {m n : Machine} {i : Instruction}

namespace Instruction

/-- The target of an instruction that was fetched stays close to memory. -/
theorem target_le (h : m.InRange) (hpc : m.pc.toNat ≤ 0xFFE) : i.target m ≤ 0x10FE := by
  cases i with
  | ret =>
      cases hl : m.stack.live.getLast? with
      | none => simp [target, hl]
      | some address =>
          have hmem := (h.live_mem address (List.mem_of_getLast? hl)).2
          simp only [target, hl, Option.map_some, Option.getD_some]
          omega
  | jump target | call target => simp only [Instruction.target]; omega
  | jumpOffset target =>
      have hv := (m.register (Nibble.ofNat 0)).toNat_lt
      simp only [Instruction.target]
      omega
  | _ => simp only [target]; split <;> omega

theorem indexAfter_le (h : m.InRange) : i.indexAfter m ≤ 0x0FFF := by
  have hi := h.index_le
  cases i <;> simp only [indexAfter, Memory.size] <;> omega

/-- Whatever an instruction pushes is an address behind a fetched word. -/
theorem stackAfter?_inRange {stack : CallStack} (h : m.InRange) (hpc : m.pc.toNat ≤ 0xFFE)
    (hs : i.stackAfter? m = some stack) :
    stack.depth ≤ 16 ∧ ∀ address ∈ stack.live, 2 ≤ address.toNat ∧ address.toNat ≤ 0x1000 := by
  cases i with
  | ret =>
      obtain ⟨⟨address, below⟩, hp, rfl⟩ := Option.map_eq_some_iff.1 hs
      have hd := CallStack.depth_pop? hp
      refine ⟨by simp only; omega, fun a ha => h.live_mem a ?_⟩
      rw [CallStack.live_pop? hp]
      exact List.mem_append_left _ ha
  | call target =>
      have hd := CallStack.depth_push? hs
      refine ⟨by omega, fun a ha => ?_⟩
      rw [CallStack.live_push? hs, List.mem_append, List.mem_singleton] at ha
      rcases ha with ha | rfl
      · exact h.live_mem a ha
      · rw [toNat_add_two hpc]
        omega
  | _ =>
      cases hs
      exact ⟨h.depth_le, h.live_mem⟩

end Instruction

namespace Machine

/-- The program counter is where the instruction says, with no sixteen bits in between. -/
theorem InRange.toNat_pc_step {interpreter : Interpreter} (h : m.InRange)
    (hi : interpreter.executed? m = some i) :
    (interpreter.step m).machine.pc.toNat = i.target m := by
  have ht := i.target_le h (Interpreter.pc_le_of_executed? hi)
  rw [Interpreter.pc_step hi, UInt16.toNat_ofNat']
  exact Nat.mod_eq_of_lt (by omega)

theorem InRange.step (h : m.InRange) (interpreter : Interpreter) :
    (interpreter.step m).machine.InRange := by
  cases hi : interpreter.executed? m with
  | none =>
      obtain ⟨fault, hf⟩ := Interpreter.executed?_eq_none_iff.1 hi
      rw [(Interpreter.step_of_error hf).1]
      exact ⟨h.depth_le, h.index_le, h.pc_le, h.live_mem⟩
  | some i =>
      -- Where an instruction was carried out, fetching has bounded the program counter.
      have hpc := Interpreter.pc_le_of_executed? hi
      obtain ⟨hdepth, hlive⟩ :=
        Instruction.stackAfter?_inRange h hpc (Interpreter.stackAfter?_step hi)
      refine ⟨hdepth, ?_, ?_, hlive⟩
      · rw [Interpreter.toNat_index_step hi]
        exact Instruction.indexAfter_le h
      · rw [h.toNat_pc_step hi]
        exact Instruction.target_le h hpc

theorem InRange.tick (h : m.InRange) : m.tick.InRange :=
  ⟨h.depth_le, h.index_le, h.pc_le, h.live_mem⟩

theorem inRange_powerOn : powerOn.InRange := by
  constructor
  · decide
  · decide
  · decide
  · simp [powerOn]

theorem InRange.withMemory (h : m.InRange) (memory : Memory) :
    { m with memory := memory }.InRange :=
  ⟨h.depth_le, h.index_le, h.pc_le, h.live_mem⟩

theorem Fresh.inRange (h : Fresh m) : m.InRange := by
  obtain ⟨memory, rfl⟩ := h.eq_powerOn
  exact inRange_powerOn.withMemory memory

theorem InRange.perform? {action : Action} (h : m.InRange) (hn : m.perform? action = some n) :
    n.InRange := by
  cases action with
  | step interpreter =>
      cases hn
      exact h.step interpreter
  | tick =>
      cases hn
      exact h.tick
  | turnKey k pressed =>
      cases hn
      exact ⟨h.depth_le, h.index_le, h.pc_le, h.live_mem⟩
  | load program =>
      cases hn
      rcases m.loaded_eq_or program with hl | hl
      · rw [hl]
        exact h
      · rw [hl]
        exact h.withMemory _
  | reset =>
      cases hn
      exact inRange_powerOn
  | update pacer budget dt =>
      obtain ⟨u, hu, rfl⟩ := Option.map_eq_some_iff.1 hn
      exact Pacer.update?_induction (P := InRange) hu h (fun _ hk => hk.tick)
        fun interpreter _ _ hk => hk.step interpreter

theorem Reachable.inRange (h : m.Reachable) : m.InRange := by
  obtain ⟨start, actions, hs, hm⟩ := h
  exact run?_induction hm hs.inRange fun _ _ _ _ hk hl => hk.perform? hl

end Machine

end Chip8
