import Chip8.Proofs.Operations
import Chip8.Proofs.Saving

/-!
# What a step changes

For every component of a machine there is a table here that says what each instruction makes of
it, and an instruction that a table does not name leaves the component alone: `MemoryLaw`,
`RegistersLaw`, `StackLaw` and `PictureLaw`, beside `indexAfter` and `timersAfter`. Bytes are
named by their place behind the index, round the end of memory, so a law holds as well where an
instruction writes over the font or over the program. `Instruction.Changes` takes all of them
together, and it is what every step that succeeds does.
-/

namespace Chip8

/-- The memory `after` has the given bytes from the address `a` on, and is `before` elsewhere. -/
structure Memory.Overwritten (before : Memory) (a : Nat) (bytes : List UInt8) (after : Memory) :
    Prop where
  inside : ∀ k b, bytes[k]? = some b → after.read ((a + k) % size) = b
  outside : ∀ b < size, (∀ k < bytes.length, (a + k) % size ≠ b) → after.read b = before.read b

theorem Memory.overwritten_store (m : Memory) (a : Nat) {bytes : List UInt8}
    (hlength : bytes.length ≤ 4096) : m.Overwritten a bytes (m.store a bytes) where
  inside k b hb := by rw [read_mod, read_store_add m a hlength hb]
  outside b hb h := read_store_of_forall_ne hlength hb h

/-- A byte is written with three decimal digits. -/
theorem Machine.toNat_decimalDigits (v : UInt8) :
    (v / 100).toNat ≤ 9 ∧ (v / 10 % 10).toNat ≤ 9 ∧ (v % 10).toNat ≤ 9 ∧
      100 * (v / 100).toNat + 10 * (v / 10 % 10).toNat + (v % 10).toNat = v.toNat := by
  have hv := v.toNat_lt
  have hten : (10 : UInt8).toNat = 10 := rfl
  have hhundred : (100 : UInt8).toNat = 100 := rfl
  rw [UInt8.toNat_mod, UInt8.toNat_mod, UInt8.toNat_div, UInt8.toNat_div, hten, hhundred]
  omega

namespace Instruction

/-- The memory after an instruction. -/
def MemoryLaw (m : Machine) (after : Memory) : Instruction → Prop
  | storeDecimal x =>
    ∃ h t o : UInt8, h.toNat ≤ 9 ∧ t.toNat ≤ 9 ∧ o.toNat ≤ 9 ∧
      100 * h.toNat + 10 * t.toNat + o.toNat = (m.register x).toNat ∧
      m.memory.Overwritten m.index.toNat [h, t, o] after
  | storeRegisters x =>
    ∃ bytes, bytes.length = x.val + 1 ∧ (∀ k ≤ x, bytes[k.val]? = some (m.register k)) ∧
      m.memory.Overwritten m.index.toNat bytes after
  | _ => after = m.memory

/-- The registers after an instruction. -/
def RegistersLaw (config : Config) (source : Random.Source) (m : Machine) (after : Registers) :
    Instruction → Prop
  | setByte x value => after = m.registers.put x value
  | addByte x value =>
    ∃ v, v.toNat = ((m.register x).toNat + value.toNat) % 256 ∧ after = m.registers.put x v
  | operate operation x y =>
    ∃ r f, operation.Computes config (m.register x) (m.register y) r f ∧
      m.registers.Receives x r f after
  | random x mask => after = m.registers.put x (source.next &&& mask)
  | draw x y rows =>
    after = m.registers.put Machine.flagRegister
      (flagByte (m.picture.overlaps (m.sprite x y rows)))
  | awaitKey x =>
    m.keypad.lowest? = none ∧ after = m.registers ∨
      ∃ key, m.keypad.lowest? = some key ∧ after = m.registers.put x key.toByte
  | getDelay x => after = m.registers.put x m.timers.delay
  | loadRegisters x =>
    ∀ k, after.entry k =
      if k ≤ x then m.memory.read ((m.index.toNat + k.val) % Memory.size) else m.register k
  | _ => after = m.registers

/-- The call stack after an instruction. -/
def StackLaw (m : Machine) (after : CallStack) : Instruction → Prop
  | ret => after.depth + 1 = m.stack.depth
  | call _ => after.depth = m.stack.depth + 1
  | _ => after = m.stack

/-- The picture after an instruction. -/
def PictureLaw (m : Machine) (after : Picture) : Instruction → Prop
  | clear => after = .blank
  | draw x y rows => after = m.picture.xor (m.sprite x y rows)
  | _ => after = m.picture

/-- What an instruction makes of the machine `m` in a step that leaves the machine `n` behind. -/
structure Changes (i : Instruction) (interpreter : Interpreter) (m n : Machine) : Prop where
  memory : i.MemoryLaw m n.memory
  index : n.index.toNat = i.indexAfter m
  registers : i.RegistersLaw interpreter.config interpreter.random m n.registers
  stack : i.StackLaw m n.stack
  live : ∀ k, k < m.stack.depth → k < n.stack.depth → n.stack.live[k]? = m.stack.live[k]?
  picture : i.PictureLaw m n.picture
  keypad : n.keypad = m.keypad
  timers : n.timers = (i.timersAfter m).ticks interpreter.config.ticksPerStep

variable {config : Config} {source : Random.Source} {m : Machine} {i : Instruction}
  {effect : Effect}

theorem memoryLaw_store (i : Instruction) (m : Machine) :
    i.MemoryLaw m (m.memory.store m.index.toNat (i.stored m)) := by
  have hlength := i.length_stored_le m
  have hstored : m.memory.Overwritten m.index.toNat (i.stored m) _ :=
    m.memory.overwritten_store m.index.toNat (by omega)
  cases i with
  | storeDecimal x =>
      obtain ⟨hh, ht, ho, hsum⟩ := Machine.toNat_decimalDigits (m.register x)
      exact ⟨_, _, _, hh, ht, ho, hsum, hstored⟩
  | storeRegisters x =>
      refine ⟨_, ?_, fun k hk => ?_, hstored⟩
      · rw [stored, List.length_take, Vector.length_toList]
        omega
      · exact getElem?_stored_storeRegisters.2 ⟨k, hk, rfl, rfl⟩
  | _ => rfl

theorem registersLaw_execute (h : i.execute config source m = .ok effect) :
    i.RegistersLaw config source m effect.machine.registers := by
  cases i with
  | addByte x value =>
      cases h
      exact ⟨_, UInt8.toNat_add _ _, rfl⟩
  | operate operation x y =>
      cases h
      obtain ⟨r, f, hcomputes, -⟩ :=
        operation.exists_computes config (m.register x) (m.register y)
      rw [Machine.operate_eq (m := m.advance) hcomputes]
      exact ⟨r, f, hcomputes, m.registers.receives_receive x r f⟩
  | awaitKey x =>
      obtain ⟨hk, rfl⟩ | ⟨key, hk, rfl⟩ := of_execute_awaitKey h
      · exact .inl ⟨hk, rfl⟩
      · exact .inr ⟨key, hk, rfl⟩
  | loadRegisters x =>
      cases h
      intro k
      rw [Memory.read_mod]
      exact Table.entry_ofFn _ k
  | ret =>
      obtain ⟨address, stack, -, rfl⟩ := of_execute_ret h
      rfl
  | call target =>
      obtain ⟨stack, -, rfl⟩ := of_execute_call h
      rfl
  | unknown word =>
      obtain ⟨-, rfl⟩ := of_execute_unknown h
      rfl
  | skipEqByte | skipNeByte | skipEq | skipNe | skipPressed | skipReleased =>
      cases h
      rw [Machine.skipIf_eq]
      rfl
  | _ =>
      cases h
      rfl

theorem registersLaw_fetched (i : Instruction) (after : Registers) :
    i.RegistersLaw config source m.fetched after ↔ i.RegistersLaw config source m after := by
  cases i <;> rfl

/-- The call stack is longer or shorter by one address, or the same. -/
theorem stackLaw_of_stackAfter? {after : CallStack} (h : i.stackAfter? m = some after) :
    i.StackLaw m after ∧
      ∀ k, k < m.stack.depth → k < after.depth → after.live[k]? = m.stack.live[k]? := by
  cases i with
  | ret =>
      obtain ⟨⟨address, below⟩, hp, rfl⟩ := Option.map_eq_some_iff.1 h
      obtain ⟨hle, hdepth⟩ := CallStack.depth_pop? hp
      refine ⟨hdepth.symm, fun k _ hk => ?_⟩
      have hlength : below.live.length = below.depth := CallStack.length_live (by omega)
      rw [CallStack.live_pop? hp, List.getElem?_append_left (by rwa [hlength])]
  | call target =>
      obtain ⟨hlt, hdepth⟩ := CallStack.depth_push? h
      refine ⟨hdepth, fun k hk _ => ?_⟩
      have hlength : m.stack.live.length = m.stack.depth := CallStack.length_live (by omega)
      rw [CallStack.live_push? h, List.getElem?_append_left (by rwa [hlength])]
  | _ =>
      cases h
      exact ⟨rfl, fun _ _ _ => rfl⟩

theorem pictureLaw_execute (h : i.execute config source m = .ok effect) :
    i.PictureLaw m effect.machine.picture := by
  cases i with
  | clear | draw =>
      cases h
      rfl
  | _ => exact (touches_execute h).picture rfl

theorem pictureLaw_fetched (i : Instruction) (after : Picture) :
    i.PictureLaw m.fetched after ↔ i.PictureLaw m after := by
  cases i <;> rfl

end Instruction

namespace Interpreter

variable {interpreter : Interpreter} {m : Machine} {i : Instruction}

/-- A step that does not fail carries out an instruction. -/
theorem exists_executed? {signal : Signal} (h : (interpreter.step m).result = .ok signal) :
    ∃ i, interpreter.executed? m = some i := by
  cases hi : interpreter.executed? m with
  | none =>
      obtain ⟨fault, hf⟩ := executed?_eq_none_iff.1 hi
      rw [h] at hf
      cases hf
  | some i => exact ⟨i, rfl⟩

theorem changes_step (h : interpreter.executed? m = some i) :
    i.Changes interpreter m (interpreter.step m).machine := by
  obtain ⟨effect, he, -, hmachine, -⟩ := execute_of_executed? h
  rw [afterStep_eq_ticks] at hmachine
  obtain ⟨hstack, hlive⟩ := Instruction.stackLaw_of_stackAfter? (stackAfter?_step h)
  refine ⟨?_, toNat_index_step h, ?_, hstack, hlive, ?_, keypad_step interpreter m,
    timers_step h⟩
  · rw [memory_step h]
    exact i.memoryLaw_store m
  · rw [hmachine, ← Instruction.registersLaw_fetched]
    exact Instruction.registersLaw_execute he
  · rw [hmachine, ← Instruction.pictureLaw_fetched]
    exact Instruction.pictureLaw_execute he

end Interpreter

/-- The complete frame of a step. Whatever the machine is, a step that does not fail carries out
the instruction of the word it has fetched, and this changes memory, the index, the registers, the
call stack, the picture and the timers as the tables say, and nothing where they say nothing. -/
theorem step_changes_no_more (interpreter : Interpreter) (m : Machine) (signal : Signal)
    (h : (interpreter.step m).result = .ok signal) :
    ∃ i : Instruction, m.fetch? = some i.encode ∧ m.instruction? = some i ∧
      i.Changes interpreter m (interpreter.step m).machine := by
  obtain ⟨i, hi⟩ := Interpreter.exists_executed? h
  have hinstruction := Interpreter.instruction?_of_executed? hi
  exact ⟨i, Machine.fetch?_of_instruction? hinstruction, hinstruction,
    Interpreter.changes_step hi⟩

/-- The third register goes to the second byte of memory, and the glyphs stay where they are. -/
theorem step_changes_no_more_of_saving :
    ((Interpreter.ofConfig {} 0).step savingMachine).machine.memory.read 1 = 0x22 ∧
      ((Interpreter.ofConfig {} 0).step savingMachine).machine.memory.read 0x50 = 0xF0 ∧
      ((Interpreter.ofConfig {} 0).step savingMachine).machine.registers =
        savingMachine.registers := by
  have hok : ((Interpreter.ofConfig {} 0).step savingMachine).result = .ok .proceed := by
    decide +kernel
  have hnext : savingMachine.instruction? = some (.storeRegisters (Nibble.ofNat 2)) := by
    decide +kernel
  obtain ⟨i, -, hi, hchanges⟩ := step_changes_no_more _ _ _ hok
  obtain rfl : .storeRegisters (Nibble.ofNat 2) = i := Option.some.inj (hnext.symm.trans hi)
  obtain ⟨bytes, hlength, hbytes, hmemory⟩ := hchanges.memory
  refine ⟨?_, ?_, hchanges.registers⟩
  · exact (hmemory.inside 2 _ (hbytes (Nibble.ofNat 2) (Nat.le_refl _))).trans (by decide +kernel)
  · refine (hmemory.outside 0x50 (by decide) fun k hk => ?_).trans (by decide +kernel)
    rw [hlength] at hk
    have hindex : savingMachine.index.toNat = 0xFFF := rfl
    rw [hindex, Memory.size]
    have hthree : k < 3 := hk
    omega

end Chip8
