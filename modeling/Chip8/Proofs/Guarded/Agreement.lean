import Chip8.Proofs.Guarded.Loops
import Chip8.Proofs.Range

/-!
# No check fails

On a machine in range guarded operations give what the plain ones give: every slot, byte,
register, key and row that is asked for is there, and every sum and difference exists.
Since all machines that can be reached are in range, none of their operations can be
stopped by a check, and no address ever wraps.
-/

namespace Chip8

namespace Guarded

variable {config : Config} {random : Random.Source} {m : Machine}

theorem skipIf?_advance (hpc : m.pc.toNat ≤ 0xFFE) (condition : Bool) :
    skipIf? m.advance condition = some (m.skipIf condition) := by
  cases condition with
  | false => rfl
  | true =>
      have hadd := toNat_add_two hpc
      have hsum := sum?_eq_some (a := (m.pc + 2).toNat) (b := 2) (by omega)
      simp only [skipIf?, Machine.skipIf, Machine.advance, if_true, hsum, ofNat_toNat_add_two,
        Option.bind_eq_bind, Option.bind_some]

theorem key?_eq (keys : Keypad) (v : UInt8) :
    keys[v.toNat % 16]? = some (keys.entry (Nibble.ofByte v)) := by
  simp [Table.entry, Nibble.ofByte, Nibble.ofNat]

theorem execute?_ret (h : m.InRange) :
    execute? config random m.advance m.pc .ret =
      some (Instruction.ret.execute config random m) := by
  have hd := h.depth_le
  by_cases hempty : m.stack.depth = 0
  · have hpop := (CallStack.pop?_eq_none_iff hd).2 hempty
    simp [execute?, Instruction.execute, Machine.advance, hempty, hpop]
  · have hpop : 0 < m.stack.depth ∧ m.stack.depth ≤ 16 := ⟨by omega, hd⟩
    have hslot : m.stack.depth - 1 < 16 := by omega
    simp [execute?, execute?.done, Instruction.execute, Instruction.execute.done,
      Machine.advance, hempty, CallStack.pop?, hpop, difference?_eq_some hpop.1, hslot]

theorem execute?_call (h : m.InRange) (target : Address) :
    execute? config random m.advance m.pc (.call target) =
      some ((Instruction.call target).execute config random m) := by
  have hd := h.depth_le
  by_cases hfull : m.stack.depth = 16
  · have hpush : m.stack.push? (m.pc + 2) = none :=
      CallStack.push?_eq_none_iff.2 (Nat.le_of_eq hfull.symm)
    simp [execute?, Instruction.execute, Machine.advance, hfull, hpush]
  · have hslot : m.stack.depth < 16 := by omega
    have hsum := sum?_eq_some (a := m.stack.depth) (b := 1) (by omega)
    simp [execute?, execute?.done, Instruction.execute, Instruction.execute.done,
      Machine.advance, Machine.goTo, hfull, CallStack.push?, hslot, hsum,
      put?_eq_some m.stack.slots hslot]

@[simp] theorem register_advance (x : Nibble) : m.advance.register x = m.register x := rfl

@[simp] theorem keypad_advance : m.advance.keypad = m.keypad := rfl

theorem execute?_operate (operation : Operation) (x y : Nibble) :
    execute? config random m.advance m.pc (.operate operation x y) =
      some ((Instruction.operate operation x y).execute config random m) := by
  simp only [execute?, register?_eq, register_advance, Instruction.execute, Machine.operate,
    Option.bind_eq_bind, Option.bind_some]
  cases operation.apply config (m.register x) (m.register y) with
  | mk result flag =>
      cases flag with
      | none => simp [execute?.done, Instruction.execute.done]
      | some flag => simp [putRegister?_flag, execute?.done, Instruction.execute.done]

theorem execute?_draw (hi : m.index.toNat ≤ 0x0FFF) (x y rows : Nibble) :
    execute? config random m.advance m.pc (.draw x y rows) =
      some ((Instruction.draw x y rows).execute config random m) := by
  have hbytes : ∀ k < rows.val, byteAt? m.advance k =
      some (m.advance.memory.read (m.advance.index.toNat + k)) := by
    intro k hk
    exact byteAt?_eq (by simp only [Machine.advance]; omega)
  simp only [execute?, draw?_eq x y rows hbytes, Option.bind_eq_bind, Option.bind_some]
  rfl

theorem execute?_storeDecimal (hi : m.index.toNat ≤ 0x0FFF) (x : Nibble) :
    execute? config random m.advance m.pc (.storeDecimal x) =
      some ((Instruction.storeDecimal x).execute config random m) := by
  obtain ⟨v, hv⟩ : ∃ v, m.register x = v := ⟨_, rfl⟩
  have hhundreds : putByteAt? m.advance 0 (v / 100) =
      some (m.advance.storeAtIndex [v / 100]) :=
    putByteAt?_storeAtIndex (m := m.advance) hi [] (by simp) _
  have htens : putByteAt? (m.advance.storeAtIndex [v / 100]) 1 (v / 10 % 10) =
      some (m.advance.storeAtIndex [v / 100, v / 10 % 10]) :=
    putByteAt?_storeAtIndex (m := m.advance) hi [v / 100] (by simp) _
  have hones : putByteAt? (m.advance.storeAtIndex [v / 100, v / 10 % 10]) 2 (v % 10) =
      some (m.advance.storeAtIndex [v / 100, v / 10 % 10, v % 10]) :=
    putByteAt?_storeAtIndex (m := m.advance) hi [v / 100, v / 10 % 10] (by simp) _
  simp only [execute?, register?_eq, register_advance, hv, hhundreds, htens, hones,
    Option.bind_eq_bind, Option.bind_some, Instruction.execute]
  rfl

theorem execute?_eq (h : m.InRange) (hpc : m.pc.toNat ≤ 0xFFE) (i : Instruction) :
    execute? config random m.advance m.pc i = some (i.execute config random m) := by
  have hi := h.index_le
  cases i with
  | ret => exact execute?_ret h
  | call target => exact execute?_call h target
  | operate operation x y => exact execute?_operate operation x y
  | draw x y rows => exact execute?_draw hi x y rows
  | storeDecimal x => exact execute?_storeDecimal hi x
  | jumpOffset target =>
      have hv := (m.register (Nibble.ofNat 0)).toNat_lt
      have hsum := sum?_eq_some (a := target.val) (b := (m.register (Nibble.ofNat 0)).toNat)
        (by omega)
      have hregister : register? m.advance 0 = some (m.register (Nibble.ofNat 0)) :=
        register?_eq m.advance (Nibble.ofNat 0)
      simp only [execute?, hregister, hsum, Option.bind_eq_bind, Option.bind_some]
      rfl
  | addIndex x =>
      have hv := (m.register x).toNat_lt
      have hsum := sum?_eq_some (a := m.advance.index.toNat) (b := (m.register x).toNat)
        (by simp only [Machine.advance]; omega)
      simp only [execute?, register?_eq, register_advance, hsum, Option.bind_eq_bind,
        Option.bind_some]
      rfl
  | skipEqByte | skipNeByte | skipEq | skipNe | skipPressed | skipReleased =>
      simp [execute?, execute?.done, Instruction.execute, Instruction.execute.done,
        skipIf?_advance hpc, key?_eq]
  | awaitKey x =>
      cases hk : m.keypad.lowest? with
      | none =>
          simp only [execute?, keypad_advance, hk, Instruction.execute]
          rfl
      | some key =>
          simp only [execute?, keypad_advance, hk, Instruction.execute, putRegister?_eq,
            Option.bind_eq_bind, Option.bind_some]
          rfl
  | storeRegisters x =>
      have hstore := storeRegisters?_eq (m := m.advance) hi (x.val + 1) (by omega)
      simp [execute?, execute?.done, Instruction.execute, Instruction.execute.done, hstore]
      rfl
  | loadRegisters x =>
      have hload := loadRegisters?_eq (m := m.advance) hi x
      simp [execute?, execute?.done, Instruction.execute, Instruction.execute.done, hload]
  | unknown word =>
      cases hu : config.unknownPolicy <;> simp [execute?, Instruction.execute, hu]
  | clear | jump | setIndex => rfl
  | setByte | addByte | setGlyph | random =>
      simp [execute?, execute?.done, Instruction.execute, Instruction.execute.done]
  | getDelay | setDelay | setSound =>
      simp only [execute?, register?_eq, register_advance, putRegister?_eq, Option.bind_eq_bind,
        Option.bind_some]
      rfl

theorem fetch?_of_eq_none (hpc : m.pc.toNat ≤ 0x10FE) (h : m.fetch? = none) :
    fetch? m = some (.error (.fetchOutOfBounds m.pc)) := by
  have hend := Machine.fetch?_eq_none_iff.1 h
  have hsum := sum?_eq_some (a := m.pc.toNat) (b := 1) (by omega)
  have hout : Memory.size ≤ m.pc.toNat + 1 := by
    simp only [Memory.size]
    omega
  simp [fetch?, hsum, hout]

theorem fetch?_of_eq_some {word : Word} (h : m.fetch? = some word) :
    fetch? m = some (.ok word) := by
  obtain ⟨hpc, rfl⟩ := Machine.fetch?_eq_some_iff.1 h
  have hsum := sum?_eq_some (a := m.pc.toNat) (b := 1) (by omega)
  have hin : ¬ Memory.size ≤ m.pc.toNat + 1 := by
    simp only [Memory.size]
    omega
  have hbyte : ∀ a, a < 4096 → m.memory[a]? = some (m.memory.read a) := by
    intro a ha
    rw [Vector.getElem?_eq_getElem ha]
    simp only [Memory.read, Nat.mod_eq_of_lt ha]
  simp only [fetch?, hsum, Option.bind_eq_bind, Option.bind_some, if_neg hin,
    hbyte m.pc.toNat (by omega), hbyte (m.pc.toNat + 1) (by omega), Memory.word]

/-- A guarded step is a step. -/
theorem step?_eq (interpreter : Interpreter) (h : m.InRange) :
    step? interpreter m = some (interpreter.step m) := by
  cases hw : m.fetch? with
  | none =>
      rw [step?, fetch?_of_eq_none h.pc_le hw, Interpreter.step_of_fetch?_eq_none hw]
      rfl
  | some word =>
      have hpc := (Machine.fetch?_eq_some_iff.1 hw).1
      have hsum := sum?_eq_some (a := m.pc.toNat) (b := 2) (by omega)
      have hrange : { m with repainted := false, word := word }.InRange :=
        ⟨h.depth_le, h.index_le, h.pc_le, h.live_mem⟩
      have hexecute : execute? interpreter.config interpreter.random
          { m with repainted := false, word := word, pc := m.pc + 2 } m.pc (.decode word) = _ :=
        execute?_eq hrange hpc _
      rw [step?, fetch?_of_eq_some hw, Interpreter.step_of_fetch?_eq_some hw]
      simp only [Option.bind_eq_bind, Option.bind_some, hsum, ofNat_toNat_add_two,
        hexecute, Interpreter.executeWord]
      cases (Instruction.decode word).execute interpreter.config interpreter.random
        { m with repainted := false, word := word } with
      | error fault => rfl
      | ok effect => rfl

theorem load?_eq (m : Machine) (program : List UInt8) :
    load? m program = some (m.load program).value := by
  by_cases hc : program.length ≤ Machine.capacity
  · have hcopy : copy? m.memory Machine.start program = _ := copy?_eq m.memory (by
      simp only [Machine.capacity, Machine.start, Memory.size] at hc ⊢
      omega)
    simp [load?, Machine.load, hc, hcopy]
  · have hlarge : Machine.capacity < program.length := by omega
    simp [load?, Machine.load, hc, hlarge]

theorem reset?_eq (m : Machine) : reset? m = some m.reset := by
  have hzeros : copy? m.memory 0 (List.replicate Memory.size 0) = some .zero := by
    rw [copy?_eq _ (Nat.le_of_eq (by rw [List.length_replicate]; rfl)),
      Memory.store_replicate_zero]
  have hfont : copy? .zero Font.base Font.bytes = _ := copy?_eq .zero (by decide)
  rw [reset?, hzeros, Option.bind_eq_bind, Option.bind_some, hfont]
  rfl

theorem turnKey?_eq (m : Machine) (k : Nibble) (pressed : Bool) :
    turnKey? m k pressed = some (m.turnKey k pressed) := by
  rw [turnKey?, put?_eq_some m.keypad k.isLt]
  rfl

theorem live?_eq {s : CallStack} (h : s.depth ≤ 16) : live? s = some s.live := if_pos h

theorem runInstructions?_eq {budget : Nat} {earlier : List Log.Record} {p : Pacer}
    (h : p.machine.InRange) :
    runInstructions? budget earlier p = some (Pacer.runInstructions? budget earlier p) := by
  induction budget generalizing earlier p with
  | zero => rfl
  | succ budget ih =>
      rw [runInstructions?, Pacer.runInstructions?]
      by_cases hpaid : p.period ≤ p.cpuTime
      · rw [if_pos hpaid, if_pos hpaid, step?_eq p.interpreter h]
        have hrange := h.step p.interpreter
        simp only [Option.bind_eq_bind, Option.bind_some, Pacer.stepOnce]
        split
        · rename_i hr
          simp only [hr]
          exact ih hrange
        · rename_i hr
          simp only [hr]
        · rename_i hr
          simp only [hr]
      · rw [if_neg hpaid, if_neg hpaid]

theorem update?_eq {budget : Nat} {p : Pacer} (h : p.machine.InRange) (dt : Float32) :
    update? budget p dt = some (p.update? budget dt) := by
  rw [update?, Pacer.update?]
  split
  · rename_i hq
    rw [hq]
    rfl
  · rename_i q hq
    obtain ⟨k, -, -, hm⟩ := Pacer.runTimers?_ticks hq
    have hrange : q.machine.InRange := by
      rw [hm]
      exact Function.Iterate.rec Machine.InRange h (fun _ hn => hn.tick) k
    rw [hq, runInstructions?_eq hrange]
    rfl

/-- No operation on a machine is stopped by a check, and each gives what it gives without
checks. An update may still fail to come to an end within its budget. -/
structure Agrees (m : Machine) : Prop where
  step : ∀ interpreter, step? interpreter m = some (interpreter.step m)
  reset : reset? m = some m.reset
  load : ∀ program, load? m program = some (m.load program).value
  turnKey : ∀ k pressed, turnKey? m k pressed = some (m.turnKey k pressed)
  live : live? m.stack = some m.stack.live
  update : ∀ (budget : Nat) (p : Pacer) (dt : Float32), p.machine = m →
    update? budget p dt = some (p.update? budget dt)

theorem agrees (h : m.InRange) : Agrees m where
  step interpreter := step?_eq interpreter h
  reset := reset?_eq m
  load := load?_eq m
  turnKey := turnKey?_eq m
  live := live?_eq h.depth_le
  update := by
    rintro budget p dt rfl
    exact update?_eq h dt

end Guarded

/-- A machine that can be reached is in range, and no check stops any of its operations.
Past the end of memory every step is refused, and a step that is carried out leads to
where its instruction says, with nothing taken off an address that is too large. -/
theorem reachable_inRange_and_agrees {m : Machine} (h : m.Reachable) :
    m.InRange ∧ Guarded.Agrees m ∧
      ∀ interpreter : Interpreter,
        (0x0FFF ≤ m.pc.toNat →
          (interpreter.step m).result = .error (.fetchOutOfBounds m.pc)) ∧
        ∀ i, interpreter.executed? m = some i →
          (interpreter.step m).machine.pc.toNat = i.target m := by
  have hrange := h.inRange
  refine ⟨hrange, Guarded.agrees hrange, fun interpreter => ⟨fun hend => ?_, fun i hi => ?_⟩⟩
  · rw [Interpreter.step_of_fetch?_eq_none (Machine.fetch?_eq_none_iff.2 hend)]
  · exact hrange.toNat_pc_step hi

/-- A jump whose offset carries it as far behind the end of memory as any can. -/
def Action.farthestJump : List Action :=
  [.load [0x60, 0xFF, 0xBF, 0xFF], .step (.ofConfig {} 0), .step (.ofConfig {} 0)]

theorem reachable_inRange_and_agrees_of_farthestJump :
    ∃ m, Machine.powerOn.run? Action.farthestJump = some m ∧ m.pc.toNat = 0x10FE ∧
      m.InRange ∧ Guarded.Agrees m ∧
      ∀ interpreter : Interpreter,
        (interpreter.step m).result = .error (.fetchOutOfBounds m.pc) := by
  have hpc : (Machine.powerOn.run? Action.farthestJump).map (fun m => m.pc.toNat) =
      some 0x10FE := by
    decide +kernel
  obtain ⟨m, hm, hend⟩ := Option.map_eq_some_iff.1 hpc
  obtain ⟨hrange, hagrees, hsteps⟩ :=
    reachable_inRange_and_agrees ⟨_, Action.farthestJump, .bare, hm⟩
  refine ⟨m, hm, hend, hrange, hagrees, fun interpreter => ?_⟩
  exact (hsteps interpreter).1 (by omega)

end Chip8
