import Chip8.Proofs.Frame

/-!
# Operations on two registers

`Operation.Computes` says in whole numbers what an operation makes of two bytes: a sum is the
result and 256 for the carry, a difference is taken modulo 256, and a shift parts the double or
the half of a byte into the result and the bit that is left over. The rules determine the result
and the flag, and they are what is computed (`Operation.computes_iff`).

`Registers.Receives` says where the two are put. The flag register holds the flag if there is one,
also where the result was meant for it, so nothing is to be known about which registers are named.
-/

namespace Chip8

theorem toNat_flagByte (b : Bool) : (flagByte b).toNat = if b then 1 else 0 := by
  cases b <;> rfl

namespace Operation

/-- What an operation on the bytes `a` and `b` comes to: the result `r`, and the flag `f` if it
has one. -/
def Computes (config : Config) (a b r : UInt8) (f : Option UInt8) : Operation → Prop
  | set => r = b ∧ f = none
  | or => r.toNat = a.toNat ||| b.toNat ∧ f = if config.logicResetsFlag then some 0 else none
  | and => r.toNat = a.toNat &&& b.toNat ∧ f = if config.logicResetsFlag then some 0 else none
  | xor => r.toNat = a.toNat ^^^ b.toNat ∧ f = if config.logicResetsFlag then some 0 else none
  | add => ∃ carry, f = some carry ∧ 256 * carry.toNat + r.toNat = a.toNat + b.toNat
  | sub =>
    (r.toNat : Int) = ((a.toNat : Int) - b.toNat) % 256 ∧
      f = some (if b.toNat < a.toNat then 1 else 0)
  | subReverse =>
    (r.toNat : Int) = ((b.toNat : Int) - a.toNat) % 256 ∧
      f = some (if a.toNat < b.toNat then 1 else 0)
  | shiftRight =>
    ∃ bit, f = some bit ∧ bit.toNat ≤ 1 ∧ 2 * r.toNat + bit.toNat = (shifted config a b).toNat
  | shiftLeft =>
    ∃ bit, f = some bit ∧ 256 * bit.toNat + r.toNat = 2 * (shifted config a b).toNat

variable {config : Config} {operation : Operation} {a b r : UInt8} {f : Option UInt8}

theorem computes_sum_iff {carry : UInt8} :
    256 * carry.toNat + r.toNat = a.toNat + b.toNat ↔
      r = a + b ∧ carry = flagByte (256 ≤ a.toNat + b.toNat) := by
  have ha := a.toNat_lt
  have hb := b.toNat_lt
  have hr := r.toNat_lt
  rw [← UInt8.toNat_inj, ← UInt8.toNat_inj, UInt8.toNat_add, toNat_flagByte]
  simp only [decide_eq_true_eq]
  split <;> omega

theorem computes_difference_iff :
    (r.toNat : Int) = ((a.toNat : Int) - b.toNat) % 256 ↔ r = a - b := by
  have ha := a.toNat_lt
  have hb := b.toNat_lt
  have hr := r.toNat_lt
  rw [← UInt8.toNat_inj, UInt8.toNat_sub]
  omega

theorem computes_half_iff {bit : UInt8} :
    bit.toNat ≤ 1 ∧ 2 * r.toNat + bit.toNat = a.toNat ↔ r = a / 2 ∧ bit = a % 2 := by
  have htwo : (2 : UInt8).toNat = 2 := rfl
  rw [← UInt8.toNat_inj, ← UInt8.toNat_inj, UInt8.toNat_div, UInt8.toNat_mod, htwo]
  omega

theorem computes_double_iff {bit : UInt8} :
    256 * bit.toNat + r.toNat = 2 * a.toNat ↔ r = a * 2 ∧ bit = a / 128 := by
  have ha := a.toNat_lt
  have hr := r.toNat_lt
  have htwo : (2 : UInt8).toNat = 2 := rfl
  have htop : (128 : UInt8).toNat = 128 := rfl
  rw [← UInt8.toNat_inj, ← UInt8.toNat_inj, UInt8.toNat_mul, UInt8.toNat_div, htwo, htop]
  omega

/-- The rules are what is computed. -/
theorem computes_iff :
    operation.Computes config a b r f ↔ (r, f) = operation.apply config a b := by
  rw [Prod.ext_iff]
  cases operation with
  | set => rfl
  | or | and | xor => simp [Computes, apply, logicFlag, ← UInt8.toNat_inj]
  | add => simpa [Computes, apply, computes_sum_iff] using and_comm
  | sub | subReverse =>
    simp [Computes, apply, computes_difference_iff, flagByte, UInt8.lt_iff_toNat_lt]
  | shiftRight => simpa [Computes, apply, computes_half_iff] using and_comm
  | shiftLeft => simpa [Computes, apply, computes_double_iff] using and_comm

/-- The operands and the configuration determine the result and the flag. -/
theorem exists_computes (config : Config) (operation : Operation) (a b : UInt8) :
    ∃ r f, operation.Computes config a b r f ∧
      ∀ r' f', operation.Computes config a b r' f' → r' = r ∧ f' = f := by
  refine ⟨_, _, computes_iff.2 rfl, fun r' f' h => ?_⟩
  exact Prod.ext_iff.1 (computes_iff.1 h)

end Operation

/-- The registers with a result in the register `x` and, written after it, a flag. -/
def Registers.receive (registers : Registers) (x : Nibble) (r : UInt8) : Option UInt8 → Registers
  | none => registers.put x r
  | some flag => (registers.put x r).put Machine.flagRegister flag

/-- What the registers `after` hold once a result for the register `x` and perhaps a flag were put
into the registers `before`. -/
structure Registers.Receives (before : Registers) (x : Nibble) (r : UInt8) (f : Option UInt8)
    (after : Registers) : Prop where
  flag : ∀ flag, f = some flag → after.entry Machine.flagRegister = flag
  result : x ≠ Machine.flagRegister ∨ f = none → after.entry x = r
  others : ∀ z, z ≠ x → z ≠ Machine.flagRegister ∨ f = none → after.entry z = before.entry z

theorem Registers.receives_receive (registers : Registers) (x : Nibble) (r : UInt8)
    (f : Option UInt8) : registers.Receives x r f (registers.receive x r f) := by
  cases f with
  | none =>
    constructor
    · simp
    · intro _
      rw [receive, Table.entry_put, if_pos rfl]
    · intro z hz _
      rw [receive, Table.entry_put, if_neg hz.symm]
  | some flag =>
    constructor
    · intro flag' hflag
      cases hflag
      rw [receive, Table.entry_put, if_pos rfl]
    · intro hx
      have hx' : x ≠ Machine.flagRegister := by simpa using hx
      rw [receive, Table.entry_put, if_neg hx'.symm, Table.entry_put, if_pos rfl]
    · intro z hz hflag
      have hz' : z ≠ Machine.flagRegister := by simpa using hflag
      rw [receive, Table.entry_put, if_neg hz'.symm, Table.entry_put, if_neg hz.symm]

theorem Machine.operate_eq {m : Machine} {config : Config} {operation : Operation} {x y : Nibble}
    {r : UInt8} {f : Option UInt8}
    (h : operation.Computes config (m.register x) (m.register y) r f) :
    m.operate config operation x y = { m with registers := m.registers.receive x r f } := by
  rw [operate, ← Operation.computes_iff.1 h]
  cases f <;> rfl

/-- An operation is carried out wherever it is met, and leaves all but registers alone. -/
theorem Interpreter.step_of_operate (interpreter : Interpreter) {m : Machine}
    {operation : Operation} {x y : Nibble} {r : UInt8} {f : Option UInt8}
    (h : operation.Computes interpreter.config (m.register x) (m.register y) r f)
    (hi : m.instruction? = some (.operate operation x y)) :
    (interpreter.step m).result = .ok .proceed ∧
      (interpreter.step m).interpreter = interpreter ∧
      (interpreter.step m).machine =
        { m with
          pc := m.pc + 2
          registers := m.registers.receive x r f
          word := m.fetch?.getD m.word
          repainted := false
          timers := m.timers.ticks interpreter.config.ticksPerStep } := by
  have hexecuted : interpreter.executed? m = some (.operate operation x y) :=
    executed?_of_instruction? hi rfl
  obtain ⟨effect, he, hresult, hmachine, hinterpreter⟩ := execute_of_executed? hexecuted
  cases he
  refine ⟨hresult, hinterpreter, ?_⟩
  rw [hmachine, Machine.operate_eq (m := m.fetched.advance) h, afterStep_eq_ticks]
  rfl

/-- Operations on registers are whole number arithmetic, and the flag comes last. The rules
determine the result and the flag from the two operands and the configuration. The instruction is
never refused; it puts the two where they belong, whichever registers are named, and changes
nothing else but what every step does. -/
theorem register_arithmetic_is_exact :
    (∀ (config : Config) (operation : Operation) (a b : UInt8), ∃ r f,
      operation.Computes config a b r f ∧
        ∀ r' f', operation.Computes config a b r' f' → r' = r ∧ f' = f) ∧
    ∀ (m : Machine) (config : Config) (operation : Operation) (x y : Nibble) (r : UInt8)
      (f : Option UInt8), operation.Computes config (m.register x) (m.register y) r f →
      (∀ random : Random.Source, ∃ effect,
        (Instruction.operate operation x y).execute config random m = .ok effect ∧
          effect.signal = .proceed ∧ effect.random = random ∧
          m.registers.Receives x r f effect.machine.registers ∧
          effect.machine =
            { m with pc := m.pc + 2, registers := effect.machine.registers }) ∧
      ∀ interpreter : Interpreter, interpreter.config = config →
        m.fetch? = some (Word.ofRegisters 0x8 x y operation.nibble) →
        (interpreter.step m).result = .ok .proceed ∧
          (interpreter.step m).interpreter = interpreter ∧
          m.registers.Receives x r f (interpreter.step m).machine.registers ∧
          (interpreter.step m).machine =
            { m with
              pc := m.pc + 2
              registers := (interpreter.step m).machine.registers
              word := Word.ofRegisters 0x8 x y operation.nibble
              repainted := false
              timers := m.timers.ticks config.ticksPerStep } := by
  refine ⟨Operation.exists_computes, fun m config operation x y r f h => ⟨?_, ?_⟩⟩
  · intro random
    refine ⟨⟨m.advance.operate config operation x y, random, .proceed, []⟩, rfl, rfl, rfl, ?_⟩
    rw [Machine.operate_eq (m := m.advance) h]
    exact ⟨m.registers.receives_receive x r f, rfl⟩
  · rintro interpreter rfl hw
    have hi : m.instruction? = some (.operate operation x y) :=
      (Machine.instruction?_eq_some_iff (by simp)).2 hw
    obtain ⟨hresult, hinterpreter, hmachine⟩ := interpreter.step_of_operate h hi
    rw [hw] at hmachine
    refine ⟨hresult, hinterpreter, ?_, ?_⟩
    · rw [hmachine]
      exact m.registers.receives_receive x r f
    · rw [hmachine]
      rfl

/-- A machine that is about to add to the flag register. -/
def carryingMachine : Machine :=
  { Machine.powerOn.setRegister Machine.flagRegister 0xF0 with
    memory := Machine.powerOn.memory.store Machine.start [0x8F, 0xF4] }

/-- The sum is lost, and the carry is kept. -/
theorem register_arithmetic_is_exact_on_the_flag :
    Operation.add.Computes {} 0xF0 0xF0 0xE0 (some 1) ∧
      ((Interpreter.ofConfig {} 0).step carryingMachine).result = .ok .proceed ∧
      ((Interpreter.ofConfig {} 0).step carryingMachine).machine.register
        Machine.flagRegister = 1 := by
  have hcomputes : Operation.add.Computes {} 0xF0 0xF0 0xE0 (some 1) := ⟨1, rfl, by decide⟩
  have hregister : carryingMachine.register Machine.flagRegister = 0xF0 := by decide
  obtain ⟨hresult, -, hreceives, -⟩ := (register_arithmetic_is_exact.2 carryingMachine {} .add
    Machine.flagRegister Machine.flagRegister 0xE0 (some 1) (by rwa [hregister])).2
    (.ofConfig {} 0) rfl (by decide +kernel)
  exact ⟨hcomputes, hresult, hreceives.flag 1 rfl⟩

end Chip8
