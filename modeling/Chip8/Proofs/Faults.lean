import Chip8.Proofs.Encoding
import Chip8.Proofs.Frame
import Chip8.Proofs.Reading

/-!
# When a step fails

A word stands for an instruction if it fits one of the `Word.patterns`, which show its four digits
and leave open those that are operands. Decoding groups words in another way, but it knows just
the words that fit. So it can be said of the memory, the program counter, the depth of the call
stack and the policy on unknown words alone whether the next step fails and with which fault, and
where a word is passed over nothing happens but that execution goes on behind it.
-/

namespace Chip8

/-- The letters of patterns, read as digits. -/
theorem Text.Hex.digit?_letters :
    digit? 'x' = none ∧ digit? 'y' = none ∧ digit? 'n' = none ∧
      digit? '0' = some (Nibble.ofNat 0x0) ∧ digit? '1' = some (Nibble.ofNat 0x1) ∧
      digit? '2' = some (Nibble.ofNat 0x2) ∧ digit? '3' = some (Nibble.ofNat 0x3) ∧
      digit? '4' = some (Nibble.ofNat 0x4) ∧ digit? '5' = some (Nibble.ofNat 0x5) ∧
      digit? '6' = some (Nibble.ofNat 0x6) ∧ digit? '7' = some (Nibble.ofNat 0x7) ∧
      digit? '8' = some (Nibble.ofNat 0x8) ∧ digit? '9' = some (Nibble.ofNat 0x9) ∧
      digit? 'A' = some (Nibble.ofNat 0xA) ∧ digit? 'B' = some (Nibble.ofNat 0xB) ∧
      digit? 'C' = some (Nibble.ofNat 0xC) ∧ digit? 'D' = some (Nibble.ofNat 0xD) ∧
      digit? 'E' = some (Nibble.ofNat 0xE) ∧ digit? 'F' = some (Nibble.ofNat 0xF) := by
  decide

namespace Word

/-- The words that stand for instructions, digit by digit. A letter that is no digit stands for
any digit. -/
def patterns : List String :=
  ["00E0", "00EE", "1nnn", "2nnn", "3xnn", "4xnn", "5xy0", "6xnn", "7xnn", "8xy0", "8xy1", "8xy2",
    "8xy3", "8xy4", "8xy5", "8xy6", "8xy7", "8xyE", "9xy0", "Annn", "Bnnn", "Cxnn", "Dxyn", "Ex9E",
    "ExA1", "Fx07", "Fx0A", "Fx15", "Fx18", "Fx1E", "Fx29", "Fx33", "Fx55", "Fx65"]

/-- Whether the digit `d` may stand where a pattern has the letter `c`. -/
def admits (c : Char) (d : Nibble) : Bool := (Text.Hex.digit? c).all (d == ·)

/-- Whether a word has the digits that a pattern shows. -/
def fits (w : Word) (pattern : String) : Bool :=
  match pattern.toList with
  | [a, b, c, d] => admits a w.group && admits b w.x && admits c w.y && admits d w.n
  | _ => false

/-- Whether a word stands for an instruction. -/
def documented (w : Word) : Bool := patterns.any w.fits

end Word

namespace Instruction

variable {w : Word}

theorem isSome_decodeBare?_iff :
    (decodeBare? w).isSome = true ↔ w.toNat = 0x00E0 ∨ w.toNat = 0x00EE := by
  unfold decodeBare?
  split <;> simp_all

theorem isSome_ofNibble?_iff {n : Nibble} :
    (Operation.ofNibble? n).isSome = true ↔ n.val ≤ 0x7 ∨ n.val = 0xE := by
  revert n
  decide

theorem isSome_decodeKeypad?_iff :
    (decodeKeypad? w).isSome = true ↔ w.nn.toNat = 0x9E ∨ w.nn.toNat = 0xA1 := by
  unfold decodeKeypad?
  split <;> simp_all

theorem isSome_decodeRegister?_iff :
    (decodeRegister? w).isSome = true ↔
      w.nn.toNat ∈ [0x07, 0x0A, 0x15, 0x18, 0x1E, 0x29, 0x33, 0x55, 0x65] := by
  unfold decodeRegister?
  split <;> simp_all

/-- Decoding knows the words that fit a pattern, and no others. -/
theorem isSome_decode?_iff : (decode? w).isSome = true ↔ w.documented = true := by
  have hlow : ∀ k < 256,
      w.toNat % 256 = k ↔ w.toNat / 16 % 16 = k / 16 ∧ w.toNat % 16 = k % 16 := by omega
  simp only [Word.documented, Word.patterns, List.any_cons, Word.fits, String.reduceToList,
    Word.admits, ↓Char.isValue, Text.Hex.digit?_letters, Option.all_some, Option.all_none,
    Bool.and_true, List.any_nil, Bool.or_false, Bool.or_eq_true, Bool.and_eq_true, beq_iff_eq,
    Fin.ext_iff, Nibble.val_ofNat, Nat.zero_mod, Nat.reduceMod, Nat.one_mod, Nat.mod_succ]
  unfold decode?
  -- In each group only the patterns that begin with its digit are left.
  split
  case h_1 hgroup =>
    rw [Word.val_group] at hgroup
    simp [hgroup, isSome_decodeBare?_iff]
    omega
  case h_9 hgroup =>
    rw [Word.val_group] at hgroup
    simp [hgroup, isSome_ofNibble?_iff]
    omega
  case h_15 hgroup =>
    rw [Word.val_group] at hgroup
    simp [hgroup, isSome_decodeKeypad?_iff, hlow]
  case h_16 =>
    have hlast : w.group.val = 0xF := by grind
    rw [Word.val_group] at hlast
    simp [hlast, isSome_decodeRegister?_iff, hlow]
  all_goals
    rename_i hgroup
    rw [Word.val_group] at hgroup
    simp [hgroup]

theorem decode?_ne_some_unknown (w word : Word) : decode? w ≠ some (unknown word) := by
  unfold decode? decodeBare? decodeKeypad? decodeRegister?
  split
  case h_1 | h_15 | h_16 => split <;> simp
  all_goals simp

theorem decode_eq_unknown_iff : decode w = unknown w ↔ w.documented = false := by
  rw [← Bool.not_eq_true, ← isSome_decode?_iff, decode]
  cases h : decode? w with
  | none => simp
  | some i =>
      simp only [Option.getD_some, Option.isSome_some, not_true_eq_false, iff_false]
      rintro rfl
      exact decode?_ne_some_unknown w w h

theorem decode_eq_ret_iff : decode w = ret ↔ w = 0x00EE := decode_eq_iff (by simp)

theorem exists_decode_eq_call_iff :
    (∃ target, decode w = call target) ↔ 0x2000 ≤ w.toNat ∧ w.toNat ≤ 0x2FFF := by
  constructor
  · rintro ⟨target, h⟩
    obtain rfl := (decode_eq_iff (by simp)).1 h
    rw [encode, Word.ofTarget, UInt16.toNat_ofNat']
    omega
  · rintro ⟨hlow, hhigh⟩
    refine ⟨w.nnn, (decode_eq_iff (by simp)).2 (Word.ofTarget_nnn ?_).symm⟩
    rw [Word.val_group]
    omega

variable {policy : UnknownPolicy} {m : Machine} {i : Instruction}

theorem fault?_eq_stackUnderflow_iff (h : m.stack.depth ≤ 16) :
    i.fault? policy m = some (.stackUnderflow m.pc) ↔ i = ret ∧ m.stack.depth = 0 := by
  cases i with
  | ret => simp [fault?, CallStack.pop?_eq_none_iff h]
  | unknown word => cases policy <;> simp [fault?]
  | _ => simp [fault?]

theorem fault?_eq_stackOverflow_iff (h : m.stack.depth ≤ 16) :
    i.fault? policy m = some (.stackOverflow m.pc) ↔
      (∃ target, i = call target) ∧ m.stack.depth = 16 := by
  have hfull : 16 ≤ m.stack.depth ↔ m.stack.depth = 16 := by omega
  cases i with
  | call target => simp [fault?, CallStack.push?_eq_none_iff, hfull]
  | unknown word => cases policy <;> simp [fault?]
  | _ => simp [fault?]

theorem fault?_eq_unknownWord_iff {word : Word} :
    i.fault? policy m = some (.unknownWord word m.pc) ↔ policy = .strict ∧ i = unknown word := by
  cases i with
  | unknown other => cases policy <;> simp [fault?]
  | _ => simp [fault?]

/-- A word is refused for one of three reasons. -/
theorem fault?_decode_eq_some {fault : Fault} (h : (decode w).fault? policy m = some fault) :
    fault = .stackUnderflow m.pc ∨ fault = .stackOverflow m.pc ∨ fault = .unknownWord w m.pc := by
  cases hi : decode w with
  | ret => simp_all [fault?]
  | call target => simp_all [fault?]
  | unknown word =>
      obtain rfl := eq_of_decode_eq_unknown hi
      cases policy <;> simp_all [fault?]
  | _ => simp [hi, fault?] at h

end Instruction

/-- The word that fetching puts together from two bytes of memory. -/
theorem Machine.fetch?_eq_some_of_toNat_eq {m : Machine} {w : Word} (hpc : m.pc.toNat < 0xFFF)
    (hw : w.toNat = 256 * (m.memory.read m.pc.toNat).toNat +
      (m.memory.read (m.pc.toNat + 1)).toNat) : m.fetch? = some w := by
  refine fetch?_eq_some_iff.2 ⟨by omega, UInt16.toNat_inj.1 ?_⟩
  rw [hw, Memory.word, Word.toNat_ofBytes]

namespace Interpreter

variable {interpreter : Interpreter} {m : Machine} {w : Word}

/-- A word that is passed over leaves behind what every step does. -/
theorem step_of_lenient (hw : m.fetch? = some w)
    (hpolicy : interpreter.config.unknownPolicy = .lenient) (hunknown : w.documented = false) :
    (interpreter.step m).result = .ok .proceed ∧
      (interpreter.step m).interpreter = interpreter ∧
      (interpreter.step m).machine =
        { m with
          pc := m.pc + 2
          word := w
          repainted := false
          timers := m.timers.ticks interpreter.config.ticksPerStep } := by
  have hi := Instruction.decode_eq_unknown_iff.2 hunknown
  have he : (Instruction.decode w).execute interpreter.config interpreter.random m.fetched =
      .ok ⟨m.fetched.advance, interpreter.random, .proceed, [.skipped m.pc w]⟩ := by
    rw [hi, Instruction.execute, hpolicy]
    rfl
  rw [step_of_execute_eq_ok hw he, afterStep_eq_ticks, Machine.fetched_of_fetch?_eq_some hw]
  exact ⟨rfl, rfl, rfl⟩

end Interpreter

/-- Exactly these steps fail, and with these faults. A step fails to fetch where memory has no
word; a return fails if no call is open, a call if sixteen are, and a word that fits no pattern
if the policy is strict. Every other step succeeds. Where the policy is lenient such a word is
passed over, and nothing happens to the machine but what happens in every step. -/
theorem step_fails_exactly_when (interpreter : Interpreter) (m : Machine)
    (hdepth : m.stack.depth ≤ 16) :
    (0xFFF ≤ m.pc.toNat →
      (interpreter.step m).result = .error (.fetchOutOfBounds m.pc)) ∧
    ∀ w : Word, m.pc.toNat < 0xFFF →
      w.toNat = 256 * (m.memory.read m.pc.toNat).toNat +
        (m.memory.read (m.pc.toNat + 1)).toNat →
      ((interpreter.step m).result = .error (.stackUnderflow m.pc) ↔
        w = 0x00EE ∧ m.stack.depth = 0) ∧
      ((interpreter.step m).result = .error (.stackOverflow m.pc) ↔
        (0x2000 ≤ w.toNat ∧ w.toNat ≤ 0x2FFF) ∧ m.stack.depth = 16) ∧
      ((interpreter.step m).result = .error (.unknownWord w m.pc) ↔
        interpreter.config.unknownPolicy = .strict ∧ w.documented = false) ∧
      ((∃ signal, (interpreter.step m).result = .ok signal) ↔
        ¬(w = 0x00EE ∧ m.stack.depth = 0) ∧
        ¬((0x2000 ≤ w.toNat ∧ w.toNat ≤ 0x2FFF) ∧ m.stack.depth = 16) ∧
        ¬(interpreter.config.unknownPolicy = .strict ∧ w.documented = false)) ∧
      (interpreter.config.unknownPolicy = .lenient → w.documented = false →
        (interpreter.step m).result = .ok .proceed ∧
        (interpreter.step m).interpreter = interpreter ∧
        (interpreter.step m).machine =
          { m with
            pc := m.pc + 2
            word := w
            repainted := false
            timers := m.timers.ticks interpreter.config.ticksPerStep }) := by
  refine ⟨fun hpc => ?_, fun w hpc hbytes => ?_⟩
  · rw [Interpreter.step_of_fetch?_eq_none (Machine.fetch?_eq_none_iff.2 hpc)]
  have hw := Machine.fetch?_eq_some_of_toNat_eq hpc hbytes
  have hfault : m.fault? interpreter.config.unknownPolicy =
      (Instruction.decode w).fault? interpreter.config.unknownPolicy m :=
    Machine.fault?_of_instruction? (by rw [Machine.instruction?, hw, Option.map_some])
  have hunderflow : (interpreter.step m).result = .error (.stackUnderflow m.pc) ↔
      w = 0x00EE ∧ m.stack.depth = 0 := by
    rw [Interpreter.result_step_eq_error_iff, hfault,
      Instruction.fault?_eq_stackUnderflow_iff hdepth, Instruction.decode_eq_ret_iff]
  have hoverflow : (interpreter.step m).result = .error (.stackOverflow m.pc) ↔
      (0x2000 ≤ w.toNat ∧ w.toNat ≤ 0x2FFF) ∧ m.stack.depth = 16 := by
    rw [Interpreter.result_step_eq_error_iff, hfault,
      Instruction.fault?_eq_stackOverflow_iff hdepth, Instruction.exists_decode_eq_call_iff]
  have hunknown : (interpreter.step m).result = .error (.unknownWord w m.pc) ↔
      interpreter.config.unknownPolicy = .strict ∧ w.documented = false := by
    rw [Interpreter.result_step_eq_error_iff, hfault, Instruction.fault?_eq_unknownWord_iff,
      Instruction.decode_eq_unknown_iff]
  refine ⟨hunderflow, hoverflow, hunknown, ?_,
    fun hlenient hw' => Interpreter.step_of_lenient hw hlenient hw'⟩
  rw [← hunderflow, ← hoverflow, ← hunknown]
  constructor
  · rintro ⟨signal, hs⟩
    simp [hs]
  · rintro ⟨hnounderflow, hnooverflow, hnounknown⟩
    cases hr : (interpreter.step m).result with
    | ok signal => exact ⟨signal, rfl⟩
    | error fault =>
        have hreason := hr
        rw [Interpreter.result_step_eq_error_iff, hfault] at hreason
        obtain rfl | rfl | rfl := Instruction.fault?_decode_eq_some hreason
        · exact (hnounderflow hr).elim
        · exact (hnooverflow hr).elim
        · exact (hnounknown hr).elim

/-- A machine with all slots of its stack in use, and one word left to fetch. -/
def fullMachine : Machine :=
  { Machine.powerOn with
    memory := Memory.zero.store 0xFFE [0x2A, 0xBC]
    pc := 0xFFE
    stack := ⟨Vector.replicate 16 0x200, 16⟩ }

/-- A machine whose next word fits no pattern. -/
def strayMachine : Machine :=
  { fullMachine with memory := Memory.zero.store 0xFFE [0xF0, 0x0B] }

theorem step_fails_exactly_when_full :
    ((Interpreter.ofConfig {} 0).step fullMachine).result = .error (.stackOverflow 0xFFE) ∧
      ((Interpreter.ofConfig {} 0).step { fullMachine with pc := 0xFFF }).result =
        .error (.fetchOutOfBounds 0xFFF) ∧
      ((Interpreter.ofConfig {} 0).step strayMachine).result =
        .error (.unknownWord 0xF00B 0xFFE) ∧
      ((Interpreter.ofConfig { unknownPolicy := .lenient } 0).step strayMachine).result =
        .ok .proceed ∧
      ((Interpreter.ofConfig { unknownPolicy := .lenient } 0).step strayMachine).machine.pc =
        0x1000 := by
  have hfull := (step_fails_exactly_when (.ofConfig {} 0) fullMachine (by decide)).2 0x2ABC
    (by decide) (by decide +kernel)
  have hbeyond := (step_fails_exactly_when (.ofConfig {} 0) { fullMachine with pc := 0xFFF }
    (by decide)).1 (by decide)
  have hstrict := (step_fails_exactly_when (.ofConfig {} 0) strayMachine (by decide)).2 0xF00B
    (by decide) (by decide +kernel)
  have hlenient := (step_fails_exactly_when (.ofConfig { unknownPolicy := .lenient } 0)
    strayMachine (by decide)).2 0xF00B (by decide) (by decide +kernel)
  have hundocumented : Word.documented 0xF00B = false := by decide +kernel
  obtain ⟨hproceeds, -, hmachine⟩ := hlenient.2.2.2.2 rfl hundocumented
  exact ⟨hfull.2.1.2 (by decide), hbeyond, hstrict.2.2.1.2 ⟨rfl, hundocumented⟩, hproceeds,
    by rw [hmachine]; rfl⟩

end Chip8
