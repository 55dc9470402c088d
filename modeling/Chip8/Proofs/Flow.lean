import Chip8.Proofs.Faults
import Chip8.Proofs.Saving

/-!
# Where execution goes on

A word that fits one of the `Word.patterns` is decoded as the pattern says (`Word.read`), so the
next program counter can be told from the digits of a word: `Word.GoesOnAt` says where each word
leads, and `Word.Skips` when a word skips the one after it. Both speak of natural numbers. A jump
with an offset and a skip at the end of memory lead behind the last address, a return may lead
anywhere, and none of it is more than sixteen bits can hold (`Instruction.target_lt`), so the
place is kept and the next step reports it.
-/

namespace Chip8

namespace Word

variable {w : Word} {pattern : String}

/-- The instruction of a word, read off a pattern that the word fits. -/
def read (w : Word) : (pattern : String) → Instruction
  | "00E0" => .clear
  | "00EE" => .ret
  | "1nnn" => .jump w.nnn
  | "2nnn" => .call w.nnn
  | "3xnn" => .skipEqByte w.x w.nn
  | "4xnn" => .skipNeByte w.x w.nn
  | "5xy0" => .skipEq w.x w.y
  | "6xnn" => .setByte w.x w.nn
  | "7xnn" => .addByte w.x w.nn
  | "8xy0" => .operate .set w.x w.y
  | "8xy1" => .operate .or w.x w.y
  | "8xy2" => .operate .and w.x w.y
  | "8xy3" => .operate .xor w.x w.y
  | "8xy4" => .operate .add w.x w.y
  | "8xy5" => .operate .sub w.x w.y
  | "8xy6" => .operate .shiftRight w.x w.y
  | "8xy7" => .operate .subReverse w.x w.y
  | "8xyE" => .operate .shiftLeft w.x w.y
  | "9xy0" => .skipNe w.x w.y
  | "Annn" => .setIndex w.nnn
  | "Bnnn" => .jumpOffset w.nnn
  | "Cxnn" => .random w.x w.nn
  | "Dxyn" => .draw w.x w.y w.n
  | "Ex9E" => .skipPressed w.x
  | "ExA1" => .skipReleased w.x
  | "Fx07" => .getDelay w.x
  | "Fx0A" => .awaitKey w.x
  | "Fx15" => .setDelay w.x
  | "Fx18" => .setSound w.x
  | "Fx1E" => .addIndex w.x
  | "Fx29" => .setGlyph w.x
  | "Fx33" => .storeDecimal w.x
  | "Fx55" => .storeRegisters w.x
  | "Fx65" => .loadRegisters w.x
  | _ => .unknown w

theorem toNat_nn_of_digits {low : UInt8} (hy : w.y = Nibble.ofNat (low.toNat / 16))
    (hn : w.n = Nibble.ofNat low.toNat) : w.nn.toNat = low.toNat := by
  have hlow := low.toNat_lt
  rw [Fin.ext_iff, val_y, Nibble.val_ofNat] at hy
  rw [Fin.ext_iff, val_n, Nibble.val_ofNat] at hn
  rw [toNat_nn]
  omega

/-- A word is determined by its digits. -/
theorem eq_of_digits {v : Word} (hgroup : w.group = v.group) (hx : w.x = v.x) (hy : w.y = v.y)
    (hn : w.n = v.n) : v = w := by
  rw [Fin.ext_iff, val_group, val_group] at hgroup
  rw [Fin.ext_iff, val_x, val_x] at hx
  rw [Fin.ext_iff, val_y, val_y] at hy
  rw [Fin.ext_iff, val_n, val_n] at hn
  apply UInt16.toNat_inj.1
  omega

theorem encode_read (hp : pattern ∈ patterns) (h : w.fits pattern = true) :
    (w.read pattern).encode = w := by
  unfold read
  split
  case h_35 => simp_all [patterns]
  -- What is left of fitting is one equation for each digit that the pattern shows.
  all_goals
    simp only [fits, String.reduceToList, admits, ↓Char.isValue, Text.Hex.digit?_letters,
      Option.all_some, Option.all_none, Bool.and_true, Bool.and_eq_true, beq_iff_eq] at h
  case h_1 | h_2 => exact eq_of_digits h.1.1.1 h.1.1.2 h.1.2 h.2
  case h_3 | h_4 | h_20 | h_21 => exact ofTarget_nnn (congrArg Fin.val h)
  case h_5 | h_6 | h_8 | h_9 | h_22 => exact ofRegister_x (congrArg Fin.val h) rfl
  case h_7 | h_10 | h_11 | h_12 | h_13 | h_14 | h_15 | h_16 | h_17 | h_18 | h_19 =>
    exact ofRegisters_x_y (congrArg Fin.val h.1) (congrArg Fin.val h.2)
  case h_23 => exact ofRegisters_x_y (congrArg Fin.val h) rfl
  all_goals exact ofRegister_x (congrArg Fin.val h.1.1) (toNat_nn_of_digits h.1.2 h.2)

theorem read_ne_unknown (hp : pattern ∈ patterns) (word : Word) :
    w.read pattern ≠ .unknown word := by
  unfold read
  split
  case h_35 => simp_all [patterns]
  all_goals simp

/-- Decoding reads a word as the pattern says that it fits. -/
theorem decode_eq_read (hp : pattern ∈ patterns) (h : w.fits pattern = true) :
    Instruction.decode w = w.read pattern :=
  (Instruction.decode_eq_iff (read_ne_unknown hp)).2 (encode_read hp h).symm

/-- The word asks for something that is the case on the machine, and so skips the next one. -/
def Skips (w : Word) (m : Machine) : Prop :=
  w.fits "3xnn" = true ∧ m.register w.x = w.nn ∨
    w.fits "4xnn" = true ∧ m.register w.x ≠ w.nn ∨
    w.fits "5xy0" = true ∧ m.register w.x = m.register w.y ∨
    w.fits "9xy0" = true ∧ m.register w.x ≠ m.register w.y ∨
    w.fits "Ex9E" = true ∧ m.keypad.entry (Nibble.ofByte (m.register w.x)) = true ∨
    w.fits "ExA1" = true ∧ m.keypad.entry (Nibble.ofByte (m.register w.x)) = false

/-- Where the machine `m` goes on after it has executed the word `w`. -/
structure GoesOnAt (w : Word) (m : Machine) (next : Nat) : Prop where
  jump : w.fits "1nnn" = true ∨ w.fits "2nnn" = true → next = w.nnn.val
  jumpOffset : w.fits "Bnnn" = true → next = w.nnn.val + (m.register (Nibble.ofNat 0)).toNat
  ret : w.fits "00EE" = true →
    ∃ address, m.stack.slots[m.stack.depth - 1]? = some address ∧ next = address.toNat
  wait : w.fits "Fx0A" = true → (∀ k, m.keypad.entry k = false) → next = m.pc.toNat
  skip : w.Skips m → next = m.pc.toNat + 4
  other : w.fits "1nnn" = false → w.fits "2nnn" = false → w.fits "Bnnn" = false →
    w.fits "00EE" = false → (w.fits "Fx0A" = true → ∃ k, m.keypad.entry k = true) →
    ¬w.Skips m → next = m.pc.toNat + 2

end Word

namespace Instruction

variable {w : Word} {m : Machine} {i : Instruction}

/-- An instruction that does nothing but skip the next one or not. -/
def tests : Instruction → Bool
  | skipEqByte _ _ => true
  | skipNeByte _ _ => true
  | skipEq _ _ => true
  | skipNe _ _ => true
  | skipPressed _ => true
  | skipReleased _ => true
  | _ => false

/-- A word is read by a pattern that it fits, or it stands for no instruction. -/
theorem decode_eq_read_or (w : Word) :
    (∃ pattern ∈ Word.patterns, w.fits pattern = true ∧ decode w = w.read pattern) ∨
      decode w = unknown w := by
  cases h : w.documented with
  | false => exact .inr (decode_eq_unknown_iff.2 h)
  | true =>
      obtain ⟨pattern, hp, hfits⟩ := List.any_eq_true.1 h
      exact .inl ⟨pattern, hp, hfits, Word.decode_eq_read hp hfits⟩

theorem skips_decode_iff : (decode w).skips m = true ↔ w.Skips m := by
  constructor
  · intro h
    obtain ⟨pattern, hp, hfits, hread⟩ | hunknown := decode_eq_read_or w
    · rw [hread] at h
      unfold Word.read at h
      split at h
      case h_5 => exact .inl ⟨hfits, eq_of_beq h⟩
      case h_6 => exact .inr (.inl ⟨hfits, bne_iff_ne.1 h⟩)
      case h_7 => exact .inr (.inr (.inl ⟨hfits, eq_of_beq h⟩))
      case h_19 => exact .inr (.inr (.inr (.inl ⟨hfits, bne_iff_ne.1 h⟩)))
      case h_24 => exact .inr (.inr (.inr (.inr (.inl ⟨hfits, h⟩))))
      case h_25 =>
        exact .inr (.inr (.inr (.inr (.inr ⟨hfits, by rwa [skips, Bool.not_eq_true'] at h⟩))))
      all_goals cases h
    · rw [hunknown] at h
      cases h
  · rintro (⟨hfits, h⟩ | ⟨hfits, h⟩ | ⟨hfits, h⟩ | ⟨hfits, h⟩ | ⟨hfits, h⟩ | ⟨hfits, h⟩)
    all_goals
      rw [Word.decode_eq_read (by simp [Word.patterns]) hfits]
      simp [Word.read, skips, h]

theorem target_of_tests (h : i.tests = true) :
    i.target m = m.pc.toNat + if i.skips m then 4 else 2 := by
  cases i with
  | skipEqByte | skipNeByte | skipEq | skipNe | skipPressed | skipReleased => rfl
  | _ => cases h

theorem tests_of_skips (h : i.skips m = true) : i.tests = true := by
  cases i with
  | skipEqByte | skipNeByte | skipEq | skipNe | skipPressed | skipReleased => rfl
  | _ => cases h

/-- Sixteen bits are enough for the place where execution goes on. -/
theorem target_lt (hpc : m.pc.toNat ≤ 0xFFE) (i : Instruction) : i.target m < 0x10000 := by
  cases i with
  | ret =>
      cases hl : m.stack.live.getLast? with
      | none => simp [target, hl]
      | some address =>
          simp only [target, hl, Option.map_some, Option.getD_some]
          exact address.toNat_lt
  | jump target | call target => simp only [Instruction.target]; omega
  | jumpOffset target =>
      have hv := (m.register (Nibble.ofNat 0)).toNat_lt
      simp only [Instruction.target]
      omega
  | _ => simp only [target]; split <;> omega

/-- Execution goes on where the digits of the word say. -/
theorem goesOnAt_target (hret : decode w = ret → 0 < m.stack.depth ∧ m.stack.depth ≤ 16) :
    w.GoesOnAt m ((decode w).target m) where
  jump h := by
    rcases h with h | h
    · rw [Word.decode_eq_read (by simp [Word.patterns]) h]
      rfl
    · rw [Word.decode_eq_read (by simp [Word.patterns]) h]
      rfl
  jumpOffset h := by
    rw [Word.decode_eq_read (by simp [Word.patterns]) h]
    rfl
  ret h := by
    have hread : decode w = ret := Word.decode_eq_read (by simp [Word.patterns]) h
    obtain ⟨hpos, hle⟩ := hret hread
    have hslot : m.stack.depth - 1 < 16 := by omega
    refine ⟨_, Vector.getElem?_eq_getElem hslot, ?_⟩
    rw [hread, target, CallStack.getLast?_live hpos hle, Vector.getElem?_eq_getElem hslot]
    rfl
  wait h hreleased := by
    rw [Word.decode_eq_read (by simp [Word.patterns]) h]
    simp [Word.read, target, Keypad.lowest?_eq_none_iff.2 hreleased]
  skip h := by
    have hskips := skips_decode_iff.2 h
    rw [target_of_tests (tests_of_skips hskips), if_pos hskips]
  other hjump hcall hoffset hret hwait hskips := by
    rw [← skips_decode_iff, Bool.not_eq_true] at hskips
    obtain ⟨pattern, hp, hfits, hread⟩ | hunknown := decode_eq_read_or w
    · unfold Word.read at hread
      split at hread
      all_goals rw [hread] at hskips ⊢
      case h_2 | h_3 | h_4 | h_21 => simp_all
      case h_27 =>
        obtain ⟨key, hkey⟩ := Keypad.exists_lowest? (hwait hfits)
        simp [target, hkey]
      all_goals simp [target, hskips]
    · rw [hunknown]
      rfl

end Instruction

namespace Machine

/-- The machine with the word `w` in the place of the next one. -/
def facing (m : Machine) (w : Word) : Machine :=
  { m with memory := m.memory.store m.pc.toNat [UInt8.ofNat (w.toNat / 256), w.nn] }

theorem fetch?_facing {m : Machine} (hpc : m.pc.toNat ≤ 0xFFE) (w : Word) :
    (m.facing w).fetch? = some w := by
  have hhigh : (m.facing w).memory.read (m.pc.toNat + 0) = UInt8.ofNat (w.toNat / 256) :=
    Memory.read_store_add _ _ (by simp) rfl
  have hlow : (m.facing w).memory.read (m.pc.toNat + 1) = w.nn :=
    Memory.read_store_add _ _ (by simp) rfl
  have hplace : (m.facing w).pc = m.pc := rfl
  have hw := w.toNat_lt
  refine fetch?_eq_some_iff.2 ⟨hpc, UInt16.toNat_inj.1 ?_⟩
  rw [Nat.add_zero] at hhigh
  rw [Memory.word, hplace, hhigh, hlow, Word.toNat_ofBytes, UInt8.toNat_ofNat', Word.toNat_nn]
  omega

end Machine

namespace Interpreter

variable {interpreter : Interpreter} {m : Machine} {i j : Instruction}

/-- Of two words that the machine may face one skips the next word and the other does not. -/
structure SkipsOne (interpreter : Interpreter) (m : Machine) (w v : Word) : Prop where
  proceed : (interpreter.step (m.facing w)).result = .ok .proceed ∧
    (interpreter.step (m.facing v)).result = .ok .proceed
  pc : (interpreter.step (m.facing w)).machine.pc.toNat = m.pc.toNat + 4 ∧
      (interpreter.step (m.facing v)).machine.pc.toNat = m.pc.toNat + 2 ∨
    (interpreter.step (m.facing w)).machine.pc.toNat = m.pc.toNat + 2 ∧
      (interpreter.step (m.facing v)).machine.pc.toNat = m.pc.toNat + 4

theorem toNat_pc_step (h : interpreter.executed? m = some i) :
    (interpreter.step m).machine.pc.toNat = i.target m := by
  rw [pc_step h, UInt16.toNat_ofNat']
  exact Nat.mod_eq_of_lt (i.target_lt (pc_le_of_executed? h))

theorem step_facing_of_tests (interpreter : Interpreter) (hpc : m.pc.toNat ≤ 0xFFE)
    (hi : i.tests = true) :
    (interpreter.step (m.facing i.encode)).result = .ok .proceed ∧
      (interpreter.step (m.facing i.encode)).machine.pc.toNat =
        m.pc.toNat + if i.skips m then 4 else 2 := by
  have hknown : ∀ word, i ≠ .unknown word := by
    rintro word rfl
    cases hi
  have hnext : (m.facing i.encode).instruction? = some i :=
    (Machine.instruction?_eq_some_iff hknown).2 (Machine.fetch?_facing hpc i.encode)
  -- Neither a fault, nor a wait, nor a byte in memory has a part in a test.
  have htests : i.fault? interpreter.config.unknownPolicy (m.facing i.encode) = none ∧
      i.signal (m.facing i.encode) = .proceed ∧ i.skips (m.facing i.encode) = i.skips m := by
    cases i with
    | skipEqByte | skipNeByte | skipEq | skipNe | skipPressed | skipReleased =>
        exact ⟨rfl, rfl, rfl⟩
    | _ => cases hi
  have hexecuted := executed?_of_instruction? hnext htests.1
  constructor
  · rw [result_step hexecuted, htests.2.1]
  · rw [toNat_pc_step hexecuted, Instruction.target_of_tests hi, htests.2.2]
    rfl

/-- Tests that answer oppositely complement each other. -/
theorem skipsOne_encode (hpc : m.pc.toNat ≤ 0xFFE) (hi : i.tests = true) (hj : j.tests = true)
    (h : j.skips m = !i.skips m) : interpreter.SkipsOne m i.encode j.encode := by
  obtain ⟨hproceed, hnext⟩ := interpreter.step_facing_of_tests hpc hi
  obtain ⟨hproceed', hnext'⟩ := interpreter.step_facing_of_tests hpc hj
  refine ⟨⟨hproceed, hproceed'⟩, ?_⟩
  rw [hnext, hnext', h]
  cases i.skips m with
  | true => exact .inl ⟨rfl, rfl⟩
  | false => exact .inr ⟨rfl, rfl⟩

theorem goesOnAt_step {w : Word} {signal : Signal} (hw : m.fetch? = some w)
    (h : (interpreter.step m).result = .ok signal) :
    w.GoesOnAt m (interpreter.step m).machine.pc.toNat := by
  have hexecuted : interpreter.executed? m = some (Instruction.decode w) := by
    rw [executed?, h]
    exact (Option.map_eq_some_iff).2 ⟨w, hw, rfl⟩
  rw [toNat_pc_step hexecuted]
  refine Instruction.goesOnAt_target fun hret => ?_
  -- A return that was carried out has found an address on the stack.
  rw [hret] at hexecuted
  obtain ⟨⟨address, below⟩, hpopped, -⟩ := Option.map_eq_some_iff.1 (stackAfter?_step hexecuted)
  obtain ⟨hle, hdepth⟩ := CallStack.depth_pop? hpopped
  exact ⟨by omega, hle⟩

end Interpreter

/-- Every step that does not fail goes on where its word says, told in whole numbers: at the target
of a jump or a call, at the newest address on the stack, behind the next word if a test holds, at
the same word while it waits for a key, and at the next word otherwise. If that is behind the last
word of memory, the next step fails there. Of two complementary tests, faced in the same place of
the same machine, one skips and the other does not. -/
theorem step_goes_on_at (interpreter : Interpreter) (m : Machine) :
    (∀ (w : Word) (signal : Signal),
      w.toNat = 256 * (m.memory.read m.pc.toNat).toNat +
        (m.memory.read (m.pc.toNat + 1)).toNat →
      (interpreter.step m).result = .ok signal →
      w.GoesOnAt m (interpreter.step m).machine.pc.toNat ∧
        (0xFFF ≤ (interpreter.step m).machine.pc.toNat → ∀ other : Interpreter,
          (other.step (interpreter.step m).machine).result =
            .error (.fetchOutOfBounds (interpreter.step m).machine.pc))) ∧
    (m.pc.toNat ≤ 0xFFE →
      (∀ x value, interpreter.SkipsOne m (Word.ofRegister 0x3 x value)
        (Word.ofRegister 0x4 x value)) ∧
      (∀ x y, interpreter.SkipsOne m (Word.ofRegisters 0x5 x y (Nibble.ofNat 0))
        (Word.ofRegisters 0x9 x y (Nibble.ofNat 0))) ∧
      ∀ x, interpreter.SkipsOne m (Word.ofRegister 0xE x 0x9E) (Word.ofRegister 0xE x 0xA1)) := by
  constructor
  · intro w signal hbytes hok
    obtain ⟨word, -, hw, -⟩ := Interpreter.step_of_ok hok
    have hpc := (Machine.fetch?_eq_some_iff.1 hw).1
    refine ⟨Interpreter.goesOnAt_step (Machine.fetch?_eq_some_of_toNat_eq (by omega) hbytes) hok,
      fun hbeyond other => ?_⟩
    rw [Interpreter.step_of_fetch?_eq_none (Machine.fetch?_eq_none_iff.2 hbeyond)]
  · intro hpc
    refine ⟨fun x value => ?_, fun x y => ?_, fun x => ?_⟩
    · exact Interpreter.skipsOne_encode (i := .skipEqByte x value) (j := .skipNeByte x value)
        hpc rfl rfl rfl
    · exact Interpreter.skipsOne_encode (i := .skipEq x y) (j := .skipNe x y) hpc rfl rfl rfl
    · exact Interpreter.skipsOne_encode (i := .skipPressed x) (j := .skipReleased x)
        hpc rfl rfl rfl

/-- A machine whose last word jumps as far behind the end of memory as a jump can. -/
def jumpingMachine : Machine :=
  { Machine.powerOn with
    memory := Memory.zero.store 0xFFE [0xBF, 0xFF]
    pc := 0xFFE
    registers := Machine.powerOn.registers.put (Nibble.ofNat 0) 0xFF }

theorem step_goes_on_at_behind_memory :
    ((Interpreter.ofConfig {} 0).step jumpingMachine).machine.pc.toNat = 0x10FE ∧
      (∀ other : Interpreter,
        (other.step ((Interpreter.ofConfig {} 0).step jumpingMachine).machine).result =
          .error (.fetchOutOfBounds
            ((Interpreter.ofConfig {} 0).step jumpingMachine).machine.pc)) ∧
      (Interpreter.ofConfig {} 0).SkipsOne jumpingMachine 0x30FF 0x40FF := by
  obtain ⟨hsteps, htests⟩ := step_goes_on_at (.ofConfig {} 0) jumpingMachine
  obtain ⟨hnext, hbeyond⟩ := hsteps 0xBFFF .proceed (by decide +kernel) (by decide +kernel)
  have hpc := hnext.jumpOffset (by decide +kernel)
  have hfar : Word.nnn 0xBFFF = 0xFFF ∧ jumpingMachine.register (Nibble.ofNat 0) = 0xFF := by
    decide +kernel
  rw [hfar.1, hfar.2] at hpc
  have hplace : ((Interpreter.ofConfig {} 0).step jumpingMachine).machine.pc.toNat = 0x10FE := hpc
  exact ⟨hplace, hbeyond (by rw [hplace]; decide), (htests (by decide)).1 (Nibble.ofNat 0) 0xFF⟩

end Chip8
