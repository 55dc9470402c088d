import Chip8.Instruction.Decode

/-!
# Encoding

`Instruction.encode` puts the operands of an instruction back into a word: the group on top,
and below it an address, a register and a byte, or two registers and a nibble. Decoding loses
no bit of a word, so encoding what was decoded gives the word back, also where the word stands
for no instruction. An instruction that is known is read from the word it is encoded in, so it
stands for this word only.
-/

namespace Chip8

namespace Word

/-- The word of a group that is followed by an address. -/
def ofTarget (group : Nat) (target : Address) : Word := UInt16.ofNat (4096 * group + target.val)

/-- The word of a group that is followed by a register and a byte. -/
def ofRegister (group : Nat) (x : Nibble) (low : UInt8) : Word :=
  UInt16.ofNat (4096 * group + 256 * x.val + low.toNat)

/-- The word of a group that is followed by two registers and a nibble. -/
def ofRegisters (group : Nat) (x y n : Nibble) : Word :=
  UInt16.ofNat (4096 * group + 256 * x.val + 16 * y.val + n.val)

variable {w : Word} {group : Nat}

theorem ofNat_eq_of_toNat {n : Nat} (h : n = w.toNat) : UInt16.ofNat n = w := by
  rw [h, UInt16.ofNat_toNat]

theorem ofTarget_nnn (h : w.group.val = group) : ofTarget group w.nnn = w := by
  rw [val_group] at h
  apply ofNat_eq_of_toNat
  rw [val_nnn]
  omega

theorem ofRegister_x {low : UInt8} (h : w.group.val = group) (hlow : w.nn.toNat = low.toNat) :
    ofRegister group w.x low = w := by
  rw [val_group] at h
  rw [toNat_nn] at hlow
  apply ofNat_eq_of_toNat
  rw [val_x]
  omega

theorem ofRegisters_x_y {n : Nibble} (h : w.group.val = group) (hn : w.n.val = n.val) :
    ofRegisters group w.x w.y n = w := by
  rw [val_group] at h
  rw [val_n] at hn
  apply ofNat_eq_of_toNat
  rw [val_x, val_y]
  omega

/-! The fields of a word that was put together. -/

section Fields

variable (group : Nat) (target : Address) (x y n : Nibble) (low : UInt8)

@[simp] theorem group_ofTarget : (ofTarget group target).group = Nibble.ofNat group := by
  apply Fin.ext
  rw [val_group, ofTarget, UInt16.toNat_ofNat', Nibble.val_ofNat]
  omega

@[simp] theorem nnn_ofTarget : (ofTarget group target).nnn = target := by
  apply Fin.ext
  rw [val_nnn, ofTarget, UInt16.toNat_ofNat']
  omega

@[simp] theorem group_ofRegister : (ofRegister group x low).group = Nibble.ofNat group := by
  have := low.toNat_lt
  apply Fin.ext
  rw [val_group, ofRegister, UInt16.toNat_ofNat', Nibble.val_ofNat]
  omega

@[simp] theorem x_ofRegister : (ofRegister group x low).x = x := by
  have := low.toNat_lt
  apply Fin.ext
  rw [val_x, ofRegister, UInt16.toNat_ofNat']
  omega

@[simp] theorem nn_ofRegister : (ofRegister group x low).nn = low := by
  have := low.toNat_lt
  apply UInt8.toNat_inj.1
  rw [toNat_nn, ofRegister, UInt16.toNat_ofNat']
  omega

@[simp] theorem group_ofRegisters : (ofRegisters group x y n).group = Nibble.ofNat group := by
  apply Fin.ext
  rw [val_group, ofRegisters, UInt16.toNat_ofNat', Nibble.val_ofNat]
  omega

@[simp] theorem x_ofRegisters : (ofRegisters group x y n).x = x := by
  apply Fin.ext
  rw [val_x, ofRegisters, UInt16.toNat_ofNat']
  omega

@[simp] theorem y_ofRegisters : (ofRegisters group x y n).y = y := by
  apply Fin.ext
  rw [val_y, ofRegisters, UInt16.toNat_ofNat']
  omega

@[simp] theorem n_ofRegisters : (ofRegisters group x y n).n = n := by
  apply Fin.ext
  rw [val_n, ofRegisters, UInt16.toNat_ofNat']
  omega

end Fields

end Word

/-- The low nibble that selects an operation. -/
def Operation.nibble : Operation → Nibble
  | set => Nibble.ofNat 0x0
  | or => Nibble.ofNat 0x1
  | and => Nibble.ofNat 0x2
  | xor => Nibble.ofNat 0x3
  | add => Nibble.ofNat 0x4
  | sub => Nibble.ofNat 0x5
  | shiftRight => Nibble.ofNat 0x6
  | subReverse => Nibble.ofNat 0x7
  | shiftLeft => Nibble.ofNat 0xE

theorem Operation.nibble_of_ofNibble? {n : Nibble} {operation : Operation}
    (h : ofNibble? n = some operation) : operation.nibble = n := by
  revert operation n
  decide

@[simp] theorem Operation.ofNibble?_nibble (operation : Operation) :
    ofNibble? operation.nibble = some operation := by
  cases operation <;> rfl

namespace Instruction

/-- The word that stands for an instruction. -/
def encode : Instruction → Word
  | clear => 0x00E0
  | ret => 0x00EE
  | jump target => Word.ofTarget 0x1 target
  | call target => Word.ofTarget 0x2 target
  | skipEqByte x value => Word.ofRegister 0x3 x value
  | skipNeByte x value => Word.ofRegister 0x4 x value
  | skipEq x y => Word.ofRegisters 0x5 x y (Nibble.ofNat 0)
  | setByte x value => Word.ofRegister 0x6 x value
  | addByte x value => Word.ofRegister 0x7 x value
  | operate operation x y => Word.ofRegisters 0x8 x y operation.nibble
  | skipNe x y => Word.ofRegisters 0x9 x y (Nibble.ofNat 0)
  | setIndex target => Word.ofTarget 0xA target
  | jumpOffset target => Word.ofTarget 0xB target
  | random x mask => Word.ofRegister 0xC x mask
  | draw x y rows => Word.ofRegisters 0xD x y rows
  | skipPressed x => Word.ofRegister 0xE x 0x9E
  | skipReleased x => Word.ofRegister 0xE x 0xA1
  | getDelay x => Word.ofRegister 0xF x 0x07
  | awaitKey x => Word.ofRegister 0xF x 0x0A
  | setDelay x => Word.ofRegister 0xF x 0x15
  | setSound x => Word.ofRegister 0xF x 0x18
  | addIndex x => Word.ofRegister 0xF x 0x1E
  | setGlyph x => Word.ofRegister 0xF x 0x29
  | storeDecimal x => Word.ofRegister 0xF x 0x33
  | storeRegisters x => Word.ofRegister 0xF x 0x55
  | loadRegisters x => Word.ofRegister 0xF x 0x65
  | unknown word => word

variable {w : Word} {i : Instruction}

theorem encode_of_decodeBare? (h : decodeBare? w = some i) : i.encode = w := by
  unfold decodeBare? at h
  split at h
  · rename_i hw
    cases h
    exact UInt16.toNat_inj.1 hw.symm
  · rename_i hw
    cases h
    exact UInt16.toNat_inj.1 hw.symm
  · cases h

theorem encode_of_decodeKeypad? (hg : w.group.val = 0xE) (h : decodeKeypad? w = some i) :
    i.encode = w := by
  unfold decodeKeypad? at h
  split at h
  · cases h
    exact Word.ofRegister_x hg ‹_›
  · cases h
    exact Word.ofRegister_x hg ‹_›
  · cases h

theorem encode_of_decodeRegister? (hg : w.group.val = 0xF) (h : decodeRegister? w = some i) :
    i.encode = w := by
  unfold decodeRegister? at h
  split at h <;> cases h
  all_goals exact Word.ofRegister_x hg ‹_›

theorem encode_of_decode? (h : decode? w = some i) : i.encode = w := by
  unfold decode? at h
  split at h
  case h_1 => exact encode_of_decodeBare? h
  case h_2 | h_3 | h_11 | h_12 =>
    cases h
    exact Word.ofTarget_nnn ‹_›
  case h_4 | h_5 | h_7 | h_8 | h_13 =>
    cases h
    exact Word.ofRegister_x ‹_› rfl
  case h_6 | h_10 =>
    obtain ⟨hn, hi⟩ := Option.ite_none_right_eq_some.1 h
    cases hi
    exact Word.ofRegisters_x_y ‹_› hn
  case h_9 =>
    obtain ⟨operation, ho, rfl⟩ := Option.map_eq_some_iff.1 h
    exact Word.ofRegisters_x_y ‹_› (congrArg Fin.val (Operation.nibble_of_ofNibble? ho)).symm
  case h_14 =>
    cases h
    exact Word.ofRegisters_x_y ‹_› rfl
  case h_15 => exact encode_of_decodeKeypad? ‹_› h
  case h_16 =>
    have hlt := w.group.isLt
    have hg : w.group.val = 0xF := by grind
    exact encode_of_decodeRegister? hg h

/-- Decoding loses nothing of a word. -/
theorem encode_decode (w : Word) : (decode w).encode = w := by
  unfold decode
  cases h : decode? w with
  | none => rfl
  | some i => exact encode_of_decode? h

theorem eq_of_decode_eq_unknown {other : Word} (h : decode w = .unknown other) : other = w := by
  have hencoded := encode_decode w
  rwa [h] at hencoded

theorem decode?_encode (h : ∀ word, i ≠ unknown word) : decode? i.encode = some i := by
  cases i with
  | unknown word => exact (h word rfl).elim
  | clear | ret => rfl
  | _ => simp [encode, decode?, decodeKeypad?, decodeRegister?]

/-- An instruction that is known stands for one word, and this word for no other instruction. -/
theorem decode_eq_iff (h : ∀ word, i ≠ unknown word) : decode w = i ↔ w = i.encode := by
  constructor
  · rintro rfl
    exact (encode_decode w).symm
  · rintro rfl
    rw [decode, decode?_encode h, Option.getD_some]

end Instruction

end Chip8
