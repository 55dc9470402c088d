import Chip8.Proofs.Encoding
import Chip8.Proofs.Listing
import Chip8.Proofs.Reading

/-!
# The assembler

The text of an instruction is read back in three stages: a line is parted into a mnemonic and
operands, these name an instruction, and the instruction is encoded. No two forms are written
alike: registers, bytes, addresses and words differ in their first characters or in the number
of their digits, and where instructions share a mnemonic the kinds of their operands tell them
apart. So the texts of a listing determine the listed image, up to an odd last byte, which no
listing shows.
-/

namespace Chip8

namespace Operand

/-- The operand written as a hexadecimal number of so many digits, which tell what it is. -/
def ofWidth? : (width n : Nat) → Option Operand
  | 2, n => some (.byte (UInt8.ofNat n))
  | 3, n => some (.address (Word.nnn (UInt16.ofNat n)))
  | 4, n => some (.word (UInt16.ofNat n))
  | _, _ => none

/-- The operands that are neither registers nor hexadecimal numbers. -/
def named : List Operand :=
  [index, pointed, key, delay, sound, glyph, decimal] ++ (List.finRange 16).map height

/-- The operand that a text stands for. -/
def ofText? (text : String) : Option Operand :=
  match text.toList with
  | ['V', c] => (Text.Hex.digit? c).map register
  | '0' :: 'x' :: digits => (Text.Hex.number? digits).bind (ofWidth? digits.length)
  | _ => named.find? fun o => o.text == text

theorem ofText?_marked {width n : Nat} (hwidth : 0 < width) (h : n < Nat.pow 16 width) :
    ofText? (Text.Hex.marked width n) = ofWidth? width n := by
  have htext : (Text.Hex.marked width n).toList =
      '0' :: 'x' :: (Text.Hex.padded width n).toList := String.toList_append
  simp only [ofText?, htext, Text.Hex.number?_padded, Text.Hex.length_padded hwidth h,
    Option.bind_some]

theorem ofText?_text (o : Operand) : ofText? o.text = some o := by
  cases o with
  | register x =>
      rw [text, ofText?, String.toList_ofList]
      simp only [Text.Hex.digit?_digit, Option.map_some]
  | byte value =>
      rw [text, ofText?_marked (by decide) value.toNat_lt]
      simp [ofWidth?]
  | address target =>
      have hlt : target.val < 65536 := Nat.lt_trans target.isLt (by decide)
      have htarget : Word.nnn (UInt16.ofNat target.val) = target := by
        apply Fin.ext
        rw [Word.val_nnn, UInt16.toNat_ofNat_of_lt' hlt, Nat.mod_eq_of_lt target.isLt]
      rw [text, ofText?_marked (by decide) target.isLt, ofWidth?, htarget]
  | word value =>
      rw [text, ofText?_marked (by decide) value.toNat_lt]
      simp [ofWidth?]
  | height rows =>
      revert rows
      decide
  | index | pointed | key | delay | sound | glyph | decimal => decide

theorem isField_text (o : Operand) : Text.IsField o.text := by
  cases o with
  | byte | address | word => exact Text.Hex.isField_marked _ _
  | register x =>
      revert x
      decide
  | height rows =>
      revert rows
      decide
  | index | pointed | key | delay | sound | glyph | decimal => decide

end Operand

namespace Statement

/-- The statement that a line stands for. -/
def ofText? (line : String) : Option Statement :=
  match Text.fields line with
  | [] => none
  | mnemonic :: operands => (operands.mapM Operand.ofText?).map (Statement.mk mnemonic)

theorem ofText?_text {s : Statement} (h : Text.IsField s.mnemonic) :
    ofText? s.text = some s := by
  obtain ⟨mnemonic, operands⟩ := s
  have hfields : Text.fields (Statement.mk mnemonic operands).text =
      mnemonic :: operands.map Operand.text := by
    cases operands with
    | nil => exact h.fields_eq
    | cons o rest =>
        rw [Statement.text, h.fields_append_blank, Text.fields_intercalate]
        intro part hpart
        obtain ⟨o, -, rfl⟩ := List.mem_map.1 hpart
        exact o.isField_text
  rw [ofText?, hfields]
  simp only [Text.mapM_map_eq_some Operand.ofText?_text, Option.map_some]

end Statement

namespace Instruction

/-- The operations on two registers. -/
def operations : List Operation :=
  [.set, .or, .and, .xor, .add, .sub, .shiftRight, .subReverse, .shiftLeft]

/-- The instruction that a statement stands for. -/
def ofStatement? (s : Statement) : Option Instruction :=
  match s.mnemonic, s.operands with
  | "CLS", [] => some .clear
  | "RET", [] => some .ret
  | "JP", [.address target] => some (.jump target)
  | "JP", [.register x, .address target] => if x.val = 0 then some (.jumpOffset target) else none
  | "CALL", [.address target] => some (.call target)
  | "SE", [.register x, .byte value] => some (.skipEqByte x value)
  | "SE", [.register x, .register y] => some (.skipEq x y)
  | "SNE", [.register x, .byte value] => some (.skipNeByte x value)
  | "SNE", [.register x, .register y] => some (.skipNe x y)
  | "ADD", [.register x, .byte value] => some (.addByte x value)
  | "ADD", [.index, .register x] => some (.addIndex x)
  | "RND", [.register x, .byte mask] => some (.random x mask)
  | "DRW", [.register x, .register y, .height rows] => some (.draw x y rows)
  | "SKP", [.register x] => some (.skipPressed x)
  | "SKNP", [.register x] => some (.skipReleased x)
  | "LD", [.register x, .byte value] => some (.setByte x value)
  | "LD", [.index, .address target] => some (.setIndex target)
  | "LD", [.register x, .key] => some (.awaitKey x)
  | "LD", [.register x, .delay] => some (.getDelay x)
  | "LD", [.delay, .register x] => some (.setDelay x)
  | "LD", [.sound, .register x] => some (.setSound x)
  | "LD", [.glyph, .register x] => some (.setGlyph x)
  | "LD", [.decimal, .register x] => some (.storeDecimal x)
  | "LD", [.pointed, .register x] => some (.storeRegisters x)
  | "LD", [.register x, .pointed] => some (.loadRegisters x)
  | "DW", [.word word] => some (.unknown word)
  | mnemonic, [.register x, .register y] =>
    (operations.find? fun operation => operation.mnemonic == mnemonic).map (operate · x y)
  | _, _ => none

theorem ofStatement?_statement (i : Instruction) : ofStatement? i.statement = some i := by
  cases i with
  | operate operation x y => cases operation <;> rfl
  | _ => rfl

theorem isField_mnemonic (i : Instruction) : Text.IsField i.statement.mnemonic := by
  cases i with
  | operate operation x y =>
      simp only [statement]
      cases operation <;> decide
  | _ =>
      simp only [statement]
      decide

end Instruction

namespace Word

/-- The word that a line of assembly text stands for. -/
def ofText? (line : String) : Option Word :=
  ((Statement.ofText? line).bind Instruction.ofStatement?).map Instruction.encode

/-- The two bytes of a word, the high one first. -/
def bytes (w : Word) : List UInt8 := [UInt8.ofNat (w.toNat / 256), w.nn]

/-- Assembling undoes disassembling. -/
theorem ofText?_decode (w : Word) : ofText? (Instruction.decode w).text = some w := by
  rw [ofText?, Instruction.text, Statement.ofText?_text (Instruction.isField_mnemonic _),
    Option.bind_some, Instruction.ofStatement?_statement, Option.map_some,
    Instruction.encode_decode]

theorem bytes_ofBytes (high low : UInt8) : (ofBytes high low).bytes = [high, low] := by
  have hlow := low.toNat_lt
  have hhigh : (256 * high.toNat + low.toNat) / 256 = high.toNat := by omega
  have hnn : (ofBytes high low).nn = low := by
    rw [← UInt8.toNat_inj, toNat_nn, toNat_ofBytes]
    omega
  rw [bytes, hnn, toNat_ofBytes, hhigh, UInt8.ofNat_toNat]

/-- The words of an image hold all its bytes but an odd last one. -/
theorem flatMap_bytes_ofImage (image : List UInt8) :
    (ofImage image).flatMap bytes = image.take (2 * (image.length / 2)) := by
  fun_induction ofImage image with
  | case1 high low rest ih =>
      have hlength : 2 * ((rest.length + 1 + 1) / 2) = 2 * (rest.length / 2) + 1 + 1 := by omega
      rw [List.flatMap_cons, bytes_ofBytes, ih, List.length_cons, List.length_cons, hlength]
      rfl
  | case2 image hshort =>
      cases image with
      | nil => rfl
      | cons high rest =>
          cases rest with
          | nil => simp
          | cons low rest => exact (hshort high low rest rfl).elim

theorem ofImage_flatMap_bytes (words : List Word) : ofImage (words.flatMap bytes) = words := by
  induction words with
  | nil => rfl
  | cons w rest ih =>
      have hw : ofBytes (UInt8.ofNat (w.toNat / 256)) w.nn = w := by
        have hlt := w.toNat_lt
        rw [← UInt16.toNat_inj, toNat_ofBytes, toNat_nn, UInt8.toNat_ofNat']
        omega
      rw [List.flatMap_cons, bytes, List.cons_append, List.singleton_append, ofImage, hw, ih]

end Word

namespace Listing

/-- The texts of a listing without addresses and words. -/
def texts (image : List UInt8) (origin : UInt16) : List String :=
  (entries image origin).map fun e => e.instruction.text

/-- The image that lines of assembly text stand for. -/
def image? (lines : List String) : Option (List UInt8) :=
  (lines.mapM Word.ofText?).map fun words => words.flatMap Word.bytes

theorem map_word_ofWords (address : UInt16) (words : List Word) :
    (ofWords address words).map Entry.word = words := by
  induction words generalizing address with
  | nil => rfl
  | cons w ws ih => rw [ofWords, List.map_cons, ih]

theorem texts_eq (image : List UInt8) (origin : UInt16) :
    texts image origin = (Word.ofImage image).map fun w => (Instruction.decode w).text := by
  rw [← map_word_ofWords origin (Word.ofImage image), List.map_map]
  rfl

/-- Assembling the texts of a listing gives the image back. -/
theorem image?_texts (image : List UInt8) (origin : UInt16) :
    image? (texts image origin) = some (image.take (2 * (image.length / 2))) := by
  rw [image?, texts_eq, Text.mapM_map_eq_some Word.ofText?_decode, Option.map_some,
    Word.flatMap_bytes_ofImage]

end Listing

/-- A listing has an entry for every two bytes of an image, with their address and their word,
and its texts alone determine the image up to an odd last byte: there is an assembler that
undoes the text of every word, also of those that stand for no instruction, and two images
are listed with the same texts exactly if they have the same words. -/
theorem listing_is_lossless :
    (∀ (image : List UInt8) (origin : UInt16),
      (Listing.entries image origin).length = image.length / 2 ∧
      ∀ k < image.length / 2, ∃ entry high low,
        (Listing.entries image origin)[k]? = some entry ∧
        image[2 * k]? = some high ∧ image[2 * k + 1]? = some low ∧
        entry.address.toNat = (origin.toNat + 2 * k) % 65536 ∧
        entry.word.toNat = 256 * high.toNat + low.toNat ∧
        entry.instruction = Instruction.decode entry.word) ∧
    (∀ (p q : List UInt8) (origin other : UInt16),
      Listing.texts p origin = Listing.texts q other ↔
        p.length / 2 = q.length / 2 ∧
          p.take (2 * (p.length / 2)) = q.take (2 * (q.length / 2))) ∧
    ∀ word : Word, Word.ofText? (Instruction.decode word).text = some word := by
  refine ⟨fun image origin => ⟨Listing.length_entries image origin, fun k hk => ?_⟩,
    fun p q origin other => ⟨fun h => ?_, fun h => ?_⟩, Word.ofText?_decode⟩
  · obtain ⟨high, hhigh⟩ : ∃ high, image[2 * k]? = some high :=
      ⟨_, List.getElem?_eq_getElem (by omega)⟩
    obtain ⟨low, hlow⟩ : ∃ low, image[2 * k + 1]? = some low :=
      ⟨_, List.getElem?_eq_getElem (by omega)⟩
    refine ⟨_, high, low, Listing.getElem?_entries origin hhigh hlow, hhigh, hlow, ?_,
      Word.toNat_ofBytes high low, rfl⟩
    rw [UInt16.toNat_add, UInt16.toNat_ofNat']
    omega
  · have himages := congrArg Listing.image? h
    rw [Listing.image?_texts, Listing.image?_texts, Option.some.injEq] at himages
    refine ⟨?_, himages⟩
    have hlengths := congrArg List.length himages
    rw [List.length_take, List.length_take] at hlengths
    omega
  · have hwords : Word.ofImage p = Word.ofImage q := by
      rw [← Word.ofImage_flatMap_bytes (Word.ofImage p), Word.flatMap_bytes_ofImage, h.2,
        ← Word.flatMap_bytes_ofImage, Word.ofImage_flatMap_bytes]
    rw [Listing.texts_eq, Listing.texts_eq, hwords]

/-- An image of odd length whose second word stands for no instruction, listed across the end
of the addresses, and its texts read back. -/
theorem listing_is_lossless_of_undocumented :
    (∃ entry, (Listing.entries [0x82, 0x06, 0x01, 0x23, 0xF5] 0xFFFE)[1]? = some entry ∧
      entry.address.toNat = 0 ∧ entry.word.toNat = 0x0123) ∧
    (Listing.texts [0x82, 0x06, 0x01, 0x23, 0xF5] 0xFFFE =
      Listing.texts [0x82, 0x06, 0x01, 0x23] 0x200) ∧
    Word.ofText? "DW 0x0123" = some 0x0123 := by
  obtain ⟨hentries, htexts, hword⟩ := listing_is_lossless
  obtain ⟨-, hentry⟩ := hentries [0x82, 0x06, 0x01, 0x23, 0xF5] 0xFFFE
  obtain ⟨entry, high, low, he, hhigh, hlow, haddress, hvalue, -⟩ := hentry 1 (by decide)
  cases hhigh
  cases hlow
  exact ⟨⟨entry, he, haddress, hvalue⟩, (htexts _ _ _ _).2 (by decide), hword 0x0123⟩

end Chip8
