import Chip8.Instruction.Assembly

/-!
# Listings

A program image is read as a sequence of words, two bytes each; a last byte without
a partner is left out. A listing names for each word its address and its
instruction. Addresses have sixteen bits and run round, so an image may be listed
from any origin.
-/

namespace Chip8

def Word.ofImage : List UInt8 → List Word
  | high :: low :: rest => Word.ofBytes high low :: ofImage rest
  | _ => []

/-- A listed word and the address it is loaded at. -/
structure Listing.Entry where
  address : UInt16
  word : Word
  deriving DecidableEq, Repr

namespace Listing

def Entry.instruction (e : Entry) : Instruction := Instruction.decode e.word

/-- The address, the word and the text of an instruction, as listings and logs show
them. -/
def line (address : UInt16) (word : Word) : String :=
  Text.Hex.padded 3 address.toNat ++ ": " ++ Text.Hex.padded 4 word.toNat ++ "  " ++
    (Instruction.decode word).text

def Entry.line (e : Entry) : String := Listing.line e.address e.word

/-- The entries of consecutive words, of which the first stands at `address`. -/
def ofWords (address : UInt16) : List Word → List Entry
  | [] => []
  | w :: ws => ⟨address, w⟩ :: ofWords (address + 2) ws

/-- The entries of an image whose first byte is loaded at `origin`. -/
def entries (image : List UInt8) (origin : UInt16) : List Entry :=
  ofWords origin (Word.ofImage image)

def lines (image : List UInt8) (origin : UInt16) : List String :=
  (entries image origin).map Entry.line

end Listing

theorem Word.length_ofImage (image : List UInt8) :
    (Word.ofImage image).length = image.length / 2 := by
  fun_induction Word.ofImage image with
  | case1 high low rest ih => simp [ih]; omega
  | case2 image h =>
    match image, h with
    | [], _ => simp
    | [_], _ => simp
    | a :: b :: rest, h => exact (h a b rest rfl).elim

@[simp] theorem Listing.length_ofWords (address : UInt16) (words : List Word) :
    (ofWords address words).length = words.length := by
  induction words generalizing address with
  | nil => rfl
  | cons w ws ih => simp [ofWords, ih]

theorem Listing.length_entries (image : List UInt8) (origin : UInt16) :
    (entries image origin).length = image.length / 2 := by
  rw [entries, length_ofWords, Word.length_ofImage]

end Chip8
