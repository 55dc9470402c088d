import Chip8.Memory
import Chip8.Nibble

/-!
# Instruction words

An instruction is a word of sixteen bits, which memory holds in two bytes, the high
one first. The fields of a word have traditional names: the four nibbles are the
group, `x`, `y` and `n`, the low byte is `nn`, and the low twelve bits are `nnn`.
-/

namespace Chip8

abbrev Word := UInt16

namespace Word

/-- The word with the given high and low byte. -/
def ofBytes (high low : UInt8) : Word := UInt16.ofNat (256 * high.toNat + low.toNat)

/-- The top nibble, which selects a group of instructions. -/
def group (w : Word) : Nibble := Nibble.ofNat (w.toNat / 4096)

/-- The second nibble, most often the register operated on. -/
def x (w : Word) : Nibble := Nibble.ofNat (w.toNat / 256)

/-- The third nibble, most often a second register. -/
def y (w : Word) : Nibble := Nibble.ofNat (w.toNat / 16)

def n (w : Word) : Nibble := Nibble.ofNat w.toNat

def nn (w : Word) : UInt8 := UInt8.ofNat w.toNat

/-- The low twelve bits, an address. -/
def nnn (w : Word) : Address := Fin.ofNat 4096 w.toNat

@[simp] theorem toNat_ofBytes (high low : UInt8) :
    (ofBytes high low).toNat = 256 * high.toNat + low.toNat := by
  have := high.toNat_lt
  have := low.toNat_lt
  simp only [ofBytes, UInt16.toNat_ofNat']
  omega

@[simp] theorem val_group (w : Word) : w.group.val = w.toNat / 4096 := by
  have := w.toNat_lt
  simp only [group, Nibble.val_ofNat]
  omega

@[simp] theorem val_x (w : Word) : w.x.val = w.toNat / 256 % 16 := by
  simp only [x, Nibble.val_ofNat]

@[simp] theorem val_y (w : Word) : w.y.val = w.toNat / 16 % 16 := by
  simp only [y, Nibble.val_ofNat]

@[simp] theorem val_n (w : Word) : w.n.val = w.toNat % 16 := by
  simp only [n, Nibble.val_ofNat]

@[simp] theorem toNat_nn (w : Word) : w.nn.toNat = w.toNat % 256 := by
  simp [nn]

@[simp] theorem val_nnn (w : Word) : w.nnn.val = w.toNat % 4096 := by
  simp only [nnn, Fin.val_ofNat]

end Word

/-- The word at the address `a` and the one after it, the high byte first. -/
def Memory.word (m : Memory) (a : Nat) : Word := Word.ofBytes (m.read a) (m.read (a + 1))

end Chip8
