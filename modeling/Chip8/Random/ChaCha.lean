import Chip8.Nibble

/-!
# The ChaCha stream

ChaCha turns a key of eight words into an endless sequence of words. The sequence
comes in blocks of sixteen; a block mixes the constants, the key and the number of
the block in double rounds and adds what it started from. The variant here has six
double rounds, counts blocks in two words and has no nonce.
-/

namespace Chip8.Random.ChaCha

abbrev Block := Table UInt32

/-- The eight words of a key. -/
abbrev Key := Vector UInt32 8

/-- The word `w` with its bits moved `count` places to the left, round the end. -/
def rotateLeft (w : UInt32) (count : UInt32) : UInt32 :=
  (w <<< count) ||| (w >>> (32 - count))

/-- Mixes four words. -/
def mix (a b c d : UInt32) : UInt32 × UInt32 × UInt32 × UInt32 :=
  let a := a + b
  let d := rotateLeft (d ^^^ a) 16
  let c := c + d
  let b := rotateLeft (b ^^^ c) 12
  let a := a + b
  let d := rotateLeft (d ^^^ a) 8
  let c := c + d
  let b := rotateLeft (b ^^^ c) 7
  (a, b, c, d)

def quarterRound (s : Block) (i j k l : Nat) : Block :=
  let (i, j, k, l) := (Nibble.ofNat i, Nibble.ofNat j, Nibble.ofNat k, Nibble.ofNat l)
  let (a, b, c, d) := mix (s.entry i) (s.entry j) (s.entry k) (s.entry l)
  (((s.put i a).put j b).put k c).put l d

/-- Mixes the four columns of a block that is read as a square. -/
def columnRound (s : Block) : Block :=
  (List.range 4).foldl (fun s i => quarterRound s i (4 + i) (8 + i) (12 + i)) s

/-- Mixes the four diagonals of a block that is read as a square. -/
def diagonalRound (s : Block) : Block :=
  (List.range 4).foldl
    (fun s i => quarterRound s i (4 + (i + 1) % 4) (8 + (i + 2) % 4) (12 + (i + 3) % 4)) s

def doubleRound (s : Block) : Block := diagonalRound (columnRound s)

def rounds (s : Block) : Block := Nat.repeat doubleRound 6 s

/-- What the block with the given number starts from. -/
def initial (key : Key) (number : Nat) : Block :=
  #v[0x61707865, 0x3320646E, 0x79622D32, 0x6B206574,
    key[0], key[1], key[2], key[3], key[4], key[5], key[6], key[7],
    UInt32.ofNat number, UInt32.ofNat (number / 0x100000000), 0, 0]

def block (key : Key) (number : Nat) : Block :=
  let s := initial key number
  Vector.zipWith (· + ·) (rounds s) s

/-- The word at the given place of the stream. -/
def word (key : Key) (place : Nat) : UInt32 :=
  (block key (place / 16)).entry (Nibble.ofNat place)

end Chip8.Random.ChaCha
