import Chip8.Random.ChaCha

/-!
# Sources of random bytes

A source is an endless sequence of bytes and the number of bytes taken from it. A
seed fixes the sequence: it is expanded to a key by a linear congruence with a
permuted output, and the bytes are the low bytes of the words of the key's stream.
-/

namespace Chip8.Random

/-- The congruence that expands a seed. -/
def advance (s : UInt64) : UInt64 := s * 6364136223846793005 + 11634580027462260723

/-- The word that a state of the congruence gives: its high bits, folded and turned
round as far as the highest five of them say. -/
def permute (s : UInt64) : UInt32 :=
  let folded := (((s >>> 18) ^^^ s) >>> 27).toUInt32
  let count := (s >>> 59).toUInt32
  (folded >>> count) ||| (folded <<< ((32 - count) % 32))

/-- The key that a seed is expanded to. -/
def expand (seed : UInt64) : ChaCha.Key :=
  Vector.ofFn fun k : Fin 8 => permute (Nat.repeat advance (k.val + 1) seed)

/-- An endless sequence of bytes and the number of those already taken. -/
structure Source where
  stream : Nat → UInt8
  taken : Nat

namespace Source

/-- The source that a seed fixes. -/
def ofSeed (seed : UInt64) : Source :=
  let key := expand seed
  ⟨fun place => (ChaCha.word key place).toUInt8, 0⟩

def next (s : Source) : UInt8 := s.stream s.taken

def rest (s : Source) : Source := { s with taken := s.taken + 1 }

end Source

end Chip8.Random
