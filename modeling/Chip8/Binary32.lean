import Chip8.Text.Numeral

/-!
# Single-precision numbers

A single-precision number is a significand times a power of two, in 32 bits. This
module rounds exact quotients, and with them numerals, to the nearest such number;
of two equally near ones the one with the even significand is taken.

A significand below `2 ^ 24` stands for that many units of `2 ^ scale`, where `scale`
is at least `-149`. The bits of such a number are the significand plus `2 ^ 23` for
every unit of `scale + 149`, so rounding a significand up to `2 ^ 24` carries into the
exponent by itself, and every number too large has bits from those of infinity on.
-/

namespace Chip8.Binary32

def infinity : Nat := 0x7F800000

/-- The bits that mark the absence of a number. -/
def notANumber : Nat := 0x7FC00000

def signBit : Nat := 0x80000000

/-- The whole number nearest to `num / den`, the even one of two. -/
def nearest (num den : Nat) : Nat :=
  let quotient := num / den
  let twice := 2 * (num % den)
  if twice < den ∨ (twice = den ∧ quotient % 2 = 0) then quotient else quotient + 1

/-- The largest `k` for which `2 ^ k` is at most `num / den`. -/
def floorLog (num den : Nat) : Int :=
  let k : Int := (num.log2 : Int) - den.log2
  if den <<< k.toNat ≤ num <<< (-k).toNat then k else k - 1

/-- The power of two that a quotient is counted in units of. -/
def scale (num den : Nat) : Int := max (floorLog num den - 23) (-149)

/-- The bits of the number nearest to `num / den`. -/
def ofQuotient (num den : Nat) : Nat :=
  if num = 0 then 0
  else
    let scale := scale num den
    let significand := nearest (num <<< (-scale).toNat) (den <<< scale.toNat)
    min infinity ((scale + 149).toNat <<< 23 + significand)

def ofMagnitude : Text.Magnitude → Nat
  | .decimal digits exponent =>
    ofQuotient (digits * Nat.pow 10 exponent.toNat) (Nat.pow 10 (-exponent).toNat)
  | .infinite => infinity
  | .notANumber => notANumber

def ofNumeral (n : Text.Numeral) : UInt32 :=
  UInt32.ofNat ((if n.negative then signBit else 0) + ofMagnitude n.magnitude)

def ofString? (text : String) : Option UInt32 :=
  (Text.Numeral.ofString? text).map ofNumeral

end Chip8.Binary32
