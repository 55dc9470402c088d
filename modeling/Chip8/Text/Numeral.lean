/-!
# Numerals

How numbers are written on a command line. A whole number is a row of digits, after
an optional plus sign. A general numeral has an optional sign, digits with or without
a point among them, and an optional power of ten; or it names infinity or the absence
of a number, in letters of either case. A numeral keeps what was written exactly; the
rounding to machine numbers is not its business.
-/

namespace Chip8.Text

/-- The number that a row of digits stands for. -/
def digitsValue (digits : List Char) : Nat :=
  digits.foldl (fun n c => 10 * n + (c.toNat - '0'.toNat)) 0

/-- The whole number that a text stands for. -/
def natural? (text : String) : Option Nat :=
  let digits := match text.toList with
    | '+' :: rest => rest
    | chars => chars
  if digits ≠ [] ∧ digits.all Char.isDigit then some (digitsValue digits) else none

/-- The size of a written number. -/
inductive Magnitude
  /-- The given digits, times a power of ten. -/
  | decimal (digits : Nat) (exponent : Int)
  | infinite
  | notANumber
  deriving DecidableEq, Repr

structure Numeral where
  negative : Bool
  magnitude : Magnitude
  deriving DecidableEq, Repr

/-- The sign of a text, negative or not, and what follows it. -/
def splitSign : List Char → Bool × List Char
  | '-' :: rest => (true, rest)
  | '+' :: rest => (false, rest)
  | chars => (false, chars)

/-- The digits a text begins with and what follows them. -/
def splitDigits (chars : List Char) : List Char × List Char :=
  (chars.takeWhile Char.isDigit, chars.dropWhile Char.isDigit)

/-- The value of the digits of an exponent. Digits after the value has passed 65536
are not counted: a power that large or that small is out of every range already. -/
def exponentValue (digits : List Char) : Nat :=
  digits.foldl (fun n c => if n < 65536 then 10 * n + (c.toNat - '0'.toNat) else n) 0

/-- The power of ten that ends a numeral; a text that has ended stands for zero. -/
def exponent? : List Char → Option Int
  | [] => some 0
  | mark :: rest =>
    let (negative, digits) := splitSign rest
    if mark.toLower = 'e' ∧ digits ≠ [] ∧ digits.all Char.isDigit then
      let value : Int := exponentValue digits
      some (if negative then -value else value)
    else none

/-- The digits behind a point, if there is one, and what follows them. -/
def splitFraction : List Char → List Char × List Char
  | '.' :: rest => splitDigits rest
  | chars => ([], chars)

/-- The magnitude written in digits. -/
def decimal? (chars : List Char) : Option Magnitude :=
  let (whole, rest) := splitDigits chars
  let (fraction, rest) := splitFraction rest
  if whole ++ fraction = [] then none
  else (exponent? rest).map fun exponent =>
    .decimal (digitsValue (whole ++ fraction)) (exponent - fraction.length)

/-- The magnitude that a text without a sign stands for. -/
def Magnitude.ofChars? (chars : List Char) : Option Magnitude :=
  let name := String.ofList (chars.map Char.toLower)
  if name = "inf" ∨ name = "infinity" then some .infinite
  else if name = "nan" then some .notANumber
  else decimal? chars

/-- The numeral that a text stands for, absent if it is none. -/
def Numeral.ofString? (text : String) : Option Numeral :=
  let (negative, chars) := splitSign text.toList
  (Magnitude.ofChars? chars).map fun magnitude => ⟨negative, magnitude⟩

end Chip8.Text
