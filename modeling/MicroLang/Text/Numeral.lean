import MicroLang.Text.Hexadecimal

/-!
# Numbers and dates in configuration files

Whether a numeral is in range, and how long a month is.  Both document formats ask these questions
with a grammar of their own.
-/

namespace MicroLang.Text

def isHexDigit (b : UInt8) : Bool := (hexValue? b).isSome

/-- A numeral without its sign. -/
def unsigned (t : Text) : Text :=
  match t with
  | 43 :: t => t
  | 45 :: t => t
  | t => t

/-- The number that digits denote in a base; other bytes are left out. -/
def numeral (base : Nat) (t : Text) : Nat :=
  (t.filterMap hexValue?).foldl (fun n d => base * n + d) 0

def isExponentMark (b : UInt8) : Bool := b = 101 || b = 69

/-- Whether `digits` times ten to the `exponent` rounds to a number of double precision: it must stay
below the middle between the largest one and the next power of two.  Exponents that settle the matter
by size alone are not computed with. -/
def isRepresentable (digits : Nat) (exponent : Int) : Bool :=
  let limit := Nat.pow 2 1024 - Nat.pow 2 970
  let magnitude := exponent + (Nat.toDigits 10 digits).length
  if digits = 0 || magnitude < 300 then true
  else if 320 < magnitude then false
  else if 0 ≤ exponent then digits * Nat.pow 10 exponent.toNat < limit
  else digits < limit * Nat.pow 10 exponent.natAbs

/-- A decimal numeral cut into the digits in front of the point, those behind it and the exponent; the
flags tell whether there is a point and an exponent mark. -/
structure DecimalParts where
  whole : Text
  hasPoint : Bool
  fraction : Text
  hasExponent : Bool
  exponent : Text
deriving DecidableEq, Repr

namespace DecimalParts

def ofText (t : Text) : DecimalParts :=
  let mantissa := t.takeWhile fun b => !isExponentMark b
  let whole := mantissa.takeWhile (· ≠ 46)
  { whole
    hasPoint := whole.length < mantissa.length
    fraction := (mantissa.drop whole.length).drop 1
    hasExponent := mantissa.length < t.length
    exponent := (t.drop mantissa.length).drop 1 }

def isRepresentable (n : DecimalParts) : Bool :=
  let power : Int := numeral 10 n.exponent
  let power := if n.exponent.head? = some 45 then -power else power
  Text.isRepresentable (numeral 10 (n.whole ++ n.fraction))
    (power - (n.fraction.filter isDigit).length)

end DecimalParts

/-- The number of days of a month, by the Gregorian calendar. -/
def daysIn (year month : Nat) : Nat :=
  if month = 2 then
    if year % 4 = 0 && (year % 100 ≠ 0 || year % 400 = 0) then 29 else 28
  else if month = 4 || month = 6 || month = 9 || month = 11 then 30
  else 31

end MicroLang.Text
