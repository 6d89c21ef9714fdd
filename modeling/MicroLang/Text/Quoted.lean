import MicroLang.Text.Utf8
import MicroLang.Text.Printable

/-!
# Quoted text

A text is quoted with double quotes.  Printable scalar values stand for themselves; the quote and
the backslash are escaped by a backslash; the seven control characters with a name use it; every
other scalar value is written by its number, with two digits below U+0080, four digits below
U+10000 and eight from there on; a stray byte is written with two digits.
-/

namespace MicroLang

/-- The ASCII hexadecimal digit of `d`, meant for `d < 16`. -/
def hexDigit (d : Nat) : UInt8 := UInt8.ofNat (if d < 10 then 48 + d else 87 + d)

/-- The last `width` hexadecimal digits of `n`. -/
def hexDigits : Nat → Nat → Text
  | 0, _ => []
  | width + 1, n => hexDigits width (n / 16) ++ [hexDigit (n % 16)]

namespace Text

/-- The letter after the backslash for a control character that has a name. -/
def controlName? (v : Nat) : Option UInt8 :=
  match v with
  | 7 => some 97
  | 8 => some 98
  | 12 => some 102
  | 10 => some 110
  | 13 => some 114
  | 9 => some 116
  | 11 => some 118
  | _ => none

/-- How a scalar value is written between quotes. -/
def quoteChar (c : Char) : Text :=
  let v := c.toNat
  if v = 34 || v = 92 then [92, UInt8.ofNat v]
  else if isPrintable c then ofChar c
  else match controlName? v with
    | some letter => [92, letter]
    | none =>
      if v < 0x80 then [92, 120] ++ hexDigits 2 v
      else if v < 0x10000 then [92, 117] ++ hexDigits 4 v
      else [92, 85] ++ hexDigits 8 v

/-- How a piece is written between quotes. -/
def quotePiece : Piece → Text
  | .scalar c => quoteChar c
  | .stray b => [92, 120] ++ hexDigits 2 b.toNat

/-- The text in double quotes. -/
def quoted (t : Text) : Text := 34 :: t.pieces.flatMap quotePiece ++ [34]

end Text

end MicroLang
