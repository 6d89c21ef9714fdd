import MicroLang.Text.Utf8

/-!
# Code points by number

Escapes in configuration files name a code point by hexadecimal digits of either case.  A number that is
no scalar value, because it is a surrogate or too large, names nothing.
-/

namespace MicroLang.Text

def hexValue? (b : UInt8) : Option Nat :=
  if isDigit b then some (b.toNat - 48)
  else if 97 ≤ b && b ≤ 102 then some (b.toNat - 87)
  else if 65 ≤ b && b ≤ 70 then some (b.toNat - 55)
  else none

def isScalarValue (v : Nat) : Bool := v < 0xD800 || (0xE000 ≤ v && v ≤ 0x10FFFF)

/-- The bytes of the scalar value with the given hexadecimal digits. -/
def ofHex? (digits : Text) : Option Text :=
  match digits.mapM hexValue? with
  | none => none
  | some ds =>
    let v := ds.foldl (fun n d => 16 * n + d) 0
    if isScalarValue v then some (ofChar (Char.ofNat v)) else none

end MicroLang.Text
