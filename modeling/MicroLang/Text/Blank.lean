import MicroLang.Text.Utf8

/-!
# White space

White space here is the Unicode property: the ASCII blanks, U+0085, U+00A0 and the space separators
and line separators above them.  A stray byte is never white space.
-/

namespace MicroLang

/-- Whether a scalar value is white space. -/
def isBlank (c : Char) : Bool :=
  let v := c.toNat
  (9 ≤ v && v ≤ 13) || v == 0x20 || v == 0x85 || v == 0xA0 || v == 0x1680
    || (0x2000 ≤ v && v ≤ 0x200A) || v == 0x2028 || v == 0x2029 || v == 0x202F || v == 0x205F
    || v == 0x3000

namespace Piece

def isBlank : Piece → Bool
  | .scalar c => MicroLang.isBlank c
  | .stray _ => false

/-- The bytes that a piece was read from. -/
def bytes : Piece → Text
  | .scalar c => Text.ofChar c
  | .stray b => [b]

end Piece

namespace Text

/-- Whether nothing is left of the text once white space is trimmed. -/
def isBlank (t : Text) : Bool := t.pieces.all Piece.isBlank

/-- The text without white space at either end. -/
def trimBlank (t : Text) : Text :=
  let inner := t.pieces.dropWhile Piece.isBlank
  (inner.reverse.dropWhile Piece.isBlank).reverse.flatMap Piece.bytes

end Text

end MicroLang
