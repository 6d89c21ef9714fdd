import MicroLang.Text.Quoted

/-!
# JSON values and their two layouts

The values that a syntax tree is written as: integers, strings, arrays and objects with ordered fields.
The compact layout has no white space; the indented layout puts every element and every field on a
line of its own, two blanks deeper than its container.  A string keeps every scalar value as it is
except the quote, the backslash, the ASCII control characters and the two line separators; a stray
byte is written as U+FFFD.
-/

namespace MicroLang

inductive Json where
  | number (n : Int)
  | string (t : Text)
  | array (items : List Json)
  | object (fields : List (Text × Json))

namespace Json

/-- The letter after the backslash for a control character that has a short escape. -/
def shortEscape? (v : Nat) : Option UInt8 :=
  match v with
  | 8 => some 98
  | 12 => some 102
  | 10 => some 110
  | 13 => some 114
  | 9 => some 116
  | _ => none

def escapeChar (c : Char) : Text :=
  let v := c.toNat
  if v = 34 || v = 92 then [92, UInt8.ofNat v]
  else match shortEscape? v with
    | some letter => [92, letter]
    | none =>
      if v < 0x20 || v = 0x2028 || v = 0x2029 then [92, 117] ++ hexDigits 4 v else Text.ofChar c

/-- A stray byte becomes the character U+FFFD itself, not an escape of it. -/
def escapePiece : Piece → Text
  | .scalar c => escapeChar c
  | .stray _ => Text.replacement

/-- A string literal. -/
def literal (t : Text) : Text := 34 :: t.pieces.flatMap escapePiece ++ [34]

mutual

/-- The layout without white space. -/
def compact : Json → Text
  | .number n => Text.ofInt n
  | .string t => literal t
  | .array items => text "[" ++ compactItems items ++ text "]"
  | .object fields => text "\x7b" ++ compactFields fields ++ text "\x7d"

def compactItems : List Json → Text
  | [] => []
  | [item] => compact item
  | item :: items => compact item ++ text "," ++ compactItems items

def compactFields : List (Text × Json) → Text
  | [] => []
  | [(key, value)] => literal key ++ text ":" ++ compact value
  | (key, value) :: fields =>
    literal key ++ text ":" ++ compact value ++ text "," ++ compactFields fields

end

/-- A line break and the indentation of the given depth. -/
def newline (depth : Nat) : Text := 10 :: List.replicate (2 * depth) 32

mutual

/-- The layout with a line for every element and field, for a value that stands at the given
depth. -/
def indented (depth : Nat) : Json → Text
  | .number n => Text.ofInt n
  | .string t => literal t
  | .array [] => text "[]"
  | .array items =>
    text "[" ++ indentedItems (depth + 1) items ++ newline depth ++ text "]"
  | .object [] => text "\x7b\x7d"
  | .object fields =>
    text "\x7b" ++ indentedFields (depth + 1) fields ++ newline depth ++ text "\x7d"

def indentedItems (depth : Nat) : List Json → Text
  | [] => []
  | [item] => newline depth ++ indented depth item
  | item :: items =>
    newline depth ++ indented depth item ++ text "," ++ indentedItems depth items

def indentedFields (depth : Nat) : List (Text × Json) → Text
  | [] => []
  | [(key, value)] => newline depth ++ literal key ++ text ": " ++ indented depth value
  | (key, value) :: fields =>
    newline depth ++ literal key ++ text ": " ++ indented depth value ++ text ","
      ++ indentedFields depth fields

end

end Json

end MicroLang
