import MicroLang.Text

/-!
# Reading a byte string as UTF-8

A byte string is read from the left.  Where a well-formed sequence starts, the whole sequence is one
scalar value; where none starts, the single byte there is a stray byte and reading goes on right
behind it.  Well-formed means shortest form, no surrogate, nothing above U+10FFFF.
-/

namespace MicroLang

/-- One step of reading: a scalar value, or a byte that starts no well-formed sequence. -/
inductive Piece where
  | scalar (c : Char)
  | stray (b : UInt8)
deriving DecidableEq, Repr

namespace Text

def isTail (b : UInt8) : Bool := 0x80 ≤ b && b ≤ 0xBF

/-- The value of the well-formed sequence that starts with `lead`, and how many bytes of `rest` it
takes besides. -/
def sequence? (lead : UInt8) (rest : Text) : Option (Nat × Nat) :=
  let l := lead.toNat
  if l < 0x80 then some (l, 0)
  else if l < 0xC2 then none
  else if l < 0xE0 then
    match rest with
    | a :: _ => if isTail a then some ((l - 0xC0) * 64 + (a.toNat - 0x80), 1) else none
    | _ => none
  else if l < 0xF0 then
    match rest with
    | a :: b :: _ =>
      let v := (l - 0xE0) * 4096 + (a.toNat - 0x80) * 64 + (b.toNat - 0x80)
      if isTail a && isTail b && 0x800 ≤ v && !(0xD800 ≤ v && v ≤ 0xDFFF) then some (v, 2) else none
    | _ => none
  else if l < 0xF5 then
    match rest with
    | a :: b :: c :: _ =>
      let v := (l - 0xF0) * 262144 + (a.toNat - 0x80) * 4096 + (b.toNat - 0x80) * 64
        + (c.toNat - 0x80)
      if isTail a && isTail b && isTail c && 0x10000 ≤ v && v ≤ 0x10FFFF then some (v, 3) else none
    | _ => none
  else none

/-- Reading with the next `skip` bytes already taken by the sequence before them. -/
def piecesAfter : Nat → Text → List Piece
  | _, [] => []
  | skip + 1, _ :: t => piecesAfter skip t
  | 0, b :: t =>
    match sequence? b t with
    | some (v, width) => .scalar (Char.ofNat v) :: piecesAfter width t
    | none => .stray b :: piecesAfter 0 t

/-- The scalar values and stray bytes of a byte string, from left to right. -/
def pieces (t : Text) : List Piece := piecesAfter 0 t

/-- The bytes of a scalar value. -/
def ofChar (c : Char) : Text := String.utf8EncodeChar c

/-- The bytes of U+FFFD, which stands in for a stray byte where only scalar values may be written. -/
def replacement : Text := [0xEF, 0xBF, 0xBD]

/-- Whether the byte string is UTF-8 throughout. -/
def isUtf8 (t : Text) : Bool :=
  t.pieces.all fun
    | .scalar _ => true
    | .stray _ => false

/-- An ASCII byte is read as itself. -/
theorem pieces_cons_ascii (b : UInt8) (t : Text) (h : b.toNat < 0x80) :
    pieces (b :: t) = .scalar (Char.ofNat b.toNat) :: pieces t := by
  simp only [pieces, piecesAfter, sequence?, if_pos h]

end Text

end MicroLang
