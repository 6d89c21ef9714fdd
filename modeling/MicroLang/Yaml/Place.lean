import MicroLang.Text.Utf8

/-!
# Places in a YAML stream

A stream is read from the left.  A place is what is still to be read together with the line and the
column it starts at, because indentation is part of what a YAML document says.  Columns count
characters.  The characters are checked for the whole stream before anything is read: control
characters are refused, and a stream in UTF-16 is brought to UTF-8.
-/

namespace MicroLang.Yaml

def isBlank (b : UInt8) : Bool := b = 32 || b = 9

/-- What the line end at the front of a text reads as, and how many bytes it takes.  The separators of
Unicode stand for themselves, every other line end for a line feed. -/
def lineEnd? : Text → Option (Text × Nat)
  | 13 :: 10 :: _ => some ([10], 2)
  | 13 :: _ => some ([10], 1)
  | 10 :: _ => some ([10], 1)
  | 0xC2 :: 0x85 :: _ => some ([10], 2)
  | 0xE2 :: 0x80 :: 0xA8 :: _ => some ([0xE2, 0x80, 0xA8], 3)
  | 0xE2 :: 0x80 :: 0xA9 :: _ => some ([0xE2, 0x80, 0xA9], 3)
  | _ => none

def startsLineEnd (t : Text) : Bool := (lineEnd? t).isSome

/-- Whether a line is over here. -/
def isOver (t : Text) : Bool := t.isEmpty || startsLineEnd t

/-- Whether a word is over here: at a blank, or where the line is. -/
def isApart (t : Text) : Bool := isOver t || t.head?.any isBlank

/-- The number of bytes up to the end of the line. -/
def lineLength : Text → Nat
  | [] => 0
  | b :: t => if startsLineEnd (b :: t) then 0 else lineLength t + 1

structure Place where
  rest : Text
  /-- The number of characters in front. -/
  index : Nat := 0
  line : Nat := 0
  column : Nat := 0
  /-- The number of line ends since the last byte that is no blank. -/
  newlines : Nat := 0
deriving DecidableEq, Repr

namespace Place

/-- The place one byte further on; only the first byte of a character counts for the column. -/
def next (p : Place) : Place :=
  match p.rest with
  | [] => p
  | b :: t =>
    let width := if Text.isTail b then 0 else 1
    { rest := t
      index := p.index + width
      line := p.line
      column := p.column + width
      newlines := if isBlank b then p.newlines else 0 }

/-- The place `n` bytes further on. -/
def skip : Nat → Place → Place
  | 0, p => p
  | n + 1, p => skip n p.next

/-- The start of the next line, from the end of this one. -/
def nextLine (p : Place) : Place :=
  match lineEnd? p.rest with
  | none => p
  | some (_, width) =>
    { rest := p.rest.drop width
      index := p.index + (if p.rest.head? = some 13 then width else 1)
      line := p.line + 1
      column := 0
      newlines := p.newlines + 1 }

/-- Whether the given byte comes next. -/
def isAt (b : UInt8) (p : Place) : Bool := p.rest.head? = some b

def skipBlanks (p : Place) : Place := p.skip (p.rest.takeWhile isBlank).length

def skipLine (p : Place) : Place := p.skip (lineLength p.rest)

/-- Whether a line starts here with three given bytes, apart from what follows. -/
def startsMark (mark : String) (p : Place) : Bool :=
  p.column = 0 && (Text.after? (text mark) p.rest).any isApart

/-- Whether a line starts here that separates documents. -/
def isMark (p : Place) : Bool := p.startsMark "---" || p.startsMark "..."

/-- The place behind blanks and line ends.  The first argument bounds the number of lines. -/
def skipGap : Nat → Place → Place
  | 0, p => p
  | bound + 1, p =>
    let q := p.skipBlanks
    if startsLineEnd q.rest then skipGap bound q.nextLine else q

/-- The end of the last line of a comment, from its start on.  Lines in between may be empty. -/
def skipComments : Nat → Place → Place
  | 0, p => p
  | bound + 1, p =>
    let p := p.skipLine
    let ahead := p.skipGap (p.rest.length + 1)
    if ahead.isAt 35 then skipComments bound ahead else p

/-- The place behind a comment on the same line as what was read last. -/
def skipLineComment (p : Place) : Place :=
  let ahead := p.skipBlanks
  if p.newlines = 0 && ahead.isAt 35 then ahead.skipLine else p

end Place

/-! ### Characters -/

/-- The characters that a stream may hold. -/
def isAllowed : Piece → Bool
  | .stray _ => false
  | .scalar c =>
    let v := c.toNat
    v = 9 || v = 10 || v = 13 || (0x20 ≤ v && v ≤ 0x7E) || v = 0x85
      || (0xA0 ≤ v && v ≤ 0xFFFD) || 0x10000 ≤ v

/-- The UTF-16 units of a text, which must have an even number of bytes. -/
def units? (isBigEndian : Bool) : Text → Option (List Nat)
  | [] => some []
  | [_] => none
  | a :: b :: t =>
    let v := if isBigEndian then a.toNat * 256 + b.toNat else b.toNat * 256 + a.toNat
    (units? isBigEndian t).map (v :: ·)

/-- The characters of UTF-16 units, where surrogates come in pairs. -/
def ofUnits? : List Nat → Option Text
  | [] => some []
  | [v] =>
    if 0xD800 ≤ v && v ≤ 0xDFFF then none else some (Text.ofChar (Char.ofNat v))
  | v :: w :: rest =>
    if 0xDC00 ≤ v && v ≤ 0xDFFF then none
    else if 0xD800 ≤ v && v ≤ 0xDBFF then
      if 0xDC00 ≤ w && w ≤ 0xDFFF then
        let c := Char.ofNat (0x10000 + (v - 0xD800) * 1024 + (w - 0xDC00))
        (ofUnits? rest).map (Text.ofChar c ++ ·)
      else none
    else (ofUnits? (w :: rest)).map (Text.ofChar (Char.ofNat v) ++ ·)

/-- The characters of a stream in UTF-8, without a byte order mark, which may also announce UTF-16. -/
def characters? (stream : Text) : Option Text :=
  let decoded : Option Text := match stream with
    | 0xEF :: 0xBB :: 0xBF :: t => some t
    | 0xFF :: 0xFE :: t => (units? false t).bind ofUnits?
    | 0xFE :: 0xFF :: t => (units? true t).bind ofUnits?
    | t => some t
  match decoded with
  | none => none
  | some t => if (Text.pieces t).all isAllowed then some t else none

end MicroLang.Yaml
