import MicroLang.Text.Numeral

/-!
# Keys and scalars of TOML

The parts of a TOML document that hold no other parts: blanks and comments, keys, strings, and the
values that are written as one word.  Numbers and times are checked but not kept, since no setting
takes one.
-/

namespace MicroLang.Toml

/-- A value that holds no other values. -/
inductive Scalar where
  | string (t : Text)
  | boolean (b : Bool)
  | number
  | time
deriving DecidableEq, Repr

/-- A reader takes a value off the front of a text. -/
abbrev Reader (α : Type) : Type := Text → Option (α × Text)

/-! ### Blanks, comments, keys -/

def isBlank (b : UInt8) : Bool := b = 32 || b = 9

/-- A control character other than the tab, which neither comments nor strings may hold. -/
def isControl (b : UInt8) : Bool := (b < 32 && b ≠ 9) || b = 127

def skipBlanks (t : Text) : Text := t.dropWhile isBlank

/-- The text behind the end of a line, which may hold a comment; the end of the text counts. -/
def lineEnd? (t : Text) : Option Text :=
  let t := skipBlanks t
  let t := match t with
    | 35 :: comment => comment.dropWhile fun b => !isControl b
    | t => t
  match t with
  | [] => some []
  | 10 :: t => some t
  | 13 :: 10 :: t => some t
  | _ => none

/-- The text behind blanks, comments and line ends.  The first argument bounds the number of
lines. -/
def skipLines : Nat → Text → Text
  | 0, t => t
  | bound + 1, t =>
    match lineEnd? t with
    | some [] => []
    | some rest => skipLines bound rest
    | none => skipBlanks t

/-- The byte that an escape letter stands for. -/
def escape? (b : UInt8) : Option UInt8 :=
  match b with
  | 98 => some 8
  | 116 => some 9
  | 110 => some 10
  | 102 => some 12
  | 114 => some 13
  | 34 => some 34
  | 92 => some 92
  | _ => none

/-- The bytes that an escape sequence stands for, from behind its backslash on. -/
def escapeSequence : Reader Text
  | [] => none
  | b :: t =>
    if b = 117 && 4 ≤ t.length then (Text.ofHex? (t.take 4)).map fun bytes => (bytes, t.drop 4)
    else if b = 85 && 8 ≤ t.length then (Text.ofHex? (t.take 8)).map fun bytes => (bytes, t.drop 8)
    else (escape? b).map fun e => ([e], t)

/-- The rest of a one-line string in double quotes. -/
def basicString : Nat → Reader Text
  | 0, _ => none
  | _, [] => none
  | bound + 1, b :: t =>
    if b = 34 then some ([], t)
    else if b = 92 then
      match escapeSequence t with
      | none => none
      | some (bytes, t) => (basicString bound t).map fun (s, t) => (bytes ++ s, t)
    else if isControl b then none
    else (basicString bound t).map fun (s, t) => (b :: s, t)

/-- The rest of a one-line string in single quotes. -/
def literalString : Reader Text
  | [] => none
  | b :: t =>
    if b = 39 then some ([], t)
    else if isControl b then none
    else (literalString t).map fun (s, t) => (b :: s, t)

/-- The rest of a string over several lines, which ends at three of the given quotes; one or two more
in front of them belong to it. -/
def longString (quote : UInt8) : Nat → Reader Text
  | 0, _ => none
  | _, [] => none
  | bound + 1, b :: t =>
    let quotes := (b :: t).takeWhile (· = quote)
    if 3 ≤ quotes.length then
      let extra := min (quotes.length - 3) 2
      some (List.replicate extra quote, (b :: t).drop (extra + 3))
    else if b = 92 && quote = 34 then
      match skipBlanks t with
      | 10 :: rest => longString quote bound (rest.dropWhile fun c => isBlank c || c = 10 || c = 13)
      | 13 :: 10 :: rest =>
        longString quote bound (rest.dropWhile fun c => isBlank c || c = 10 || c = 13)
      | _ =>
        match escapeSequence t with
        | none => none
        | some (bytes, t) => (longString quote bound t).map fun (s, t) => (bytes ++ s, t)
    else if isControl b && b ≠ 10 && !(b = 13 && t.head? = some 10) then none
    else (longString quote bound t).map fun (s, t) => (b :: s, t)

/-- A string over several lines, from behind its opening quotes on.  A line end right there is
dropped. -/
def openedLongString (quote : UInt8) (t : Text) : Option (Text × Text) :=
  let body := match t with
    | 10 :: t => t
    | 13 :: 10 :: t => t
    | t => t
  longString quote (body.length + 1) body

def isBare (b : UInt8) : Bool := Text.isLetter b || Text.isDigit b || b = 95 || b = 45

/-- One part of a key. -/
def keyPart : Reader Text
  | 34 :: t => basicString (t.length + 1) t
  | 39 :: t => literalString t
  | t =>
    let word := t.takeWhile isBare
    if word.isEmpty then none else some (word, t.drop word.length)

/-- The parts of a key with dots between them.  The first argument bounds their number. -/
def key : Nat → Reader (List Text)
  | 0, _ => none
  | bound + 1, t =>
    match keyPart (skipBlanks t) with
    | none => none
    | some (part, rest) =>
      match skipBlanks rest with
      | 46 :: rest => (key bound rest).map fun (parts, t) => (part :: parts, t)
      | rest => some ([part], rest)

/-! ### Values -/

/-- Digits of a class, where underscores stand between digits only. -/
def isDigits (p : UInt8 → Bool) (t : Text) : Bool :=
  !t.isEmpty && (Text.split 95 t).all fun group => !group.isEmpty && group.all p

/-- Digits without a leading zero. -/
def isDecimal (t : Text) : Bool :=
  isDigits Text.isDigit t && (t.head? ≠ some 48 || t.length = 1)

/-- A whole number that fits into 64 bits with a sign.  Numbers in a base other than ten have no sign
of their own. -/
def isInteger (t : Text) : Bool :=
  let inBase := fun base (p : UInt8 → Bool) digits => isDigits p digits && Text.numeral base digits < Nat.pow 2 63
  match t with
  | 48 :: 120 :: digits => inBase 16 Text.isHexDigit digits
  | 48 :: 111 :: digits => inBase 8 (fun b => 48 ≤ b && b ≤ 55) digits
  | 48 :: 98 :: digits => inBase 2 (fun b => 48 ≤ b && b ≤ 49) digits
  | _ =>
    let digits := Text.unsigned t
    isDecimal digits &&
      Text.numeral 10 digits < if t.head? = some 45 then Nat.pow 2 63 + 1 else Nat.pow 2 63

/-- A number with a fraction or an exponent, or one of the special numbers. -/
def isFloat (t : Text) : Bool :=
  let number := Text.unsigned t
  if number = text "inf" || number = text "nan" then true
  else
    let parts := Text.DecimalParts.ofText number
    isDecimal parts.whole && (parts.hasPoint || parts.hasExponent)
      && (!parts.hasPoint || isDigits Text.isDigit parts.fraction)
      && (!parts.hasExponent || isDigits Text.isDigit (Text.unsigned parts.exponent))
      && parts.isRepresentable

/-- Exactly `n` digits whose number lies between two bounds. -/
def isField (n low high : Nat) (t : Text) : Bool :=
  t.length = n && t.all Text.isDigit && low ≤ Text.toNat t && Text.toNat t ≤ high

def isDate (t : Text) : Bool :=
  match Text.split 45 t with
  | [y, m, d] =>
    isField 4 0 9999 y && isField 2 1 12 m && isField 2 1 (Text.daysIn (Text.toNat y) (Text.toNat m)) d
  | _ => false

def isClock (t : Text) : Bool :=
  let whole := t.takeWhile (· ≠ 46)
  let fraction := t.drop whole.length
  (fraction.isEmpty || (2 ≤ fraction.length && (fraction.drop 1).all Text.isDigit))
    && match Text.split 58 whole with
      | [h, m, s] => isField 2 0 23 h && isField 2 0 59 m && isField 2 0 59 s
      | _ => false

/-- A time of day with or without an offset. -/
def isZonedClock (t : Text) : Bool :=
  let clock := t.takeWhile fun b => Text.isDigit b || b = 58 || b = 46
  let zone := t.drop clock.length
  isClock clock && match zone with
    | [] => true
    | [90] => true
    | [122] => true
    | sign :: offset =>
      (sign = 43 || sign = 45) && match Text.split 58 offset with
        | [h, m] => isField 2 0 24 h && isField 2 0 60 m
        | _ => false

def isTime (t : Text) : Bool :=
  let date := t.take 10
  let rest := t.drop 10
  isClock t || (isDate date && match rest with
    | [] => true
    | sep :: clock => (sep = 84 || sep = 116 || sep = 32) && isZonedClock clock)

def isWordByte (b : UInt8) : Bool :=
  Text.isLetter b || Text.isDigit b || b = 95 || b = 43 || b = 45 || b = 46 || b = 58

/-- A value that is written as one word; a date may have a blank between day and time. -/
def word (t : Text) : Option (Scalar × Text) :=
  let first := t.takeWhile isWordByte
  let rest := t.drop first.length
  let joined := match rest with
    | 32 :: d :: _ =>
      if isDate first && Text.isDigit d then first ++ 32 :: (rest.drop 1).takeWhile isWordByte else first
    | _ => first
  let rest := t.drop joined.length
  if joined = text "true" then some (.boolean true, rest)
  else if joined = text "false" then some (.boolean false, rest)
  else if isInteger joined || isFloat joined then some (.number, rest)
  else if isTime joined then some (.time, rest)
  else none

/-- A value that holds no other values. -/
def scalar (t : Text) : Option (Scalar × Text) :=
  match t with
  | 34 :: 34 :: 34 :: t => (openedLongString 34 t).map fun (s, t) => (.string s, t)
  | 39 :: 39 :: 39 :: t => (openedLongString 39 t).map fun (s, t) => (.string s, t)
  | 34 :: t => (basicString (t.length + 1) t).map fun (s, t) => (.string s, t)
  | 39 :: t => (literalString t).map fun (s, t) => (.string s, t)
  | t => word t

end MicroLang.Toml
