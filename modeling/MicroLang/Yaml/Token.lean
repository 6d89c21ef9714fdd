import MicroLang.Yaml.Scalar

/-!
# Tokens of YAML

Indentation opens and closes blocks, and whether a scalar is a key is known only at the colon behind
it.  So tokens are kept in a queue.  A mark for a key is put into the queue in front of a token that
turns out to start one, and where a block starts or ends, a token says so.  A token leaves the queue
when no key can start there any more and two further tokens are known.
-/

namespace MicroLang.Yaml

inductive Token where
  | streamEnd
  | version (major minor : Nat)
  | handle (handle stem : Text)
  | documentStart
  | documentEnd
  | blockSequence
  | blockMapping
  | blockEnd
  | openBracket
  | closeBracket
  | openBrace
  | closeBrace
  | comma
  | entry
  | key
  | value
  | alias (name : Text)
  | anchor (name : Text)
  | tag (handle suffix : Text)
  | scalar (isPlain : Bool) (t : Text)
deriving DecidableEq, Repr

/-! ### Names, tags and directives -/

def isNameByte (b : UInt8) : Bool := Text.isLetter b || Text.isDigit b || b = 95 || b = 45

/-- What can follow a name without a blank. -/
def endsName (t : Text) : Bool :=
  isApart t || t.head?.any (text "?:,]\x7d%@\x60").contains

/-- The name of an anchor or an alias, from the mark in front of it on. -/
def name (p : Place) : Option (Place × Text) :=
  let name := (p.rest.drop 1).takeWhile isNameByte
  let p := p.skip (name.length + 1)
  if name.isEmpty || !endsName p.rest then none else some (p, name)

/-- The bytes of a tag besides those of a name. -/
def isTagByte (b : UInt8) : Bool := isNameByte b || (text ";/?:@&=+$,.!~*'()[]").contains b

/-- The text of a tag with its escapes resolved, and how many bytes it takes. -/
def tagText : Text → Option (Text × Nat)
  | 37 :: a :: b :: t =>
    match Text.hexValue? a, Text.hexValue? b, tagText t with
    | some a, some b, some (s, n) => some (UInt8.ofNat (16 * a + b) :: s, n + 3)
    | _, _, _ => none
  | b :: t =>
    if b = 37 then none
    else if isTagByte b then (tagText t).map fun (s, n) => (b :: s, n + 1)
    else some ([], 0)
  | [] => some ([], 0)

/-- The text of a tag, which must be UTF-8 and can be required not to be empty. -/
def tagPart (mayBeEmpty : Bool) (p : Place) : Option (Place × Text) :=
  match tagText p.rest with
  | none => none
  | some (s, n) =>
    if (s.isEmpty && !mayBeEmpty) || !Text.isUtf8 s then none else some (p.skip n, s)

/-- A handle with an exclamation mark at both ends, or what could be the start of a short tag. -/
def handle (p : Place) : Place × Text :=
  let name := (p.rest.drop 1).takeWhile isNameByte
  let p := p.skip (name.length + 1)
  if p.isAt 33 then (p.next, 33 :: name ++ [33]) else (p, 33 :: name)

def isHandle (t : Text) : Bool := 1 < t.length && t.getLast? = some 33

/-- A tag in one of its forms: in full between angle brackets, with a handle, short, or the lone
exclamation mark. -/
def tag (p : Place) : Option (Place × Token) :=
  let read : Option (Place × Token) := if p.next.isAt 60 then
      match tagPart false (p.skip 2) with
      | some (q, s) => if q.isAt 62 then some (q.next, .tag [] s) else none
      | none => none
    else
      let (q, h) := handle p
      if isHandle h then (tagPart false q).map fun (q, s) => (q, .tag h s)
      else (tagPart true q).map fun (q, s) =>
        let suffix := h.drop 1 ++ s
        (q, if suffix.isEmpty then .tag [] [33] else .tag [33] suffix)
  match read with
  | some (q, t) => if isApart q.rest then some (q, t) else none
  | none => none

/-- A part of a version number, which has one or two digits. -/
def versionPart (p : Place) : Option (Place × Nat) :=
  let digits := p.rest.takeWhile Text.isDigit
  if digits.isEmpty || 2 < digits.length then none
  else some (p.skip digits.length, Text.toNat digits)

def version (p : Place) : Option (Place × Token) :=
  match versionPart p with
  | some (p, major) =>
    if p.isAt 46 then (versionPart p.next).map fun (p, minor) => (p, .version major minor) else none
  | none => none

/-- A handle with what it stands for. -/
def handleMeaning (p : Place) : Option (Place × Token) :=
  if !p.isAt 33 then none
  else
    let (p, h) := handle p
    if !(isHandle h || h = [33]) || !p.rest.head?.any isBlank then none
    else match tagPart false p.skipBlanks with
      | some (p, s) => if isApart p.rest then some (p, .handle h s) else none
      | none => none

/-- A directive with its line. -/
def directive (p : Place) : Option (Place × Token) :=
  let name := (p.rest.drop 1).takeWhile isNameByte
  let q := p.skip (name.length + 1)
  let read : Option (Place × Token) := if !isApart q.rest then none
    else if name = text "YAML" then version q.skipBlanks
    else if name = text "TAG" then handleMeaning q.skipBlanks
    else none
  match read with
  | none => none
  | some (q, t) =>
    let q := q.skipBlanks
    let q := if q.isAt 35 then q.skipLine else q
    if isOver q.rest then some (q.nextLine, t) else none

/-! ### The queue -/

/-- A place where a key may have started. -/
structure KeyStart where
  isPossible : Bool := false
  /-- Whether nothing but a key can stand there. -/
  isRequired : Bool := false
  /-- The number of the token that starts the key. -/
  number : Nat := 0
  index : Nat := 0
  line : Nat := 0
  column : Nat := 0
deriving DecidableEq, Repr

/-- How far behind the start of a key its colon can be. -/
def keyLimit : Nat := 1024

/-- Whether a colon at the given place can still end the key; nothing if there must be one and it is
too late. -/
def KeyStart.isOpen? (k : KeyStart) (p : Place) : Option Bool :=
  if !k.isPossible then some false
  else if k.line < p.line || k.index + keyLimit < p.index then
    if k.isRequired then none else some false
  else some true

/-- The tokens of a stream as far as they are known. -/
structure Tokens where
  place : Place
  /-- The least column of what belongs to the innermost block: one more than its own column, and zero
  outside of all blocks. -/
  margin : Nat := 0
  outerMargins : List Nat := []
  /-- Whether a key may start here. -/
  allowsKey : Bool := true
  keyStart : KeyStart := {}
  /-- The starts of keys around the open brackets, one for each of them. -/
  outerKeyStarts : List KeyStart := []
  queue : List Token := []
  /-- The number of tokens that have left the queue. -/
  taken : Nat := 0
deriving DecidableEq, Repr

namespace Tokens

def inFlow (s : Tokens) : Bool := !s.outerKeyStarts.isEmpty

def push (t : Token) (s : Tokens) : Tokens := { s with queue := s.queue ++ [t] }

/-- Puts a token in front of the one with the given number. -/
def insert (number : Nat) (t : Token) (s : Tokens) : Tokens :=
  let n := number - s.taken
  { s with queue := s.queue.take n ++ t :: s.queue.drop n }

/-- The number of the next token. -/
def nextNumber (s : Tokens) : Nat := s.taken + s.queue.length

/-- Forgets where a key may have started.  One that is required cannot be forgotten. -/
def dropKeyStart (s : Tokens) : Option Tokens :=
  if !s.keyStart.isPossible then some s
  else if s.keyStart.isRequired then none
  else some { s with keyStart := { s.keyStart with isPossible := false } }

/-- Remembers that a key may start here. -/
def markKeyStart (s : Tokens) : Option Tokens :=
  if !s.allowsKey then some s
  else s.dropKeyStart.map fun s => { s with
    keyStart :=
      { isPossible := true
        isRequired := !s.inFlow && s.margin = s.place.column + 1
        number := s.nextNumber
        index := s.place.index
        line := s.place.line
        column := s.place.column } }

/-- Opens a block at a column, with its token in front of the one with the given number, unless the
innermost block is as deep. -/
def openBlock (column number : Nat) (t : Token) (s : Tokens) : Tokens :=
  if s.inFlow || column < s.margin then s
  else insert number t
    { s with margin := column + 1, outerMargins := s.margin :: s.outerMargins }

/-- The margins that are left when blocks deeper than a limit are closed, and how many are closed. -/
def closedMargins (limit : Nat) : Nat → List Nat → Nat × List Nat × Nat
  | margin, [] => (margin, [], 0)
  | margin, outer :: rest =>
    if margin ≤ limit then (margin, outer :: rest, 0)
    else
      let (m, ms, n) := closedMargins limit outer rest
      (m, ms, n + 1)

/-- Closes the blocks whose margin is beyond a limit. -/
def closeBlocks (limit : Nat) (s : Tokens) : Tokens :=
  if s.inFlow then s
  else
    let (margin, outerMargins, n) := closedMargins limit s.margin s.outerMargins
    { s with margin, outerMargins, queue := s.queue ++ List.replicate n .blockEnd }

/-- Takes one byte as a token of its own. -/
def take (t : Token) (s : Tokens) : Tokens := { s.push t with place := s.place.next }

/-- The tokens with the outcome of reading a longer one. -/
def pushRead (s : Tokens) : Option (Place × Token) → Option Tokens
  | some (p, t) => some { s.push t with place := p }
  | none => none

/-! ### Reading one token -/

/-- Moves to the next token.  Where a key may start, a tab is no blank; behind a line end one may. -/
def toNext : Nat → Tokens → Tokens
  | 0, s => s
  | bound + 1, s =>
    let isSkipped := fun b => b = 32 || (b = 9 && (s.inFlow || !s.allowsKey))
    let p := s.place.skip (s.place.rest.takeWhile isSkipped).length
    let p := if p.isAt 35 then p.skipComments (p.rest.length + 1) else p
    if startsLineEnd p.rest then
      toNext bound { s with place := p.nextLine, allowsKey := s.allowsKey || !s.inFlow }
    else { s with place := p }

/-- Leaves all blocks, as the end of a document does. -/
def leaveBlocks (s : Tokens) : Option Tokens :=
  (s.closeBlocks 0).dropKeyStart.map fun s => { s with allowsKey := false }

def readStreamEnd (s : Tokens) : Option Tokens :=
  let p := s.place
  let p := if p.column = 0 then p else { p with column := 0, line := p.line + 1 }
  ({ s with place := p }.leaveBlocks).map (push .streamEnd)

def readMark (t : Token) (s : Tokens) : Option Tokens :=
  s.leaveBlocks.map fun s => { s.push t with place := s.place.skip 3 }

def readDirective (s : Tokens) : Option Tokens :=
  s.leaveBlocks.bind fun s => s.pushRead (directive s.place)

def readOpening (t : Token) (s : Tokens) : Option Tokens :=
  s.markKeyStart.map fun s => take t
    { s with keyStart := {}, outerKeyStarts := s.keyStart :: s.outerKeyStarts, allowsKey := true }

def readClosing (t : Token) (s : Tokens) : Option Tokens :=
  s.dropKeyStart.map fun s =>
    let s := match s.outerKeyStarts with
      | [] => s
      | k :: ks => { s with keyStart := k, outerKeyStarts := ks }
    take t { s with allowsKey := false }

def readComma (s : Tokens) : Option Tokens :=
  s.dropKeyStart.map fun s => take .comma { s with allowsKey := true }

def readEntry (s : Tokens) : Option Tokens :=
  if !s.inFlow && !s.allowsKey then none
  else (s.openBlock s.place.column s.nextNumber .blockSequence).dropKeyStart.map fun s =>
    take .entry { s with allowsKey := true }

def readKey (s : Tokens) : Option Tokens :=
  if !s.inFlow && !s.allowsKey then none
  else (s.openBlock s.place.column s.nextNumber .blockMapping).dropKeyStart.map fun s =>
    take .key { s with allowsKey := !s.inFlow }

/-- A colon.  If a key may have started before it, that was one. -/
def readValue (s : Tokens) : Option Tokens :=
  match s.keyStart.isOpen? s.place with
  | none => none
  | some true =>
    let k := s.keyStart
    let s := (s.insert k.number .key).openBlock k.column k.number .blockMapping
    some (take .value { s with keyStart := { k with isPossible := false }, allowsKey := false })
  | some false =>
    if !s.inFlow && !s.allowsKey then none
    else
      let s := s.openBlock s.place.column s.nextNumber .blockMapping
      some (take .value { s with allowsKey := !s.inFlow })

/-- A token that may start a key. -/
def readKeyable (read : Place → Option (Place × Token)) (s : Tokens) : Option Tokens :=
  s.markKeyStart.bind fun s => { s with allowsKey := false }.pushRead (read s.place)

def readPlain (s : Tokens) : Option Tokens :=
  match s.markKeyStart with
  | none => none
  | some s =>
    match plain s.inFlow s.margin s.place with
    | none => none
    | some (p, isBroken, t) =>
      some { s.push (.scalar true t) with place := p, allowsKey := isBroken }

def readBlock (s : Tokens) : Option Tokens :=
  s.dropKeyStart.bind fun s => { s with allowsKey := true }.pushRead
    ((block s.margin s.place).map fun (p, t) => (p, .scalar false t))

/-- Whether a plain scalar can start like this. -/
def startsPlain (inFlow : Bool) : Text → Bool
  | [] => false
  | b :: t =>
    if b = 45 then !t.head?.any isBlank
    else if b = 63 || b = 58 then !inFlow && !isApart t
    else !isApart (b :: t) && !(text ",[]\x7b\x7d#&*!|>'\"%@\x60").contains b

/-- Reads the token that starts with the given byte, inside a document. -/
def readFrom (b : UInt8) (s : Tokens) : Option Tokens :=
  let isIndicator := s.inFlow || isApart (s.place.rest.drop 1)
  if b = 91 then s.readOpening .openBracket
  else if b = 123 then s.readOpening .openBrace
  else if b = 93 then s.readClosing .closeBracket
  else if b = 125 then s.readClosing .closeBrace
  else if b = 44 then s.readComma
  else if b = 45 && isApart (s.place.rest.drop 1) then s.readEntry
  else if b = 63 && isIndicator then s.readKey
  else if b = 58 && isIndicator then s.readValue
  else if b = 42 then s.readKeyable fun p => (name p).map fun (p, n) => (p, .alias n)
  else if b = 38 then s.readKeyable fun p => (name p).map fun (p, n) => (p, .anchor n)
  else if b = 33 then s.readKeyable tag
  else if (b = 124 || b = 62) && !s.inFlow then s.readBlock
  else if b = 39 || b = 34 then
    s.readKeyable fun p => (quoted b p).map fun (p, t) => (p, .scalar false t)
  else if startsPlain s.inFlow s.place.rest then s.readPlain
  else none

/-- A comment on the line of a token belongs to the token, except behind the dash of an entry. -/
def skipLineComment (s : Tokens) : Tokens :=
  if s.queue.getLast? = some .entry then s else { s with place := s.place.skipLineComment }

/-- Reads one more token, with the starts and ends of blocks in front of it. -/
def readOne (s : Tokens) : Option Tokens :=
  let s := s.toNext (s.place.rest.length + 1)
  let s := s.closeBlocks (s.place.column + 1)
  match s.place.rest with
  | [] => s.readStreamEnd
  | b :: _ =>
    if s.place.column = 0 && b = 37 then s.readDirective
    else if s.place.startsMark "---" then s.readMark .documentStart
    else if s.place.startsMark "..." then s.readMark .documentEnd
    else (s.readFrom b).map skipLineComment

/-- Whether the first token of the queue may still turn out to start a key; nothing if it has to be
one and is not. -/
def awaitsKey? (s : Tokens) : Option Bool :=
  match (s.keyStart :: s.outerKeyStarts).find? fun k => k.isPossible && k.number = s.taken with
  | none => some false
  | some k => k.isOpen? s.place

/-- Reads until the first token of the queue is settled. -/
def settle : Nat → Tokens → Option Tokens
  | 0, _ => none
  | bound + 1, s =>
    if s.queue.length < 3 then s.readOne.bind (settle bound)
    else match s.awaitsKey? with
      | none => none
      | some false => some s
      | some true => s.readOne.bind (settle bound)

/-- The first token, with the tokens read on the way to settle it. -/
def peek? (s : Tokens) : Option (Token × Tokens) :=
  match settle (s.place.rest.length + 8) s with
  | none => none
  | some s => s.queue.head?.map fun t => (t, s)

/-- The tokens without the first. -/
def drop (s : Tokens) : Tokens := { s with queue := s.queue.tail, taken := s.taken + 1 }

def ofText (t : Text) : Tokens := { place := { rest := t } }

end Tokens

end MicroLang.Yaml
