import MicroLang.Text.Hexadecimal
import MicroLang.Yaml.Place

/-!
# Scalars of YAML

A scalar is written plainly, in quotes, or as a block of lines of its own.  Plain and quoted scalars may
go on over several lines: a single line end between words counts as a blank, and of several the first
is dropped.  A block keeps its line ends, or folds them in the same way where neither line starts with a
blank.
-/

namespace MicroLang.Yaml

/-! ### Between words -/

/-- What stands between two words of a scalar. -/
structure Gap where
  /-- The blanks, if there is no line end. -/
  blanks : Text := []
  isBroken : Bool := false
  /-- The first line end; none if it was escaped. -/
  first : Text := []
  /-- The other line ends. -/
  more : Text := []
deriving DecidableEq, Repr

namespace Gap

/-- What a gap reads as. -/
def folded (g : Gap) : Text :=
  if !g.isBroken then g.blanks
  else if g.first = [10] then if g.more.isEmpty then [32] else g.more
  else g.first ++ g.more

def addBlank (b : UInt8) (g : Gap) : Gap :=
  if g.isBroken then g else { g with blanks := g.blanks ++ [b] }

def addLineEnd (lineEnd : Text) (g : Gap) : Gap :=
  if g.isBroken then { g with more := g.more ++ lineEnd }
  else { g with blanks := [], isBroken := true, first := lineEnd }

end Gap

/-- The gap that starts here, added to one that is known already.  A tab cannot stand in front of the
margin.  The first argument bounds the number of bytes. -/
def Place.gap (margin : Nat) : Nat → Place → Gap → Option (Place × Gap)
  | 0, p, g => some (p, g)
  | bound + 1, p, g =>
    match p.rest with
    | [] => some (p, g)
    | b :: _ =>
      if isBlank b then
        if g.isBroken && p.column < margin && b = 9 then none
        else gap margin bound p.next (g.addBlank b)
      else match lineEnd? p.rest with
        | none => some (p, g)
        | some (lineEnd, _) => gap margin bound p.nextLine (g.addLineEnd lineEnd)

/-! ### Plain scalars -/

/-- The punctuation that ends a plain scalar between brackets. -/
def endsFlowWord (b : UInt8) : Bool :=
  b = 44 || b = 63 || b = 91 || b = 93 || b = 123 || b = 125

/-- The number of bytes of a plain word. -/
def wordLength (inFlow : Bool) : Text → Nat
  | [] => 0
  | b :: t =>
    if isApart (b :: t) || (b = 58 && isApart t) || (inFlow && endsFlowWord b) then 0
    else wordLength inFlow t + 1

/-- The rest of a plain scalar of which `s` is read already, with the gap behind it. -/
def plainFrom (inFlow : Bool) (margin : Nat) : Nat → Place → Gap → Text → Option (Place × Gap × Text)
  | 0, _, _, _ => none
  | bound + 1, p, g, s =>
    if p.isMark || p.isAt 35 then some (p, g, s)
    else
      let n := wordLength inFlow p.rest
      let word := p.rest.take n
      let s := if word.isEmpty then s else s ++ g.folded ++ word
      let g := if word.isEmpty then g else {}
      let p := p.skip n
      if p.rest.isEmpty || !isApart p.rest then some (p, g, s)
      else match p.gap margin p.rest.length g with
        | none => none
        | some (p, g) =>
          if !inFlow && p.column < margin then some (p, g, s) else plainFrom inFlow margin bound p g s

/-- A plain scalar, and whether a line end follows it. -/
def plain (inFlow : Bool) (margin : Nat) (p : Place) : Option (Place × Bool × Text) :=
  (plainFrom inFlow margin (p.rest.length + 1) p {} []).map fun (p, g, s) => (p, g.isBroken, s)

/-! ### Quoted scalars -/

/-- The code point that an escape letter stands for. -/
def escape? (b : UInt8) : Option Nat :=
  match b with
  | 48 => some 0
  | 97 => some 7
  | 98 => some 8
  | 116 => some 9
  | 9 => some 9
  | 110 => some 10
  | 118 => some 11
  | 102 => some 12
  | 114 => some 13
  | 101 => some 0x1B
  | 32 => some 0x20
  | 34 => some 0x22
  | 39 => some 0x27
  | 92 => some 0x5C
  | 78 => some 0x85
  | 95 => some 0xA0
  | 76 => some 0x2028
  | 80 => some 0x2029
  | _ => none

/-- The number of digits behind an escape letter that takes some. -/
def escapeWidth? (b : UInt8) : Option Nat :=
  match b with
  | 120 => some 2
  | 117 => some 4
  | 85 => some 8
  | _ => none

/-- What an escape stands for, from behind its backslash on, and how many bytes it takes. -/
def escapeSequence : Text → Option (Text × Nat)
  | [] => none
  | b :: t =>
    match escapeWidth? b with
    | some width =>
      if t.length < width then none
      else (Text.ofHex? (t.take width)).map fun bytes => (bytes, width + 1)
    | none => (escape? b).map fun v => (Text.ofChar (Char.ofNat v), 1)

/-- A word of a scalar in the given quotes, of which `back` is read already, backwards, and whether an
escaped line end follows it. -/
def quotedWord (quote : UInt8) : Nat → Place → Text → Option (Place × Text × Bool)
  | 0, _, _ => none
  | bound + 1, p, back =>
    match p.rest with
    | [] => some (p, back.reverse, false)
    | b :: t =>
      if isApart (b :: t) then some (p, back.reverse, false)
      else if b = quote then
        if quote = 39 && t.head? = some 39 then quotedWord quote bound (p.skip 2) (39 :: back)
        else some (p, back.reverse, false)
      else if quote = 34 && b = 92 then
        if startsLineEnd t then some (p.next.nextLine, back.reverse, true)
        else match escapeSequence t with
          | none => none
          | some (bytes, width) =>
            quotedWord quote bound (p.skip (width + 1)) (bytes.reverse ++ back)
      else quotedWord quote bound p.next (b :: back)

/-- The rest of a scalar in the given quotes of which `s` is read already. -/
def quotedFrom (quote : UInt8) : Nat → Place → Text → Option (Place × Text)
  | 0, _, _ => none
  | bound + 1, p, s =>
    if p.isMark || p.rest.isEmpty then none
    else match quotedWord quote (p.rest.length + 1) p [] with
      | none => none
      | some (p, word, isEscaped) =>
        if p.isAt quote then some (p.next, s ++ word)
        else match p.gap 0 p.rest.length { isBroken := isEscaped } with
          | none => none
          | some (p, g) => quotedFrom quote bound p (s ++ word ++ g.folded)

/-- A scalar in the given quotes. -/
def quoted (quote : UInt8) (p : Place) : Option (Place × Text) :=
  quotedFrom quote (p.rest.length + 1) p.next []

/-! ### Blocks -/

/-- What becomes of the line ends behind a block: only the first is kept, none, or all. -/
inductive Chomping where
  | clip
  | strip
  | keep
deriving DecidableEq, Repr

def Chomping.ofByte? (b : UInt8) : Option Chomping :=
  if b = 43 then some .keep else if b = 45 then some .strip else none

/-- The way of chomping and the indentation that the head of a block asks for, in either order, with
what follows them.  No indentation is given as zero. -/
def blockHead (t : Text) : Option (Chomping × Nat × Text) :=
  let digit := fun (t : Text) => match t with
    | b :: rest => if Text.isDigit b then (b.toNat - 48, true, rest) else (0, false, t)
    | [] => (0, false, t)
  let sign := fun (t : Text) => match t with
    | b :: rest =>
      match Chomping.ofByte? b with
      | some c => (c, true, rest)
      | none => (.clip, false, t)
    | [] => (.clip, false, t)
  let (c, isSigned, t) := sign t
  let (n, isIndented, t) := digit t
  let (c, t) := if isSigned then (c, t) else if isIndented then ((sign t).1, (sign t).2.2) else (c, t)
  if isIndented && n = 0 then none else some (c, n, t)

/-- The first place behind empty lines that is indented enough or starts a text, with the line ends on
the way after `breaks` and the deepest indentation seen.  An indentation of zero stands for one not known
yet.  Tabs do not indent. -/
def blockGap (indent : Nat) : Nat → Place → Text → Nat → Option (Place × Text × Nat)
  | 0, _, _, _ => none
  | bound + 1, p, breaks, deepest =>
    let spaces := (p.rest.takeWhile (· = 32)).length
    let p := p.skip (if indent = 0 then spaces else min spaces (indent - p.column))
    let deepest := max deepest p.column
    if (indent = 0 || p.column < indent) && p.isAt 9 then none
    else match lineEnd? p.rest with
      | none => some (p, breaks, deepest)
      | some (lineEnd, _) => blockGap indent bound p.nextLine (breaks ++ lineEnd) deepest

/-- The part of a block read so far: its text, the line end of its last line, and those of the empty
lines that follow. -/
structure Block where
  body : Text := []
  first : Text := []
  more : Text := []
  /-- Whether the last line starts with a blank. -/
  isSpaced : Bool := false
deriving DecidableEq, Repr

/-- The block with a further line, whose own line end is not part of `line`. -/
def Block.add (isFolded : Bool) (line : Text) (b : Block) : Block :=
  let isSpaced := line.head?.any isBlank
  let joint :=
    if isFolded && !b.isSpaced && !isSpaced && b.first = [10] then
      if b.more.isEmpty then [32] else []
    else b.first
  { body := b.body ++ joint ++ b.more ++ line, isSpaced }

def Block.chomped (c : Chomping) (b : Block) : Text :=
  match c with
  | .clip => b.body ++ b.first
  | .strip => b.body
  | .keep => b.body ++ b.first ++ b.more

/-- The lines of a block with the given indentation. -/
def blockLines (isFolded : Bool) (indent : Nat) : Nat → Place → Block → Option (Place × Block)
  | 0, _, _ => none
  | bound + 1, p, b =>
    if p.column ≠ indent || p.rest.isEmpty then some (p, b)
    else
      let b := b.add isFolded (p.rest.take (lineLength p.rest))
      let p := p.skipLine
      let b := { b with first := ((lineEnd? p.rest).map Prod.fst).getD [] }
      let p := p.nextLine
      match blockGap indent (p.rest.length + 1) p [] 0 with
      | none => none
      | some (p, breaks, _) => blockLines isFolded indent bound p { b with more := breaks }

/-- A block, from the mark that starts it on. -/
def block (margin : Nat) (p : Place) : Option (Place × Text) :=
  let isFolded := p.isAt 62
  match blockHead (p.rest.drop 1) with
  | none => none
  | some (c, n, rest) =>
    let p := (p.skip (p.rest.length - rest.length)).skipBlanks
    let p := if p.isAt 35 then p.skipLine else p
    if !isOver p.rest then none
    else
      let p := p.nextLine
      let indent := if n = 0 then 0 else if margin = 0 then n else margin - 1 + n
      match blockGap indent (p.rest.length + 1) p [] 0 with
      | none => none
      | some (p, breaks, deepest) =>
        let indent := if indent = 0 then max (max deepest margin) 1 else indent
        (blockLines isFolded indent (p.rest.length + 1) p { more := breaks }).map
          fun (p, b) => (p, b.chomped c)

end MicroLang.Yaml
