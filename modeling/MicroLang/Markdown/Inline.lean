import MicroLang.Markdown.Link
import MicroLang.Markdown.Tag
import MicroLang.Text.Blank

/-!
# The text of a heading

A heading shows its content without its markup.  What counts as markup are the backticks of code spans,
the stars and underscores that make emphasis, the brackets, targets, titles and labels of links and
images, and everything in angle brackets that is an address or raw HTML.  All other bytes are kept as
they stand in the source; backslashes and character references are not resolved.  Line ends are dropped
together with the blanks in front of them.
-/

namespace MicroLang.Markdown

/-- A stretch of content whose markup is not settled yet. -/
inductive Chunk where
  | text (t : Text)
  /-- A run of stars or underscores, of which `left` are not used up yet. -/
  | run (mark : UInt8) (left length : Nat) (opens closes : Bool)
  /-- An opening bracket that may start a link or an image, and the bytes in front of its content.  A
  bracket that is not active has a link behind it and cannot start one around it. -/
  | bracket (image active : Bool) (position : Nat)
deriving DecidableEq, Repr

/-- The bytes of a chunk whose markup, if any, was not used. -/
def Chunk.plain : Chunk → Text
  | .text t => t
  | .run mark left _ _ _ => List.replicate left mark
  | .bracket image _ _ => if image then [33, 91] else [91]

/-! ### Emphasis -/

/-- Splits the chunks before a closing run, newest first, at the run that opens its emphasis: the
chunks in between, the opening run with the marks left to it and its length, and the chunks before it.
A run that could both open and close matches only if the lengths do not add up to a multiple of three,
or are multiples of three themselves. -/
def opener? (mark : UInt8) (length : Nat) (opens : Bool) :
    List Chunk → Option (List Chunk × (Nat × Nat × Bool) × List Chunk)
  | [] => none
  | c :: before =>
    let further := (opener? mark length opens before).map fun (inner, run, rest) =>
      (c :: inner, run, rest)
    match c with
    | .run m left len true closes =>
      let clash := (closes || opens) && (len + length) % 3 = 0 && length % 3 ≠ 0
      if m = mark && !clash then some ([], (left, len, closes), before) else further
    | _ => further

/-- Lets a closing run with `left` marks use up the runs that it closes. -/
def closeRun (mark : UInt8) (left length : Nat) (opens : Bool) (before : List Chunk) : List Chunk :=
  match left with
  | 0 => before
  | more + 1 =>
    match opener? mark length opens before with
    | none => .run mark (more + 1) length opens true :: before
    | some (inner, (openLeft, openLength, openCloses), rest) =>
      let both := 2 ≤ openLeft && 1 ≤ more
      let used := if both then 2 else 1
      let content : Chunk := .text (inner.reverse.flatMap Chunk.plain)
      let before := if openLeft = used then content :: rest
        else content :: .run mark (openLeft - used) openLength true openCloses :: rest
      closeRun mark (if both then more - 1 else more) length opens before
termination_by left
decreasing_by split <;> omega

/-- The text of chunks, oldest first, with its emphasis settled. -/
def settled (chunks : List Chunk) : Text :=
  let final := chunks.foldl (fun before c =>
    match c with
    | .run mark left length opens true => closeRun mark left length opens before
    | c => c :: before) []
  final.reverse.flatMap Chunk.plain

/-- What emphasis sees of a character next to its marks. -/
inductive Neighbour where
  | blank
  | punctuation
  | other
deriving DecidableEq, Repr

/-- The neighbour that starts with a byte.  A malformed sequence counts as a symbol. -/
def neighbour (lead : UInt8) (rest : Text) : Neighbour :=
  match Text.sequence? lead rest with
  | none => .punctuation
  | some (value, _) =>
    let c := Char.ofNat value
    if isBlank c then .blank else if isPunctuation c then .punctuation else .other

/-- The neighbour behind marks; the end of the content is a blank. -/
def neighbourBehind : Text → Neighbour
  | [] => .blank
  | b :: t => neighbour b t

/-- The neighbour in front of marks, given the bytes before them, newest first.  It starts at the
last byte that does not continue a sequence. -/
def neighbourBefore (previous : Text) : Neighbour :=
  match previous.dropWhile Text.isTail with
  | [] => .blank
  | lead :: _ => neighbour lead (previous.takeWhile Text.isTail).reverse

/-- Whether a run of marks between two characters opens and whether it closes emphasis. -/
def flanking (mark : UInt8) (before behind : Neighbour) : Bool × Bool :=
  let left := behind = .other || (behind = .punctuation && before ≠ .other)
  let right := before = .other || (before = .punctuation && behind ≠ .other)
  if mark = 95 then
    (left && (!right || before = .punctuation), right && (!left || behind = .punctuation))
  else (left, right)

/-! ### Code spans -/

/-- The bytes up to a run of exactly `length` backticks, and what follows the run.  The second
argument counts the backticks right in front. -/
def codeSpan? (length : Nat) : Nat → Text → Option (Text × Text)
  | run, [] => if run = length then some ([], []) else none
  | run, b :: t =>
    if b = 96 then codeSpan? length (run + 1) t
    else if run = length then some ([], b :: t)
    else (codeSpan? length 0 t).map fun (content, rest) =>
      (List.replicate run 96 ++ b :: content, rest)

/-- The content of a code span: one blank or line end is dropped at each end if both ends have one
and not all of it is blank. -/
def codeContent (t : Text) : Text :=
  let isEdge := fun (b : Option UInt8) => b = some 32 || b = some 10
  if isEdge t.head? && isEdge t.getLast? && !t.all isSpacing then (t.drop 1).dropLast else t

/-! ### Reading the content -/

/-- Content read so far: chunks, newest first, the plain bytes behind them, newest first, and all
bytes that have been read, newest first. -/
structure Inline where
  chunks : List Chunk := []
  plain : Text := []
  previous : Text := []
  /-- Whether a backslash stands in front of what is left to read. -/
  escaped : Bool := false
deriving DecidableEq, Repr

namespace Inline

/-- Turns the plain bytes into a chunk. -/
def flush (s : Inline) : Inline :=
  if s.plain.isEmpty then s else { s with chunks := .text s.plain.reverse :: s.chunks, plain := [] }

/-- Adds a chunk behind the plain bytes. -/
def push (s : Inline) (c : Chunk) : Inline :=
  let s := s.flush
  { s with chunks := c :: s.chunks }

/-- Takes a byte for text. -/
def pass (s : Inline) (b : UInt8) : Inline :=
  { s with plain := b :: s.plain, previous := b :: s.previous }

/-- Ends a line: drops the blanks at the end of the plain bytes. -/
def endLine (s : Inline) : Inline := { s with plain := s.plain.dropWhile isSpacing }.flush

/-- Counts the bytes between `content` and `rest` as read. -/
def skip (s : Inline) (content rest : Text) : Inline :=
  { s with previous := (content.take (content.length - rest.length)).reverse ++ s.previous }

/-- Splits chunks, newest first, at the last opening bracket. -/
def splitBracket : List Chunk → Option (List Chunk × (Bool × Bool × Nat) × List Chunk)
  | [] => none
  | .bracket image active position :: before => some ([], (image, active, position), before)
  | c :: before => (splitBracket before).map fun (inner, b, rest) => (c :: inner, b, rest)

/-- Forbids earlier brackets to start a link around a link. -/
def deactivate (chunks : List Chunk) : List Chunk :=
  chunks.map fun
    | .bracket false _ position => .bracket false false position
    | c => c

/-- The bytes from the first open bracket to behind the last. -/
def bracketSpan (chunks : List Chunk) : Nat :=
  let ends := chunks.filterMap fun
    | .bracket image _ position => some (position - (if image then 2 else 1), position)
    | _ => none
  match ends.head?, ends.getLast? with
  | some (_, last), some (first, _) => last - first
  | _, _ => 0

/-- What follows the target of a link, given the labels that are defined, the text of the link and
what follows its closing bracket.  A label in brackets of its own decides alone, unless it is empty;
without such a label the text may be one. -/
def afterLinkTarget? (labels : List Text) (content rest : Text) : Option Text :=
  let isDefined := fun (label : Text) =>
    label.length ≤ labelLimit && labels.contains (labelKey label)
  let shortcut := if isDefined content then some rest else none
  match rest with
  | 40 :: t => (afterTarget? t).orElse fun _ => shortcut
  | 91 :: t =>
    match closure? 91 93 t with
    | none => shortcut
    | some (label, behind) =>
      if isDefined (if label.all isSpacing then content else label) then some behind else none
  | _ => shortcut

/-- The link or image that a closing bracket in front of `t` ends, with what follows it.  Where there
is none, the opening bracket is text. -/
def closeBracket (labels : List Text) (s : Inline) (t : Text) : Inline × Option Text :=
  match splitBracket s.flush.chunks with
  | none => (s, none)
  | some (inner, (image, active, position), before) =>
    let content := (s.previous.take (s.previous.length - position)).reverse
    let target :=
      if bracketSpan before < labelLimit && (image || active) then afterLinkTarget? labels content t
      else none
    match target with
    | some rest =>
      let before := if image then before else deactivate before
      ({ s with chunks := .text (settled inner.reverse) :: before, plain := [] }, some rest)
    | none =>
      let opening : Chunk := .text (Chunk.plain (.bracket image active position))
      ({ s.flush with chunks := inner ++ opening :: before }, none)

/-- The markup that starts with a byte in front of `t`: the content read up to its end, and what
follows it.  Where there is none, the content may still have changed, since a closing bracket turns
its opening bracket into text. -/
def markup (labels : List Text) (s : Inline) (b : UInt8) (t : Text) : Inline × Option Text :=
  if b = 96 then
    let rest := t.dropWhile (· = 96)
    let length := t.length - rest.length + 1
    match codeSpan? length 0 rest with
    | some (content, rest) => (s.push (.text (codeContent content)), some rest)
    | none => (s.push (.text (List.replicate length 96)), some rest)
  else if b = 42 || b = 95 then
    let rest := t.dropWhile (· = b)
    let length := t.length - rest.length + 1
    let (opens, closes) := flanking b (neighbourBefore s.previous) (neighbourBehind rest)
    (s.push (.run b length length opens closes), some rest)
  else if b = 33 && t.head? = some 91 then
    (s.push (.bracket true true (s.previous.length + 2)), some (t.drop 1))
  else if b = 91 then (s.push (.bracket false true (s.previous.length + 1)), some t)
  else if b = 93 then s.closeBracket labels t
  else if b = 60 then
    match (afterAddress? t).orElse fun _ => afterRaw? t with
    | some rest => (s.flush, some rest)
    | none => (s, none)
  else (s, none)

/-- What follows a backslash and the line end behind it. -/
def afterHardBreak? : Text → Option Text
  | 92 :: 10 :: t => some t
  | 92 :: 13 :: 10 :: t => some t
  | _ => none

/-- Reads content to its end.  The first argument bounds the number of steps. -/
def read (labels : List Text) : Nat → Inline → Text → Inline
  | 0, s, _ => s
  | _, s, [] => s.endLine
  | bound + 1, s, b :: t =>
    match if s.previous.head? = some 92 then none else afterHardBreak? (b :: t) with
    | some rest => read labels bound (s.flush.skip (b :: t) rest) rest
    | none =>
      if b = 10 then read labels bound (s.endLine.skip (b :: t) t) t
      else
        -- an escape reaches over a line end only to a byte that starts no markup
        let (s, next) := if s.escaped && !s.plain.isEmpty then (s, none) else s.markup labels b t
        match next with
        | some rest => read labels bound (s.skip (b :: t) rest) rest
        | none => read labels bound { s.pass b with escaped := b = 92 && !s.escaped } t

end Inline

/-- The text that a heading with the given lines shows in a document that defines the labels. -/
def headingText (labels : List Text) (lines : List Text) : Text :=
  let content := lines.flatten
  settled (Inline.read labels (content.length + 1) {} content).flush.chunks.reverse

end MicroLang.Markdown
