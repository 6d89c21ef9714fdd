import MicroLang.Markdown.Link
import MicroLang.Markdown.Tag

/-!
# Headings and fences of a Markdown document

The block structure of CommonMark, as far as headings and fenced code need it.  A document is read line
by line.  Open block quotes and list items first take their share of a line; then the line may open
further containers and at last a heading, a fence, a thematic break, indented code, raw HTML or a
paragraph.  A paragraph that is open goes on over any line that starts nothing else, even if the line
lacks the marks of the containers around it.  What comes out are the headings and the fences in the
order of the document, and the labels that its paragraphs define.
-/

namespace MicroLang.Markdown

/-- A heading with its lines as they stand in the source, or a fence with its body. -/
inductive Block where
  | heading (line : Nat) (content : List Text)
  | fence (language : Text) (body : List (Nat × Text))
deriving DecidableEq, Repr

/-- What lines can be inside of. -/
inductive Container where
  | quote
  /-- The newest item of a list: the byte that its marker ends with, and the columns that its content
  is indented by.  Nothing has been opened in a hollow item yet. -/
  | item (marker : UInt8) (indent : Nat) (hollow : Bool)
deriving DecidableEq, Repr

def Container.isItem : Container → Bool
  | .quote => false
  | .item _ _ _ => true

/-- The block that takes text.  Lines are numbered and the newest is first. -/
inductive Leaf where
  | none
  | paragraph (lines : List (Nat × Text))
  | fence (mark : UInt8) (length indent : Nat) (language : Text) (body : List (Nat × Text))
  | raw (ending : RawEnd)
deriving DecidableEq, Repr

/-- A list item that starts at a place: the byte that its marker ends with, its number, the columns
that its content is indented by, whether nothing follows the marker, and what follows it. -/
structure ItemStart where
  marker : UInt8
  number? : Option Nat
  indent : Nat
  hollow : Bool
  rest : Line
deriving DecidableEq, Repr

/-- Where the paragraph is that could go on over a line, seen from a place in the line. -/
inductive Standing where
  /-- No paragraph is open, or a container has been opened on this line. -/
  | closed
  /-- The paragraph is open in the container at this place. -/
  | here
  /-- The paragraph is open in a container that this line does not continue. -/
  | outside
deriving DecidableEq, Repr

/-- What starts at a place in a line. -/
inductive Start where
  | blank
  | quote (rest : Line)
  | item (start : ItemStart)
  | heading (content : Text)
  | underline
  | thematicBreak
  | fence (mark : UInt8) (length indent : Nat) (language : Text)
  | raw (ending : RawEnd)
  | code
  | text
deriving DecidableEq, Repr

/-! ### Recognising the start of a block -/

/-- The line behind a quote mark and one blank. -/
def quoteMark? (l : Line) : Option Line :=
  if l.indent ≤ 3 && l.body.head? = some 62 then some ((l.dropBody 1).dropColumns 1) else none

/-- Whether the text underlines a heading: equals signs or hyphens, blanks in front and behind. -/
def isUnderline (t : Text) : Bool :=
  let bar := t.dropWhile (· = 32)
  match bar with
  | [] => false
  | b :: _ => (b = 61 || b = 45) && (bar.dropWhile (· = b)).all isSpacing

/-- Whether the text is a thematic break: three or more equal marks and nothing else but blanks. -/
def isThematicBreak (t : Text) : Bool :=
  match t.filter fun b => !isSpacing b with
  | [] => false
  | b :: marks => (b = 42 || b = 45 || b = 95) && 2 ≤ marks.length && marks.all (· = b)

/-- The content of a heading without the closing number signs. -/
def withoutClosing (content : Text) : Text :=
  let front := Text.trimRight (· = 35) content
  if front.isEmpty then []
  else match front.getLast? with
    | some b => if isSpacing b then Text.trimRight isSpacing front else content
    | none => content

/-- The content of a heading that is marked by one to six number signs. -/
def headingContent? (body : Text) : Option Text :=
  let rest := body.dropWhile (· = 35)
  let level := body.length - rest.length
  if 1 ≤ level && level ≤ 6 && (rest.isEmpty || (rest.head?.map isSpacing).getD false) then
    some (withoutClosing (Text.trim isSpacing rest))
  else none

/-- The mark, the length and the language of an opening fence. -/
def fenceMark? (body : Text) : Option (UInt8 × Nat × Text) :=
  match body with
  | [] => none
  | mark :: _ =>
    let rest := body.dropWhile (· = mark)
    let length := body.length - rest.length
    let info := if 1 < rest.length then Text.trim isSpacing rest else []
    if (mark = 96 || mark = 126) && 3 ≤ length && !(mark = 96 && info.contains 96) then
      some (mark, length, info.takeWhile (· ≠ 32))
    else none

/-- The length of a list marker and, for a numbered one, its number. -/
def listMarker? (body : Text) : Option (Nat × Option Nat) :=
  match body with
  | [] => none
  | b :: _ =>
    if b = 45 || b = 43 || b = 42 then some (1, none)
    else
      let digits := body.takeWhile Text.isDigit
      match body.drop digits.length with
      | d :: _ =>
        if 1 ≤ digits.length && digits.length ≤ 9 && (d = 46 || d = 41) then
          some (digits.length + 1, some (Text.toNat digits))
        else none
      | [] => none

/-- The list item that starts at a place.  Its marker is indented by blanks only, and tab stops behind
it are counted from the place. -/
def itemStart? (l : Line) : Option ItemStart :=
  let body := l.content.dropWhile (· = 32)
  let margin := l.content.length - body.length
  match listMarker? body with
  | none => none
  | some (width, number?) =>
    let after := body.drop width
    let gap := (blanks (margin + width) after).1
    let separated := after.isEmpty || after.head? = some 10 || 0 < gap
    if 3 < margin || !separated then none
    else
      let hollow := after.all isSpacing
      let gap := if hollow || 4 < gap then 1 else gap
      let (bytes, surplus) := cutBlanks (margin + width) gap after
      let column := columnAfter (l.column + (margin - l.pending) + width) (after.take bytes)
      some
        { marker := (body.drop (width - 1)).headD 0
          number?
          indent := margin + width + gap
          hollow
          rest := { column, pending := surplus, rest := after.drop bytes } }

/-- Whether a list may start at an item.  A list that interrupts a paragraph starts with text and, if
it is numbered, at one. -/
def ItemStart.startsList (interrupts : Bool) (i : ItemStart) : Bool :=
  !(interrupts && (i.hollow || i.number?.getD 1 ≠ 1))

/-- What starts at a place in a line. -/
def startOf (standing : Standing) (l : Line) : Start :=
  if l.isBlank then .blank
  else if 4 ≤ l.indent then (if standing = .closed then .code else .text)
  else if standing = .here && isUnderline l.content then .underline
  else if isThematicBreak l.body then .thematicBreak
  else match (itemStart? l).filter (ItemStart.startsList (standing = .here)) with
    | some i => .item i
    | none =>
      -- an indentation as wide as the line is long hides what follows it
      let body := if l.indent < l.content.length then l.body else []
      match headingContent? body with
      | some content => .heading content
      | none =>
        match fenceMark? body with
        | some (mark, length, language) =>
          .fence mark length (l.content.length - body.length) language
        | none =>
          match quoteMark? l with
          | some rest => .quote rest
          | none =>
            match if body.isEmpty then none else rawStart? (standing ≠ .closed) l.content with
            | some ending => .raw ending
            | none => .text

/-! ### Reading line by line -/

/-- How far a line goes on with the open containers. -/
structure Continuation where
  kept : List Container := []
  line : Line
  /-- Whether the line starts the next item of the list that is open behind the kept containers. -/
  isSibling : Bool := false
  /-- Whether a blank line has followed a hollow item, and no item has started since. -/
  stale : Bool
deriving DecidableEq, Repr

/-- The line goes on with one container more. -/
def Continuation.within (c : Container) (k : Continuation) : Continuation :=
  { k with kept := c :: k.kept }

/-- The containers that a line continues, and what they leave of it.  A line continues the item of a
list by its indentation.  A line with less of it may start the next item of the list; so may any line
behind a hollow item, which cannot be continued once a blank line has followed it. -/
def continued (stale : Bool) : List Container → Line → Continuation
  | [], l => { line := l, stale }
  | .quote :: inner, l =>
    match quoteMark? l with
    | none => { line := l, stale }
    | some l => (continued stale inner l).within .quote
  | .item marker indent hollow :: inner, l =>
    let ended : Continuation := { line := l, stale }
    if l.isBlank then
      (continued (stale || hollow) inner
        { l with pending := 0, rest := l.rest.filter (· = 10) }).within (.item marker indent hollow)
    else
      let short := l.indent < indent
      let next := if l.indent < 4 && (short || hollow) then itemStart? l else none
      let differs := fun (i : ItemStart) => i.marker ≠ marker || isThematicBreak l.body
      if (next.map differs).getD false then ended
      else if short || stale then { ended with isSibling := next.isSome }
      else (continued stale inner (l.dropColumns indent)).within (.item marker indent false)

/-- The container that a list item opens. -/
def ItemStart.container (i : ItemStart) : Container := .item i.marker i.indent i.hollow

/-- The containers that a line opens, and what starts behind them.  The first argument bounds their
number. -/
def opened : Nat → Standing → Line → List Container × Start × Line
  | 0, _, l => ([], .text, l)
  | bound + 1, standing, l =>
    match startOf standing l with
    | .quote rest =>
      let (inner, start, l) := opened bound .closed rest
      (.quote :: inner, start, l)
    | .item i =>
      let (inner, start, l) := opened bound .closed i.rest
      (i.container :: inner, start, l)
    | start => ([], start, l)

/-- The containers that the next item of a list opens, and what starts behind them. -/
def openedSibling (l : Line) : List Container × Start × Line :=
  match itemStart? l with
  | none => opened (l.rest.length + 1) .closed l
  | some i =>
    let (inner, start, l) := opened (l.rest.length + 1) .closed i.rest
    (i.container :: inner, start, l)

/-- A document read up to some line.  The newest block is first. -/
structure Reading where
  containers : List Container := []
  leaf : Leaf := .none
  stale : Bool := false
  blocks : List Block := []
  labels : List Text := []
deriving DecidableEq, Repr

/-- Closes the block that takes text. -/
def Reading.closeLeaf (r : Reading) : Reading :=
  match r.leaf with
  | .none => r
  | .paragraph lines =>
    { r with leaf := .none, labels := (withoutDefinitions lines.reverse).1 ++ r.labels }
  | .fence _ _ _ language body =>
    { r with leaf := .none, blocks := .fence language body.reverse :: r.blocks }
  | .raw _ => { r with leaf := .none }

/-- The heading that the lines of an underlined paragraph become.  Blanks at either end of it and at
the start of its lines are dropped. -/
def underlinedHeading (first : Nat × Text) (rest : List (Nat × Text)) : Block :=
  let lines := (first :: rest).map fun l => l.2.dropWhile isSpacing
  .heading first.1 (lines.dropLast ++ [Text.trimRight isSpacing (lines.getLastD [])])

/-- Whether a line closes a fence. -/
def closesFence (mark : UInt8) (length : Nat) (l : Line) : Bool :=
  let rest := l.body.dropWhile (· = mark)
  l.indent < 4 && length ≤ l.body.length - rest.length && rest.all isSpacing

/-- The content of a line inside a fence: as many columns of blanks are dropped as bytes stand in front
of the fence.  Of a line with fewer columns the bytes up to the first other byte are dropped, and
pending blanks count as bytes; a line of blanks alone is kept. -/
def fenceContent (indent : Nat) (l : Line) : Text :=
  if indent ≤ l.indent then (l.dropColumns indent).content
  else if l.body.isEmpty || l.body.head? = some 10 then l.rest
  else l.rest.drop (l.content.length - l.body.length)

/-- Reads a line that goes on with the kept containers, or starts the next item of a list in them. -/
def Reading.place (r : Reading) (number : Nat) (k : Continuation) (standing : Standing) : Reading :=
  let (new, start, l) :=
    if k.isSibling then openedSibling k.line else opened (k.line.rest.length + 1) standing k.line
  let stale := k.stale && !new.any Container.isItem
  match r.leaf, start, standing, new with
  | .paragraph lines, .text, .here, [] => { r with stale, leaf := .paragraph ((number, l.content) :: lines) }
  | .paragraph lines, .text, .outside, [] =>
    { r with stale, leaf := .paragraph ((number, l.content) :: lines) }
  | _, _, _, _ =>
    let r := { r.closeLeaf with containers := k.kept ++ new, stale }
    match start with
    | .text => { r with leaf := .paragraph [(number, l.content)] }
    | .heading content => { r with blocks := .heading number [content] :: r.blocks }
    | .fence mark length indent language => { r with leaf := .fence mark length indent language [] }
    | .raw ending => if ending.isMet l.content then r else { r with leaf := .raw ending }
    | _ => r

/-- Reads a line that neither a fence nor raw HTML takes.  A line that underlines a paragraph makes a
heading of what the paragraph holds besides definitions; if that is nothing, the line stands for
itself. -/
def Reading.readLine (r : Reading) (number : Nat) (k : Continuation) : Reading :=
  let isHere := k.kept.length = r.containers.length
  match r.leaf, isHere && startOf .here k.line = .underline with
  | .paragraph lines, true =>
    match withoutDefinitions lines.reverse with
    | (labels, []) =>
      { r with leaf := .none, labels := labels ++ r.labels }.place number k .closed
    | (labels, first :: rest) =>
      { r with
        leaf := .none
        stale := k.stale
        blocks := underlinedHeading first rest :: r.blocks
        labels := labels ++ r.labels }
  | .paragraph _, false => r.place number k (if isHere then .here else .outside)
  | _, _ => r.place number k .closed

/-- Reads the next line. -/
def Reading.next (r : Reading) (numbered : Nat × Text) : Reading :=
  let (number, line) := numbered
  let k := continued r.stale r.containers { rest := line }
  match r.leaf, decide (k.kept.length = r.containers.length) with
  | .fence mark length indent language body, true =>
    let r := { r with containers := k.kept, stale := k.stale }
    if closesFence mark length k.line then r.closeLeaf
    else
      { r with
        leaf := .fence mark length indent language ((number, fenceContent indent k.line) :: body) }
  | .raw ending, true =>
    let r := { r with containers := k.kept, stale := k.stale }
    if ending.isMet k.line.content || (ending = .blankLine && k.line.isBlank) then r.closeLeaf else r
  | _, _ => r.readLine number k

/-- The headings and the fences of a document, in order, and the keys of the labels it defines. -/
structure Outline where
  blocks : List Block
  labels : List Text
deriving DecidableEq, Repr

def outline (document : Text) : Outline :=
  let numbered := (physicalLines document).mapIdx fun i line => (i + 1, line)
  let final := (numbered.foldl Reading.next {}).closeLeaf
  { blocks := final.blocks.reverse, labels := final.labels }

end MicroLang.Markdown
