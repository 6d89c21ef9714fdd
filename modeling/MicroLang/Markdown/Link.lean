import MicroLang.Markdown.Line
import MicroLang.Text.Folding
import MicroLang.Text.Punctuation

/-!
# Link targets and link labels

A link names its target behind its text, or it names a label that is defined elsewhere in the document.
Definitions stand at the start of paragraphs and are not part of their text.  This module reads targets,
titles and labels, compares labels, and takes the definitions off a paragraph.
-/

namespace MicroLang.Markdown

/-- The bytes up to a closing byte, and what follows it.  A backslash protects punctuation; the opening
byte must not occur again. -/
def closure? (opener closer : UInt8) : Text → Option (Text × Text)
  | [] => none
  | [b] => if b = closer then some ([], []) else none
  | b :: c :: t =>
    if b = 92 && isAsciiPunctuation c then
      (closure? opener closer t).map fun (inner, rest) => (b :: c :: inner, rest)
    else if b = closer then some ([], c :: t)
    else if b = opener then none
    else (closure? opener closer (c :: t)).map fun (inner, rest) => (b :: inner, rest)

/-! ### Targets -/

/-- What follows a target that is in angle brackets, which has to end on its line. -/
def afterBracketed? : Text → Option Text
  | [] => none
  | [b] => if b = 62 then some [] else none
  | b :: c :: t =>
    if b = 10 then none
    else if b = 92 && isAsciiPunctuation c then afterBracketed? t
    else if b = 62 then some (c :: t)
    else afterBracketed? (c :: t)

/-- What follows a target that is not in angle brackets: it reaches to a blank or to a closing
parenthesis that it does not open. -/
def afterBare : Nat → Text → Text
  | _, [] => []
  | depth, b :: t =>
    if isSpacing b || (b = 41 && depth = 0) then b :: t
    else match b, t with
      | 92, c :: t => if isAsciiPunctuation c then afterBare depth t else afterBare depth (c :: t)
      | 40, t => afterBare (depth + 1) t
      | 41, t => afterBare (depth - 1) t
      | _, t => afterBare depth t

/-- What follows a target. -/
def afterDestination? (t : Text) : Option Text :=
  match t with
  | 60 :: inner => afterBracketed? inner
  | _ =>
    let rest := afterBare 0 t
    if rest.length = t.length then none else some rest

/-- The byte that closes a title, by the byte that opens it. -/
def titleCloser? (opener : UInt8) : Option UInt8 :=
  if opener = 34 || opener = 39 then some opener else if opener = 40 then some 41 else none

/-- What follows a title. -/
def afterTitle? (t : Text) : Option Text :=
  match t with
  | [] => none
  | opener :: t =>
    (titleCloser? opener).bind fun closer => (closure? opener closer t).map Prod.snd

/-- What follows the target and the title of a link and the closing parenthesis, from behind the opening
parenthesis on. -/
def afterTarget? (t : Text) : Option Text :=
  let closed := fun (t : Text) =>
    match t.dropWhile isSpacing with
    | 41 :: rest => some rest
    | _ => none
  (closed t).orElse fun _ =>
    (afterDestination? (t.dropWhile isSpacing)).bind fun rest =>
      (closed rest).orElse fun _ => (afterTitle? (rest.dropWhile isSpacing)).bind closed

/-! ### Labels -/

/-- Puts one blank in the place of every stretch of blanks and line ends. -/
def collapse : Text → Text
  | [] => []
  | [b] => [if isSpacing b then 32 else b]
  | b :: c :: t =>
    if isSpacing b then (if isSpacing c then collapse (c :: t) else 32 :: collapse (c :: t))
    else b :: collapse (c :: t)

/-- What labels are compared by: white space at the ends, the width of the white space in between and
case do not count. -/
def labelKey (label : Text) : Text :=
  collapse (Text.folded (Text.trim (fun b => isSpacing b || b = 11 || b = 12) label))

/-- The bytes that a label may have where it is used. -/
def labelLimit : Nat := 999

/-! ### Definitions -/

/-- The line, counted from zero, at which a paragraph goes on with `rest`. -/
def lineAt (paragraph rest : Text) : Nat := paragraph.count 10 - rest.count 10

/-- Whether nothing but blanks is left of the first line. -/
def restIsBlank (t : Text) : Bool := (t.takeWhile (· ≠ 10)).all isSpacing

/-- The definition that a paragraph goes on with: its label, its first line and the line behind its
last, and what follows.  A title on a line of its own that is malformed is not part of it. -/
def definition? (paragraph t : Text) : Option (Text × (Nat × Nat) × Text) :=
  let start := t.dropWhile isSpacing
  let label := match start with
    | 91 :: inner => closure? 91 93 inner
    | _ => none
  match label with
  | some (label, 58 :: target) =>
    match afterDestination? (target.dropWhile isSpacing) with
    | none => none
    | some rest =>
      let first := lineAt paragraph start
      let last := lineAt paragraph rest
      let untitled := fun (next : Text) =>
        if restIsBlank rest then some (label, (first, last + 1), next) else none
      let next := rest.dropWhile isSpacing
      if label.all isSpacing then none
      else match next.head?.bind titleCloser? with
        | none => untitled next
        | some closer =>
          if next.length = rest.length then none
          else match closure? (next.headD 0) closer (next.drop 1) with
            | none => untitled []
            | some (_, behind) =>
              if restIsBlank behind then some (label, (first, lineAt paragraph behind + 1), behind)
              else if restIsBlank rest then some (label, (first, max last (first + 1)), behind)
              else none
  | _ => none

/-- The definitions that a paragraph goes on with, as labels and ranges of lines.  The first argument
bounds their number. -/
def definitions : Nat → Text → Text → List (Text × (Nat × Nat))
  | 0, _, _ => []
  | bound + 1, paragraph, t =>
    match definition? paragraph t with
    | none => []
    | some (label, range, rest) => (label, range) :: definitions bound paragraph rest

/-- Drops ranges of lines, given in ascending order, from lines of which `dropped` are gone. -/
def dropRanges {α : Type} : Nat → List (Nat × Nat) → List α → List α
  | _, [], lines => lines
  | dropped, (first, behind) :: ranges, lines =>
    dropRanges behind ranges (lines.take (first - dropped) ++ lines.drop (behind - dropped))

/-- The keys of the labels that a paragraph defines, and its numbered lines without the
definitions. -/
def withoutDefinitions (lines : List (Nat × Text)) : List Text × List (Nat × Text) :=
  let paragraph := lines.flatMap Prod.snd
  let found := definitions (paragraph.length + 1) paragraph paragraph
  (found.map fun d => labelKey d.1, dropRanges 0 (found.map Prod.snd) lines)

end MicroLang.Markdown
