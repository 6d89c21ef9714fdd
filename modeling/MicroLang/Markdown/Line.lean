import MicroLang.Text

/-!
# Lines of a Markdown document

The containers of a document take blanks and marks off the front of a line, so a line is kept as what
is left of it.  Tabs go to the next multiple of four columns.  A container may take only some of the
columns of a tab; the columns it leaves are kept as pending blanks.
-/

namespace MicroLang.Markdown

/-- The blank, the tab and the two bytes of line ends.  Form feeds and vertical tabs are text. -/
def isSpacing (b : UInt8) : Bool := b = 32 || b = 9 || b = 10 || b = 13

/-- The lines of a text with their newlines.  The last line may lack one. -/
def physicalLines : Text → List Text
  | [] => []
  | b :: t =>
    if b = 10 then [b] :: physicalLines t
    else match physicalLines t with
      | [] => [[b]]
      | line :: rest => (b :: line) :: rest

theorem flatten_physicalLines (t : Text) : (physicalLines t).flatten = t := by
  induction t with
  | nil => rfl
  | cons b t ih =>
    rw [physicalLines]
    split
    · simp only [List.flatten_cons, ih, List.cons_append, List.nil_append]
    · cases h : physicalLines t with
      | nil =>
        rw [h] at ih
        simp only [List.flatten_cons, List.flatten_nil, List.append_nil, ← ih]
      | cons line rest =>
        rw [h] at ih
        simp only [List.flatten_cons, List.cons_append] at ih ⊢
        rw [ih]

/-- What is left of a line: the column of its first byte, the blanks pending in front of it, and
the bytes themselves. -/
structure Line where
  column : Nat := 0
  pending : Nat := 0
  rest : Text
deriving DecidableEq, Repr

/-- The columns from one column to the next tab stop. -/
def tabWidth (column : Nat) : Nat := 4 - column % 4

/-- The columns that leading blanks and tabs take from a column on, and what follows them. -/
def blanks (column : Nat) : Text → Nat × Text
  | [] => (0, [])
  | b :: t =>
    if b = 32 then
      let (width, rest) := blanks (column + 1) t
      (width + 1, rest)
    else if b = 9 then
      let step := tabWidth column
      let (width, rest) := blanks (column + step) t
      (width + step, rest)
    else (0, b :: t)

/-- The bytes that hold the first `width` columns of leading blanks and tabs, counted from a column
on, and the columns of these bytes beyond `width`. -/
def cutBlanks (column : Nat) : Nat → Text → Nat × Nat
  | 0, _ => (0, 0)
  | width + 1, 32 :: t =>
    let (bytes, surplus) := cutBlanks (column + 1) width t
    (bytes + 1, surplus)
  | width + 1, 9 :: t =>
    let step := tabWidth column
    let (bytes, surplus) := cutBlanks (column + step) (width + 1 - step) t
    (bytes + 1, surplus + (step - (width + 1)))
  | _ + 1, _ => (0, 0)

/-- The column behind a text that starts at a column. -/
def columnAfter (column : Nat) (t : Text) : Nat :=
  t.foldl (fun column b => if b = 9 then column + tabWidth column else column + 1) column

namespace Line

/-- The width of the blanks that the line starts with. -/
def indent (l : Line) : Nat := l.pending + (blanks l.column l.rest).1

/-- The bytes behind the blanks that the line starts with. -/
def body (l : Line) : Text := (blanks l.column l.rest).2

/-- The line behind its indentation and `n` bytes more. -/
def dropBody (n : Nat) (l : Line) : Line :=
  { column := l.column + (blanks l.column l.rest).1 + n, rest := l.body.drop n }

def isBlank (l : Line) : Bool := l.rest.all isSpacing

/-- The line without up to `n` columns of blanks. -/
def dropColumns : Nat → Line → Line
  | 0, l => l
  | n + 1, l =>
    if 0 < l.pending then dropColumns n { l with pending := l.pending - 1 }
    else match l.rest with
      | 32 :: t => dropColumns n { column := l.column + 1, rest := t }
      | 9 :: t =>
        let step := tabWidth l.column
        dropColumns n { column := l.column + step, pending := step - 1, rest := t }
      | _ => l

/-- The text of the line, pending blanks included. -/
def content (l : Line) : Text := List.replicate l.pending 32 ++ l.rest

end Line

end MicroLang.Markdown
