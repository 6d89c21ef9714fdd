import MicroLang.Text

/-!
# Positions in a source

Lines and columns count from one and offsets from zero, all in bytes.  The fields are integers and not
natural numbers because a position may also be made up by a caller; a position is valid when its
line is positive.
-/

namespace MicroLang

structure Position where
  filename : Text := []
  line : Int := 0
  column : Int := 0
  offset : Int := 0
deriving DecidableEq, Repr, Inhabited

namespace Position

/-- The position of something that stands nowhere. -/
def nowhere : Position := {}

def isValid (p : Position) : Bool := 0 < p.line

/-- Order in the source, by line and then by column. -/
def before (p q : Position) : Bool :=
  if p.line ≠ q.line then p.line < q.line else p.column < q.column

/-- The position as `line:column`. -/
def lineColumn (p : Position) : Text := Text.ofInt p.line ++ text ":" ++ Text.ofInt p.column

/-- The position as `filename:line:column`, or without the name when it is empty. -/
def text (p : Position) : Text :=
  if p.filename = [] then p.lineColumn else p.filename ++ MicroLang.text ":" ++ p.lineColumn

theorem before_irrefl (p : Position) : p.before p = false := by
  simp only [before, ne_eq, not_true_eq_false, if_false, Int.lt_irrefl, decide_false]

theorem before_trans {p q r : Position} (hpq : p.before q = true) (hqr : q.before r = true) :
    p.before r = true := by
  simp only [before, ne_eq, ite_not, Bool.ite_eq_true_distrib, decide_eq_true_eq] at *
  split at hpq <;> split at hqr <;> split <;> omega

end Position

end MicroLang
