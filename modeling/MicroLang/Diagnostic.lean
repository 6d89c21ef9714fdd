import MicroLang.Token

/-!
# Diagnostics

A diagnostic is an error or a warning with its message and, where it has one, its place.  A tracker
collects the diagnostics of one compilation under the name of the source, in the order in which they
are reported, and counts errors and warnings as they come.  Every tracker comes with the fact that its
counts are those of its list.  Whether an error was reported never becomes false again.
-/

namespace MicroLang

inductive Severity where
  | error
  | warning
  | unknown
deriving DecidableEq, Repr

namespace Severity

/-- The severity with the given code. -/
def ofCode (code : Int) : Severity :=
  if code = 0 then .error else if code = 1 then .warning else .unknown

def name : Severity → Text
  | .error => text "error"
  | .warning => text "warning"
  | .unknown => text "unknown"

/-- The label in front of a message. -/
def label (s : Severity) : Text := s.name ++ text ":"

/-- The terminal colour of a label: bright red for errors, bright magenta for warnings. -/
def colour? : Severity → Option Text
  | .error => some (text "91")
  | .warning => some (text "95")
  | .unknown => none

/-- The label, in bold and in its colour if asked for. -/
def shownLabel (coloured : Bool) (s : Severity) : Text :=
  match coloured, s.colour? with
  | true, some code => text "\x1b[1;" ++ code ++ text "m" ++ s.label ++ text "\x1b[0m"
  | _, _ => s.label

end Severity

structure Diagnostic where
  severity : Severity
  pos : Position
  message : Text
deriving DecidableEq, Repr

namespace Diagnostic

/-- The diagnostic behind its place, its file name or nothing, whichever is known. -/
def format (label : Text) (d : Diagnostic) : Text :=
  if d.pos.isValid then d.pos.text ++ text ": " ++ label ++ text " " ++ d.message
  else if d.pos.filename ≠ [] then d.pos.filename ++ text ": " ++ label ++ text " " ++ d.message
  else label ++ text " " ++ d.message

/-- Display as `place: severity: message`. -/
def text (d : Diagnostic) : Text := d.format d.severity.label

/-- The line written for a diagnostic. -/
def line (coloured : Bool) (d : Diagnostic) : Text :=
  d.format (d.severity.shownLabel coloured) ++ MicroLang.text "\n"

/-- Several diagnostics, one per line. -/
def listText : List Diagnostic → Text
  | [] => MicroLang.text "no errors"
  | ds => [10].intercalate (ds.map Diagnostic.text)

theorem line_plain (d : Diagnostic) : d.line false = d.text ++ MicroLang.text "\n" := rfl

end Diagnostic

/-- How many of the diagnostics have the given severity. -/
def Severity.tally (s : Severity) (ds : Array Diagnostic) : Nat := ds.toList.countP fun d => d.severity = s

/-- The diagnostics of one compilation and the numbers of errors and warnings among them. -/
structure Tracker where
  filename : Text
  diagnostics : Array Diagnostic := #[]
  errorCount : Nat := 0
  warningCount : Nat := 0
  errors_counted : errorCount = Severity.error.tally diagnostics := by rfl
  warnings_counted : warningCount = Severity.warning.tally diagnostics := by rfl
deriving DecidableEq, Repr

theorem Severity.tally_push (s : Severity) (ds : Array Diagnostic) (d : Diagnostic) :
    s.tally (ds.push d) = s.tally ds + if d.severity = s then 1 else 0 := by
  simp only [tally, Array.toList_push, List.countP_append, List.countP_singleton, decide_eq_true_eq]

namespace Tracker

/-- The counts follow from the diagnostics. -/
theorem eq_of_diagnostics {t t' : Tracker} (hfilename : t.filename = t'.filename)
    (hdiagnostics : t.diagnostics = t'.diagnostics) : t = t' := by
  obtain ⟨filename, diagnostics, errorCount, warningCount, herrors, hwarnings⟩ := t
  obtain ⟨filename', diagnostics', errorCount', warningCount', herrors', hwarnings'⟩ := t'
  cases hfilename
  cases hdiagnostics
  cases herrors.trans herrors'.symm
  cases hwarnings.trans hwarnings'.symm
  rfl

/-- The errors reported so far, in order. -/
def errors (t : Tracker) : List Diagnostic := t.diagnostics.toList.filter fun d => d.severity = .error

/-- The warnings reported so far, in order. -/
def warnings (t : Tracker) : List Diagnostic :=
  t.diagnostics.toList.filter fun d => d.severity = .warning

theorem length_errors (t : Tracker) : t.errors.length = t.errorCount := by
  rw [t.errors_counted, errors, ← List.countP_eq_length_filter]
  rfl

theorem length_warnings (t : Tracker) : t.warnings.length = t.warningCount := by
  rw [t.warnings_counted, warnings, ← List.countP_eq_length_filter]
  rfl

/-- Whether an error has been counted. -/
def hasError (t : Tracker) : Bool := 0 < t.errorCount

/-- Lists a diagnostic behind all others and counts it. -/
def report (d : Diagnostic) (t : Tracker) : Tracker where
  filename := t.filename
  diagnostics := t.diagnostics.push d
  errorCount := t.errorCount + if d.severity = .error then 1 else 0
  warningCount := t.warningCount + if d.severity = .warning then 1 else 0
  errors_counted := by rw [Severity.tally_push, t.errors_counted]
  warnings_counted := by rw [Severity.tally_push, t.warnings_counted]

/-- The error at a token's place in this tracker's source. -/
def errorAt (t : Tracker) (tok : Token) (message : Text) : Diagnostic :=
  { severity := .error, pos := { tok.pos with filename := t.filename }, message }

/-- What is said about a token that stands where one of other kinds is required. -/
def expectedMessage (kinds : List Kind) (found : Kind) : Text :=
  text "Expected " ++ (text " or ").intercalate (kinds.map Kind.name) ++ text ". Instead found "
    ++ found.name ++ text "."

/-- Reports an error at a token. -/
def reportError (tok : Token) (message : Text) (t : Tracker) : Tracker :=
  t.report (t.errorAt tok message)

/-- Reports that a token stands where one of other kinds is required. -/
def reportExpected (tok : Token) (kinds : List Kind) (t : Tracker) : Tracker :=
  t.reportError tok (expectedMessage kinds tok.kind)

/-- Reports something that is no error and has no place. -/
def reportWarning (message : Text) (t : Tracker) : Tracker :=
  t.report { severity := .warning, pos := { filename := t.filename }, message }

/-- An error has been counted if and only if one is listed. -/
theorem hasError_eq_any (t : Tracker) :
    t.hasError = t.diagnostics.toList.any fun d => d.severity = .error := by
  rw [hasError, t.errors_counted, Severity.tally, Bool.eq_iff_iff, decide_eq_true_eq, List.countP_pos_iff,
    List.any_eq_true]

theorem hasError_report (d : Diagnostic) (t : Tracker) :
    (t.report d).hasError = (t.hasError || decide (d.severity = .error)) := by
  simp only [hasError_eq_any, report, Array.toList_push, List.any_append, List.any_cons, List.any_nil,
    Bool.or_false]

end Tracker

end MicroLang
