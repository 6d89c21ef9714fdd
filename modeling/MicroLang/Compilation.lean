import MicroLang.Parse
import MicroLang.Listing

/-!
# Compilations

Compiling a source gives its code, its symbols, its findings and its syntax tree, and an error if it did
not compile cleanly.  What a run writes while it goes on, the lines of its diagnostics and the records
of its trace, is no part of the result and has no influence on it.
-/

namespace MicroLang

/-- A diagnostic as it is handed out: a place, a severity by name and a message. -/
structure Finding where
  filename : Text := []
  line : Int := 0
  column : Int := 0
  severity : Text := []
  message : Text := []
deriving DecidableEq, Repr, Inhabited

namespace Finding

def ofDiagnostic (d : Diagnostic) : Finding :=
  { filename := d.pos.filename
    line := d.pos.line
    column := d.pos.column
    severity := d.severity.name
    message := d.message }

/-- The place in front of a finding, as far as it is known. -/
def place (f : Finding) : Text :=
  if 0 < f.line then
    (if f.filename.isEmpty then [] else f.filename ++ MicroLang.text ":")
      ++ Text.ofInt f.line ++ MicroLang.text ":" ++ Text.ofInt f.column ++ MicroLang.text ": "
  else if f.filename.isEmpty then []
  else f.filename ++ MicroLang.text ": "

/-- Display as `place: severity: message`. -/
def text (f : Finding) : Text := f.place ++ f.severity ++ MicroLang.text ": " ++ f.message

def isError (f : Finding) : Bool := f.severity = Severity.error.name

end Finding

/-- Why a source did not compile cleanly. -/
inductive CompileError where
  /-- Scanning stopped at an invalid place. -/
  | lexical (filename : Text) (line column : Int) (message : Text)
  /-- The parse reported errors and ran to its end. -/
  | syntactic (errors : List Finding)
  /-- The source could not be read. -/
  | unreadable (path reason : Text)
deriving DecidableEq, Repr

namespace CompileError

def ofLexical (e : LexicalError) : CompileError :=
  .lexical e.pos.filename e.pos.line e.pos.column e.message

def text : CompileError → Text
  | .lexical filename line column message =>
    Finding.text { filename, line, column, severity := Severity.error.name, message }
  | .syntactic errors => [10].intercalate (errors.map Finding.text)
  | .unreadable path reason => MicroLang.text "cannot open " ++ path ++ MicroLang.text ": " ++ reason

/-- Whether the compilation stopped before the parse could run to its end. -/
def isFatal : CompileError → Bool
  | .lexical .. | .unreadable .. => true
  | .syntactic _ => false

end CompileError

/-- The output of a compilation. -/
structure Output where
  code : List Text := []
  symbols : List Text := []
  findings : List Finding := []
  tree : Tree := Tree.ofRoot Nonterminal.systemGoal.label
deriving DecidableEq, Repr

namespace Output

def ofParsed (p : Parsed) : Output :=
  { code := p.instructions.map Instruction.text
    symbols := p.symbols.names
    findings := p.diagnostics.map Finding.ofDiagnostic
    tree := p.tree }

/-- The findings that are errors. -/
def errors (o : Output) : List Finding := o.findings.filter Finding.isError

/-- The generated code, one instruction per line. -/
def listing (o : Output) : Text :=
  if o.code.isEmpty then [] else [10].intercalate o.code ++ text "\n"

/-- Reads the listing back and verifies it. -/
def verify (o : Output) : Except Listing.MissingOperand (List Listing.Error) :=
  Listing.verifyText o.listing

/-- The leaves of the syntax tree, each followed by a blank. -/
def derivation (o : Output) : Text := o.tree.derivation

/-- The syntax tree as indented JSON. -/
def treeJson (o : Output) : Text := o.tree.json.indented 0

end Output

/-- What a compilation shows while it goes on. -/
structure Config where
  /-- Where the lines of diagnostics go. -/
  diagnostics : Option Writer := none
  trace : Bool := false
  coloured : Bool := false

/-- A finished compilation. -/
structure Compilation where
  output : Output
  error : Option CompileError
  /-- The writer of diagnostics as the run left it. -/
  diagnostics : Option Writer
  /-- Trace records and diagnostics in the order in which they came up. -/
  transcript : List Event

namespace Compilation

/-- Offers the lines of diagnostics to a writer; a line that does not fit is lost.  The lines are offered in
the order of the reports and once the parse is over, so what a writer does with them cannot influence the
parse. -/
def writeDiagnostics (coloured : Bool) (ds : List Diagnostic) (w : Writer) : Writer :=
  ds.foldl (fun w d => (w.write (d.line coloured)).2) w

/-- The error of a compilation with the given parse. -/
def errorOf (p : Parsed) : Option CompileError :=
  match p.error? with
  | none => none
  | some (.lexical e) => some (.ofLexical e)
  | some (.syntactic _) => some (.syntactic (Output.ofParsed p).errors)

/-- Compiles a source.  The file name only labels positions. -/
def ofSource (config : Config) (filename src : Text) : Compilation :=
  let p := Parsed.ofSource filename src { filename } config.trace
  { output := Output.ofParsed p
    error := errorOf p
    diagnostics := config.diagnostics.map (writeDiagnostics config.coloured p.diagnostics)
    transcript := p.state.transcript.toList }

/-- The records of a traced compilation. -/
def trace (c : Compilation) : List Trace :=
  c.transcript.filterMap fun
    | .record r => some r
    | .diagnostic _ => none

/-- The output of a source without a name, or why it does not compile cleanly. -/
def cleanOutput (src : Text) : Except CompileError Output :=
  let c := ofSource {} [] src
  match c.error with
  | some e => .error e
  | none => .ok c.output

end Compilation

end MicroLang
