import MicroLang.Compilation
import MicroLang.Flags
import MicroLang.Tree.Render

/-!
# The command

The command compiles one file.  It reads its flags, loads and overrides the settings, compiles, shows the
syntax tree if asked to, and writes the listing of a clean compilation to standard output or to a file.

Running it is a function of the arguments, the storage and the surroundings.  A run does not touch the
storage itself: the file that it wants written is part of its result, and is asked for only when the
storage says that it can be created.
-/

namespace MicroLang

/-- Why the command failed. -/
inductive Failure where
  | flags (e : FlagError)
  /-- The number of arguments given, which is not one. -/
  | arguments (count : Nat)
  | settings (e : SettingsError)
  | compile (e : CompileError)
  | verification (errors : List Listing.Error)
  /-- The verification broke down at a line that lacks an operand. -/
  | breakdown (e : Listing.MissingOperand)
  | output (e : FileError)
  | write (e : WriteError)
  /-- The diagnostics on standard error have said everything. -/
  | reported
  /-- Anything else, in its own words. -/
  | other (reason : Text)
deriving DecidableEq, Repr

namespace Failure

/-- What is said about a failure.  A lexical error is shown without its severity. -/
def message : Failure → Text
  | .flags e => e.message
  | .arguments count => text "accepts 1 arg(s), received " ++ Text.ofNat count
  | .settings e => e.message
  | .compile (.lexical filename line column message) =>
    (if filename.isEmpty then [] else filename ++ text ":")
      ++ Text.ofInt line ++ text ":" ++ Text.ofInt column ++ text ": " ++ message
  | .compile e => e.text
  | .verification errors => text "listing verification failed: " ++ Listing.errorText errors
  | .breakdown e => text "an operand is missing on line " ++ Text.ofInt e.line.number
  | .output e => text "cannot create output: " ++ e.message
  | .write e => e.message
  | .reported => text "compilation failed"
  | .other reason => reason

/-- The line on standard error. -/
def line : Failure → Text
  | .reported => []
  | f => text "microc: error: " ++ f.message ++ text "\n"

end Failure

/-- What the command knows about its surroundings. -/
structure Surroundings where
  storage : Storage
  /-- Whether colour is switched off for every program. -/
  noColor : Bool := false
  /-- Whether standard error is a terminal. -/
  isTerminal : Bool := false
  /-- The time of the first, the second, the third event that a compilation shows, and so on, as it stands in
  the log.  Where it is `none` the log shows no time. -/
  clock : Nat → Option Text := fun _ => none

/-- What a run has come to. -/
structure Run where
  stdout : Writer
  stderr : Text := []
  /-- The name and the content of the file to be written. -/
  file : Option (Text × Text) := none
  failure : Option Failure := none

namespace Run

/-- The exit code.  A run that breaks down is told from one that fails. -/
def exitCode (r : Run) : Nat :=
  match r.failure with
  | none => 0
  | some (.breakdown _) => 2
  | some _ => 1

theorem exitCode_eq_zero_iff (r : Run) : r.exitCode = 0 ↔ r.failure = none := by
  unfold exitCode
  split
  · next h => exact ⟨fun _ => h, fun _ => rfl⟩
  · next h => exact ⟨fun hcode => absurd hcode (by decide), fun hnone => by cases h.symm.trans hnone⟩
  · next h => exact ⟨fun hcode => absurd hcode (by decide), fun hnone => by cases h.symm.trans hnone⟩

/-- Everything on standard error, with the line of the failure at its end. -/
def allErrors (r : Run) : Text :=
  r.stderr ++ match r.failure with
    | some f => f.line
    | none => []

end Run

namespace Command

def version : Text := text "0.1.0"

def versionText : Text := text "microc version " ++ version ++ text "\n"

def helpText : Text :=
  text "microc compiles a Micro source file in a single pass. Syntax errors
are reported on stderr and parsing continues; the generated code is written
only when the file compiles cleanly.

Usage:
  microc [flags] <file>

Flags:
      --ast format      also print the syntax tree as format (text or json)
      --color string    colour diagnostics: auto, always or never (default \"auto\")
      --config string   read settings from a TOML or YAML file
  -h, --help            help for microc
      --no-header       omit the Complete Code header
  -o, --output file     write the listing to file instead of stdout
      --trace           log productions, actions and emitted code to stderr
      --verify          check the generated listing before writing it
  -v, --version         version for microc
"

def header : Text := text "Complete Code\n-------------\n"

/-- Whether diagnostics are coloured.  The mode that decides by itself looks for a terminal. -/
def isColoured (mode : Text) (around : Surroundings) : Bool :=
  if mode = text "always" then true
  else if mode = text "never" then false
  else !around.noColor && around.isTerminal

/-- The line of something that came up in a compilation at the given time.  A diagnostic does not show it. -/
def eventLine (coloured : Bool) (time : Option Text) : Event → Text
  | .record r => r.line time
  | .diagnostic d => d.line coloured

/-- The lines of all that came up in a compilation. -/
def eventLines (coloured : Bool) (clock : Nat → Option Text) (events : List Event) : Text :=
  (events.mapIdx fun n => eventLine coloured (clock n)).flatten

/-- The writes that show the syntax tree. -/
def treePieces (s : Settings) (o : Output) : List Text :=
  if s.ast.isEmpty then []
  else if s.ast = text "json" then [o.treeJson ++ text "\n"]
  else o.tree.dumpPieces

/-- The writes that make up the listing. -/
def listingPieces (s : Settings) (o : Output) : List Text :=
  if s.noHeader then [o.listing] else [header, o.listing]

/-- What verification finds, if it is asked for. -/
def verificationErrors (s : Settings) (o : Output) : Except Listing.MissingOperand (List Listing.Error) :=
  if s.verify then o.verify else .ok []

/-- Writes the listing of a clean compilation. -/
def deliver (s : Settings) (storage : Storage) (o : Output) (stdout : Writer) (stderr : Text) : Run :=
  if s.output.isEmpty then
    match stdout.writeAll (listingPieces s o) with
    | (.error e, stdout) => { stdout, stderr, failure := some (.write e) }
    | (.ok (), stdout) => { stdout, stderr }
  else
    match storage.create s.output with
    | .error e => { stdout, stderr, failure := some (.output e) }
    | .ok () => { stdout, stderr, file := some (s.output, (listingPieces s o).flatten) }

/-- What follows a compilation that came to its end. -/
def conclude (s : Settings) (storage : Storage) (o : Output) (isClean : Bool) (stdout : Writer)
    (stderr : Text) : Run :=
  match stdout.writeAll (treePieces s o) with
  | (.error e, stdout) => { stdout, stderr, failure := some (.write e) }
  | (.ok (), stdout) =>
    if !isClean then { stdout, stderr, failure := some .reported }
    else match verificationErrors s o with
      | .error e => { stdout, stderr, failure := some (.breakdown e) }
      | .ok [] => deliver s storage o stdout stderr
      | .ok errors => { stdout, stderr, failure := some (.verification errors) }

/-- Compiles the file with the given name under valid settings. -/
def compile (s : Settings) (around : Surroundings) (path : Text) (stdout : Writer) : Run :=
  match around.storage.read path with
  | .error e => { stdout, failure := some (.compile (.unreadable path e.message)) }
  | .ok src =>
    let coloured := isColoured s.color around
    let c := Compilation.ofSource { trace := s.trace, coloured } path src
    let stderr := eventLines coloured around.clock c.transcript
    match c.error with
    | none => conclude s around.storage c.output true stdout stderr
    | some e =>
      if e.isFatal then { stdout, stderr, failure := some (.compile e) }
      else conclude s around.storage c.output false stdout stderr

/-- The settings that the flags ask for. -/
def settings (flags : Flags) (storage : Storage) : Except SettingsError Settings :=
  let loaded := if flags.config.isEmpty then .ok {} else Settings.load storage flags.config {}
  loaded.bind fun s => (flags.override s).validate

/-- Shows the help.  That it cannot be written is mentioned and no failure. -/
def showHelp (stdout : Writer) : Run :=
  match stdout.write helpText with
  | (.error e, stdout) => { stdout, stderr := e.message ++ text "\n" }
  | (.ok (), stdout) => { stdout }

def showVersion (stdout : Writer) : Run :=
  match stdout.write versionText with
  | (.error e, stdout) => { stdout, failure := some (.write e) }
  | (.ok (), stdout) => { stdout }

/-- Runs the command. -/
def run (arguments : List Text) (around : Surroundings) (stdout : Writer) : Run :=
  match Flags.ofArguments arguments with
  | .error e => { stdout, failure := some (.flags e) }
  | .ok flags =>
    if flags.help then showHelp stdout
    else if flags.version then showVersion stdout
    else match flags.arguments with
      | [path] =>
        match settings flags around.storage with
        | .error e => { stdout, failure := some (.settings e) }
        | .ok s => compile s around path stdout
      | arguments => { stdout, failure := some (.arguments arguments.length) }

/-- The names of the files that a command line may read. -/
def inputs (arguments : List Text) : List Text :=
  match Flags.ofArguments arguments with
  | .error _ => []
  | .ok flags => if flags.config.isEmpty then flags.arguments else flags.config :: flags.arguments

end Command

end MicroLang
