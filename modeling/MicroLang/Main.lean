import MicroLang.Command

/-!
# The executable

Reads the files that the command line names, runs the command on them, prints what it wrote and creates
the file that it asks for.
-/

namespace MicroLang.Main

def problemOf : IO.Error → FileProblem
  | .noFileOrDirectory .. => .notFound
  | .inappropriateType .. => .isADirectory
  | .invalidArgument .. => .invalidName
  | e => .other (text (toString e))

/-- The content of a file, or why it cannot be had. -/
def readFile (name : Text) : IO (Except FileError Text) := do
  match String.fromUTF8? ⟨name.toArray⟩ with
  | none => return .error ⟨.opening, name, .notFound⟩
  | some path =>
    try
      let bytes ← IO.FS.readBinFile path
      return .ok bytes.toList
    catch e =>
      match problemOf e with
      | .isADirectory => return .error ⟨.reading, name, .isADirectory⟩
      | problem => return .error ⟨.opening, name, problem⟩

/-- Creates a file, or tells why it cannot be created. -/
def writeFile (name content : Text) : IO (Option FileError) := do
  match String.fromUTF8? ⟨name.toArray⟩ with
  | none => return some ⟨.opening, name, .notFound⟩
  | some path =>
    try
      IO.FS.writeBinFile path ⟨content.toArray⟩
      return none
    catch e => return some ⟨.opening, name, problemOf e⟩

/-- A storage of files that were read before.  Whether a file can be created turns out when it
is. -/
def storageOf (contents : List (Text × Except FileError Text)) : Storage where
  read name :=
    match contents.find? fun c => c.1 = name with
    | some (_, content) => content
    | none => .error ⟨.opening, name, .notFound⟩
  create _ := .ok ()

end MicroLang.Main

open MicroLang MicroLang.Main in
def main (args : List String) : IO UInt32 := do
  let arguments := args.map text
  let contents ← (Command.inputs arguments).mapM fun name => return (name, ← readFile name)
  let stdout ← IO.getStdout
  let stderr ← IO.getStderr
  let around : Surroundings :=
    { storage := storageOf contents
      noColor := ((← IO.getEnv "NO_COLOR").getD "") ≠ ""
      isTerminal := ← stderr.isTty }
  let run := Command.run arguments around {}
  stdout.write ⟨run.stdout.written.toArray⟩
  stderr.write ⟨run.allErrors.toArray⟩
  match run.file with
  | none => return UInt32.ofNat run.exitCode
  | some (name, content) =>
    match ← writeFile name content with
    | none => return UInt32.ofNat run.exitCode
    | some e =>
      stderr.write ⟨(Failure.output e).line.toArray⟩
      return 1
