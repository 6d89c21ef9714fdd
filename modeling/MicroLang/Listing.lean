import MicroLang.Instruction
import MicroLang.Text.Blank
import MicroLang.Text.Quoted

/-!
# Listings

A listing is read back line by line.  A line is accepted when it is the text of an instruction whose
operands have the shape that the opcode asks for; blank lines are skipped, returns at the end of a
line are dropped, and the first line that is not accepted ends the reading.  Verification then
checks what holds across lines: names are declared once and before use, and the only `Halt` is the
last line.
-/

namespace MicroLang

/-- What an operand has to look like. -/
inductive OperandShape where
  /-- The name of a variable or of a temporary. -/
  | name
  /-- A name or a number. -/
  | value
  /-- The word `Integer`. -/
  | integerType
deriving DecidableEq, Repr

namespace OperandShape

/-- A letter followed by letters, digits and underscores. -/
def isIdentifier : Text → Bool
  | [] => false
  | b :: t => Text.isLetter b && t.all fun c => Text.isLetter c || Text.isDigit c || c = 95

/-- The name of a temporary: its number has no leading zero. -/
def isTemporary (t : Text) : Bool :=
  match Text.after? (text "Temp&") t with
  | some (d :: ds) => Text.isDigit d && d ≠ 48 && ds.all Text.isDigit
  | _ => false

/-- One digit or more. -/
def isNumber (t : Text) : Bool := !t.isEmpty && t.all Text.isDigit

def isName (t : Text) : Bool := isTemporary t || isIdentifier t

/-- Whether an operand has the shape. -/
def fits : OperandShape → Text → Bool
  | .name, t => isName t
  | .value, t => isName t || isNumber t
  | .integerType, t => t = Instruction.integerType

end OperandShape

/-- The shapes of the operands that an opcode takes; none for a code without a mnemonic. -/
def Opcode.shapes? : Opcode → Option (List OperandShape)
  | .declare => some [.name, .integerType]
  | .add | .sub => some [.value, .value, .name]
  | .store => some [.value, .name]
  | .read => some [.name, .integerType]
  | .write => some [.value, .integerType]
  | .halt => some []
  | .unnamed _ => none

/-- Whether the operands fit the shapes one by one. -/
def OperandShape.fitAll : List OperandShape → List Text → Bool
  | [], [] => true
  | s :: ss, t :: ts => s.fits t && fitAll ss ts
  | _, _ => false

/-- Whether the operands are those that the opcode takes. -/
def Instruction.isWellFormed (i : Instruction) : Bool :=
  match i.opcode.shapes? with
  | some shapes => OperandShape.fitAll shapes i.operands
  | none => false

namespace Listing

/-- An instruction with the number of its line. -/
structure Line where
  number : Int
  instruction : Instruction
deriving DecidableEq, Repr

/-- What is wrong with a line or with a listing. -/
inductive Problem where
  | missingMnemonic
  | unknownMnemonic (word : Text)
  | malformed (opcode : Opcode)
  | usedBeforeDeclaration (name : Text)
  | declaredTwice (name : Text)
  | earlyHalt
  | noFinalHalt
deriving DecidableEq, Repr

def Problem.message : Problem → Text
  | .missingMnemonic => text "missing mnemonic"
  | .unknownMnemonic word => text "unknown mnemonic " ++ word
  | .malformed opcode => text "malformed " ++ opcode.mnemonic ++ text " instruction"
  | .usedBeforeDeclaration name => name ++ text " used before declaration"
  | .declaredTwice name => name ++ text " declared twice"
  | .earlyHalt => text "Halt before end of listing"
  | .noFinalHalt => text "listing does not end with Halt"

/-- A problem with the number and the text of the line where it lies. -/
structure Error where
  line : Int
  text : Text
  problem : Problem
deriving DecidableEq, Repr

/-- Display as `line number: message: "text"`, without a text when it is empty. -/
def Error.message (e : Error) : Text :=
  MicroLang.text "line " ++ Text.ofInt e.line ++ MicroLang.text ": " ++ e.problem.message
    ++ if e.text.isEmpty then [] else MicroLang.text ": " ++ e.text.quoted

/-- Several problems, one per line. -/
def errorText (es : List Error) : Text := [10].intercalate (es.map Error.message)

/-! ### Reading -/

/-- The pieces between the separators of operands, a comma and a blank. -/
def splitOperands : Text → List Text
  | [] => [[]]
  | 44 :: 32 :: t => [] :: splitOperands t
  | b :: t =>
    match splitOperands t with
    | [] => [[b]]
    | piece :: rest => (b :: piece) :: rest

/-- The operands behind a mnemonic, if something that can be read as operands stands there. -/
def operands? : Text → Option (List Text)
  | [] => some []
  | 32 :: t => some (splitOperands t)
  | _ => none

/-- The instruction of a line. -/
def readLine (t : Text) : Except Problem Instruction :=
  let word := t.takeWhile Text.isLetter
  if word.isEmpty then .error .missingMnemonic
  else match Opcode.ofMnemonic? word with
    | none => .error (.unknownMnemonic word)
    | some opcode =>
      match operands? (t.drop word.length) with
      | none => .error (.malformed opcode)
      | some operands =>
        let i : Instruction := { opcode, operands }
        if i.isWellFormed then .ok i else .error (.malformed opcode)

/-- Reads numbered lines up to the first that is no instruction. -/
def readLines : List (Nat × Text) → List Line × Option Error
  | [] => ([], none)
  | (number, t) :: rest =>
    if t.isBlank then readLines rest
    else match readLine t with
      | .error problem => ([], some { line := number, text := t, problem })
      | .ok instruction =>
        let (lines, e) := readLines rest
        ({ number, instruction } :: lines, e)

/-- The numbered lines of a text, without the returns at their ends. -/
def numberedLines (t : Text) : List (Nat × Text) :=
  (t.split 10).mapIdx fun i line => (i + 1, Text.trimRight (· = 13) line)

/-- The instructions of a listing with their line numbers, and the error that ended the reading. -/
def read (t : Text) : List Line × Option Error := readLines (numberedLines t)

/-! ### Verification -/

/-- A line lacks an operand that verification has to look at. -/
structure MissingOperand where
  line : Line
deriving DecidableEq, Repr

/-- The operands of an instruction that name or hold a value; `none` if one is missing. -/
def usedOperands? (i : Instruction) : Option (List Text) :=
  match i.opcode, i.operands with
  | .add, a :: b :: c :: _ | .sub, a :: b :: c :: _ => some [a, b, c]
  | .add, _ | .sub, _ => none
  | .store, a :: b :: _ => some [a, b]
  | .store, _ => none
  | .read, a :: _ | .write, a :: _ => some [a]
  | .read, _ | .write, _ => none
  | .declare, _ | .halt, _ | .unnamed _, _ => some []

def errorOn (l : Line) (problem : Problem) : Error :=
  { line := l.number, text := l.instruction.text, problem }

/-- The problems of a line, given the names declared before it and whether it is the last, and the
names declared behind it. -/
def checkLine (declared : List Text) (isLast : Bool) (l : Line) :
    Except MissingOperand (List Error × List Text) :=
  match l.instruction.opcode, l.instruction.operands with
  | .declare, [] => .error ⟨l⟩
  | .declare, name :: _ =>
    .ok (if declared.contains name then [errorOn l (.declaredTwice name)] else [], name :: declared)
  | .halt, _ => .ok (if isLast then [] else [errorOn l .earlyHalt], declared)
  | _, _ =>
    match usedOperands? l.instruction with
    | none => .error ⟨l⟩
    | some used =>
      let undeclared := used.filter fun t => !(OperandShape.isNumber t || declared.contains t)
      .ok (undeclared.map fun t => errorOn l (.usedBeforeDeclaration t), declared)

/-- The problems of the lines, given the names declared before them. -/
def checkLines : List Text → List Line → Except MissingOperand (List Error)
  | _, [] => .ok []
  | declared, l :: rest =>
    match checkLine declared rest.isEmpty l with
    | .error e => .error e
    | .ok (here, declared) =>
      match checkLines declared rest with
      | .error e => .error e
      | .ok later => .ok (here ++ later)

/-- The problem of a listing whose last line is not `Halt`. -/
def checkEnd (lines : List Line) : List Error :=
  match lines.getLast? with
  | none => [{ line := 0, text := [], problem := .noFinalHalt }]
  | some l =>
    if l.instruction.opcode = .halt then []
    else [{ line := l.number, text := [], problem := .noFinalHalt }]

/-- All problems of a listing. -/
def verify (lines : List Line) : Except MissingOperand (List Error) :=
  match checkLines [] lines with
  | .error e => .error e
  | .ok problems => .ok (problems ++ checkEnd lines)

/-- Reads a listing back and verifies it.  If it cannot be read, that is its only problem. -/
def verifyText (t : Text) : Except MissingOperand (List Error) :=
  match read t with
  | (_, some e) => .ok [e]
  | (lines, none) => verify lines

end Listing

end MicroLang
