import MicroLang.Instruction
import MicroLang.Symbol
import MicroLang.Trace

/-!
# Code generation

The generator keeps the symbol table, the instructions emitted so far and the number of temporaries.
Every action of the language is a function on it.  While the generator is muted, which it is once the
compilation has an error, actions emit nothing, but they keep the symbol table and the temporaries
and return the same results as ever.
-/

namespace MicroLang

/-- What an operand names. -/
inductive OperandKind where
  | identifier
  | literal
  | temporary
  | unnamed (code : UInt8)
deriving DecidableEq, Repr

namespace OperandKind

/-- The operand kind with the given code. -/
def ofCode (code : UInt8) : OperandKind :=
  if code = 0 then .identifier else if code = 1 then .literal else if code = 2 then .temporary
  else .unnamed code

def name : OperandKind → Text
  | .identifier => text "Id"
  | .literal => text "Literal"
  | .temporary => text "Temporary"
  | .unnamed code => text "ExprKind(" ++ Text.ofNat code.toNat ++ text ")"

end OperandKind

/-- The result of an expression: the text that stands for its value in instructions. -/
structure Operand where
  kind : OperandKind := .identifier
  value : Text := []
deriving DecidableEq, Repr, Inhabited

structure Generator where
  symbols : SymbolTable := .empty
  program : Array Instruction := #[]
  temporaries : Nat := 0
deriving DecidableEq, Repr

/-- The outcome of an action: its result, the generator behind it and what it adds to a trace. -/
structure Step (α : Type) where
  value : α
  generator : Generator
  records : List Trace := []

namespace Generator

/-- All instructions emitted so far. -/
def instructions (g : Generator) : List Instruction := g.program.toList

/-- Emits an instruction, unless muted. -/
def emit (muted : Bool) (i : Instruction) (g : Generator) : Step Unit :=
  if muted then { value := (), generator := g }
  else
    { value := ()
      generator := { g with program := g.program.push i }
      records := [.emit i.text] }

/-- Declares a name on its first appearance. -/
def declare (muted : Bool) (name : Text) (kind : SymbolKind) (g : Generator) : Step Unit :=
  match g.symbols.enter name kind with
  | (_, _, false) => { value := (), generator := g }
  | (symbols, _, true) =>
    emit muted { opcode := .declare, operands := [name, Instruction.integerType] } { g with symbols }

/-- Before the program body.  Nothing is needed there. -/
def start (g : Generator) : Step Unit :=
  { value := (), generator := g, records := [.action (text "start")] }

/-- After the program body. -/
def finish (muted : Bool) (g : Generator) : Step Unit :=
  let out := emit muted { opcode := .halt } g
  { out with records := .action (text "finish") :: out.records }

/-- Declares a variable on its first appearance. -/
def enterVariable (muted : Bool) (name : Text) (g : Generator) : Step Unit :=
  let out := declare muted name .variable g
  { out with records := .action (text "checkId") :: out.records }

/-- Declares an identifier on its first appearance and makes it an operand. -/
def identifier (muted : Bool) (name : Text) (g : Generator) : Step Operand :=
  let out := declare muted name .variable g
  { value := { kind := .identifier, value := name }
    generator := out.generator
    records := .action (text "processId") :: out.records }

/-- Makes a number an operand.  Numbers are not declared. -/
def literal (literal : Text) (g : Generator) : Step Operand :=
  { value := { kind := .literal, value := literal }
    generator := g
    records := [.action (text "processLiteral")] }

/-- The name of the `n`-th temporary.  No identifier contains an ampersand. -/
def temporaryName (n : Nat) : Text := text "Temp&" ++ Text.ofNat n

/-- Allocates and declares the next temporary. -/
def newTemporary (muted : Bool) (g : Generator) : Step Text :=
  let name := temporaryName (g.temporaries + 1)
  let out := declare muted name .temporary { g with temporaries := g.temporaries + 1 }
  { value := name
    generator := out.generator
    records := .action (text "getTemp") :: out.records }

/-- The opcode of an additive operator: `+` adds and anything else subtracts. -/
def operation (operator : Text) (g : Generator) : Step Opcode :=
  { value := if operator = text "+" then .add else .sub
    generator := g
    records := [.action (text "processOperator")] }

/-- Computes an operation into a new temporary. -/
def combine (muted : Bool) (left : Operand) (op : Opcode) (right : Operand) (g : Generator) :
    Step Operand :=
  let temp := newTemporary muted g
  let out := emit muted { opcode := op, operands := [left.value, right.value, temp.value] }
    temp.generator
  { value := { kind := .temporary, value := temp.value }
    generator := out.generator
    records := .action (text "generateInfix") :: (temp.records ++ out.records) }

/-- Copies a value into a variable. -/
def assign (muted : Bool) (source destination : Operand) (g : Generator) : Step Unit :=
  let out := emit muted { opcode := .store, operands := [source.value, destination.value] } g
  { out with records := .action (text "assign") :: out.records }

/-- Reads the next input into a variable. -/
def readInto (muted : Bool) (operand : Operand) (g : Generator) : Step Unit :=
  let out := emit muted { opcode := .read, operands := [operand.value, Instruction.integerType] } g
  { out with records := .action (text "readId") :: out.records }

/-- Writes a value to the output. -/
def writeExpression (muted : Bool) (operand : Operand) (g : Generator) : Step Unit :=
  let out := emit muted { opcode := .write, operands := [operand.value, Instruction.integerType] } g
  { out with records := .action (text "writeExpression") :: out.records }

end Generator

end MicroLang
