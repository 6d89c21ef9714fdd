import MicroLang.Token.Lookahead
import MicroLang.Grammar
import MicroLang.Tree.Render
import MicroLang.Diagnostic
import MicroLang.Generator

/-!
# Parsing

The parser descends recursively and chooses every alternative by one token of lookahead.  A
production adds its part of the syntax tree and performs the actions of the code generator as soon as
what it recognises is complete, so code is made in the same pass.

A token of the wrong kind is reported and then treated as though it were right.  While the parser is
recovering, that is from a report until the next token of the right kind, further reports are dropped.
A lexical error ends the parse and keeps the tree built so far.

The productions read from a stream.  The steps that read nothing can be made with any source of tokens.

Every recursion of a production is preceded by a token that was taken, so the number of tokens
still to be read bounds the depth.  Productions that recurse carry that bound as their first argument.
-/

namespace MicroLang

/-- What a run shows while it goes on: trace records and diagnostics in one order. -/
inductive Event where
  | record (r : Trace)
  | diagnostic (d : Diagnostic)
deriving DecidableEq, Repr

/-- Why a parse ended early. -/
inductive Abort where
  | lexical (e : LexicalError)
  | stray (e : StrayNode)
  | tooDeep
deriving DecidableEq, Repr

/-- The state of a parse that reads from a source of tokens. -/
structure Parsing (Source : Type) where
  stream : Source
  current : Token := {}
  tree : Tree := Tree.ofRoot Nonterminal.systemGoal.label
  generator : Generator := {}
  tracker : Tracker
  recovering : Bool := false
  /-- Whether productions leave records in the transcript. -/
  tracing : Bool := false
  /-- Whether the actions of the code generator do. -/
  tracingActions : Bool := false
  transcript : Array Event := #[]

/-- The state of a parse of a stream. -/
abbrev ParseState : Type := Parsing Stream

/-- A part of a parse that yields a value, or aborts, and keeps the state in either case. -/
abbrev ProductionOn (Source α : Type) : Type := EStateM Abort (Parsing Source) α

abbrev Production (α : Type) : Type := EStateM Abort ParseState α

namespace Parse

variable {Source : Type}

/-! ### Tracing -/

/-- Adds records to the transcript. -/
def record (rs : List Trace) : ProductionOn Source Unit :=
  modify fun s => { s with transcript := s.transcript ++ rs.map Event.record }

/-- Notes that a production was entered. -/
def enter (production : Text) : Production Unit := do
  let s ← get
  if s.tracing then record [.enter production s.stream.remaining]

/-- Notes how far the derivation has come. -/
def derive (n : Nonterminal) : ProductionOn Source Unit := do
  let s ← get
  if s.tracing then record [.derive n.name s.tree.derivation]

/-! ### Tokens, tree, actions -/

/-- The token ahead. -/
def peek : Production Token := do
  match (← get).stream.peek with
  | .ok tok => return tok
  | .error e => throw (.lexical e)

/-- Takes the token ahead. -/
def take : Production Token := do
  let tok ← peek
  modify fun s => { s with stream := s.stream.rest, current := tok }
  return tok

/-- Reports that a token of another kind was required, unless the parser is recovering. -/
def expected (tok : Token) (kinds : List Kind) : ProductionOn Source Unit :=
  modify fun s =>
    if s.recovering then s
    else
      let d := s.tracker.errorAt tok (Tracker.expectedMessage kinds tok.kind)
      { s with
        recovering := true
        tracker := s.tracker.report d
        transcript := s.transcript.push (.diagnostic d) }

/-- Takes the token ahead, which should be of the given kind. -/
def accept (kind : Kind) : Production Token := do
  enter (text "match(" ++ kind.name ++ text ")")
  let tok ← take
  if tok.kind = kind then modify fun s => { s with recovering := false }
  else expected tok [kind]
  return tok

/-- Appends a node to the tree. -/
def add (parent : Nat) (content : Content) : ProductionOn Source Nat := fun s =>
  match s.tree.add parent content with
  | .ok (tree, id) => .ok id { s with tree }
  | .error e => .error (.stray e) s

/-- Appends a node for a grammar symbol. -/
def addSymbol (parent : Nat) (symbol : GrammarSymbol) : Production Nat :=
  add parent (.label symbol.label)

/-- Appends a node for a nonterminal that will be expanded there. -/
def branch (parent : Nat) (n : Nonterminal) : Production Nat := addSymbol parent (.nonterminal n)

/-- Appends a node for a terminal with a fixed text. -/
def mark (parent : Nat) (kind : Kind) : Production Unit := do
  let _ ← addSymbol parent (.terminal kind)

/-- Appends a node for a token. -/
def leaf (parent : Nat) (tok : Token) : Production Unit := do
  let _ ← add parent (.token tok)

/-- Performs an action of the code generator, muted if there was an error. -/
def act {α : Type} (action : Bool → Generator → Step α) : ProductionOn Source α := do
  let s ← get
  let out := action s.tracker.hasError s.generator
  set { s with generator := out.generator }
  if s.tracingActions then record out.records
  return out.value

/-! ### Productions -/

/-- An identifier, attached to the tree without any action. -/
def acceptIdentifier (node : Nat) : Production Token := do
  enter Nonterminal.ident.name
  let tok ← accept .id
  leaf node tok
  derive .ident
  return tok

/-- An identifier, declared on its first appearance. -/
def ident (node : Nat) : Production Operand := do
  let tok ← acceptIdentifier node
  act fun muted => Generator.identifier muted tok.literal

/-- An additive operator. -/
def addOp (node : Nat) : Production Opcode := do
  enter Nonterminal.addOp.name
  let tok ← peek
  if tok.kind.isAddOp then
    leaf node tok
    derive .addOp
    let op ← accept tok.kind
    act fun _ => Generator.operation op.literal
  else
    expected tok [.plusOp, .minusOp]
    return .add

/-- A parenthesised expression, an identifier or a number. -/
def primary (expression : Nat → Production Operand) (node : Nat) : Production Operand := do
  enter Nonterminal.primary.name
  let tok ← peek
  match tok.kind with
  | .lParen =>
    mark node .lParen
    let inner ← branch node .expression
    mark node .rParen
    derive .primary
    let _ ← accept .lParen
    let value ← expression inner
    let _ ← accept .rParen
    return value
  | .id =>
    let name ← branch node .ident
    derive .primary
    ident name
  | .intLiteral =>
    leaf node tok
    derive .primary
    let number ← accept .intLiteral
    act fun _ => Generator.literal number.literal
  | _ =>
    expected tok [.lParen, .id, .intLiteral]
    return {}

/-- A primary, or a primary, an operator and an expression. -/
def expression : Nat → Nat → Production Operand
  | 0, _ => throw .tooDeep
  | bound + 1, node => do
    enter Nonterminal.expression.name
    let first ← branch node .primary
    derive .expression
    let left ← primary (expression bound) first
    if (← peek).kind.isAddOp then
      let operator ← branch node .addOp
      let rest ← branch node .expression
      derive .expression
      let op ← addOp operator
      let right ← expression bound rest
      act fun muted => Generator.combine muted left op right
    else return left

/-- Identifiers, each read as soon as it is recognised. -/
def idList : Nat → Nat → Production Unit
  | 0, _ => throw .tooDeep
  | bound + 1, node => do
    enter Nonterminal.idList.name
    let name ← branch node .ident
    derive .idList
    let operand ← ident name
    act fun muted => Generator.readInto muted operand
    if (← peek).kind = .comma then
      mark node .comma
      let rest ← branch node .idList
      derive .idList
      let _ ← accept .comma
      idList bound rest

/-- Expressions, each written as soon as it is recognised. -/
def exprList : Nat → Nat → Production Unit
  | 0, _ => throw .tooDeep
  | bound + 1, node => do
    enter Nonterminal.exprList.name
    let value ← branch node .expression
    derive .exprList
    let operand ← expression (bound + 1) value
    act fun muted => Generator.writeExpression muted operand
    if (← peek).kind = .comma then
      mark node .comma
      let rest ← branch node .exprList
      derive .exprList
      let _ ← accept .comma
      exprList bound rest

/-- An assignment, a read statement or a write statement.  The target of an assignment is declared
once the value that it receives is computed. -/
def statement (bound : Nat) (node : Nat) : Production Unit := do
  enter Nonterminal.statement.name
  let tok ← peek
  match tok.kind with
  | .id =>
    let name ← branch node .ident
    mark node .assignOp
    let value ← branch node .expression
    mark node .semiColon
    derive .statement
    let target ← acceptIdentifier name
    let _ ← accept .assignOp
    let source ← expression bound value
    let destination ← act fun muted => Generator.identifier muted target.literal
    act fun muted => Generator.assign muted source destination
    let _ ← accept .semiColon
  | .readSym =>
    mark node .readSym
    mark node .lParen
    let list ← branch node .idList
    mark node .rParen
    mark node .semiColon
    derive .statement
    let _ ← accept .readSym
    let _ ← accept .lParen
    idList bound list
    let _ ← accept .rParen
    let _ ← accept .semiColon
  | .writeSym =>
    mark node .writeSym
    mark node .lParen
    let list ← branch node .exprList
    mark node .rParen
    mark node .semiColon
    derive .statement
    let _ ← accept .writeSym
    let _ ← accept .lParen
    exprList bound list
    let _ ← accept .rParen
    let _ ← accept .semiColon
  | _ => expected tok [.id, .readSym, .writeSym]

/-- One statement or more. -/
def statementList : Nat → Nat → Production Unit
  | 0, _ => throw .tooDeep
  | bound + 1, node => do
    enter Nonterminal.statementList.name
    let first ← branch node .statement
    derive .statementList
    statement (bound + 1) first
    if (← peek).kind.isStatementStart then
      let rest ← branch node .statementList
      derive .statementList
      statementList bound rest

/-- Statements between `begin` and `end`. -/
def program (bound : Nat) (node : Nat) : Production Unit := do
  enter Nonterminal.program.name
  mark node .beginSym
  let list ← branch node .statementList
  mark node .endSym
  derive .program
  act fun _ => Generator.start
  let _ ← accept .beginSym
  statementList bound list
  let _ ← accept .endSym

/-- A program and the end of the source. -/
def systemGoal (bound : Nat) : Production Unit := do
  enter Nonterminal.systemGoal.name
  let body ← branch Tree.root .program
  mark Tree.root .eofSym
  derive .systemGoal
  program bound body
  let _ ← accept .eofSym
  act fun muted => Generator.finish muted

end Parse

/-! ### Whole parses -/

/-- The state that a parse ended in, and why it ended early if it did. -/
structure Parsed where
  state : ParseState
  abort : Option Abort

namespace Parsed

/-- Parses what a state still has to read. -/
def ofState (s : ParseState) : Parsed :=
  match (Parse.systemGoal (s.stream.tokens.length + 1)).run s with
  | .ok () state => { state, abort := none }
  | .error abort state => { state, abort := some abort }

/-- Parses a source with a tracker that may already hold diagnostics. -/
def ofSource (filename src : Text) (tracker : Tracker) (tracing : Bool) : Parsed :=
  ofState
    { stream := Stream.ofSource filename src, tracker, tracing, tracingActions := tracing }

/-- Parses from where a reader stands.  A trace of it shows productions and no actions. -/
def ofLookahead (l : Lookahead) (tracker : Tracker) (tracing : Bool) : Parsed :=
  ofState { stream := l.unread, current := l.current, tracker, tracing }

/-- The lexical error that ended the parse, if one did. -/
def lexicalError? (p : Parsed) : Option LexicalError :=
  match p.abort with
  | some (.lexical e) => some e
  | _ => none

def tree (p : Parsed) : Tree := p.state.tree

def symbols (p : Parsed) : SymbolTable := p.state.generator.symbols

def instructions (p : Parsed) : List Instruction := p.state.generator.instructions

/-- All diagnostics, those that the tracker held before included. -/
def diagnostics (p : Parsed) : List Diagnostic := p.state.tracker.diagnostics.toList

/-- The records of a traced run, in order. -/
def trace (p : Parsed) : List Trace :=
  p.state.transcript.toList.filterMap fun
    | .record r => some r
    | .diagnostic _ => none

end Parsed

/-- How a parse failed. -/
inductive ParseError where
  | lexical (e : LexicalError)
  | syntactic (errors : List Diagnostic)
deriving DecidableEq, Repr

def ParseError.text : ParseError → Text
  | .lexical e => e.text
  | .syntactic errors => Diagnostic.listText errors

/-- The error of a parse: the lexical error that ended it, or all errors of its tracker. -/
def Parsed.error? (p : Parsed) : Option ParseError :=
  match p.lexicalError? with
  | some e => some (.lexical e)
  | none => if p.state.tracker.hasError then some (.syntactic p.state.tracker.errors) else none

end MicroLang
