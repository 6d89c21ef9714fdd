import MicroLang.Listing
import MicroLang.Proofs.Phrase

/-!
# Running programs

Two ways to run a program on a list of numbers as input.  The machine executes instructions one by one;
its memory holds the names declared so far, and an instruction that uses any other name gets it
stuck.  The evaluator runs the phrases of the source themselves, with every variable at zero in the
beginning.  In both a read that finds no input ends the run.
-/

namespace MicroLang

/-- Why a run ended. -/
inductive Stop where
  | halted
  /-- A read found no input. -/
  | starved
  /-- An instruction has operands that it cannot use. -/
  | stuck
  /-- There is no further instruction. -/
  | exhausted
deriving DecidableEq, Repr

/-! ### The machine -/

structure Machine where
  /-- The values of the names declared so far. -/
  memory : Text → Option Int := fun _ => none
  input : List Int
  output : List Int := []

namespace Machine

/-- The value of an operand: a number by itself, a name as far as it is declared. -/
def value? (m : Machine) (t : Text) : Option Int :=
  if OperandShape.isNumber t then some (Text.toNat t) else m.memory t

def set (m : Machine) (x : Text) (v : Int) : Machine :=
  { m with memory := fun y => if y = x then some v else m.memory y }

/-- Puts a value into a declared name. -/
def put (m : Machine) (x : Text) : Option Int → Except (Stop × Machine) Machine
  | some v => if (m.memory x).isSome then .ok (m.set x v) else .error (.stuck, m)
  | none => .error (.stuck, m)

/-- One instruction; the error is the end of the run. -/
def step (m : Machine) (i : Instruction) : Except (Stop × Machine) Machine :=
  match i.opcode, i.operands with
  | .declare, [x, _] => .ok (m.set x 0)
  | .add, [left, right, x] => m.put x (return (← m.value? left) + (← m.value? right))
  | .sub, [left, right, x] => m.put x (return (← m.value? left) - (← m.value? right))
  | .store, [source, x] => m.put x (m.value? source)
  | .read, [x, _] =>
    match m.input with
    | [] => .error (.starved, m)
    | v :: rest => { m with input := rest }.put x (some v)
  | .write, [source, _] =>
    match m.value? source with
    | some v => .ok { m with output := m.output ++ [v] }
    | none => .error (.stuck, m)
  | .halt, [] => .error (.halted, m)
  | _, _ => .error (.stuck, m)

theorem step_read_of_cons {m : Machine} {v : Int} {rest : List Int} (h : m.input = v :: rest)
    (x type : Text) :
    m.step { opcode := .read, operands := [x, type] } = { m with input := rest }.put x (some v) := by
  simp only [step, h]

theorem step_read_of_nil {m : Machine} (h : m.input = []) (x type : Text) :
    m.step { opcode := .read, operands := [x, type] } = .error (.starved, m) := by
  simp only [step, h]

theorem step_write {m : Machine} {source : Text} {v : Int} (h : m.value? source = some v) (type : Text) :
    m.step { opcode := .write, operands := [source, type] } =
      .ok { m with output := m.output ++ [v] } := by
  simp only [step, h]

/-- Instructions one after another. -/
def steps (code : List Instruction) (m : Machine) : Except (Stop × Machine) Machine :=
  code.foldlM step m

/-- Runs code on an input. -/
def run (code : List Instruction) (input : List Int) : Stop × Machine :=
  match steps code { input } with
  | .ok m => (.exhausted, m)
  | .error ended => ended

end Machine

/-! ### The evaluator -/

/-- The state of a program that is evaluated. -/
structure Store where
  values : Text → Int := fun _ => 0
  input : List Int
  output : List Int := []

namespace Store

def assign (s : Store) (x : Text) (v : Int) : Store :=
  { s with values := fun y => if y = x then v else s.values y }

/-- Takes the next input into a variable; without input the evaluation ends as it is. -/
def read (s : Store) (x : Text) : Except Store Store :=
  match s.input with
  | [] => .error s
  | v :: rest => .ok ({ s with input := rest }.assign x v)

def write (s : Store) (v : Int) : Store := { s with output := s.output ++ [v] }

end Store

def AddOp.apply : AddOp → Int → Int → Int
  | .plus, a, b => a + b
  | .minus, a, b => a - b

mutual

def Expr.eval (values : Text → Int) : Expr → Int
  | .single p => p.eval values
  | .chain p op e => op.apply (p.eval values) (e.eval values)

def Primary.eval (values : Text → Int) : Primary → Int
  | .paren e => e.eval values
  | .name x => values x
  | .number digits => Text.toNat digits

end

/-- The items of a series from left to right. -/
def Series.exec {α : Type} (item : Store → α → Except Store Store) (l : Series α) (s : Store) :
    Except Store Store :=
  (l.first :: l.rest).foldlM item s

def Statement.exec (s : Store) : Statement → Except Store Store
  | .assign x e => .ok (s.assign x (e.eval s.values))
  | .read xs => xs.exec Store.read s
  | .write es => es.exec (fun s e => .ok (s.write (e.eval s.values))) s

/-- Evaluates a program on an input. -/
def Program.run (p : Program) (input : List Int) : Stop × Store :=
  match p.statements.exec Statement.exec { input } with
  | .ok s => (.halted, s)
  | .error s => (.starved, s)

end MicroLang
