import MicroLang.Toml.Scalar

/-!
# Tables of TOML

The tables of a document as they stand while it is read.  Every table has a number, and a slot says what
a key of a table holds.  An array of tables is held by its newest element, since keys and headers can
reach no other.  Tables that only stand on the way to another one are implicit; an implicit table
may be defined once more.  A key that was last defined as an array may be defined again at will.
-/

namespace MicroLang.Toml

/-- The parts of a key from the outermost table on. -/
abbrev Path : Type := List Text

/-- What a key of a table holds. -/
inductive Slot where
  | scalar (s : Scalar)
  | array
  | table (number : Nat)
  /-- An array of tables with the number of its newest element. -/
  | tables (newest : Nat)
deriving DecidableEq, Repr

/-- The table whose keys can be reached through a slot. -/
def Slot.table? : Slot → Option Nat
  | .table number => some number
  | .tables newest => some newest
  | _ => none

/-- The tables of a document.  The outermost one has the number zero. -/
structure Tables where
  slots : List ((Nat × Text) × Slot) := []
  fresh : Nat := 1
  implicit : List Path := []
  /-- The paths that were last defined as arrays of values. -/
  arrays : List Path := []
  /-- Every key and every header, newest first. -/
  order : List Path := []
deriving DecidableEq, Repr

namespace Tables

def slot? (d : Tables) (table : Nat) (key : Text) : Option Slot := d.slots.lookup (table, key)

/-- Lets a key hold something, in its old place if it has one. -/
def put (d : Tables) (table : Nat) (key : Text) (s : Slot) : Tables :=
  { d with
    slots := if (d.slot? table key).isSome
      then d.slots.map fun e => if e.1 = (table, key) then (e.1, s) else e
      else d.slots ++ [((table, key), s)] }

/-- Lets a key hold a new table. -/
def putTable (d : Tables) (table : Nat) (key : Text) (slotOf : Nat → Slot) : Tables :=
  { d.put table key (slotOf d.fresh) with fresh := d.fresh + 1 }

def markImplicit (d : Tables) (path : Path) : Tables := { d with implicit := path :: d.implicit }

def unmarkImplicit (d : Tables) (path : Path) : Tables :=
  { d with implicit := d.implicit.filter (· ≠ path) }

/-- Records whether a path is defined as an array of values. -/
def markArray (d : Tables) (path : Path) (isArray : Bool) : Tables :=
  let others := d.arrays.filter (· ≠ path)
  { d with arrays := if isArray then path :: others else others }

/-- The path that the kind of a value is recorded for.  The empty key has none of its own. -/
def kindPath (context : Path) (key : Text) : Path :=
  if !key.isEmpty then context ++ [key] else if context.isEmpty then [[]] else context

def listed (d : Tables) (path : Path) : Tables := { d with order := path :: d.order }

/-- The number of the table at a path, which has to exist. -/
def tableAt? (d : Tables) : Path → Option Nat
  | path => path.foldlM (fun table key => (d.slot? table key).bind Slot.table?) 0

/-- Defines a key of the table at a path.  A key that exists may be defined again if it was an array,
and is left as it is if it was implicit; any other is an error. -/
def define? (d : Tables) (context : Path) (key : Text) (write : Tables → Nat → Tables) :
    Option Tables :=
  match d.tableAt? context with
  | none => none
  | some table =>
    let path := context ++ [key]
    if (d.slot? table key).isNone then some (write d table)
    else if d.arrays.contains path then some (write (d.unmarkImplicit path) table)
    else if d.implicit.contains path then some (d.unmarkImplicit path)
    else none

/-- Makes the tables on the way to a path, implicitly, and returns the number of the last. -/
def parents? (d : Tables) : Nat → Path → Path → Option (Tables × Nat)
  | table, _, [] => some (d, table)
  | table, before, key :: rest =>
    let path := before ++ [key]
    let d := if (d.slot? table key).isSome then d
      else (d.markImplicit path).putTable table key .table
    match (d.slot? table key).bind Slot.table? with
    | none => none
    | some table => parents? d table path rest

/-- Opens the table at a path, or a new element of the array of tables there. -/
def openTable? (d : Tables) (path : Path) (isElement : Bool) : Option Tables :=
  let context := path.dropLast
  let key := path.getLastD []
  match d.parents? 0 [] context with
  | none => none
  | some (d, table) =>
    if isElement then
      match d.slot? table key with
      | none => some (d.putTable table key .tables)
      | some (.tables _) => some (d.putTable table key .tables)
      | some _ => none
    else d.define? context key fun d table => d.putTable table key .table

/-- Opens the tables that the parts of a dotted key name, one in the other. -/
def openDotted? (d : Tables) (context : Path) : List Text → Option (Tables × Path)
  | [] => some (d, context)
  | key :: rest =>
    match (d.markImplicit (context ++ [key])).openTable? (context ++ [key]) false with
    | none => none
    | some d => openDotted? d (context ++ [key]) rest

end Tables

end MicroLang.Toml
