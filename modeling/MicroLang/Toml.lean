import MicroLang.Text.Quoted
import MicroLang.Toml.Tables

/-!
# Reading TOML

A reader for TOML documents that keeps what a flat set of options needs: the values of the outermost
table, and the full path of every key and of every header in the order of the document.  A document
that is malformed, or that defines a key twice where this is not allowed, is not read at all.
-/

namespace MicroLang.Toml

/-- What an inline table holds, as the paths of its keys; the flag says whether a key holds a
table. -/
abbrev Fields : Type := List (Path × Bool)

/-- A value as its key receives it. -/
inductive Value where
  | scalar (s : Scalar)
  | array
  | table (fields : Fields)
deriving DecidableEq, Repr

def Value.isArray : Value → Bool
  | .array => true
  | _ => false

/-- The fields with a key set to a value.  The parts in front of the key must not hold anything but
tables. -/
def Fields.set? (fields : Fields) (parents : Path) (key : Text) (v : Value) : Option Fields :=
  let ways := (List.range parents.length).map fun n => parents.take (n + 1)
  if ways.any fun way => fields.lookup way = some false then none
  else
    let path := parents ++ [key]
    let kept := fields.filter fun f => !path.isPrefixOf f.1
    let opened := (ways.filter fun way => (kept.lookup way).isNone).map fun way => (way, true)
    let below : Fields := match v with
      | .table inner => (path, true) :: inner.map fun f => (path ++ f.1, f.2)
      | _ => [(path, false)]
    some (kept ++ opened ++ below)

/-- Lets a key hold a value.  The table of an inline table is already there. -/
def store? (d : Tables) (context : Path) (key : Text) (v : Value) : Option Tables :=
  let defined := match v with
    | .scalar s => d.define? context key fun d table => d.put table key (.scalar s)
    | .array => d.define? context key fun d table => d.put table key .array
    | .table _ => d.define? context key fun d _ => d
  defined.map fun d => d.markArray (Tables.kindPath context key) v.isArray

/-- The reader of a value for a key in a context; the flag says whether the value is an element of an
array. -/
abbrev ValueReader : Type := Path → Text → Bool → Tables → Text → Option (Value × Tables × Text)

/-- A key with its value, from the key on: the parts of the key, the value, and what follows. -/
def pair (value : ValueReader) (context : Path) (d : Tables) (t : Text) :
    Option (List Text × Value × Tables × Text) :=
  match key (t.length + 1) t with
  | some (parts, 61 :: t) =>
    let name := parts.getLastD []
    match d.openDotted? context parts.dropLast with
    | none => none
    | some (d, inner) =>
      match value inner name false (d.listed (inner ++ [name])) (skipBlanks t) with
      | none => none
      | some (v, d, t) => (store? d inner name v).map fun d => (parts, v, d, t)
  | _ => none

/-- A value.  The first argument bounds the nesting. -/
def value : Nat → ValueReader
  | 0, _, _, _, _, _ => none
  | bound + 1, context, name, isElement, d, t =>
    match t with
    | 91 :: t =>
      let d := d.markArray (Tables.kindPath context name) true
      (elements (value bound) context name (t.length + 1) d t).map fun (d, t) => (.array, d, t)
    | 123 :: t =>
      let path := context ++ [name]
      match (d.markImplicit path).openTable? path isElement with
      | none => none
      | some d =>
        match skipBlanks t with
        | 125 :: t => some (.table [], d, t)
        | t =>
          (fields (value bound) path (t.length + 1) [] d t).map fun (fs, d, t) => (.table fs, d, t)
    | t => (scalar t).map fun (s, t) => (.scalar s, d, t)
where
  /-- The elements of an array and its closing bracket. -/
  elements (value : ValueReader) (context : Path) (name : Text) :
      Nat → Tables → Text → Option (Tables × Text)
    | 0, _, _ => none
    | bound + 1, d, t =>
      match skipLines t.length t with
      | 93 :: t => some (d, t)
      | t =>
        match value context name true d t with
        | none => none
        | some (_, d, rest) =>
          match skipLines rest.length rest with
          | 93 :: t => some (d, t)
          | 44 :: t => elements value context name bound d t
          | _ => none
  /-- The fields of an inline table and its closing brace. -/
  fields (value : ValueReader) (path : Path) :
      Nat → Fields → Tables → Text → Option (Fields × Tables × Text)
    | 0, _, _, _ => none
    | bound + 1, before, d, t =>
      match pair value path d t with
      | none => none
      | some (parts, v, d, rest) =>
        match before.set? parts.dropLast (parts.getLastD []) v, skipBlanks rest with
        | some all, 125 :: t => some (all, d, t)
        | some all, 44 :: t => fields value path bound all d t
        | _, _ => none

/-! ### Documents -/

/-- The path of a header, from behind its opening bracket on, and whether it starts an element of an
array of tables. -/
def header (t : Text) : Option ((Path × Bool) × Text) :=
  let (t, isElement) := match t with
    | 91 :: t => (t, true)
    | t => (t, false)
  match key (t.length + 1) t with
  | none => none
  | some (path, rest) =>
    match isElement, skipBlanks rest with
    | false, 93 :: t => some ((path, false), t)
    | true, 93 :: 93 :: t => some ((path, true), t)
    | _, _ => none

/-- Reads a document from a place on, in the table that is open there.  The first argument bounds the
number of keys and headers. -/
def readFrom : Nat → Path → Tables → Text → Option Tables
  | 0, _, _, _ => none
  | bound + 1, context, d, t =>
    match skipLines (t.length + 1) t with
    | [] => some d
    | 91 :: t =>
      match header t with
      | none => none
      | some ((path, isElement), rest) =>
        match d.openTable? path isElement, lineEnd? rest with
        | some d, some rest => readFrom bound path ((d.markArray path false).listed path) rest
        | _, _ => none
    | t =>
      match pair (value (t.length + 1)) context d t with
      | none => none
      | some (_, _, d, rest) => (lineEnd? rest).bind (readFrom bound context d)

/-- What a document says: the values of its outermost table, and the paths of all keys and headers in
order. -/
structure Contents where
  values : List (Text × Slot)
  paths : List Path
deriving DecidableEq, Repr

/-- A document without the byte order mark that it may start with. -/
def withoutMark : Text → Text
  | 0xEF :: 0xBB :: 0xBF :: t => t
  | 0xFF :: 0xFE :: t => t
  | 0xFE :: 0xFF :: t => t
  | t => t

/-- Reads a document; the result is nothing if it is malformed. -/
def read? (document : Text) : Option Contents :=
  let t := withoutMark document
  if !t.isUtf8 || t.contains 0 then none
  else (readFrom (t.length + 1) [] {} t).map fun d =>
    { values := (d.slots.filter fun e => e.1.1 = 0).map fun e => (e.1.2, e.2)
      paths := d.order.reverse }

/-- A byte of a part in double quotes. -/
def shownByte (b : UInt8) : Text :=
  match b with
  | 34 => [92, 34]
  | 92 => [92, 92]
  | 8 => [92, 98]
  | 9 => [92, 116]
  | 10 => [92, 110]
  | 12 => [92, 102]
  | 13 => [92, 114]
  | b =>
    if isControl b then text "\\u00" ++ hexDigits 2 b.toNat else [b]

/-- A part of a path as it is shown: bare if it can be, or else in double quotes. -/
def shownPart (part : Text) : Text :=
  if !part.isEmpty && part.all isBare then part else 34 :: part.flatMap shownByte ++ [34]

/-- A path with dots between its parts. -/
def shownPath (path : Path) : Text := [46].intercalate (path.map shownPart)

end MicroLang.Toml
