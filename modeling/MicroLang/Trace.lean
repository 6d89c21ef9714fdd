import MicroLang.Text.Quoted

/-!
# Trace records

A trace tells which productions a parse entered, how far the derivation had come, which actions the code
generator performed and which instructions it emitted.  In the log every record is a line of
`key=value` pairs, of which the first is the time of the record if the log shows times; a value that
could be misread is quoted.
-/

namespace MicroLang

inductive Trace where
  /-- A production was entered with this much of the source still to be read. -/
  | enter (production remaining : Text)
  /-- A production extended the tree, whose leaves now read like this. -/
  | derive (production derivation : Text)
  /-- An action of the code generator was performed. -/
  | action (name : Text)
  /-- An instruction was emitted. -/
  | emit (code : Text)
deriving DecidableEq, Repr

namespace Trace

def message : Trace → Text
  | .enter _ _ => text "call"
  | .derive _ _ => text "derive"
  | .action _ => text "call"
  | .emit _ => text "emit"

/-- The named values of a record, in order. -/
def attributes : Trace → List (Text × Text)
  | .enter production remaining => [(text "production", production), (text "remaining", remaining)]
  | .derive production derivation =>
    [(text "production", production), (text "derivation", derivation)]
  | .action name => [(text "action", name)]
  | .emit code => [(text "code", code)]

/-- The level of every record. -/
def level : Text := text "DEBUG"

/-- Whether a piece makes a value need quotes: a blank, a quote, an equals sign, U+FFFD, a stray byte
or anything that is not printable.  The delete character counts as harmless. -/
def isDelicate : Piece → Bool
  | .scalar c =>
    let v := c.toNat
    v = 0x20 || v = 0x22 || v = 0x3D || v = 0xFFFD || (v ≠ 0x7F && !isPrintable c)
  | .stray _ => true

/-- A value as it stands in a log line. -/
def shownValue (t : Text) : Text :=
  if t.isEmpty || t.pieces.any isDelicate then t.quoted else t

/-- How a log line starts: with the time, which is never quoted, or at once with the level. -/
def stamp : Option Text → Text
  | none => []
  | some time => text "time=" ++ time ++ text " "

/-- The log line of a record that was made at the given time. -/
def line (time : Option Text) (r : Trace) : Text :=
  stamp time ++ text "level=" ++ level ++ text " msg=" ++ shownValue r.message
    ++ r.attributes.flatMap (fun (key, value) => text " " ++ key ++ text "=" ++ shownValue value)
    ++ text "\n"

end Trace

end MicroLang
