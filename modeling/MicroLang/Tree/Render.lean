import MicroLang.Tree.Walk
import MicroLang.Json
import MicroLang.Writer

/-!
# Renderings of a tree

A derivation shows the leaves from left to right, each followed by a blank.  A dump shows one node per
line, four blanks deeper than its parent, a token with its text and place.  The JSON form nests
objects and leaves out empty texts, zeros and empty child lists.  Derivation and dump are made of
pieces that reach a writer one by one, so a writer that fails holds a beginning of them.
-/

namespace MicroLang

namespace Tree

/-- The pieces of the derivation. -/
def derivationPieces (t : Tree) : List Text :=
  t.allNodes.filterMap fun (n, _) =>
    if n.children.isEmpty then some (n.content.display ++ text " ") else none

/-- The leaves from left to right, each followed by a blank. -/
def derivation (t : Tree) : Text := t.derivationPieces.flatten

/-- Writes the derivation. -/
def writeDerivation (t : Tree) (w : Writer) : Except WriteError Unit × Writer :=
  w.writeAll t.derivationPieces

end Tree

/-- The line that a node has in a dump, without its indentation. -/
def Content.dumpLine : Content → Text
  | .label name => name ++ text "\n"
  | .token tok =>
    tok.kind.name ++ text " " ++ tok.literal.quoted ++ text " " ++ tok.pos.lineColumn ++ text "\n"

namespace Tree

/-- The pieces of the dump: the indentation of a node one step at a time, then its line. -/
def dumpPieces (t : Tree) : List Text :=
  t.allNodes.flatMap fun (n, depth) =>
    List.replicate depth (text "    ") ++ [n.content.dumpLine]

/-- One node per line, indented by depth. -/
def dump (t : Tree) : Text := t.dumpPieces.flatten

/-- Writes the dump. -/
def writeDump (t : Tree) (w : Writer) : Except WriteError Unit × Writer :=
  w.writeAll t.dumpPieces

/-- A field that is left out when its text is empty. -/
def textField (key : String) (value : Text) : List (Text × Json) :=
  if value.isEmpty then [] else [(text key, .string value)]

/-- A field that is left out when its number is zero. -/
def numberField (key : String) (value : Int) : List (Text × Json) :=
  if value = 0 then [] else [(text key, .number value)]

/-- The fields that show what a node holds. -/
def contentFields : Content → List (Text × Json)
  | .label name => textField "label" name
  | .token tok =>
    textField "kind" tok.kind.name ++ textField "literal" tok.literal
      ++ numberField "line" tok.pos.line ++ numberField "column" tok.pos.column

mutual

/-- The nested object of a shape. -/
def Shape.json : Shape → Json
  | .node content children =>
    .object (contentFields content
      ++ if children.isEmpty then [] else [(text "children", .array (Shape.jsonList children))])

def Shape.jsonList : List Shape → List Json
  | [] => []
  | s :: rest => Shape.json s :: Shape.jsonList rest

end

/-- The tree as a JSON value. -/
def json (t : Tree) : Json := t.shape.json

end Tree

end MicroLang
