import MicroLang.Token

/-!
# Syntax trees

A tree keeps its nodes in one array and addresses them by their index.  It grows only by appending a
new node below an existing one, so the root is node zero, a node's index is larger than its
parent's, and the children of a node stand in the order in which they were added.  Node numbers
come from outside as integers; a number that names no node is an error and leaves the tree alone.
-/

namespace MicroLang

/-- What a node shows: a label put there by the grammar, or a token of the source. -/
inductive Content where
  | label (name : Text)
  | token (tok : Token)
deriving DecidableEq, Repr

structure Node where
  content : Content
  parent : Option Nat := none
  children : List Nat := []
deriving DecidableEq, Repr

/-- A number that names no node of a tree of the given size. -/
structure StrayNode where
  id : Int
  size : Nat
deriving DecidableEq, Repr

def StrayNode.message (e : StrayNode) : Text :=
  text "ast: node " ++ Text.ofInt e.id ++ text " out of range [0," ++ Text.ofNat e.size ++ text ")"

structure Tree where
  nodes : Array Node
deriving DecidableEq, Repr

namespace Tree

/-- The tree that has only a root. -/
def ofRoot (label : Text) : Tree := ⟨#[{ content := .label label }]⟩

def size (t : Tree) : Nat := t.nodes.size

def root : Nat := 0

/-- The index that a node number names. -/
def index (t : Tree) (id : Int) : Except StrayNode Nat :=
  if 0 ≤ id ∧ id.toNat < t.size then .ok id.toNat else .error { id, size := t.size }

/-- The node with the given number. -/
def node (t : Tree) (id : Int) : Except StrayNode Node :=
  match t.nodes[id.toNat]? with
  | some n => if 0 ≤ id then .ok n else .error { id, size := t.size }
  | none => .error { id, size := t.size }

/-- The tree with a new last child below the node at an index. -/
def attach (t : Tree) (parent : Nat) (content : Content) : Tree :=
  let id := t.nodes.size
  ⟨(t.nodes.modify parent fun n => { n with children := n.children ++ [id] }).push
    { content, parent := some parent }⟩

/-- Appends a new node below an existing one and returns its index. -/
def add (t : Tree) (parent : Int) (content : Content) : Except StrayNode (Tree × Nat) :=
  match t.index parent with
  | .error e => .error e
  | .ok p => .ok (t.attach p content, t.size)

def addLabel (t : Tree) (parent : Int) (label : Text) : Except StrayNode (Tree × Nat) :=
  t.add parent (.label label)

def addToken (t : Tree) (parent : Int) (tok : Token) : Except StrayNode (Tree × Nat) :=
  t.add parent (.token tok)

/-- The children of the node at an index. -/
def children (t : Tree) (i : Nat) : List Nat :=
  match t.nodes[i]? with
  | some n => n.children
  | none => []

theorem size_attach (t : Tree) (parent : Nat) (content : Content) :
    (t.attach parent content).size = t.size + 1 := by
  simp only [attach, size, Array.size_push, Array.size_modify]

theorem size_ofRoot (label : Text) : (ofRoot label).size = 1 := rfl

end Tree

namespace Content

/-- The label of a labelled node, empty for a token. -/
def labelText : Content → Text
  | .label name => name
  | .token _ => []

/-- The token of a token node. -/
def token? : Content → Option Token
  | .label _ => none
  | .token tok => some tok

/-- How a node is shown in a derivation: by its label or by the kind of its token. -/
def display : Content → Text
  | .label name => name
  | .token tok => tok.kind.name

end Content

end MicroLang
