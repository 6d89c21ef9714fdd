import MicroLang.Tree

/-!
# Walking a tree

A walk visits a node, then its children's subtrees from left to right.  It is given as the list of its
visits, each with the depth of the node; the caller says below which nodes it goes on.
-/

namespace MicroLang

namespace Tree

/-- The visits of the subtree at index `i`, which stands at the given depth.  The first argument
bounds the height of the walk. -/
def visitsFrom (t : Tree) (descend : Nat → Bool) : Nat → Nat → Nat → List (Nat × Nat)
  | 0, _, _ => []
  | height + 1, depth, i =>
    (i, depth) ::
      if descend i then (t.children i).flatMap (t.visitsFrom descend height (depth + 1)) else []

/-- The visits of a walk from the root.  No path in a tree is longer than the tree has nodes. -/
def visits (t : Tree) (descend : Nat → Bool) : List (Nat × Nat) :=
  t.visitsFrom descend t.size 0 root

/-- The visits of a walk of the whole tree, each with the node met there. -/
def allNodes (t : Tree) : List (Node × Nat) :=
  (t.visits fun _ => true).filterMap fun (i, depth) => t.nodes[i]?.map fun n => (n, depth)

/-- A tree without its numbering: contents and the order of children. -/
inductive Shape where
  | node (content : Content) (children : List Shape)

/-- The shape of the subtree at index `i`; the first argument bounds its height. -/
def shapeFrom (t : Tree) : Nat → Nat → Shape
  | 0, _ => .node (.label []) []
  | height + 1, i =>
    match t.nodes[i]? with
    | some n => .node n.content (n.children.map (t.shapeFrom height))
    | none => .node (.label []) []

/-- The shape of the whole tree. -/
def shape (t : Tree) : Shape := t.shapeFrom t.size root

end Tree

end MicroLang
