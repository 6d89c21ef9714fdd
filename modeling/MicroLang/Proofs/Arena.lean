import Mathlib.Data.List.Forall2
import MicroLang.Proofs.Frontier

/-!
# Trees apart from their numbering

Trees come about by adding one node after the other, below any node that is already there.  The order of
the additions shows in the numbers of the nodes and nowhere else: two trees are the same as ordered trees
if their roots have the same content and their children, from left to right, are the same again.

Walks and shapes are defined with a bound on their height.  In a tree that was built this way the bound has
no influence, and each of them is given by its value at a node in terms of its values at the children.
-/

namespace MicroLang

namespace Tree

/-- A tree made of a root by adding labels and tokens below nodes of it. -/
inductive Built : Tree → Prop where
  | root (label : Text) : Built (ofRoot label)
  | label {t t' : Tree} {parent : Int} {label : Text} {n : Nat} (h : Built t)
      (hadd : t.addLabel parent label = .ok (t', n)) : Built t'
  | token {t t' : Tree} {parent : Int} {tok : Token} {n : Nat} (h : Built t)
      (hadd : t.addToken parent tok = .ok (t', n)) : Built t'

variable {t : Tree}

theorem add_eq_ok {t' : Tree} {parent : Int} {content : Content} {n : Nat}
    (h : t.add parent content = .ok (t', n)) :
    ∃ p < t.size, parent = p ∧ t' = t.attach p content ∧ n = t.size := by
  unfold add index at h
  by_cases hparent : 0 ≤ parent ∧ parent.toNat < t.size
  · rw [if_pos hparent] at h
    cases h
    exact ⟨parent.toNat, hparent.2, (Int.toNat_of_nonneg hparent.1).symm, rfl, rfl⟩
  · rw [if_neg hparent] at h
    cases h

theorem Built.induction {motive : Tree → Prop} (root : ∀ label, motive (ofRoot label))
    (attach : ∀ t parent content, motive t → parent < t.size → motive (t.attach parent content))
    (h : Built t) : motive t := by
  have hadd : ∀ {t t' : Tree} {parent : Int} {content : Content} {n : Nat}, motive t →
      t.add parent content = .ok (t', n) → motive t' := by
    intro t t' parent content n ht hadd
    obtain ⟨p, hp, -, rfl, -⟩ := add_eq_ok hadd
    exact attach t p content ht hp
  induction h with
  | root label => exact root label
  | label _ hlabel ih => exact hadd ih hlabel
  | token _ htoken ih => exact hadd ih htoken

/-- A node may be added below every node that is there. -/
theorem Built.attach {p : Nat} (h : Built t) (hp : p < t.size) (content : Content) :
    (t.attach p content).Built := by
  have hadd : t.add p content = .ok (t.attach p content, t.size) := by
    unfold add index
    rw [if_pos ⟨Int.natCast_nonneg p, hp⟩]
    rfl
  cases content with
  | label name => exact .label h hadd
  | token tok => exact .token h hadd

theorem Built.ordered (h : Built t) : t.Ordered :=
  h.induction ordered_ofRoot fun _ _ _ ht hparent => ht.attach hparent

theorem Built.size_pos (h : Built t) : 0 < t.size := by
  refine h.induction (motive := fun t => 0 < t.size) (fun label => ?_) fun t parent content _ _ => ?_
  · exact Nat.zero_lt_one
  · rw [size_attach]
    exact Nat.succ_pos _

/-! ### Sameness -/

end Tree

/-- The same label, or tokens of one kind with the same text, line and column. -/
inductive Content.Agrees : Content → Content → Prop where
  | label (name : Text) : Agrees (.label name) (.label name)
  | token {tok tok' : Token} (kind : tok.kind = tok'.kind) (literal : tok.literal = tok'.literal)
      (line : tok.pos.line = tok'.pos.line) (column : tok.pos.column = tok'.pos.column) :
      Agrees (.token tok) (.token tok')

namespace Tree

/-- The subtrees at two nodes are the same as ordered trees. -/
inductive SameAt (t u : Tree) : Nat → Nat → Prop where
  | node {i j : Nat} {n m : Node} (left : t.nodes[i]? = some n) (right : u.nodes[j]? = some m)
      (content : n.content.Agrees m.content) (children : List.Forall₂ (SameAt t u) n.children m.children) :
      SameAt t u i j

/-- Two trees are the same as ordered trees, whatever the numbers of their nodes. -/
def Same (t u : Tree) : Prop := t.SameAt u root root

variable {t u : Tree} {i j : Nat}

/-- Values of children that are the same pairwise. -/
theorem map_eq_map_of_forall₂ {β : Type} {f g : Nat → β} {cs ds : List Nat}
    (hvalue : ∀ c ∈ cs, ∀ d, t.SameAt u c d → f c = g d) (h : List.Forall₂ (t.SameAt u) cs ds) :
    cs.map f = ds.map g := by
  induction h with
  | nil => rfl
  | cons hcd _ ih =>
    rw [List.map_cons, List.map_cons, hvalue _ List.mem_cons_self _ hcd,
      ih fun c hc => hvalue c (List.mem_cons_of_mem _ hc)]

/-- What is computed from contents and children alone is the same for trees that are. -/
theorem Ordered.eq_of_sameAt {β : Type} {f g : Nat → β} {combine : Content → List β → β} (h : t.Ordered)
    (hf : ∀ i n, t.nodes[i]? = some n → f i = combine n.content (n.children.map f))
    (hg : ∀ j m, u.nodes[j]? = some m → g j = combine m.content (m.children.map g))
    (hcombine : ∀ c c' values, c.Agrees c' → combine c values = combine c' values) :
    ∀ i < t.size, ∀ j, t.SameAt u i j → f i = g j := by
  refine h.induction fun i _ ih j hsame => ?_
  cases hsame with
  | node left right content children =>
    rw [children_of_getElem? left] at ih
    rw [hf i _ left, hg j _ right, hcombine _ _ _ content, map_eq_map_of_forall₂ ih children]

/-- The converse, if contents and the values of the children can be told from the value of a node. -/
theorem Ordered.sameAt_of_eq {β : Type} {f g : Nat → β} {combine : Content → List β → β} (h : t.Ordered)
    (h' : u.Ordered) (hf : ∀ i n, t.nodes[i]? = some n → f i = combine n.content (n.children.map f))
    (hg : ∀ j m, u.nodes[j]? = some m → g j = combine m.content (m.children.map g))
    (hcombine : ∀ c c' values values', combine c values = combine c' values' →
      c.Agrees c' ∧ values = values') :
    ∀ i < t.size, ∀ j < u.size, f i = g j → t.SameAt u i j := by
  refine h.induction fun i hi ih j hj hvalue => ?_
  obtain ⟨n, hn⟩ := exists_node hi
  obtain ⟨m, hm⟩ := exists_node hj
  rw [hf i n hn, hg j m hm] at hvalue
  obtain ⟨hcontent, hchildren⟩ := hcombine _ _ _ _ hvalue
  refine .node hn hm hcontent ?_
  rw [← List.forall₂_eq_eq_eq, List.forall₂_map_left_iff, List.forall₂_map_right_iff] at hchildren
  refine List.forall₂_iff_get.2 ⟨hchildren.length_eq, fun k hk hk' => ?_⟩
  have hc : n.children.get ⟨k, hk⟩ ∈ t.children i := by
    rw [children_of_getElem? hn]
    exact List.get_mem _ _
  have hd : m.children.get ⟨k, hk'⟩ ∈ u.children j := by
    rw [children_of_getElem? hm]
    exact List.get_mem _ _
  exact ih _ hc _ (h' j _ hd).2 (hchildren.get hk hk')

/-! ### Values at nodes -/

/-- The shape of the subtree at an index. -/
def shapeAt (t : Tree) (i : Nat) : Shape := t.shapeFrom (t.size - i) i

/-- A bound that is large enough has no influence. -/
theorem Ordered.shapeFrom_eq (h : t.Ordered) {height height' : Nat} (hi : i < t.size)
    (hheight : t.size - i ≤ height) (hheight' : t.size - i ≤ height') :
    t.shapeFrom height i = t.shapeFrom height' i := by
  induction height generalizing i height' with
  | zero => omega
  | succ height ih =>
    cases height' with
    | zero => omega
    | succ height' =>
      obtain ⟨n, hn⟩ := exists_node hi
      have hchildren : n.children.map (t.shapeFrom height) = n.children.map (t.shapeFrom height') := by
        apply List.map_congr_left
        intro c hc
        have hchild := h i c (by rw [children_of_getElem? hn]; exact hc)
        exact ih hchild.2 (by omega) (by omega)
      simp only [shapeFrom, hn, hchildren]

theorem Ordered.shapeAt_eq (h : t.Ordered) {n : Node} (hn : t.nodes[i]? = some n) :
    t.shapeAt i = .node n.content (n.children.map t.shapeAt) := by
  have hi := lt_size hn
  obtain ⟨height, hheight⟩ : ∃ height, t.size - i = height + 1 := ⟨t.size - i - 1, by omega⟩
  have hchildren : n.children.map (t.shapeFrom height) = n.children.map t.shapeAt := by
    apply List.map_congr_left
    intro c hc
    have hchild := h i c (by rw [children_of_getElem? hn]; exact hc)
    exact h.shapeFrom_eq hchild.2 (by omega) (Nat.le_refl _)
  rw [shapeAt, hheight]
  simp only [shapeFrom, hn, hchildren]

/-- The nodes that a walk of the subtree at an index meets, with their depths. -/
def nodesAt (t : Tree) (depth i : Nat) : List (Node × Nat) :=
  (t.visitsFrom (fun _ => true) (t.size - i) depth i).filterMap fun (k, depth) =>
    t.nodes[k]?.map fun n => (n, depth)

theorem allNodes_eq (t : Tree) : t.allNodes = t.nodesAt 0 root := rfl

theorem Ordered.visitsFrom_eq (h : t.Ordered) {descend : Nat → Bool} {height height' depth : Nat}
    (hi : i < t.size) (hheight : t.size - i ≤ height) (hheight' : t.size - i ≤ height') :
    t.visitsFrom descend height depth i = t.visitsFrom descend height' depth i := by
  induction height generalizing i height' depth with
  | zero => omega
  | succ height ih =>
    cases height' with
    | zero => omega
    | succ height' =>
      have hbelow : (t.children i).flatMap (t.visitsFrom descend height (depth + 1)) =
          (t.children i).flatMap (t.visitsFrom descend height' (depth + 1)) := by
        apply List.flatMap_congr
        intro c hc
        have hchild := h i c hc
        exact ih hchild.2 (by omega) (by omega)
      rw [visitsFrom, visitsFrom, hbelow]

theorem Ordered.nodesAt_eq (h : t.Ordered) {depth : Nat} {n : Node} (hn : t.nodes[i]? = some n) :
    t.nodesAt depth i = (n, depth) :: n.children.flatMap (t.nodesAt (depth + 1)) := by
  have hi := lt_size hn
  obtain ⟨height, hheight⟩ : ∃ height, t.size - i = height + 1 := ⟨t.size - i - 1, by omega⟩
  rw [nodesAt, hheight, visitsFrom, if_pos rfl, List.filterMap_cons, List.filterMap_flatMap,
    children_of_getElem? hn]
  dsimp only
  rw [hn]
  show (n, depth) :: _ = _
  congr 1
  apply List.flatMap_congr
  intro c hc
  have hchild := h i c (by rw [children_of_getElem? hn]; exact hc)
  rw [h.visitsFrom_eq hchild.2 (by omega) (Nat.le_refl _)]
  rfl

end Tree

end MicroLang
