import MicroLang.Tree.Render
import MicroLang.Proofs.PartialTree

/-!
# The frontier of a tree

The leaves of a tree from left to right, as a list of indices.  A child comes later than its parent, so a
subtree lies behind its root in the array, and induction along a tree goes from children to parents.

Two ways to grow are described by what they do to the frontier.  A new last child of a node comes
behind all leaves that the node had below it.  Whatever grows below a leaf takes the place of this leaf in
every list of leaves that holds it.
-/

namespace MicroLang

namespace Tree

variable {t t' t'' : Tree} {i j n parent : Nat} {content : Content}

/-! ### Children -/

theorem children_of_getElem? {node : Node} (h : t.nodes[i]? = some node) : t.children i = node.children := by
  rw [children, h]

theorem children_attach_size : (t.attach parent content).children t.size = [] :=
  children_of_getElem? getElem?_attach_size

theorem children_attach_parent (h : parent < t.size) :
    (t.attach parent content).children parent = t.children parent ++ [t.size] := by
  obtain ⟨node, hnode⟩ := exists_node h
  rw [children_of_getElem? (getElem?_attach_parent hnode), children_of_getElem? hnode]

theorem children_attach_of_ne (hi : i < t.size) (hne : i ≠ parent) :
    (t.attach parent content).children i = t.children i := by
  unfold children
  rw [getElem?_attach_of_ne hi hne]

theorem children_of_size_le (h : t.size ≤ i) : t.children i = [] := by
  unfold children
  rw [Array.getElem?_eq_none h]

/-- Children are nodes, and they come later than their parents. -/
def Ordered (t : Tree) : Prop := ∀ i, ∀ c ∈ t.children i, i < c ∧ c < t.size

theorem ordered_ofRoot (label : Text) : (ofRoot label).Ordered := by
  intro i c hc
  have hnil : (ofRoot label).children i = [] := by
    cases i with
    | zero => rfl
    | succ i => rfl
  rw [hnil] at hc
  cases hc

theorem Ordered.attach (h : t.Ordered) (hparent : parent < t.size) :
    (t.attach parent content).Ordered := by
  intro i c hc
  rw [size_attach]
  by_cases hi : i < t.size
  · by_cases hip : i = parent
    · subst hip
      rw [children_attach_parent hi, List.mem_append, List.mem_singleton] at hc
      rcases hc with hc | rfl
      · have hold := h i c hc
        omega
      · omega
    · rw [children_attach_of_ne hi hip] at hc
      have hold := h i c hc
      omega
  · by_cases hnew : i = t.size
    · subst hnew
      rw [children_attach_size] at hc
      cases hc
    · rw [children_of_size_le (by rw [size_attach]; omega)] at hc
      cases hc

/-- Induction along a tree, from the children of a node to the node. -/
theorem Ordered.induction {motive : Nat → Prop} (h : t.Ordered)
    (step : ∀ i < t.size, (∀ c ∈ t.children i, motive c) → motive i) : ∀ i < t.size, motive i := by
  intro i hi
  induction hn : t.size - i using Nat.strongRecOn generalizing i with
  | ind m ih =>
    apply step i hi
    intro c hc
    have hchild := h i c hc
    exact ih (t.size - c) (by omega) c hchild.2 rfl

/-! ### Leaves -/

/-- The leaves of the subtree at index `i`; the first argument bounds its height. -/
def leavesFrom (t : Tree) : Nat → Nat → List Nat
  | 0, _ => []
  | height + 1, i =>
    if (t.children i).isEmpty then [i] else (t.children i).flatMap (t.leavesFrom height)

/-- The leaves of the subtree at an index, from left to right. -/
def leaves (t : Tree) (i : Nat) : List Nat := t.leavesFrom (t.size - i) i

/-- The leaves below the node at an index; none if the node is a leaf. -/
def below (t : Tree) (i : Nat) : List Nat := (t.children i).flatMap t.leaves

/-- A bound that is large enough has no influence. -/
theorem Ordered.leavesFrom_eq (h : t.Ordered) {height height' : Nat} (hi : i < t.size)
    (hheight : t.size - i ≤ height) (hheight' : t.size - i ≤ height') :
    t.leavesFrom height i = t.leavesFrom height' i := by
  induction height generalizing i height' with
  | zero => omega
  | succ height ih =>
    cases height' with
    | zero => omega
    | succ height' =>
      have hbelow : (t.children i).flatMap (t.leavesFrom height) =
          (t.children i).flatMap (t.leavesFrom height') := by
        apply List.flatMap_congr
        intro c hc
        have hchild := h i c hc
        exact ih hchild.2 (by omega) (by omega)
      rw [leavesFrom, leavesFrom, hbelow]

theorem Ordered.leaves_eq (h : t.Ordered) (hi : i < t.size) :
    t.leaves i = if (t.children i).isEmpty then [i] else t.below i := by
  obtain ⟨height, hheight⟩ : ∃ height, t.size - i = height + 1 := ⟨t.size - i - 1, by omega⟩
  have hbelow : (t.children i).flatMap (t.leavesFrom height) = t.below i := by
    apply List.flatMap_congr
    intro c hc
    have hchild := h i c hc
    exact h.leavesFrom_eq hchild.2 (by omega) (Nat.le_refl _)
  rw [leaves, hheight, leavesFrom, hbelow]

theorem Ordered.leaves_of_nil (h : t.Ordered) (hi : i < t.size) (hnil : t.children i = []) :
    t.leaves i = [i] := by
  rw [h.leaves_eq hi, hnil]
  rfl

theorem Ordered.leaves_of_ne_nil (h : t.Ordered) (hi : i < t.size) (hne : t.children i ≠ []) :
    t.leaves i = t.below i := by
  rw [h.leaves_eq hi, if_neg (by rw [List.isEmpty_iff]; exact hne)]

theorem Ordered.leaves_ne_nil (h : t.Ordered) (hi : i < t.size) : t.leaves i ≠ [] := by
  refine h.induction (motive := fun i => t.leaves i ≠ []) (fun i hi ih => ?_) i hi
  by_cases hnil : t.children i = []
  · rw [h.leaves_of_nil hi hnil]
    exact List.cons_ne_nil _ _
  · rw [h.leaves_of_ne_nil hi hnil, below]
    obtain ⟨c, rest, hc⟩ := List.exists_cons_of_ne_nil hnil
    have hfirst := ih c (by rw [hc]; exact List.mem_cons_self)
    rw [hc, List.flatMap_cons]
    exact fun happend => hfirst (List.append_eq_nil_iff.1 happend).1

/-- A node has leaves below it exactly if it has children. -/
theorem Ordered.below_eq_nil_iff (h : t.Ordered) : t.below i = [] ↔ t.children i = [] := by
  constructor
  · intro hbelow
    cases hc : t.children i with
    | nil => rfl
    | cons c rest =>
      rw [below, hc, List.flatMap_cons] at hbelow
      have hchild := h i c (by rw [hc]; exact List.mem_cons_self)
      exact absurd (List.append_eq_nil_iff.1 hbelow).1 (h.leaves_ne_nil hchild.2)
  · intro hnil
    rw [below, hnil]
    rfl

theorem Ordered.lt_size_of_mem_leaves (h : t.Ordered) (hi : i < t.size) : ∀ k ∈ t.leaves i, k < t.size := by
  refine h.induction (motive := fun i => ∀ k ∈ t.leaves i, k < t.size) (fun i hi ih => ?_) i hi
  intro k hk
  by_cases hnil : t.children i = []
  · rw [h.leaves_of_nil hi hnil, List.mem_singleton] at hk
    rw [hk]
    exact hi
  · rw [h.leaves_of_ne_nil hi hnil, below, List.mem_flatMap] at hk
    obtain ⟨c, hc, hk⟩ := hk
    exact ih c hc k hk

theorem Ordered.children_of_mem_leaves (h : t.Ordered) (hi : i < t.size) :
    ∀ k ∈ t.leaves i, t.children k = [] := by
  refine h.induction (motive := fun i => ∀ k ∈ t.leaves i, t.children k = []) (fun i hi ih => ?_) i hi
  intro k hk
  by_cases hnil : t.children i = []
  · rw [h.leaves_of_nil hi hnil, List.mem_singleton] at hk
    rw [hk]
    exact hnil
  · rw [h.leaves_of_ne_nil hi hnil, below, List.mem_flatMap] at hk
    obtain ⟨c, hc, hk⟩ := hk
    exact ih c hc k hk

theorem Ordered.lt_size_of_mem_below (h : t.Ordered) : ∀ k ∈ t.below i, k < t.size := by
  intro k hk
  rw [below, List.mem_flatMap] at hk
  obtain ⟨c, hc, hk⟩ := hk
  exact h.lt_size_of_mem_leaves (h i c hc).2 k hk

/-! ### Growing trees -/

/-- A subtree in which nothing is attached keeps its leaves. -/
theorem Ordered.leaves_congr (h : t.Ordered) (h' : t'.Ordered) (hsize : t.size ≤ t'.size)
    (hsame : ∀ i, j ≤ i → i < t.size → t'.children i = t.children i) (hj : j < t.size) :
    t'.leaves j = t.leaves j := by
  refine h.induction (motive := fun i => j ≤ i → t'.leaves i = t.leaves i) (fun i hi ih hji => ?_) j hj
    (Nat.le_refl j)
  have hchildren := hsame i hji hi
  rw [h.leaves_eq hi, h'.leaves_eq (Nat.lt_of_lt_of_le hi hsize), below, below, hchildren]
  have hbelow : (t.children i).flatMap t'.leaves = (t.children i).flatMap t.leaves := by
    apply List.flatMap_congr
    intro c hc
    have hchild := h i c hc
    exact ih c hc (by omega)
  rw [hbelow]

/-- A new last child comes behind all leaves that its parent has below it. -/
theorem Ordered.below_attach (h : t.Ordered) (hparent : parent < t.size) :
    (t.attach parent content).below parent = t.below parent ++ [t.size] := by
  have h' : (t.attach parent content).Ordered := h.attach hparent
  have hsize : (t.attach parent content).size = t.size + 1 := size_attach t parent content
  have hold : (t.children parent).flatMap (t.attach parent content).leaves = t.below parent := by
    apply List.flatMap_congr
    intro c hc
    have hchild := h parent c hc
    apply h.leaves_congr h' (by omega) ?_ hchild.2
    intro i hci hi
    exact children_attach_of_ne hi (by omega)
  have hnew : (t.attach parent content).leaves t.size = [t.size] :=
    h'.leaves_of_nil (by omega) children_attach_size
  rw [below, children_attach_parent hparent, List.flatMap_append, hold, List.flatMap_cons, hnew]
  rfl

/-- What grows below a leaf takes its place. -/
theorem Ordered.leaves_of_grown (h : t.Ordered) (h' : t'.Ordered) (hsize : t.size ≤ t'.size)
    (hsame : ∀ i < t.size, i ≠ n → t'.children i = t.children i) (hn : t.children n = [])
    (hj : j < t.size) :
    t'.leaves j = (t.leaves j).flatMap fun k => if k = n then t'.leaves n else [k] := by
  refine h.induction (motive := fun i => t'.leaves i = (t.leaves i).flatMap _) (fun i hi ih => ?_) j hj
  have hi' : i < t'.size := Nat.lt_of_lt_of_le hi hsize
  by_cases hin : i = n
  · subst hin
    rw [h.leaves_of_nil hi hn, List.flatMap_cons, if_pos rfl, List.flatMap_nil, List.append_nil]
  · have hchildren := hsame i hi hin
    by_cases hnil : t.children i = []
    · rw [h'.leaves_of_nil hi' (hchildren.trans hnil), h.leaves_of_nil hi hnil, List.flatMap_cons,
        if_neg hin]
      rfl
    · rw [h'.leaves_of_ne_nil hi' (by rw [hchildren]; exact hnil), h.leaves_of_ne_nil hi hnil, below, below,
        hchildren, List.flatMap_assoc]
      apply List.flatMap_congr
      intro c hc
      exact ih c hc

/-! ### Growing below one node -/

/-- The second tree is the first one with more nodes below the node `n`, and these are the leaves there. -/
structure Unfolds (t : Tree) (n : Nat) (t' : Tree) (ids : List Nat) : Prop where
  node : n < t.size
  ordered : t'.Ordered
  retains : t.Retains t'
  others : ∀ i < t.size, i ≠ n → t'.children i = t.children i
  below : t'.below n = ids
  fresh : ∀ k ∈ ids, t.size ≤ k
  nodup : ids.Nodup

namespace Unfolds

variable {ids done waiting : List Nat} {c : Nat}

theorem refl (h : t.Ordered) (hn : n < t.size) (hnil : t.children n = []) : t.Unfolds n t [] where
  node := hn
  ordered := h
  retains := .refl t
  others := fun _ _ _ => rfl
  below := h.below_eq_nil_iff.2 hnil
  fresh := by
    intro k hk
    cases hk
  nodup := List.nodup_nil

theorem node_lt (h : t.Unfolds n t' ids) : n < t'.size := Nat.lt_of_lt_of_le h.node h.retains.size_le

theorem lt_size (h : t.Unfolds n t' ids) : ∀ k ∈ ids, k < t'.size := by
  rw [← h.below]
  exact h.ordered.lt_size_of_mem_below

theorem leaves_eq (h : t.Unfolds n t' ids) : t'.leaves n = if ids.isEmpty then [n] else ids := by
  rw [h.ordered.leaves_eq h.node_lt, h.below]
  by_cases hnil : ids = []
  · have hchildren : t'.children n = [] := h.ordered.below_eq_nil_iff.1 (h.below.trans hnil)
    rw [hchildren, hnil]
  · have hchildren : t'.children n ≠ [] := by
      intro hchildren
      exact hnil (h.below.symm.trans (h.ordered.below_eq_nil_iff.2 hchildren))
    rw [if_neg (by rw [List.isEmpty_iff]; exact hchildren), if_neg (by rw [List.isEmpty_iff]; exact hnil)]

theorem leaves_of_ne_nil (h : t.Unfolds n t' ids) (hne : ids ≠ []) : t'.leaves n = ids := by
  rw [h.leaves_eq, if_neg (by rw [List.isEmpty_iff]; exact hne)]

theorem nodup_leaves (h : t.Unfolds n t' ids) : (t'.leaves n).Nodup := by
  rw [h.leaves_eq]
  split
  · simp
  · exact h.nodup

/-- A node more below `n`. -/
theorem attach (h : t.Unfolds n t' ids) (content : Content) :
    t.Unfolds n (t'.attach n content) (ids ++ [t'.size]) where
  node := h.node
  ordered := h.ordered.attach h.node_lt
  retains := h.retains.trans (retains_attach t' n content)
  others := by
    intro i hi hin
    rw [children_attach_of_ne (Nat.lt_of_lt_of_le hi h.retains.size_le) hin, h.others i hi hin]
  below := by
    rw [h.ordered.below_attach h.node_lt, h.below]
  fresh := by
    intro k hk
    rw [List.mem_append, List.mem_singleton] at hk
    rcases hk with hk | rfl
    · exact h.fresh k hk
    · exact h.retains.size_le
  nodup := by
    rw [List.nodup_append]
    refine ⟨h.nodup, by simp, ?_⟩
    intro k hk l hl
    have hlt := h.lt_size k hk
    rw [List.mem_singleton.1 hl]
    omega

/-- One leaf of several is replaced. -/
theorem flatMap_replace (hnodup : (done ++ c :: waiting).Nodup) (new : List Nat) :
    (done ++ c :: waiting).flatMap (fun k => if k = c then new else [k]) = done ++ (new ++ waiting) := by
  have hsame : ∀ l : List Nat, c ∉ l → l.flatMap (fun k => if k = c then new else [k]) = l := by
    intro l hl
    induction l with
    | nil => rfl
    | cons k l ih =>
      rw [List.mem_cons, not_or] at hl
      rw [List.flatMap_cons, if_neg (Ne.symm hl.1), ih hl.2]
      rfl
  rw [List.nodup_append, List.nodup_cons] at hnodup
  obtain ⟨_, ⟨hwaiting, _⟩, hdone⟩ := hnodup
  have hdone : c ∉ done := fun hc => hdone c hc c List.mem_cons_self rfl
  rw [List.flatMap_append, List.flatMap_cons, if_pos rfl, hsame done hdone, hsame waiting hwaiting]

/-- One of the leaves below `n` unfolds. -/
theorem step (h : t.Unfolds n t' (done ++ c :: waiting)) (hc : t'.children c = [])
    (h' : t'.Unfolds c t'' ids) : t.Unfolds n t'' (done ++ (t''.leaves c ++ waiting)) := by
  have hsize := h.retains.size_le
  have hold : t.size ≤ c := h.fresh c (List.mem_append_right _ List.mem_cons_self)
  have hn : n < t.size := h.node
  have hleaves : ∀ k ∈ t''.leaves c, k = c ∨ t'.size ≤ k := by
    intro k hk
    rw [h'.leaves_eq] at hk
    split at hk
    · exact .inl (List.mem_singleton.1 hk)
    · exact .inr (h'.fresh k hk)
  refine ⟨hn, h'.ordered, h.retains.trans h'.retains, ?_, ?_, ?_, ?_⟩
  · intro i hi hin
    rw [h'.others i (by omega) (by omega), h.others i hi hin]
  · have hchildren : t''.children n = t'.children n := h'.others n (by omega) (by omega)
    rw [← flatMap_replace h.nodup, ← h.below, Tree.below, Tree.below, hchildren, List.flatMap_assoc]
    apply List.flatMap_congr
    intro d hd
    exact h.ordered.leaves_of_grown h'.ordered h'.retains.size_le h'.others hc (h.ordered n d hd).2
  · intro k hk
    rw [List.mem_append, List.mem_append] at hk
    rcases hk with hk | hk | hk
    · exact h.fresh k (List.mem_append_left _ hk)
    · have hnew := hleaves k hk
      omega
    · exact h.fresh k (List.mem_append_right _ (List.mem_cons_of_mem _ hk))
  · have hnodup := h.nodup
    rw [List.nodup_append, List.nodup_cons] at hnodup
    obtain ⟨hdone, ⟨hc_waiting, hwaiting⟩, hapart⟩ := hnodup
    have hnew : ∀ k ∈ done ++ c :: waiting, k ≠ c → k ∉ t''.leaves c := by
      intro k hk hkc hmem
      have hlt := h.lt_size k hk
      have hcases := hleaves k hmem
      omega
    rw [List.nodup_append, List.nodup_append]
    refine ⟨hdone, ⟨h'.nodup_leaves, hwaiting, ?_⟩, ?_⟩
    · rintro k hk _ hl rfl
      refine hnew k (List.mem_append_right _ (List.mem_cons_of_mem _ hl)) ?_ hk
      rintro rfl
      exact hc_waiting hl
    · rintro k hk _ hl rfl
      rcases List.mem_append.1 hl with hl | hl
      · exact hnew k (List.mem_append_left _ hk) (hapart k hk c List.mem_cons_self) hl
      · exact hapart k hk k (List.mem_cons_of_mem _ hl) rfl

end Unfolds

/-! ### Walks -/

/-- What a walk finds in the leaves alone, it finds along the frontier. -/
theorem filterMap_visitsFrom {β : Type} (find : Nat → Option β)
    (hfind : ∀ i, t.children i ≠ [] → find i = none) (height depth i : Nat) :
    (t.visitsFrom (fun _ => true) height depth i).filterMap (fun visit => find visit.1) =
      (t.leavesFrom height i).filterMap find := by
  induction height generalizing depth i with
  | zero => rfl
  | succ height ih =>
    rw [visitsFrom, leavesFrom, if_pos rfl]
    by_cases hnil : t.children i = []
    · rw [hnil]
      rfl
    · rw [List.filterMap_cons, hfind i hnil, if_neg (by rw [List.isEmpty_iff]; exact hnil),
        List.filterMap_flatMap, List.filterMap_flatMap]
      apply List.flatMap_congr
      intro c _
      exact ih (depth + 1) c

theorem filterMap_allNodes {β : Type} (find : Node → Option β)
    (hfind : ∀ (i : Nat) (n : Node), t.nodes[i]? = some n → n.children ≠ [] → find n = none) :
    t.allNodes.filterMap (fun visit => find visit.1) =
      (t.leaves root).filterMap fun i => t.nodes[i]?.bind find := by
  have hnone : ∀ i, t.children i ≠ [] → t.nodes[i]?.bind find = none := by
    intro i hi
    cases hn : t.nodes[i]? with
    | none => rfl
    | some n =>
      rw [children_of_getElem? hn] at hi
      exact hfind i n hn hi
  rw [leaves, root, Nat.sub_zero, ← filterMap_visitsFrom _ hnone t.size 0 0, allNodes, visits, root,
    List.filterMap_filterMap]
  congr 1
  funext visit
  obtain ⟨i, depth⟩ := visit
  dsimp only
  cases t.nodes[i]? <;> rfl

end Tree

end MicroLang
