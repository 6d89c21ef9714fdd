import Mathlib.Data.List.Flatten
import Mathlib.Data.List.Nodup
import MicroLang.Proofs.Lineage

/-!
# Walks in preorder

A walk shows every node that it meets to a visitor, which keeps a state and says whether the walk goes on
below the node.  Here a walk is given by rules and without a bound on its height, so it has an outcome
exactly if it ends.  In a tree whose children come later than their parents every walk ends, whatever the
visitor does with its state.

The list of visits that `visits` gives is what a visitor notes down that decides by the node alone.  It is
the preorder of the nodes that such a walk can reach: a node is visited if the walk may go on below all of
its ancestors, and then once; parents come before their children and the subtrees of siblings in the
order of the siblings.
-/

namespace MicroLang

namespace Tree

/-! ### Walks with a visitor -/

/-- A walk of siblings at some depth and of everything below them, from the first state to the second.  No
rule is about a number that names no node. -/
inductive Walked {σ : Type} (t : Tree) (visit : Nat → Nat → σ → Bool × σ) :
    Nat → List Nat → σ → σ → Prop where
  | done {depth : Nat} {s : σ} : Walked t visit depth [] s s
  | skip {depth i : Nat} {rest : List Nat} {s s' s'' : σ} (visited : visit i depth s = (false, s'))
      (later : Walked t visit depth rest s' s'') : Walked t visit depth (i :: rest) s s''
  | enter {depth i : Nat} {n : Node} {rest : List Nat} {s s' s'' s''' : σ}
      (visited : visit i depth s = (true, s')) (node : t.nodes[i]? = some n)
      (below : Walked t visit (depth + 1) n.children s' s'') (later : Walked t visit depth rest s'' s''') :
      Walked t visit depth (i :: rest) s s'''

section

variable {t : Tree} {σ : Type} {visit : Nat → Nat → σ → Bool × σ}

theorem Walked.unique {depth : Nat} {is : List Nat} {s s₁ s₂ : σ} (h : t.Walked visit depth is s s₁)
    (h' : t.Walked visit depth is s s₂) : s₁ = s₂ := by
  induction h generalizing s₂ with
  | done =>
    cases h'
    rfl
  | skip visited _ ih =>
    cases h' with
    | skip visited' later =>
      cases visited.symm.trans visited'
      exact ih later
    | enter visited' => cases visited.symm.trans visited'
  | enter visited node _ _ ihbelow ihlater =>
    cases h' with
    | skip visited' => cases visited.symm.trans visited'
    | enter visited' node' below later =>
      cases visited.symm.trans visited'
      cases node.symm.trans node'
      cases ihbelow below
      exact ihlater later

/-- Children are walked one after the other. -/
theorem Walked.foldl {out : Nat → Nat → σ → σ} {depth : Nat} {cs : List Nat}
    (hcs : ∀ c ∈ cs, ∀ rest s s', t.Walked visit depth rest (out c depth s) s' →
      t.Walked visit depth (c :: rest) s s') (s : σ) :
    t.Walked visit depth cs s (cs.foldl (fun s c => out c depth s) s) := by
  induction cs generalizing s with
  | nil => exact .done
  | cons c cs ih =>
    rw [List.forall_mem_cons] at hcs
    exact hcs.1 cs s _ (ih hcs.2 (out c depth s))

/-- A walk ends, and what it does to the state below a node is given by the visit of the node and by
what it does below the children. -/
theorem Ordered.walked_cons (h : t.Ordered) (out : Nat → Nat → σ → σ)
    (hout : ∀ i < t.size, ∀ depth s, out i depth s = if (visit i depth s).1 then
      (t.children i).foldl (fun s c => out c (depth + 1) s) (visit i depth s).2 else (visit i depth s).2) :
    ∀ i < t.size, ∀ depth rest s s', t.Walked visit depth rest (out i depth s) s' →
      t.Walked visit depth (i :: rest) s s' := by
  refine h.induction fun i hi ih depth rest s s' hrest => ?_
  obtain ⟨n, hn⟩ := exists_node hi
  rw [hout i hi] at hrest
  cases hvisit : visit i depth s with
  | mk goesOn s₁ =>
    rw [hvisit] at hrest
    cases goesOn with
    | false => exact .skip hvisit hrest
    | true =>
      rw [children_of_getElem? hn] at ih hrest
      exact .enter hvisit hn (Walked.foldl (fun c hc => ih c hc (depth + 1)) s₁) hrest

theorem Ordered.walked_iff (h : t.Ordered) (hroot : root < t.size) (out : Nat → Nat → σ → σ)
    (hout : ∀ i < t.size, ∀ depth s, out i depth s = if (visit i depth s).1 then
      (t.children i).foldl (fun s c => out c (depth + 1) s) (visit i depth s).2 else (visit i depth s).2)
    {s s' : σ} : t.Walked visit 0 [root] s s' ↔ s' = out root 0 s := by
  have hwalked := h.walked_cons out hout root hroot 0 [] s _ .done
  constructor
  · exact fun h' => h'.unique hwalked
  · rintro rfl
    exact hwalked

end

/-! ### Visits of a subtree -/

variable {t : Tree} {descend : Nat → Bool} {depth i : Nat}

/-- The visits of the subtree at an index, which stands at the given depth. -/
def visitsAt (t : Tree) (descend : Nat → Bool) (depth i : Nat) : List (Nat × Nat) :=
  t.visitsFrom descend (t.size - i) depth i

theorem visits_eq (t : Tree) (descend : Nat → Bool) : t.visits descend = t.visitsAt descend 0 root := rfl

theorem Ordered.visitsAt_eq (h : t.Ordered) (hi : i < t.size) : t.visitsAt descend depth i =
    (i, depth) :: if descend i then (t.children i).flatMap (t.visitsAt descend (depth + 1)) else [] := by
  obtain ⟨height, hheight⟩ : ∃ height, t.size - i = height + 1 := ⟨t.size - i - 1, by omega⟩
  have hbelow : (t.children i).flatMap (t.visitsFrom descend height (depth + 1)) =
      (t.children i).flatMap (t.visitsAt descend (depth + 1)) := by
    apply List.flatMap_congr
    intro c hc
    have hchild := h i c hc
    exact h.visitsFrom_eq hchild.2 (by omega) (Nat.le_refl _)
  rw [visitsAt, hheight, visitsFrom, hbelow]

/-- The visitor that notes every node with its depth and decides by the node alone. -/
def note (descend : Nat → Bool) (i depth : Nat) (seen : List (Nat × Nat)) : Bool × List (Nat × Nat) :=
  (descend i, seen ++ [(i, depth)])

theorem foldl_append_visits (f : Nat → List (Nat × Nat)) (cs : List Nat) (seen : List (Nat × Nat)) :
    cs.foldl (fun seen c => seen ++ f c) seen = seen ++ cs.flatMap f := by
  induction cs generalizing seen with
  | nil => simp
  | cons c cs ih => simp [ih]

/-- What is noted on a walk are its visits. -/
theorem Ordered.walked_note_iff (h : t.Ordered) (hroot : root < t.size) {seen : List (Nat × Nat)} :
    t.Walked (note descend) 0 [root] [] seen ↔ seen = t.visits descend := by
  refine h.walked_iff hroot (fun i depth seen => seen ++ t.visitsAt descend depth i) ?_
  intro i hi depth seen
  rw [h.visitsAt_eq hi, note, foldl_append_visits]
  cases descend i <;> simp

/-! ### Reachable nodes -/

namespace Linked

variable (h : t.Linked)

include h

/-- A visit of a subtree is one of a node in it that nothing in between hides, at its depth. -/
theorem mem_visitsAt : ∀ r < t.size, ∀ depth d, (i, d) ∈ t.visitsAt descend depth r ↔
    ∃ k, d = depth + k ∧ t.climb k i = some r ∧
      ∀ j < k, ∀ a, t.climb (j + 1) i = some a → descend a = true := by
  refine h.ordered.induction fun r hr ih depth d => ?_
  rw [h.ordered.visitsAt_eq hr, List.mem_cons]
  constructor
  · rintro (hhead | hbelow)
    · cases hhead
      exact ⟨0, rfl, rfl, fun j hj => absurd hj (Nat.not_lt_zero j)⟩
    · split at hbelow
      · next hr' =>
        obtain ⟨c, hc, hvisit⟩ := List.mem_flatMap.1 hbelow
        obtain ⟨k, rfl, hclimb, hopen⟩ := (ih c hc (depth + 1) d).1 hvisit
        have hup : t.climb (k + 1) i = some r :=
          climb_succ_eq_some_iff.2 ⟨c, hclimb, (h.mem_children r c).1 hc⟩
        refine ⟨k + 1, by omega, hup, fun j hj a ha => ?_⟩
        rcases Nat.lt_succ_iff_lt_or_eq.1 hj with hj | rfl
        · exact hopen j hj a ha
        · cases hup.symm.trans ha
          exact hr'
      · cases hbelow
  · rintro ⟨k, rfl, hclimb, hopen⟩
    cases k with
    | zero =>
      cases Option.some.inj hclimb
      exact .inl rfl
    | succ k =>
      obtain ⟨c, hc, hparent⟩ := climb_succ_eq_some_iff.1 hclimb
      have hmem := (h.mem_children r c).2 hparent
      rw [if_pos (hopen k (Nat.lt_succ_self k) r hclimb)]
      refine .inr (List.mem_flatMap.2 ⟨c, hmem, (ih c hmem _ _).2 ⟨k, by omega, hc, fun j hj => ?_⟩⟩)
      exact hopen j (Nat.lt_succ_of_lt hj)

theorem mem_visits {d : Nat} : (i, d) ∈ t.visits descend ↔
    t.climb d i = some root ∧ ∀ a, t.IsAncestor a i → descend a = true := by
  rw [visits_eq, h.mem_visitsAt root h.root_lt]
  constructor
  · rintro ⟨k, hk, hclimb, hopen⟩
    rw [Nat.zero_add] at hk
    subst hk
    refine ⟨hclimb, ?_⟩
    rintro a ⟨j, hj⟩
    exact hopen j (h.lt_of_climb hclimb hj) a hj
  · rintro ⟨hclimb, hopen⟩
    exact ⟨d, (Nat.zero_add d).symm, hclimb, fun j _ a ha => hopen a ⟨j, ha⟩⟩

/-- A node is visited exactly if the walk goes on below all nodes above it. -/
theorem mem_map_visits : i ∈ (t.visits descend).map Prod.fst ↔
    i < t.size ∧ ∀ a, t.IsAncestor a i → descend a = true := by
  rw [List.mem_map]
  constructor
  · rintro ⟨⟨i, d⟩, hvisit, rfl⟩
    obtain ⟨hclimb, hopen⟩ := h.mem_visits.1 hvisit
    exact ⟨lt_size_of_climb h.root_lt hclimb, hopen⟩
  · rintro ⟨hi, hopen⟩
    obtain ⟨d, hclimb⟩ := h.exists_climb_root i hi
    exact ⟨(i, d), h.mem_visits.2 ⟨hclimb, hopen⟩, rfl⟩

/-! ### Every node once -/

theorem nodup_visitsAt : ∀ r < t.size, ∀ depth, ((t.visitsAt descend depth r).map Prod.fst).Nodup := by
  refine h.ordered.induction fun r hr ih depth => ?_
  -- whatever is visited below a child is in the subtree of the child
  have hwithin : ∀ c ∈ t.children r, ∀ i ∈ (t.visitsAt descend (depth + 1) c).map Prod.fst,
      ∃ k, t.climb k i = some c := by
    intro c hc i hi
    obtain ⟨⟨i, d⟩, hvisit, rfl⟩ := List.mem_map.1 hi
    obtain ⟨k, -, hclimb, -⟩ := (h.mem_visitsAt c (h.ordered r c hc).2 _ _).1 hvisit
    exact ⟨k, hclimb⟩
  rw [h.ordered.visitsAt_eq hr, List.map_cons, List.nodup_cons]
  split
  · rw [List.map_flatMap]
    refine ⟨fun hmem => ?_, List.nodup_flatMap.2 ⟨fun c hc => ih c hc (depth + 1), ?_⟩⟩
    · obtain ⟨c, hc, hr'⟩ := List.mem_flatMap.1 hmem
      obtain ⟨k, hclimb⟩ := hwithin c hc r hr'
      have hle := h.climb_le hclimb
      have hlt := (h.ordered r c hc).1
      omega
    · refine (h.nodup r).pairwise_of_forall_ne fun c hc d hd hne => ?_
      intro i hi hi'
      obtain ⟨k, hk⟩ := hwithin c hc i hi
      obtain ⟨k', hk'⟩ := hwithin d hd i hi'
      exact hne (h.eq_of_siblings hk hk' ((h.mem_children r c).1 hc) ((h.mem_children r d).1 hd))
  · simp

/-! ### The order of the visits -/

/-- The visits of a subtree are found among those of any larger one. -/
theorem visitsAt_sublist {p d : Nat} : ∀ r < t.size, ∀ depth, (p, d) ∈ t.visitsAt descend depth r →
    (t.visitsAt descend d p).Sublist (t.visitsAt descend depth r) := by
  refine h.ordered.induction fun r hr ih depth hmem => ?_
  rw [h.ordered.visitsAt_eq hr, List.mem_cons] at hmem
  rcases hmem with hhead | hbelow
  · cases hhead
    exact List.Sublist.refl _
  · rw [h.ordered.visitsAt_eq hr]
    split at hbelow
    · next hr' =>
      obtain ⟨c, hc, hvisit⟩ := List.mem_flatMap.1 hbelow
      rw [if_pos hr', List.flatMap_def]
      exact ((ih c hc (depth + 1) hvisit).trans
        (List.sublist_flatten_of_mem (List.mem_map_of_mem hc))).trans (List.sublist_cons_self _ _)
    · cases hbelow

/-- Below a node that is visited and is an ancestor of another visited one, the walk goes on with the
children one after the other. -/
theorem exists_sublist {p : Nat} (hi : i ∈ (t.visits descend).map Prod.fst) (hp : t.IsAncestor p i) :
    ∃ d, ((p, d) :: (t.children p).flatMap (t.visitsAt descend (d + 1))).Sublist (t.visits descend) := by
  obtain ⟨hi', hopen⟩ := h.mem_map_visits.1 hi
  obtain ⟨k, hk⟩ := hp
  have hpsize : p < t.size := by
    have hle := h.climb_le hk
    omega
  have hmem : p ∈ (t.visits descend).map Prod.fst := by
    refine h.mem_map_visits.2 ⟨hpsize, ?_⟩
    rintro a ⟨j, hj⟩
    refine hopen a ⟨k + 1 + j, ?_⟩
    rw [Nat.add_assoc, climb_of_climb hk]
    exact hj
  obtain ⟨⟨p, d⟩, hvisit, rfl⟩ := List.mem_map.1 hmem
  refine ⟨d, ?_⟩
  have hsub := h.visitsAt_sublist root h.root_lt 0 hvisit
  rwa [h.ordered.visitsAt_eq hpsize, if_pos (hopen _ ⟨k, hk⟩)] at hsub

/-- A visited node of a subtree is visited by the walk of that subtree. -/
theorem exists_visit {r : Nat} (hi : i ∈ (t.visits descend).map Prod.fst) (hr : r < t.size)
    (hsub : t.InSubtree r i) (depth : Nat) : i ∈ (t.visitsAt descend depth r).map Prod.fst := by
  obtain ⟨-, hopen⟩ := h.mem_map_visits.1 hi
  obtain ⟨k, hk⟩ := hsub
  refine List.mem_map.2 ⟨(i, depth + k), (h.mem_visitsAt r hr _ _).2 ⟨k, rfl, hk, ?_⟩, rfl⟩
  exact fun j _ a ha => hopen a ⟨j, ha⟩

theorem parent_first {p c : Nat} (hp : t.parent? c = some p) (hc : c ∈ (t.visits descend).map Prod.fst) :
    [p, c].Sublist ((t.visits descend).map Prod.fst) := by
  obtain ⟨d, hsub⟩ := h.exists_sublist hc ⟨0, hp⟩
  have hmem := (h.mem_children p c).2 hp
  have hvisit := h.exists_visit hc (h.ordered p c hmem).2 ⟨0, rfl⟩ (d + 1)
  refine List.Sublist.trans ?_ (hsub.map Prod.fst)
  rw [List.map_cons, List.map_flatMap, List.cons_sublist_cons, List.singleton_sublist]
  exact List.mem_flatMap.2 ⟨c, hmem, hvisit⟩

theorem siblings_in_order {p c d i j : Nat} (hcd : [c, d].Sublist (t.children p)) (hi : t.InSubtree c i)
    (hj : t.InSubtree d j) (hvi : i ∈ (t.visits descend).map Prod.fst)
    (hvj : j ∈ (t.visits descend).map Prod.fst) : [i, j].Sublist ((t.visits descend).map Prod.fst) := by
  have hc : c ∈ t.children p := hcd.subset List.mem_cons_self
  have hd : d ∈ t.children p := hcd.subset (List.mem_cons_of_mem _ List.mem_cons_self)
  have habove : t.IsAncestor p i := by
    obtain ⟨k, hk⟩ := hi
    exact ⟨k, climb_succ_eq_some_iff.2 ⟨c, hk, (h.mem_children p c).1 hc⟩⟩
  obtain ⟨depth, hsub⟩ := h.exists_sublist hvi habove
  have hleft := h.exists_visit hvi (h.ordered p c hc).2 hi (depth + 1)
  have hright := h.exists_visit hvj (h.ordered p d hd).2 hj (depth + 1)
  have hboth : [i, j].Sublist ((t.visitsAt descend (depth + 1) c).map Prod.fst ++
      (t.visitsAt descend (depth + 1) d).map Prod.fst) :=
    (List.singleton_sublist.2 hleft).append (List.singleton_sublist.2 hright)
  have hchildren := (hcd.flatMap (t.visitsAt descend (depth + 1))).map Prod.fst
  rw [List.flatMap_cons, List.flatMap_cons, List.flatMap_nil, List.append_nil, List.map_append] at hchildren
  exact ((hboth.trans hchildren).trans ((List.sublist_cons_self _ _).map Prod.fst)).trans
    (hsub.map Prod.fst)

end Linked

/-! ### Whole trees -/

/-- The visits are those of a walk in preorder that does not go on below some nodes: of every node that
can be reached, once, parents and earlier subtrees first, each with its number of steps to the root. -/
structure Preorder (t : Tree) (descend : Nat → Bool) (visits : List (Nat × Nat)) : Prop where
  reached : ∀ i, i ∈ visits.map Prod.fst ↔ i < t.size ∧ ∀ a, t.IsAncestor a i → descend a = true
  once : (visits.map Prod.fst).Nodup
  parents : ∀ p c, t.parent? c = some p → c ∈ visits.map Prod.fst → [p, c].Sublist (visits.map Prod.fst)
  siblings : ∀ p c d, [c, d].Sublist (t.children p) → ∀ i j, t.InSubtree c i → t.InSubtree d j →
    i ∈ visits.map Prod.fst → j ∈ visits.map Prod.fst → [i, j].Sublist (visits.map Prod.fst)
  depth : ∀ i depth, (i, depth) ∈ visits → t.climb depth i = some root

/-- However a tree was built, every walk of it that decides by the node alone whether it goes on below it
ends, and visits in preorder the nodes below whose ancestors it goes on.  A walk that goes on everywhere
visits all nodes. -/
theorem walk_in_preorder (h : t.Built) (descend : Nat → Bool) :
    (∀ seen, t.Walked (note descend) 0 [root] [] seen ↔ seen = t.visits descend) ∧
      t.Preorder descend (t.visits descend) ∧
      ((t.visits fun _ => true).map Prod.fst).Perm (List.range t.size) := by
  have hlinked := h.linked
  refine ⟨fun seen => hlinked.ordered.walked_note_iff hlinked.root_lt, ?_, ?_⟩
  · exact {
      reached := fun i => hlinked.mem_map_visits
      once := hlinked.nodup_visitsAt root hlinked.root_lt 0
      parents := fun p c => hlinked.parent_first
      siblings := fun p c d hcd i j => hlinked.siblings_in_order hcd
      depth := fun i depth hvisit => (hlinked.mem_visits.1 hvisit).1 }
  · refine (List.perm_ext_iff_of_nodup (hlinked.nodup_visitsAt root hlinked.root_lt 0) List.nodup_range).2 ?_
    intro i
    rw [← visits_eq, hlinked.mem_map_visits, List.mem_range]
    exact ⟨fun hi => hi.1, fun hi => ⟨hi, fun _ _ => rfl⟩⟩

/-- A tree whose nodes were added here and there, one of them below a token.  The walk does not go on below
the second child of the root, so it misses the fifth node. -/
theorem walk_in_preorder_interleaved : ∃ t : Tree, t.Built ∧ t.size = 6 ∧
    (t.visits fun i => i ≠ 2) = [(0, 0), (1, 1), (3, 2), (2, 1), (4, 1)] ∧
    t.Preorder (fun i => i ≠ 2) (t.visits fun i => i ≠ 2) := by
  have hbuilt := (((((Built.root []).attach (p := 0) (by decide) (.token {})).attach (p := 0) (by decide)
    (.label [])).attach (p := 1) (by decide) (.label [])).attach (p := 0) (by decide) (.label [])).attach
      (p := 2) (by decide) (.token {})
  exact ⟨_, hbuilt, rfl, by decide, (walk_in_preorder hbuilt _).2.1⟩

end Tree

end MicroLang
