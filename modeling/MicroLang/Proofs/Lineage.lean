import MicroLang.Proofs.Arena

/-!
# Parents and ancestors

Every node but the root knows its parent, and every node knows its children.  The two agree: a node is
among the children of another one, and then once, exactly if that one is its parent.  This holds of the
tree that has only a root, and adding a node below any other one keeps it up, so it holds however a tree
was built and in whatever order its nodes were added.

From any node the parents lead to the root.  `climb` counts the steps: it gives the node that so many
steps up lead to.  Numbers get smaller on the way up, so no node is met twice, and the number of steps
between a node and one above it is determined.
-/

namespace MicroLang

namespace Tree

variable {t : Tree} {i p c parent : Nat} {content : Content}

/-! ### Parents and children -/

/-- The parent of the node at an index; the root has none. -/
def parent? (t : Tree) (i : Nat) : Option Nat := t.nodes[i]?.bind Node.parent

theorem parent?_ofRoot (label : Text) (i : Nat) : (ofRoot label).parent? i = none := by
  cases i <;> rfl

theorem lt_size_of_parent? (h : t.parent? i = some p) : i < t.size := by
  obtain ⟨n, hn, -⟩ := Option.bind_eq_some_iff.1 h
  exact lt_size hn

theorem parent?_attach_size : (t.attach parent content).parent? t.size = some parent := by
  rw [parent?, getElem?_attach_size]
  rfl

/-- Nodes keep their parents. -/
theorem parent?_attach_of_lt (hi : i < t.size) : (t.attach parent content).parent? i = t.parent? i := by
  unfold parent?
  by_cases hip : i = parent
  · subst hip
    obtain ⟨n, hn⟩ := exists_node hi
    rw [getElem?_attach_parent hn, hn]
    rfl
  · rw [getElem?_attach_of_ne hi hip]

/-- Only the parent of a new node gets another child. -/
theorem children_attach_other (hp : p ≠ parent) : (t.attach parent content).children p = t.children p := by
  rcases Nat.lt_trichotomy p t.size with hlt | rfl | hgt
  · exact children_attach_of_ne hlt hp
  · rw [children_attach_size, children_of_size_le (Nat.le_refl _)]
  · rw [children_of_size_le (by rw [size_attach]; omega), children_of_size_le (by omega)]

theorem mem_children_attach_iff (hparent : parent < t.size) :
    c ∈ (t.attach parent content).children p ↔ c ∈ t.children p ∨ p = parent ∧ c = t.size := by
  by_cases hp : p = parent
  · subst hp
    simp [children_attach_parent hparent]
  · simp [children_attach_other hp, hp]

/-- Parents and children agree, and every node but the root has a parent. -/
structure Linked (t : Tree) : Prop where
  ordered : t.Ordered
  root_lt : root < t.size
  mem_children : ∀ p c, c ∈ t.children p ↔ t.parent? c = some p
  nodup : ∀ p, (t.children p).Nodup
  exists_parent : ∀ i < t.size, i ≠ root → ∃ p, t.parent? i = some p

theorem linked_ofRoot (label : Text) : (ofRoot label).Linked where
  ordered := ordered_ofRoot label
  root_lt := Nat.zero_lt_one
  mem_children := by
    intro p c
    have hnil : (ofRoot label).children p = [] := by cases p <;> rfl
    simp [hnil, parent?_ofRoot]
  nodup := by
    intro p
    have hnil : (ofRoot label).children p = [] := by cases p <;> rfl
    simp [hnil]
  exists_parent := by
    intro i hi hne
    rw [size_ofRoot] at hi
    exact absurd (Nat.lt_one_iff.1 hi) hne

theorem Linked.attach (h : t.Linked) (hparent : parent < t.size) (content : Content) :
    (t.attach parent content).Linked where
  ordered := h.ordered.attach hparent
  root_lt := by
    have hroot := h.root_lt
    rw [size_attach]
    omega
  mem_children := by
    intro p c
    rw [mem_children_attach_iff hparent, h.mem_children]
    by_cases hnew : c = t.size
    · -- only the new node is a child of its parent
      subst hnew
      have hold : t.parent? t.size ≠ some p := fun hp => absurd (lt_size_of_parent? hp) (Nat.lt_irrefl _)
      simp [parent?_attach_size, hold, eq_comm]
    · by_cases hc : c < t.size
      · simp [parent?_attach_of_lt hc, hnew]
      · have hold : t.parent? c ≠ some p := fun hp => hc (lt_size_of_parent? hp)
        have hnone : (t.attach parent content).parent? c ≠ some p := by
          intro hp
          have hlt := lt_size_of_parent? hp
          rw [size_attach] at hlt
          omega
        simp [hold, hnew, hnone]
  nodup := by
    intro p
    by_cases hp : p = parent
    · subst hp
      rw [children_attach_parent hparent, List.nodup_append]
      refine ⟨h.nodup p, by simp, ?_⟩
      intro c hc d hd
      have hchild := h.ordered p c hc
      rw [List.mem_singleton.1 hd]
      omega
    · rw [children_attach_other hp]
      exact h.nodup p
  exists_parent := by
    intro i hi hne
    rw [size_attach] at hi
    by_cases hnew : i = t.size
    · exact ⟨parent, by rw [hnew, parent?_attach_size]⟩
    · have hold : i < t.size := by omega
      rw [parent?_attach_of_lt hold]
      exact h.exists_parent i hold hne

/-- However a tree was built, its parents and children agree. -/
theorem Built.linked (h : Built t) : t.Linked :=
  h.induction linked_ofRoot fun _ _ content ht hparent => ht.attach hparent content

/-! ### Steps up -/

/-- The node that `k` steps from parent to parent lead to, starting at `i`. -/
def climb (t : Tree) : Nat → Nat → Option Nat
  | 0, i => some i
  | k + 1, i => (t.climb k i).bind t.parent?

/-- The node `a` is above the node `i`. -/
def IsAncestor (t : Tree) (a i : Nat) : Prop := ∃ k, t.climb (k + 1) i = some a

/-- The node `i` is in the subtree at `r`, whose root belongs to it. -/
def InSubtree (t : Tree) (r i : Nat) : Prop := ∃ k, t.climb k i = some r

variable {k k' a r : Nat}

theorem climb_succ_eq_some_iff :
    t.climb (k + 1) i = some a ↔ ∃ c, t.climb k i = some c ∧ t.parent? c = some a :=
  Option.bind_eq_some_iff

theorem climb_add (m k : Nat) : t.climb (m + k) i = (t.climb m i).bind (t.climb k) := by
  induction k with
  | zero =>
    show t.climb m i = (t.climb m i).bind some
    rw [Option.bind_fun_some]
  | succ k ih =>
    show (t.climb (m + k) i).bind t.parent? = (t.climb m i).bind fun c => (t.climb k c).bind t.parent?
    rw [ih, Option.bind_assoc]

/-- More steps from `i` are steps from the node that the first ones lead to. -/
theorem climb_of_climb (h : t.climb k i = some c) (m : Nat) : t.climb (k + m) i = t.climb m c := by
  rw [climb_add, h]
  rfl

namespace Linked

variable (h : t.Linked)

include h

theorem parent_lt (hp : t.parent? c = some p) : p < c := (h.ordered p c ((h.mem_children p c).2 hp)).1

theorem climb_le (hk : t.climb k i = some a) : a + k ≤ i := by
  induction k generalizing a with
  | zero => exact Nat.le_of_eq (Option.some.inj hk).symm
  | succ k ih =>
    obtain ⟨c, hc, hp⟩ := climb_succ_eq_some_iff.1 hk
    have hle := ih hc
    have hlt := h.parent_lt hp
    omega

/-- The number of steps from a node to one above it is determined. -/
theorem climb_inj (hk : t.climb k i = some a) (hk' : t.climb k' i = some a) : k = k' := by
  have hno : ∀ {m n : Nat}, t.climb m i = some a → t.climb n i = some a → ¬m < n := by
    intro m n hm hn hlt
    obtain ⟨d, rfl⟩ := Nat.exists_eq_add_of_lt hlt
    rw [Nat.add_assoc, climb_of_climb hm] at hn
    have hle := h.climb_le hn
    omega
  have hle := hno hk hk'
  have hge := hno hk' hk
  omega

/-- Siblings have no node in common. -/
theorem eq_of_siblings (hk : t.climb k i = some c) (hk' : t.climb k' i = some a) (hc : t.parent? c = some p)
    (ha : t.parent? a = some p) : c = a := by
  have hup : t.climb (k + 1) i = some p := climb_succ_eq_some_iff.2 ⟨c, hk, hc⟩
  have hup' : t.climb (k' + 1) i = some p := climb_succ_eq_some_iff.2 ⟨a, hk', ha⟩
  cases Nat.succ.inj (h.climb_inj hup hup')
  exact Option.some.inj (hk.symm.trans hk')

/-- From any node the parents lead to the root. -/
theorem exists_climb_root : ∀ i < t.size, ∃ k, t.climb k i = some root := by
  intro i
  induction i using Nat.strongRecOn with
  | ind i ih =>
    intro hi
    by_cases hroot : i = root
    · exact ⟨0, by rw [hroot]; rfl⟩
    · obtain ⟨p, hp⟩ := h.exists_parent i hi hroot
      have hlt := h.parent_lt hp
      obtain ⟨k, hk⟩ := ih p hlt (by omega)
      refine ⟨1 + k, ?_⟩
      rw [climb_of_climb (c := p) (by exact hp)]
      exact hk

/-- Nothing is above the root. -/
theorem not_isAncestor_root : ¬t.IsAncestor a root := by
  rintro ⟨k, hk⟩
  have hle := h.climb_le hk
  have hroot : root = 0 := rfl
  omega

/-- Every node above `i` is met on the way to the root. -/
theorem lt_of_climb (hroot : t.climb k i = some root) (ha : t.climb (k' + 1) i = some a) : k' < k := by
  refine Nat.not_le.1 fun hle => ?_
  obtain ⟨d, rfl⟩ := Nat.exists_eq_add_of_le hle
  rw [Nat.add_assoc, climb_of_climb hroot] at ha
  exact h.not_isAncestor_root ⟨d, ha⟩

end Linked

/-- Only nodes are in subtrees of nodes. -/
theorem lt_size_of_climb (hr : r < t.size) (hk : t.climb k i = some r) : i < t.size := by
  cases k with
  | zero => rwa [Option.some.inj hk]
  | succ k =>
    rw [Nat.add_comm, climb_add] at hk
    obtain ⟨p, hp, -⟩ := Option.bind_eq_some_iff.1 hk
    exact lt_size_of_parent? hp

end Tree

end MicroLang
