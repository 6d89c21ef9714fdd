import Mathlib.Data.List.Nodup
import MicroLang.Proofs.Lineage
import MicroLang.Proofs.Yield

/-!
# Trees under insertions

A tree is changed from outside by asking for new nodes, labels or tokens, each below a node that is named by
an integer.  The integer may name no node; then the answer is an error and the tree stays as it is.  All that
a sequence of insertions can do is therefore to attach nodes below nodes that are there, one after the
other, and what attaching keeps holds behind every sequence, whatever the integers in it are.
-/

namespace MicroLang

/-- A request for a new node below the node with a number. -/
inductive Insertion where
  | label (parent : Int) (name : Text)
  | token (parent : Int) (tok : Token)
deriving DecidableEq, Repr

namespace Insertion

/-- The number that should name the parent. -/
def parent : Insertion → Int
  | .label parent _ => parent
  | .token parent _ => parent

def content : Insertion → Content
  | .label _ name => .label name
  | .token _ tok => .token tok

end Insertion

namespace Tree

/-- The answer to an insertion, and the tree behind it. -/
def insert (t : Tree) (call : Insertion) : Except StrayNode Nat × Tree :=
  let result :=
    match call with
    | .label parent name => t.addLabel parent name
    | .token parent tok => t.addToken parent tok
  match result with
  | .ok (t', n) => (.ok n, t')
  | .error e => (.error e, t)

/-- The tree behind insertions one after the other. -/
def after (t : Tree) (calls : List Insertion) : Tree := calls.foldl (fun t call => (t.insert call).2) t

/-- The tree that insertions make of a root. -/
def grown (label : Text) (calls : List Insertion) : Tree := (ofRoot label).after calls

variable {t : Tree}

/-! ### One insertion -/

theorem insert_eq (t : Tree) (call : Insertion) :
    t.insert call =
      match t.add call.parent call.content with
      | .ok (t', n) => (.ok n, t')
      | .error e => (.error e, t) := by
  cases call <;> rfl

/-- A number that names a node gets a new last child. -/
theorem insert_of_lt {call : Insertion} {p : Nat} (hp : p < t.size) (hcall : call.parent = p) :
    t.insert call = (.ok t.size, t.attach p call.content) := by
  have hindex : t.index call.parent = .ok p := by
    rw [index, hcall]
    exact if_pos ⟨Int.natCast_nonneg p, hp⟩
  rw [insert_eq, add, hindex]

/-- Any other number leaves the tree alone. -/
theorem insert_of_stray {call : Insertion} (hcall : ¬(0 ≤ call.parent ∧ call.parent < t.size)) :
    t.insert call = (.error { id := call.parent, size := t.size }, t) := by
  have hindex : t.index call.parent = .error { id := call.parent, size := t.size } := by
    rw [index]
    exact if_neg fun h => hcall ⟨h.1, by omega⟩
  rw [insert_eq, add, hindex]

/-- An insertion attaches a node or does nothing. -/
theorem insert_cases (t : Tree) (call : Insertion) :
    (∃ p < t.size, (t.insert call).2 = t.attach p call.content) ∨ (t.insert call).2 = t := by
  by_cases hcall : 0 ≤ call.parent ∧ call.parent < t.size
  · have hp : call.parent.toNat < t.size := by omega
    refine .inl ⟨call.parent.toNat, hp, ?_⟩
    rw [insert_of_lt hp (Int.toNat_of_nonneg hcall.1).symm]
  · exact .inr (by rw [insert_of_stray hcall])

/-! ### Any number of insertions -/

/-- What attaching a node keeps is kept by insertions. -/
theorem after_induction {motive : Tree → Prop}
    (hattach : ∀ t p content, motive t → p < t.size → motive (t.attach p content)) (ht : motive t)
    (calls : List Insertion) : motive (t.after calls) := by
  induction calls generalizing t with
  | nil => exact ht
  | cons call calls ih =>
    have hnext : motive (t.insert call).2 := by
      rcases t.insert_cases call with ⟨p, hp, hinsert⟩ | hinsert
      · rw [hinsert]
        exact hattach t p call.content ht hp
      · rwa [hinsert]
    exact ih hnext

theorem built_grown (label : Text) (calls : List Insertion) : (grown label calls).Built :=
  after_induction (fun _ _ content h hp => h.attach hp content) (.root label) calls

theorem retains_after (t : Tree) (calls : List Insertion) : t.Retains (t.after calls) :=
  after_induction (fun t' p content h _ => h.trans (retains_attach t' p content)) (Retains.refl t) calls

/-- Children stand in the order in which they were added. -/
theorem Built.pairwise_children (h : Built t) : ∀ p, (t.children p).Pairwise (· < ·) := by
  have hkept : t.Ordered ∧ ∀ p, (t.children p).Pairwise (· < ·) := by
    refine h.induction (motive := fun t => t.Ordered ∧ ∀ p, (t.children p).Pairwise (· < ·))
      (fun label => ⟨ordered_ofRoot label, fun p => ?_⟩) ?_
    · have hnil : (ofRoot label).children p = [] := by cases p <;> rfl
      rw [hnil]
      exact List.Pairwise.nil
    · rintro t parent content ⟨hordered, hpairwise⟩ hparent
      refine ⟨hordered.attach hparent, fun p => ?_⟩
      by_cases hp : p = parent
      · rw [hp, children_attach_parent hparent, List.pairwise_append]
        refine ⟨hpairwise parent, List.pairwise_singleton _ _, ?_⟩
        intro c hc d hd
        rw [List.mem_singleton.1 hd]
        exact (hordered parent c hc).2
      · rw [children_attach_other hp]
        exact hpairwise p
  exact hkept.2

/-! ### The representation -/

/-- The two ways in which a tree keeps its links agree, and numbers grow from parents to children. -/
structure Represents (t : Tree) : Prop where
  root_lt : root < t.size
  parent?_eq_none_iff : ∀ i < t.size, t.parent? i = none ↔ i = root
  parent_lt : ∀ c p, t.parent? c = some p → p < c
  mem_children_iff : ∀ p c, c ∈ t.children p ↔ t.parent? c = some p
  count_children : ∀ p c, c ∈ t.children p → (t.children p).count c = 1
  pairwise_children : ∀ p, (t.children p).Pairwise (· < ·)
  label_or_token : ∀ i < t.size,
    (∃ name, t.content? i = some (.label name)) ∨ ∃ tok, t.content? i = some (.token tok)

theorem Built.represents (h : Built t) : t.Represents where
  root_lt := h.linked.root_lt
  parent?_eq_none_iff := by
    intro i hi
    constructor
    · intro hnone
      by_contra hne
      obtain ⟨p, hp⟩ := h.linked.exists_parent i hi hne
      rw [hp] at hnone
      cases hnone
    · rintro rfl
      rw [Option.eq_none_iff_forall_ne_some]
      exact fun p hp => Nat.not_lt_zero p (h.linked.parent_lt hp)
  parent_lt := fun _ _ hp => h.linked.parent_lt hp
  mem_children_iff := h.linked.mem_children
  count_children := fun p _ hc => List.count_eq_one_of_mem (h.linked.nodup p) hc
  pairwise_children := h.pairwise_children
  label_or_token := by
    intro i hi
    obtain ⟨n, hn⟩ := exists_node hi
    have hcontent : t.content? i = some n.content := by rw [content?, hn]; rfl
    rw [hcontent]
    cases n.content with
    | label name => exact .inl ⟨name, rfl⟩
    | token tok => exact .inr ⟨tok, rfl⟩

/-- What becomes of an insertion: below a node that is there it adds the next node, and with a number that
names none it fails and changes nothing. -/
structure Answers (t : Tree) (call : Insertion) : Prop where
  added : ∀ p < t.size, call.parent = p → ∃ t', t.insert call = (.ok t.size, t') ∧ t'.size = t.size + 1 ∧
    t'.parent? t.size = some p ∧ t'.content? t.size = some call.content
  refused : ¬(0 ≤ call.parent ∧ call.parent < t.size) →
    t.insert call = (.error { id := call.parent, size := t.size }, t)

theorem answers (t : Tree) (call : Insertion) : t.Answers call where
  added := fun p hp hcall =>
    ⟨t.attach p call.content, insert_of_lt hp hcall, size_attach _ _ _, parent?_attach_size,
      content?_attach_size _ _ _⟩
  refused := insert_of_stray

theorem node_of_stray {id : Int} (h : ¬(0 ≤ id ∧ id < t.size)) : t.node id = .error { id, size := t.size } := by
  unfold node
  split
  · next hnode =>
    have hlt := lt_size hnode
    exact if_neg fun hid => h ⟨hid, by omega⟩
  · rfl

/-- Behind any insertions, failed ones among them, the links of a tree agree, the next insertion is answered
as it should be, numbers that name no node are refused also by readers, and nodes keep what they hold
whatever comes later. -/
theorem insertions_keep_representation (label : Text) (calls later : List Insertion) (call : Insertion) :
    (grown label calls).Represents ∧ (grown label calls).Answers call ∧
      (∀ id : Int, ¬(0 ≤ id ∧ id < (grown label calls).size) →
        (grown label calls).node id = .error { id, size := (grown label calls).size }) ∧
      ∀ i < (grown label calls).size,
        (grown label (calls ++ later)).content? i = (grown label calls).content? i := by
  refine ⟨(built_grown label calls).represents, answers _ call, fun _ => node_of_stray, fun i hi => ?_⟩
  have hlater : grown label (calls ++ later) = (grown label calls).after later := List.foldl_append
  rw [hlater]
  exact (retains_after _ later).content?_eq hi

/-- Insertions with numbers on either side of the nodes fail in between. -/
example : grown [] [.label 0 [1], .label (-1) [2], .label 2 [3], .label 1 [4]] =
    ⟨#[⟨.label [], none, [1]⟩, ⟨.label [1], some 0, [2]⟩, ⟨.label [4], some 1, []⟩]⟩ := by decide

end Tree

end MicroLang
