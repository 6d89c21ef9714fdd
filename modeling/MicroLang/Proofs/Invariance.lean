import MicroLang.Proofs.PartialTree
import MicroLang.Proofs.Productions

/-!
# Invariants of a parse

A property of states holds all through a parse if it holds at the start and no step of a production breaks
it.  `Upkeep` lists the steps: entering a production, showing the derivation, adding a node, performing an
action, reporting the token ahead, and accepting a token.  Taking a token and judging it are one step, since
in between the state is of no use to anyone.

A step may keep the property only where it is taken: below a node with the right label, or with the right
token ahead.  What is known of a state is its outlook.  It stays true until a token is accepted, and no
production needs it for longer.  A property that is kept by every step wherever it is taken is an
`Invariant`.

The end of the source is accepted once, behind everything else, and is left to whoever uses the invariant:
all other tokens that are accepted can be taken for good.
-/

namespace MicroLang

open Parse

/-! ### Actions in a transcript -/

/-- Whether the record is that of a production. -/
def Trace.isEnter : Trace → Bool
  | .enter _ _ => true
  | _ => false

/-- No record of the action can be mistaken for that of a production. -/
def Silent {α : Type} (action : Bool → Generator → Step α) : Prop :=
  ∀ muted g, (action muted g).records.any Trace.isEnter = false

theorem Generator.silent_emit (muted : Bool) (i : Instruction) (g : Generator) :
    (emit muted i g).records.any Trace.isEnter = false := by
  cases muted <;> rfl

theorem Generator.silent_declare (muted : Bool) (name : Text) (kind : SymbolKind) (g : Generator) :
    (declare muted name kind g).records.any Trace.isEnter = false := by
  unfold declare
  split
  · rfl
  · exact silent_emit _ _ _

namespace Silent

open Generator

theorem start : Silent fun _ => Generator.start := fun _ _ => rfl

theorem finish : Silent Generator.finish := fun _ _ => silent_emit _ _ _

theorem identifier (name : Text) : Silent fun muted => Generator.identifier muted name :=
  fun _ _ => silent_declare _ _ _ _

theorem literal (digits : Text) : Silent fun _ => Generator.literal digits := fun _ _ => rfl

theorem operation (operator : Text) : Silent fun _ => Generator.operation operator := fun _ _ => rfl

theorem combine (left : Operand) (op : Opcode) (right : Operand) :
    Silent fun muted => Generator.combine muted left op right := by
  intro muted g
  show ((declare muted _ _ _).records ++ (Generator.emit muted _ _).records).any _ = false
  rw [List.any_append, silent_declare, silent_emit]
  rfl

theorem assign (source destination : Operand) :
    Silent fun muted => Generator.assign muted source destination := fun _ _ => silent_emit _ _ _

theorem readInto (operand : Operand) : Silent fun muted => Generator.readInto muted operand :=
  fun _ _ => silent_emit _ _ _

theorem writeExpression (operand : Operand) :
    Silent fun muted => Generator.writeExpression muted operand := fun _ _ => silent_emit _ _ _

end Silent

/-- The actions of a parse that mention no name of the source. -/
inductive Routine : {α : Type} → (Bool → Generator → Step α) → Prop
  | start : Routine fun _ => Generator.start
  | literal (digits : Text) : Routine fun _ => Generator.literal digits
  | operation (operator : Text) : Routine fun _ => Generator.operation operator
  | combine (left right : Operand) {op : Opcode} : op = .add ∨ op = .sub →
      Routine fun muted => Generator.combine muted left op right
  | assign (source destination : Operand) : Routine fun muted => Generator.assign muted source destination
  | readInto (operand : Operand) : Routine fun muted => Generator.readInto muted operand
  | writeExpression (operand : Operand) : Routine fun muted => Generator.writeExpression muted operand

theorem Routine.silent {α : Type} {action : Bool → Generator → Step α} (h : Routine action) :
    Silent action := by
  cases h with
  | start => exact .start
  | literal digits => exact .literal digits
  | operation operator => exact .operation operator
  | combine left right _ => exact .combine left _ right
  | assign source destination => exact .assign source destination
  | readInto operand => exact .readInto operand
  | writeExpression operand => exact .writeExpression operand

/-! ### What is known of a state -/

/-- The node at an index is labelled with the nonterminal. -/
def Tree.Labelled (t : Tree) (i : Nat) (n : Nonterminal) : Prop :=
  ∃ node, t.nodes[i]? = some node ∧ node.content = .label n.label

theorem Tree.Labelled.lt_size {t : Tree} {i : Nat} {n : Nonterminal} (h : t.Labelled i n) : i < t.size := by
  obtain ⟨node, hnode, _⟩ := h
  exact Tree.lt_size hnode

theorem Tree.Labelled.mono {t t' : Tree} {i : Nat} {n : Nonterminal} (h : t.Labelled i n)
    (hretains : t.Retains t') : t'.Labelled i n := by
  obtain ⟨node, hnode, hlabel⟩ := h
  obtain ⟨node', hnode', hcontent⟩ := hretains i node hnode
  exact ⟨node', hnode', hcontent.trans hlabel⟩

/-- The labels of some nodes, and perhaps the token ahead. -/
structure Outlook where
  labels : List (Nat × Nonterminal) := []
  ahead : Option Token := none

namespace Outlook

structure Holds (o : Outlook) (s : ParseState) : Prop where
  labels : ∀ l ∈ o.labels, s.tree.Labelled l.1 l.2
  ahead : ∀ tok ∈ o.ahead, s.stream.peek = .ok tok

def look (o : Outlook) (tok : Token) : Outlook := { o with ahead := some tok }

def label (o : Outlook) (node : Nat) (n : Nonterminal) : Outlook :=
  { o with labels := (node, n) :: o.labels }

variable {o : Outlook} {s s' : ParseState}

theorem holds_empty (s : ParseState) : Holds {} s :=
  ⟨List.forall_mem_nil _, fun tok htok => absurd htok (Option.not_mem_none tok)⟩

theorem Holds.mono (h : o.Holds s) (hstream : s'.stream = s.stream) (hretains : s.tree.Retains s'.tree) :
    o.Holds s' where
  labels := fun l hl => (h.labels l hl).mono hretains
  ahead := fun tok htok => by rw [hstream, h.ahead tok htok]

theorem Holds.look (h : o.Holds s) {tok : Token} (hpeek : s.stream.peek = .ok tok) :
    (o.look tok).Holds s where
  labels := h.labels
  ahead := by
    intro tok' htok'
    cases htok'
    exact hpeek

theorem Holds.label (h : o.Holds s) {node : Nat} {n : Nonterminal} (hnode : s.tree.Labelled node n) :
    (o.label node n).Holds s where
  labels := by
    intro l hl
    rcases List.mem_cons.1 hl with rfl | hl
    · exact hnode
    · exact h.labels l hl
  ahead := h.ahead

end Outlook

theorem Parse.exists_of_run_bind {α β : Type} {m : Production α} {f : α → Production β} {s s'' : ParseState}
    {w : β} (h : (m >>= f).run s = .ok w s'') :
    ∃ v s', m.run s = .ok v s' ∧ (f v).run s' = .ok w s'' := by
  cases hrun : m.run s with
  | ok v s' => exact ⟨v, s', rfl, by rwa [run_bind_of_ok hrun] at h⟩
  | error e s' =>
    rw [run_bind_of_error hrun] at h
    cases h

/-- The step takes no token, and the tree keeps its nodes. -/
def Still {α : Type} (m : Production α) : Prop :=
  ∀ s v s', m.run s = .ok v s' → s'.stream = s.stream ∧ s.tree.Retains s'.tree

theorem Parse.Idle.still {α : Type} {m : Production α} (h : Idle m) : Still m := by
  intro s v s' hrun
  obtain ⟨v', generator, transcript, hidle⟩ := h s
  cases hrun.symm.trans hidle
  exact ⟨rfl, .refl _⟩

/-- Adding a node changes the tree only, and only if the parent is there. -/
theorem Parse.run_add_cases (parent : Nat) (content : Content) (s : ParseState) :
    parent < s.tree.size ∧ (add parent content).run s =
      .ok s.tree.size { s with tree := s.tree.attach parent content } ∨
    ∃ e, (add parent content).run s = .error (.stray e) s := by
  by_cases h : parent < s.tree.size
  · exact .inl ⟨h, run_add h content⟩
  · refine .inr ⟨{ id := parent, size := s.tree.size }, ?_⟩
    have hindex : s.tree.index parent = .error { id := parent, size := s.tree.size } := by
      rw [Tree.index, if_neg]
      rintro ⟨-, hlt⟩
      exact h (by rwa [Int.toNat_natCast] at hlt)
    simp only [EStateM.run, add, Tree.add, hindex]

theorem still_add (parent : Nat) (content : Content) : Still (add parent content) := by
  intro s v s' hrun
  rcases run_add_cases parent content s with ⟨_, hadd⟩ | ⟨e, hadd⟩
  · cases hrun.symm.trans hadd
    exact ⟨rfl, Tree.retains_attach _ _ _⟩
  · cases hrun.symm.trans hadd

theorem still_mark (parent : Nat) (k : Kind) : Still (mark parent k) := by
  intro s v s' hrun
  obtain ⟨child, s₁, hadd, hrest⟩ := exists_of_run_bind hrun
  cases hrest
  exact still_add parent _ s child s' hadd

/-! ### What a production keeps -/

section

variable {α β : Type} {I : ParseState → Prop} {m : Production α} {f : α → Production β}

/-- The property survives the production, whether it runs to its end or aborts. -/
def Keeps (I : ParseState → Prop) (m : Production α) : Prop := ∀ s, I s → I (stateOf (m.run s))

/-- The property survives the production wherever the token is ahead. -/
def KeepsAt (I : ParseState → Prop) (tok : Token) (m : Production α) : Prop :=
  ∀ s, I s → s.stream.peek = .ok tok → I (stateOf (m.run s))

theorem Keeps.pure (v : α) : Keeps I (pure v : Production α) := fun _ hs => hs

theorem Keeps.throw (e : Abort) : Keeps I (throw e : Production α) := fun _ hs => hs

/-- Where the first part ends, the second goes on; where it aborts, everything does. -/
theorem stateOf_bind_of_run {s : ParseState} (hm : I (stateOf (m.run s)))
    (hf : ∀ v s', m.run s = .ok v s' → I s' → I (stateOf ((f v).run s'))) :
    I (stateOf ((m >>= f).run s)) := by
  cases hrun : m.run s with
  | ok v s' =>
    rw [hrun] at hm
    rw [run_bind_of_ok hrun]
    exact hf v s' hrun hm
  | error e s' =>
    rw [hrun] at hm
    rw [run_bind_of_error hrun]
    exact hm

theorem stateOf_bind {s : ParseState} (hm : I (stateOf (m.run s))) (hf : ∀ v, Keeps I (f v)) :
    I (stateOf ((m >>= f).run s)) :=
  stateOf_bind_of_run hm fun v s' _ hs' => hf v s' hs'

theorem Keeps.bind (hm : Keeps I m) (hf : ∀ v, Keeps I (f v)) : Keeps I (m >>= f) :=
  fun s hs => stateOf_bind (hm s hs) hf

/-- The property survives the production wherever the outlook is true. -/
def KeepsGiven (I : ParseState → Prop) (o : Outlook) (m : Production α) : Prop :=
  ∀ s, I s → o.Holds s → I (stateOf (m.run s))

/-- What the production yields is so, seen from where it starts. -/
def Returns (R : ParseState → α → Prop) (m : Production α) : Prop := ∀ s v s', m.run s = .ok v s' → R s v

/-- What the last part yields is what the whole yields. -/
theorem Returns.last {P : β → Prop} (hf : ∀ v, Returns (fun _ => P) (f v)) :
    Returns (fun _ => P) (m >>= f) := by
  intro s w s'' hrun
  obtain ⟨v, s', _, hrest⟩ := exists_of_run_bind hrun
  exact hf v s' w s'' hrest

variable {o : Outlook}

theorem Keeps.given (h : Keeps I m) (o : Outlook) : KeepsGiven I o m := fun s hs _ => h s hs

theorem Keeps.of_given (h : KeepsGiven I {} m) : Keeps I m := fun s hs => h s hs (Outlook.holds_empty s)

namespace KeepsGiven

/-- Behind a part that may take a token the outlook is lost. -/
theorem bind (hm : KeepsGiven I o m) (hf : ∀ v, Keeps I (f v)) : KeepsGiven I o (m >>= f) :=
  fun s hs ho => stateOf_bind (hm s hs ho) hf

/-- The rest may rely on what the first part yields. -/
theorem bind_of_returns {R : ParseState → α → Prop} (hm : KeepsGiven I o m) (hreturns : Returns R m)
    (hf : ∀ s v, I s → o.Holds s → R s v → Keeps I (f v)) : KeepsGiven I o (m >>= f) := by
  intro s hs ho
  refine stateOf_bind_of_run (hm s hs ho) fun v s' hrun hs' => ?_
  exact hf s v hs ho (hreturns s v s' hrun) s' hs'

/-- Behind a step that takes no token the outlook is what it was. -/
theorem step (hm : Keeps I m) (hstill : Still m) (hf : ∀ v, KeepsGiven I o (f v)) :
    KeepsGiven I o (m >>= f) := by
  intro s hs ho
  refine stateOf_bind_of_run (hm s hs) fun v s' hrun hs' => ?_
  obtain ⟨hstream, hretains⟩ := hstill s v s' hrun
  exact hf v s' hs' (ho.mono hstream hretains)

theorem peek {f : Token → Production β} (hf : ∀ tok, KeepsGiven I (o.look tok) (f tok)) :
    KeepsGiven I o (Parse.peek >>= f) := by
  intro s hs ho
  cases hpeek : s.stream.peek with
  | ok tok =>
    rw [run_bind_of_ok (run_peek_of_ok hpeek)]
    exact hf tok s hs (ho.look hpeek)
  | error e =>
    rw [run_bind_of_error (run_peek_of_error hpeek)]
    exact hs

/-- The label of a new node is known. -/
theorem branch {parent : Nat} {n : Nonterminal} {f : Nat → Production β}
    (hm : Keeps I (Parse.branch parent n)) (hf : ∀ child, KeepsGiven I (o.label child n) (f child)) :
    KeepsGiven I o (Parse.branch parent n >>= f) := by
  intro s hs ho
  refine stateOf_bind_of_run (hm s hs) fun child s' hrun hs' => ?_
  rcases run_add_cases parent (.label n.label) s with ⟨_, hadd⟩ | ⟨e, hadd⟩
  · cases hrun.symm.trans hadd
    have hkept : o.Holds { s with tree := s.tree.attach parent (.label n.label) } :=
      ho.mono rfl (Tree.retains_attach _ _ _)
    exact hf _ _ hs' (hkept.label ⟨_, Tree.getElem?_attach_size, rfl⟩)
  · cases hrun.symm.trans hadd

end KeepsGiven

end

/-! ### Steps of a production -/

/-- No step of a production breaks the property, if it is taken where productions take it. -/
structure Upkeep (I : ParseState → Prop) : Prop where
  enter (n : Nonterminal) : Keeps I (enter n.name)
  derive (n : Nonterminal) : Keeps I (derive n)
  symbol (parent : Nat) (symbol : GrammarSymbol) : Keeps I (addSymbol parent symbol)
  /-- Tokens that are no identifiers become leaves before they are accepted. -/
  leaf {o : Outlook} {node : Nat} {n : Nonterminal} : (node, n) ∈ o.labels → n ≠ .ident → ∀ tok,
    KeepsGiven I o (leaf node tok)
  accept {k : Kind} : k ≠ .eofSym → Keeps I (accept k)
  expected {o : Outlook} {tok : Token} : tok ∈ o.ahead → ∀ kinds, KeepsGiven I o (expected tok kinds)
  ident {o : Outlook} {node : Nat} : (node, .ident) ∈ o.labels → KeepsGiven I o (ident node)
  /-- The target of an assignment is attached first and declared once its value is computed. -/
  target {o : Outlook} {node : Nat} {tok : Token} : (node, .ident) ∈ o.labels → tok ∈ o.ahead →
    tok.kind = .id → KeepsGiven I o (acceptIdentifier node)
  declare {s : ParseState} {tok : Token} : I s → s.stream.peek = .ok tok → tok.kind = .id →
    Keeps I (act fun muted => Generator.identifier muted tok.literal)
  act {α : Type} {action : Bool → Generator → Step α} : Routine action → Keeps I (act action)

/-- No step of a production breaks the property, wherever it is taken. -/
structure Invariant (I : ParseState → Prop) : Prop where
  enter (n : Nonterminal) : Keeps I (enter n.name)
  derive (n : Nonterminal) : Keeps I (derive n)
  add (parent : Nat) (content : Content) : Keeps I (add parent content)
  act {α : Type} {action : Bool → Generator → Step α} : Silent action → Keeps I (act action)
  expected (tok : Token) (kinds : List Kind) : KeepsAt I tok (expected tok kinds)
  accept {k : Kind} : k ≠ .eofSym → Keeps I (accept k)

/-! ### The productions -/

namespace Parse

/-- What is accepted as an identifier is the token ahead. -/
theorem returns_acceptIdentifier (node : Nat) :
    Returns (fun s tok => s.stream.peek = .ok tok) (acceptIdentifier node) := by
  intro s tok s' hrun
  obtain ⟨_, s₁, henter, hrun⟩ := exists_of_run_bind hrun
  obtain ⟨tok', s₂, haccept, hrun⟩ := exists_of_run_bind hrun
  obtain ⟨_, s₃, _, hrun⟩ := exists_of_run_bind hrun
  obtain ⟨_, s₄, _, hrun⟩ := exists_of_run_bind hrun
  cases hrun
  obtain ⟨transcript, henter'⟩ := run_enter Nonterminal.ident.name s
  cases henter.symm.trans henter'
  cases hpeek : s.stream.peek with
  | ok ahead =>
    obtain ⟨_, _, _, haccept', _⟩ := run_accept_cases (s := { s with transcript }) hpeek .id
    cases haccept.symm.trans haccept'
    rfl
  | error e =>
    obtain ⟨_, haccept'⟩ := run_accept_of_error (s := { s with transcript }) hpeek .id
    cases haccept.symm.trans haccept'

theorem returns_addOp (node : Nat) : Returns (fun _ op => op = .add ∨ op = .sub) (addOp node) := by
  refine .last fun _ => .last fun tok => ?_
  split
  · refine .last fun _ => .last fun _ => .last fun op s v s' hrun => ?_
    obtain ⟨_, hact⟩ := run_act (fun _ => Generator.operation op.literal) s
    cases hrun.symm.trans hact
    rw [Generator.operation]
    split
    · exact .inl rfl
    · exact .inr rfl
  · refine .last fun _ s v s' hrun => ?_
    cases hrun
    exact .inl rfl

end Parse

namespace Upkeep

variable {I : ParseState → Prop} (h : Upkeep I) {o : Outlook}

include h

theorem branch (parent : Nat) (n : Nonterminal) : Keeps I (branch parent n) := h.symbol parent _

theorem mark (parent : Nat) (k : Kind) : Keeps I (mark parent k) :=
  (h.symbol parent _).bind fun _ => .pure ()

theorem addOp {node : Nat} (hnode : (node, .addOp) ∈ o.labels) : KeepsGiven I o (addOp node) := by
  refine .step (h.enter .addOp) (idle_enter _).still fun _ => .peek fun tok => ?_
  split
  · next hop =>
    have hkind : tok.kind ≠ .eofSym := by
      intro heof
      rw [heof] at hop
      cases hop
    exact (h.leaf (o := o.look tok) hnode (by decide) tok).bind fun _ => (h.derive _).bind fun _ =>
      (h.accept hkind).bind fun _ => h.act (.operation _)
  · exact (h.expected rfl _).bind fun _ => .pure _

theorem primary {e : Nat → Production Operand} (he : ∀ inner, Keeps I (e inner)) {node : Nat}
    (hnode : (node, .primary) ∈ o.labels) : KeepsGiven I o (primary e node) := by
  refine .step (h.enter .primary) (idle_enter _).still fun _ => .peek fun tok => ?_
  split
  · refine Keeps.given ?_ _
    refine (h.mark _ _).bind fun _ => (h.branch _ _).bind fun inner => (h.mark _ _).bind fun _ =>
      (h.derive _).bind fun _ => (h.accept (by decide)).bind fun _ => ?_
    exact (he inner).bind fun value => (h.accept (by decide)).bind fun _ => .pure value
  · exact .branch (h.branch _ _) fun name => .step (h.derive _) (idle_derive _).still fun _ =>
      h.ident List.mem_cons_self
  · exact (h.leaf (o := o.look tok) hnode (by decide) tok).bind fun _ => (h.derive _).bind fun _ =>
      (h.accept (by decide)).bind fun _ => h.act (.literal _)
  · exact (h.expected rfl _).bind fun _ => .pure _

theorem expression (bound node : Nat) : Keeps I (expression bound node) := by
  induction bound generalizing node with
  | zero => exact .throw _
  | succ bound ih =>
    refine .of_given (.step (h.enter .expression) (idle_enter _).still fun _ =>
      .branch (h.branch _ _) fun first => .step (h.derive _) (idle_derive _).still fun _ =>
        (h.primary ih List.mem_cons_self).bind fun left => .of_given (.peek fun tok => ?_))
    split
    · refine .branch (h.branch _ _) fun operator => .branch (h.branch _ _) fun rest =>
        .step (h.derive _) (idle_derive _).still fun _ => ?_
      refine .bind_of_returns (h.addOp ?_) (returns_addOp operator) fun _ op _ _ hop =>
        (ih rest).bind fun right => h.act (.combine left right hop)
      exact List.mem_cons_of_mem _ List.mem_cons_self
    · exact (Keeps.pure left).given _

theorem commaTail {n : Nonterminal} {list : Nat → Production Unit} (hlist : ∀ rest, Keeps I (list rest))
    (node : Nat) : Keeps I (commaTail node n list) := by
  refine .of_given (.peek fun tok => Keeps.given ?_ _)
  split
  · exact (h.mark _ _).bind fun _ => (h.branch _ _).bind fun rest => (h.derive _).bind fun _ =>
      (h.accept (by decide)).bind fun _ => hlist rest
  · exact .pure ()

theorem idList (bound node : Nat) : Keeps I (idList bound node) := by
  induction bound generalizing node with
  | zero => exact .throw _
  | succ bound ih =>
    refine .of_given (.step (h.enter .idList) (idle_enter _).still fun _ =>
      .branch (h.branch _ _) fun name => .step (h.derive _) (idle_derive _).still fun _ => ?_)
    exact (h.ident List.mem_cons_self).bind fun operand => (h.act (.readInto operand)).bind fun _ =>
      h.commaTail ih node

theorem exprList (bound node : Nat) : Keeps I (exprList bound node) := by
  induction bound generalizing node with
  | zero => exact .throw _
  | succ bound ih =>
    refine (h.enter .exprList).bind fun _ => (h.branch _ _).bind fun value => (h.derive _).bind fun _ => ?_
    exact (h.expression (bound + 1) value).bind fun operand =>
      (h.act (.writeExpression operand)).bind fun _ => h.commaTail ih node

theorem enclosed {k : Kind} (hk : k ≠ .eofSym) {n : Nonterminal} {list : Nat → Production Unit}
    (hlist : ∀ l, Keeps I (list l)) (node : Nat) : Keeps I (enclosed node k n list) := by
  refine (h.mark _ _).bind fun _ => (h.mark _ _).bind fun _ => (h.branch _ _).bind fun l =>
    (h.mark _ _).bind fun _ => (h.mark _ _).bind fun _ => (h.derive _).bind fun _ => ?_
  exact (h.accept hk).bind fun _ => (h.accept (by decide)).bind fun _ => (hlist l).bind fun _ =>
    (h.accept (by decide)).bind fun _ => (h.accept (by decide)).bind fun _ => .pure ()

theorem assignment {tok : Token} (htok : tok ∈ o.ahead) (hkind : tok.kind = .id) {name : Nat}
    (hname : (name, .ident) ∈ o.labels) (bound value : Nat) :
    KeepsGiven I o (acceptIdentifier name >>= fun target => Parse.accept .assignOp >>= fun _ =>
      Parse.expression bound value >>= fun source =>
        Parse.act (fun muted => Generator.identifier muted target.literal) >>= fun destination =>
          Parse.act (fun muted => Generator.assign muted source destination) >>= fun _ =>
            Parse.accept .semiColon >>= fun _ => pure ()) := by
  refine (h.target hname htok hkind).bind_of_returns (returns_acceptIdentifier name) ?_
  intro s target hs ho hpeek
  have htarget : target.kind = .id := by
    cases (ho.ahead tok htok).symm.trans hpeek
    exact hkind
  exact (h.accept (by decide)).bind fun _ => (h.expression bound value).bind fun source =>
    (h.declare hs hpeek htarget).bind fun destination => (h.act (.assign source destination)).bind fun _ =>
      (h.accept (by decide)).bind fun _ => .pure ()

theorem statement (bound node : Nat) : Keeps I (statement bound node) := by
  refine .of_given (.step (h.enter .statement) (idle_enter _).still fun _ => .peek fun tok => ?_)
  split
  · next hkind =>
    exact .branch (h.branch _ _) fun name => .step (h.mark _ _) (still_mark _ _) fun _ =>
      .branch (h.branch _ _) fun value => .step (h.mark _ _) (still_mark _ _) fun _ =>
        .step (h.derive _) (idle_derive _).still fun _ =>
          h.assignment rfl hkind (List.mem_cons_of_mem _ List.mem_cons_self) bound value
  · exact (h.enclosed (by decide) (h.idList bound) node).given _
  · exact (h.enclosed (by decide) (h.exprList bound) node).given _
  · exact h.expected rfl _

theorem statementList (bound node : Nat) : Keeps I (statementList bound node) := by
  induction bound generalizing node with
  | zero => exact .throw _
  | succ bound ih =>
    refine (h.enter .statementList).bind fun _ => (h.branch _ _).bind fun first =>
      (h.derive _).bind fun _ => (h.statement (bound + 1) first).bind fun _ =>
        .of_given (.peek fun tok => Keeps.given ?_ _)
    split
    · exact (h.branch _ _).bind fun rest => (h.derive _).bind fun _ => ih rest
    · exact .pure ()

theorem program (bound node : Nat) : Keeps I (program bound node) := by
  refine (h.enter .program).bind fun _ => (h.mark _ _).bind fun _ => (h.branch _ _).bind fun list =>
    (h.mark _ _).bind fun _ => (h.derive _).bind fun _ => (h.act .start).bind fun _ => ?_
  exact (h.accept (by decide)).bind fun _ => (h.statementList bound list).bind fun _ =>
    (h.accept (by decide)).bind fun _ => .pure ()

/-- The property holds up to the end of the source. -/
theorem goalBody (bound : Nat) : Keeps I (goalBody bound) :=
  (h.enter .systemGoal).bind fun _ => (h.branch _ _).bind fun body => (h.mark _ _).bind fun _ =>
    (h.derive _).bind fun _ => h.program bound body

end Upkeep

/-! ### Steps that are kept wherever they are taken -/

/-- A property that no step breaks, wherever it is taken, if declaring a name does not break it. -/
theorem upkeep_of_steps {I : ParseState → Prop} (henter : ∀ n : Nonterminal, Keeps I (enter n.name))
    (hderive : ∀ n, Keeps I (derive n)) (hadd : ∀ parent content, Keeps I (add parent content))
    (haccept : ∀ k, k ≠ .eofSym → Keeps I (accept k))
    (hexpected : ∀ tok kinds, KeepsAt I tok (expected tok kinds))
    (hdeclare : ∀ name, Keeps I (act fun muted => Generator.identifier muted name))
    (hact : ∀ {α : Type} {action : Bool → Generator → Step α}, Routine action → Keeps I (act action)) :
    Upkeep I := by
  have hleaf : ∀ node tok, Keeps I (leaf node tok) :=
    fun node tok => (hadd node _).bind fun _ => .pure ()
  have htarget : ∀ node, Keeps I (acceptIdentifier node) := fun node =>
    (henter .ident).bind fun _ => (haccept .id (by decide)).bind fun tok =>
      (hleaf node tok).bind fun _ => (hderive _).bind fun _ => .pure tok
  exact {
    enter := henter
    derive := hderive
    symbol := fun parent _ => hadd parent _
    leaf := fun _ _ tok => (hleaf _ tok).given _
    accept := haccept _
    expected := fun htok kinds s hs ho => hexpected _ kinds s hs (ho.ahead _ htok)
    ident := fun _ => ((htarget _).bind fun _ => hdeclare _).given _
    target := fun _ _ _ => (htarget _).given _
    declare := fun _ _ _ => hdeclare _
    act := hact }

/-- An invariant holds up to the end of the source. -/
theorem Invariant.goalBody {I : ParseState → Prop} (h : Invariant I) (bound : Nat) :
    Keeps I (goalBody bound) :=
  (upkeep_of_steps h.enter h.derive h.add (fun _ => h.accept) h.expected
    (fun _ => h.act (Silent.identifier _)) fun hroutine => h.act hroutine.silent).goalBody bound

/-- An invariant that accepting the end of the source does not break either holds to the end of a parse. -/
theorem Invariant.systemGoal {I : ParseState → Prop} (h : Invariant I)
    (hend : Keeps I (Parse.accept .eofSym)) (bound : Nat) : Keeps I (Parse.systemGoal bound) := by
  rw [systemGoal_eq]
  exact (h.goalBody bound).bind fun _ => hend.bind fun _ => h.act Silent.finish

/-! ### Properties of the tracker -/

section

variable {P : Tracker → Prop} (hreport : ∀ t tok kinds, P t → P (t.report (complaint t tok kinds)))

theorem Parse.Idle.keeps_tracker {α : Type} {m : Production α} (hm : Idle m) :
    Keeps (fun s => P s.tracker) m := by
  intro s hs
  obtain ⟨v, generator, transcript, hrun⟩ := hm s
  rw [hrun]
  exact hs

include hreport

theorem keeps_tracker_expected (tok : Token) (kinds : List Kind) :
    Keeps (fun s => P s.tracker) (expected tok kinds) := by
  intro s hs
  obtain ⟨tracker, transcript, hrun, hcases⟩ := run_expected_cases s tok kinds
  rw [hrun]
  show P tracker
  rcases hcases with ⟨_, rfl⟩ | rfl
  · exact hs
  · exact hreport _ _ _ hs

theorem keeps_tracker_accept (k : Kind) : Keeps (fun s => P s.tracker) (accept k) := by
  intro s hs
  cases hpeek : s.stream.peek with
  | error e =>
    obtain ⟨transcript, hrun⟩ := run_accept_of_error hpeek k
    rw [hrun]
    exact hs
  | ok tok =>
    obtain ⟨recovering, tracker, transcript, hrun, hcases⟩ := run_accept_cases hpeek k
    rw [hrun]
    show P tracker
    rcases hcases with ⟨_, _, rfl⟩ | ⟨_, ⟨_, rfl⟩ | rfl⟩
    · exact hs
    · exact hs
    · exact hreport _ _ _ hs

/-- A property of the tracker that no report breaks holds all through a parse. -/
theorem keeps_tracker_systemGoal (bound : Nat) : Keeps (fun s => P s.tracker) (systemGoal bound) := by
  have hinvariant : Invariant fun s => P s.tracker := {
    enter := fun n => (idle_enter n.name).keeps_tracker
    derive := fun n => (idle_derive n).keeps_tracker
    add := by
      intro parent content s hs
      rcases run_add_cases parent content s with ⟨_, hadd⟩ | ⟨e, hadd⟩
      · rw [hadd]
        exact hs
      · rw [hadd]
        exact hs
    act := fun _ => (idle_act _).keeps_tracker
    expected := fun tok kinds s hs _ => keeps_tracker_expected hreport tok kinds s hs
    accept := fun _ => keeps_tracker_accept hreport _ }
  exact hinvariant.systemGoal (keeps_tracker_accept hreport .eofSym) bound

end

end MicroLang
