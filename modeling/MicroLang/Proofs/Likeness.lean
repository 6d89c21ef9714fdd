import MicroLang.Proofs.Muting
import MicroLang.Proofs.Run

/-!
# Parses that run alike

Two parses are compared by a likeness: a relation between their states, one between the tokens that
they meet and one between the lexical errors that end them.  A likeness is kept if no basic step breaks
it.  All productions are put together from basic steps and decide by the kinds of tokens only, so two
parses that start alike run alike to their ends, whatever the likeness is.

This is said once for all likenesses that are kept; what a particular one leaves out, the places of
tokens or the records of a trace, is then known to have no influence on the rest.
-/

namespace MicroLang

open Parse

/-- What two parses have in common. -/
structure Likeness where
  state : ParseState → ParseState → Prop
  token : Token → Token → Prop
  error : LexicalError → LexicalError → Prop

namespace Likeness

/-- Parses that end early for like reasons. -/
inductive Ended (R : Likeness) : Abort → Abort → Prop
  | lexical {e e' : LexicalError} : R.error e e' → Ended R (.lexical e) (.lexical e')
  | stray (e : StrayNode) : Ended R (.stray e) (.stray e)
  | tooDeep : Ended R .tooDeep .tooDeep

/-- Runs with like results: both yield values, or both abort. -/
inductive Alike {α : Type} (R : Likeness) (value : α → α → Prop) :
    EStateM.Result Abort ParseState α → EStateM.Result Abort ParseState α → Prop
  | ok {v v' : α} {s s' : ParseState} : value v v' → R.state s s' → Alike R value (.ok v s) (.ok v' s')
  | abort {e e' : Abort} {s s' : ParseState} : R.Ended e e' → R.state s s' →
      Alike R value (.error e s) (.error e' s')

/-- From like states the productions have like results. -/
def Parallel {α : Type} (R : Likeness) (value : α → α → Prop) (m m' : Production α) : Prop :=
  ∀ s s', R.state s s' → R.Alike value (m.run s) (m'.run s')

/-- No basic step breaks the likeness, and like tokens have the same kind and text. -/
structure Kept (R : Likeness) : Prop where
  kind : ∀ {tok tok'}, R.token tok tok' → tok.kind = tok'.kind
  literal : ∀ {tok tok'}, R.token tok tok' → tok.literal = tok'.literal
  /-- Transcripts are not compared. -/
  silent : ∀ {s s'} (transcript transcript'), R.state s s' →
    R.state { s with transcript } { s' with transcript := transcript' }
  calm : ∀ {s s'}, R.state s s' → R.state { s with recovering := false } { s' with recovering := false }
  peek : R.Parallel R.token peek peek
  take : R.Parallel R.token take take
  expected : ∀ {tok tok'} (kinds), R.token tok tok' → R.Parallel Eq (expected tok kinds) (expected tok' kinds)
  label : ∀ parent name, R.Parallel Eq (add parent (.label name)) (add parent (.label name))
  token : ∀ {tok tok'} (parent), R.token tok tok' →
    R.Parallel Eq (add parent (.token tok)) (add parent (.token tok'))
  act : ∀ {α} {action : Bool → Generator → Step α}, Impartial action → R.Parallel Eq (act action) (act action)

/-! ### Rules -/

section

variable {R : Likeness} {α β : Type} {value : α → α → Prop} {result : β → β → Prop}

theorem Parallel.bind {m m' : Production α} {f f' : α → Production β} (hm : R.Parallel value m m')
    (hf : ∀ v v', value v v' → R.Parallel result (f v) (f' v')) :
    R.Parallel result (m >>= f) (m' >>= f') := by
  intro s s' hs
  have h := hm s s' hs
  cases hrun : m.run s with
  | ok v s₁ =>
    rw [hrun] at h
    cases hrun' : m'.run s' with
    | ok v' s₁' =>
      rw [hrun'] at h
      obtain ⟨hv, hs₁⟩ | _ := h
      rw [run_bind_of_ok hrun, run_bind_of_ok hrun']
      exact hf v v' hv s₁ s₁' hs₁
    | error e s₁' =>
      rw [hrun'] at h
      cases h
  | error e s₁ =>
    rw [hrun] at h
    cases hrun' : m'.run s' with
    | ok v' s₁' =>
      rw [hrun'] at h
      cases h
    | error e' s₁' =>
      rw [hrun'] at h
      obtain _ | ⟨he, hs₁⟩ := h
      rw [run_bind_of_error hrun, run_bind_of_error hrun']
      exact .abort he hs₁

/-- Parts that yield the same value. -/
theorem Parallel.andThen {m m' : Production α} {f f' : α → Production β} (hm : R.Parallel Eq m m')
    (hf : ∀ v, R.Parallel result (f v) (f' v)) : R.Parallel result (m >>= f) (m' >>= f') := by
  apply hm.bind
  rintro v _ rfl
  exact hf v

theorem Parallel.pure {v v' : α} (h : value v v') : R.Parallel value (pure v) (pure v') :=
  fun _ _ hs => .ok h hs

theorem Parallel.throw_tooDeep : R.Parallel value (throw .tooDeep) (throw .tooDeep) :=
  fun _ _ hs => .abort .tooDeep hs

end

namespace Kept

variable {R : Likeness}

section

variable (h : R.Kept)

include h

theorem enter (production : Text) : R.Parallel Eq (enter production) (enter production) := by
  intro s s' hs
  obtain ⟨transcript, hrun⟩ := run_enter production s
  obtain ⟨transcript', hrun'⟩ := run_enter production s'
  rw [hrun, hrun']
  exact .ok rfl (h.silent transcript transcript' hs)

theorem derive (n : Nonterminal) : R.Parallel Eq (derive n) (derive n) := by
  intro s s' hs
  obtain ⟨transcript, hrun⟩ := run_derive n s
  obtain ⟨transcript', hrun'⟩ := run_derive n s'
  rw [hrun, hrun']
  exact .ok rfl (h.silent transcript transcript' hs)

/-- Whether the token ahead is accepted depends on its kind. -/
theorem accept (k : Kind) : R.Parallel R.token (accept k) (accept k) := by
  apply (h.enter _).andThen
  intro _
  apply h.take.bind
  intro tok tok' htok
  dsimp only
  rw [h.kind htok]
  split
  · have hcalm : R.Parallel Eq (modify fun s => { s with recovering := false })
        (modify fun s => { s with recovering := false }) := fun _ _ hs => .ok rfl (h.calm hs)
    exact hcalm.andThen fun _ => .pure htok
  · exact (h.expected [k] htok).andThen fun _ => .pure htok

theorem branch (parent : Nat) (n : Nonterminal) :
    R.Parallel Eq (branch parent n) (branch parent n) := h.label parent _

theorem mark (parent : Nat) (k : Kind) : R.Parallel Eq (mark parent k) (mark parent k) :=
  (h.label parent _).andThen fun _ => .pure rfl

theorem leaf {tok tok' : Token} (htok : R.token tok tok') (parent : Nat) :
    R.Parallel Eq (leaf parent tok) (leaf parent tok') :=
  (h.token parent htok).andThen fun _ => .pure rfl

/-! ### The productions -/

theorem acceptIdentifier (node : Nat) :
    R.Parallel R.token (acceptIdentifier node) (acceptIdentifier node) := by
  apply (h.enter _).andThen
  intro _
  apply (h.accept .id).bind
  intro tok tok' htok
  apply (h.leaf htok node).andThen
  intro _
  exact (h.derive _).andThen fun _ => .pure htok

theorem ident (node : Nat) : R.Parallel Eq (ident node) (ident node) := by
  apply (h.acceptIdentifier node).bind
  intro tok tok' htok
  rw [h.literal htok]
  exact h.act (Impartial.identifier _)

theorem addOp (node : Nat) : R.Parallel Eq (addOp node) (addOp node) := by
  apply (h.enter _).andThen
  intro _
  apply h.peek.bind
  intro tok tok' htok
  rw [h.kind htok]
  split
  · apply (h.leaf htok node).andThen
    intro _
    apply (h.derive _).andThen
    intro _
    apply (h.accept _).bind
    intro op op' hop
    rw [h.literal hop]
    exact h.act (Impartial.operation _)
  · exact (h.expected _ htok).andThen fun _ => .pure rfl

theorem primary {e : Nat → Production Operand} (he : ∀ inner, R.Parallel Eq (e inner) (e inner))
    (node : Nat) : R.Parallel Eq (primary e node) (primary e node) := by
  apply (h.enter _).andThen
  intro _
  apply h.peek.bind
  intro tok tok' htok
  rw [h.kind htok]
  split
  · refine (h.mark _ _).andThen fun _ => (h.branch _ _).andThen fun inner => (h.mark _ _).andThen fun _ =>
      (h.derive _).andThen fun _ => (h.accept _).bind fun _ _ _ => ?_
    exact (he inner).andThen fun value => (h.accept _).bind fun _ _ _ => .pure rfl
  · exact (h.branch _ _).andThen fun name => (h.derive _).andThen fun _ => h.ident name
  · refine (h.leaf htok node).andThen fun _ => (h.derive _).andThen fun _ => (h.accept _).bind ?_
    intro number number' hnumber
    rw [h.literal hnumber]
    exact h.act (Impartial.literal _)
  · exact (h.expected _ htok).andThen fun _ => .pure rfl

/-- The recursion is on the bound, which the two parses share. -/
theorem expression (bound node : Nat) :
    R.Parallel Eq (expression bound node) (expression bound node) := by
  induction bound generalizing node with
  | zero => exact .throw_tooDeep
  | succ bound ih =>
    refine (h.enter _).andThen fun _ => (h.branch _ _).andThen fun first => (h.derive _).andThen fun _ => ?_
    apply (h.primary ih first).andThen
    intro left
    apply h.peek.bind
    intro tok tok' htok
    rw [h.kind htok]
    split
    · refine (h.branch _ _).andThen fun operator => (h.branch _ _).andThen fun rest =>
        (h.derive _).andThen fun _ => (h.addOp operator).andThen fun op => ?_
      exact (ih rest).andThen fun right => h.act (Impartial.combine left op right)
    · exact .pure rfl

theorem commaTail {n : Nonterminal} {list : Nat → Production Unit}
    (hlist : ∀ rest, R.Parallel Eq (list rest) (list rest)) (node : Nat) :
    R.Parallel Eq (commaTail node n list) (commaTail node n list) := by
  apply h.peek.bind
  intro tok tok' htok
  rw [h.kind htok]
  split
  · exact (h.mark _ _).andThen fun _ => (h.branch _ _).andThen fun rest => (h.derive _).andThen fun _ =>
      (h.accept _).bind fun _ _ _ => hlist rest
  · exact .pure rfl

theorem idList (bound node : Nat) : R.Parallel Eq (idList bound node) (idList bound node) := by
  induction bound generalizing node with
  | zero => exact .throw_tooDeep
  | succ bound ih =>
    refine (h.enter _).andThen fun _ => (h.branch _ _).andThen fun name => (h.derive _).andThen fun _ => ?_
    apply (h.ident name).andThen
    intro operand
    exact (h.act (Impartial.readInto operand)).andThen fun _ => h.commaTail ih node

theorem exprList (bound node : Nat) : R.Parallel Eq (exprList bound node) (exprList bound node) := by
  induction bound generalizing node with
  | zero => exact .throw_tooDeep
  | succ bound ih =>
    refine (h.enter _).andThen fun _ => (h.branch _ _).andThen fun value => (h.derive _).andThen fun _ => ?_
    apply (h.expression (bound + 1) value).andThen
    intro operand
    exact (h.act (Impartial.writeExpression operand)).andThen fun _ => h.commaTail ih node

theorem enclosed {k : Kind} {n : Nonterminal} {list : Nat → Production Unit}
    (hlist : ∀ l, R.Parallel Eq (list l) (list l)) (node : Nat) :
    R.Parallel Eq (enclosed node k n list) (enclosed node k n list) := by
  refine (h.mark _ _).andThen fun _ => (h.mark _ _).andThen fun _ => (h.branch _ _).andThen fun l =>
    (h.mark _ _).andThen fun _ => (h.mark _ _).andThen fun _ => (h.derive _).andThen fun _ => ?_
  exact (h.accept _).bind fun _ _ _ => (h.accept _).bind fun _ _ _ => (hlist l).andThen fun _ =>
    (h.accept _).bind fun _ _ _ => (h.accept _).bind fun _ _ _ => .pure rfl

theorem statement (bound node : Nat) :
    R.Parallel Eq (statement bound node) (statement bound node) := by
  apply (h.enter _).andThen
  intro _
  apply h.peek.bind
  intro tok tok' htok
  rw [h.kind htok]
  split
  · refine (h.branch _ _).andThen fun name => (h.mark _ _).andThen fun _ => (h.branch _ _).andThen fun value =>
      (h.mark _ _).andThen fun _ => (h.derive _).andThen fun _ => (h.acceptIdentifier name).bind ?_
    intro target target' htarget
    rw [h.literal htarget]
    refine (h.accept _).bind fun _ _ _ => (h.expression bound value).andThen fun source => ?_
    apply (h.act (Impartial.identifier _)).andThen
    intro destination
    exact (h.act (Impartial.assign source destination)).andThen fun _ =>
      (h.accept _).bind fun _ _ _ => .pure rfl
  · exact h.enclosed (h.idList bound) node
  · exact h.enclosed (h.exprList bound) node
  · exact h.expected _ htok

theorem statementList (bound node : Nat) :
    R.Parallel Eq (statementList bound node) (statementList bound node) := by
  induction bound generalizing node with
  | zero => exact .throw_tooDeep
  | succ bound ih =>
    refine (h.enter _).andThen fun _ => (h.branch _ _).andThen fun first => (h.derive _).andThen fun _ => ?_
    apply (h.statement (bound + 1) first).andThen
    intro _
    apply h.peek.bind
    intro tok tok' htok
    rw [h.kind htok]
    split
    · exact (h.branch _ _).andThen fun rest => (h.derive _).andThen fun _ => ih rest
    · exact .pure rfl

theorem program (bound node : Nat) : R.Parallel Eq (program bound node) (program bound node) := by
  refine (h.enter _).andThen fun _ => (h.mark _ _).andThen fun _ => (h.branch _ _).andThen fun list =>
    (h.mark _ _).andThen fun _ => (h.derive _).andThen fun _ => ?_
  refine (h.act Impartial.start).andThen fun _ => (h.accept _).bind fun _ _ _ => ?_
  exact (h.statementList bound list).andThen fun _ => (h.accept _).bind fun _ _ _ => .pure rfl

/-- Parses that start alike run alike. -/
theorem systemGoal (bound : Nat) : R.Parallel Eq (systemGoal bound) (systemGoal bound) := by
  refine (h.enter _).andThen fun _ => (h.branch _ _).andThen fun body => (h.mark _ _).andThen fun _ =>
    (h.derive _).andThen fun _ => ?_
  apply (h.program bound body).andThen
  intro _
  exact (h.accept _).bind fun _ _ _ => h.act Impartial.finish

/-- Whole parses end alike, if there are as many tokens to be read in one as in the other. -/
theorem ofState {s s' : ParseState} (hs : R.state s s')
    (hlength : s.stream.tokens.length = s'.stream.tokens.length) :
    R.state (Parsed.ofState s).state (Parsed.ofState s').state ∧
      Option.Rel R.Ended (Parsed.ofState s).abort (Parsed.ofState s').abort := by
  have hrun := h.systemGoal (s.stream.tokens.length + 1) s s' hs
  unfold Parsed.ofState
  rw [← hlength]
  generalize (Parse.systemGoal (s.stream.tokens.length + 1)).run s = r at hrun ⊢
  generalize (Parse.systemGoal (s.stream.tokens.length + 1)).run s' = r' at hrun ⊢
  cases hrun with
  | ok _ hstate => exact ⟨hstate, .none⟩
  | abort hended hstate => exact ⟨hstate, .some hended⟩

end

end Kept

end Likeness

end MicroLang
