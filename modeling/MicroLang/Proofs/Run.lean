import MicroLang.Parse

/-!
# Runs of productions

What the basic steps of a parse do to its state, each said once: entering and deriving only write to
the transcript, adding a node only lets the tree grow, an action only changes the generator, and
only taking a token moves the stream.

A production is steady if no run of it loses a diagnostic and none emits an instruction once there is an
error, whether it runs to its end or aborts.  The basic steps are steady, and so is whatever is put
together from steady parts.
-/

namespace MicroLang

namespace Parse

variable {α β : Type}

theorem run_bind_of_ok {m : Production α} {f : α → Production β} {s s' : ParseState} {v : α}
    (h : m.run s = .ok v s') : (m >>= f).run s = (f v).run s' := by
  show EStateM.bind m f s = f v s'
  rw [EStateM.bind, show m s = .ok v s' from h]

theorem run_bind_of_error {m : Production α} {f : α → Production β} {s s' : ParseState} {e : Abort}
    (h : m.run s = .error e s') : (m >>= f).run s = .error e s' := by
  show EStateM.bind m f s = .error e s'
  rw [EStateM.bind, show m s = .error e s' from h]

/-! ### Parts that productions share -/

/-- A list may go on behind a comma. -/
def commaTail (node : Nat) (n : Nonterminal) (list : Nat → Production Unit) : Production Unit :=
  peek >>= fun tok => if tok.kind = .comma then
    mark node .comma >>= fun _ => branch node n >>= fun rest => derive n >>= fun _ =>
      accept .comma >>= fun _ => list rest
    else pure ()

/-- A statement that is a keyword and a list in parentheses. -/
def enclosed (node : Nat) (k : Kind) (n : Nonterminal) (list : Nat → Production Unit) : Production Unit :=
  mark node k >>= fun _ => mark node .lParen >>= fun _ => branch node n >>= fun l =>
    mark node .rParen >>= fun _ => mark node .semiColon >>= fun _ => derive .statement >>= fun _ =>
      accept k >>= fun _ => accept .lParen >>= fun _ => list l >>= fun _ =>
        accept .rParen >>= fun _ => accept .semiColon >>= fun _ => pure ()

/-! ### The basic steps -/

theorem run_get (s : ParseState) : (get : Production ParseState).run s = .ok s s := rfl

theorem run_enter (production : Text) (s : ParseState) :
    ∃ transcript, (enter production).run s = .ok () { s with transcript } := by
  unfold enter
  rw [run_bind_of_ok (run_get s)]
  split
  · exact ⟨_, rfl⟩
  · exact ⟨s.transcript, rfl⟩

theorem run_derive (n : Nonterminal) (s : ParseState) :
    ∃ transcript, (derive n).run s = .ok () { s with transcript } := by
  unfold derive
  rw [run_bind_of_ok (run_get s)]
  split
  · exact ⟨_, rfl⟩
  · exact ⟨s.transcript, rfl⟩

theorem run_peek_of_ok {s : ParseState} {tok : Token} (h : s.stream.peek = .ok tok) :
    peek.run s = .ok tok s := by
  unfold peek
  rw [run_bind_of_ok (run_get s), h]
  rfl

theorem run_peek_of_error {s : ParseState} {e : LexicalError} (h : s.stream.peek = .error e) :
    peek.run s = .error (.lexical e) s := by
  unfold peek
  rw [run_bind_of_ok (run_get s), h]
  rfl

theorem run_take_of_ok {s : ParseState} {tok : Token} (h : s.stream.peek = .ok tok) :
    take.run s = .ok tok { s with stream := s.stream.rest, current := tok } := by
  unfold take
  rw [run_bind_of_ok (run_peek_of_ok h)]
  rfl

theorem run_take_of_error {s : ParseState} {e : LexicalError} (h : s.stream.peek = .error e) :
    take.run s = .error (.lexical e) s := by
  unfold take
  rw [run_bind_of_error (run_peek_of_error h)]

/-- The diagnostic for a token that stands where one of other kinds is required. -/
def complaint (t : Tracker) (tok : Token) (kinds : List Kind) : Diagnostic :=
  t.errorAt tok (Tracker.expectedMessage kinds tok.kind)

theorem run_expected {s : ParseState} (h : s.recovering = false) (tok : Token) (kinds : List Kind) :
    ∃ transcript, (expected tok kinds).run s =
      .ok () { s with
        recovering := true
        tracker := s.tracker.report (complaint s.tracker tok kinds)
        transcript } := by
  refine ⟨s.transcript.push (.diagnostic (complaint s.tracker tok kinds)), ?_⟩
  show EStateM.Result.ok () (if s.recovering = true then s else _) = _
  rw [h]
  rfl

theorem run_expected_of_recovering {s : ParseState} (h : s.recovering = true) (tok : Token)
    (kinds : List Kind) : (expected tok kinds).run s = .ok () s := by
  show EStateM.Result.ok () (if s.recovering = true then s else _) = _
  rw [if_pos h]

theorem run_accept {s : ParseState} {tok : Token} {k : Kind} (h : s.stream.peek = .ok tok)
    (hk : tok.kind = k) :
    ∃ transcript, (accept k).run s =
      .ok tok { s with
        stream := s.stream.rest
        current := tok
        recovering := false
        transcript } := by
  obtain ⟨transcript, henter⟩ := run_enter (text "match(" ++ k.name ++ text ")") s
  refine ⟨transcript, ?_⟩
  unfold accept
  rw [run_bind_of_ok henter, run_bind_of_ok (run_take_of_ok (s := { s with transcript }) h)]
  dsimp only
  rw [if_pos hk]
  rfl

theorem run_accept_of_ne {s : ParseState} {tok : Token} {k : Kind} (h : s.stream.peek = .ok tok)
    (hk : tok.kind ≠ k) (hs : s.recovering = false) :
    ∃ transcript, (accept k).run s =
      .ok tok { s with
        stream := s.stream.rest
        current := tok
        recovering := true
        tracker := s.tracker.report (complaint s.tracker tok [k])
        transcript } := by
  obtain ⟨transcript, henter⟩ := run_enter (text "match(" ++ k.name ++ text ")") s
  obtain ⟨transcript', hexpected⟩ := run_expected
    (s := { s with stream := s.stream.rest, current := tok, transcript }) hs tok [k]
  refine ⟨transcript', ?_⟩
  unfold accept
  rw [run_bind_of_ok henter, run_bind_of_ok (run_take_of_ok (s := { s with transcript }) h)]
  dsimp only
  rw [if_neg hk]
  exact run_bind_of_ok hexpected

theorem run_accept_of_error {s : ParseState} {e : LexicalError} (h : s.stream.peek = .error e)
    (k : Kind) : ∃ transcript, (accept k).run s = .error (.lexical e) { s with transcript } := by
  obtain ⟨transcript, henter⟩ := run_enter (text "match(" ++ k.name ++ text ")") s
  refine ⟨transcript, ?_⟩
  unfold accept
  rw [run_bind_of_ok henter, run_bind_of_error (run_take_of_error (s := { s with transcript }) h)]

/-- In any state a wrong token starts a recovery, and it is reported unless one was under way. -/
theorem run_expected_cases (s : ParseState) (tok : Token) (kinds : List Kind) :
    ∃ tracker transcript,
      (expected tok kinds).run s = .ok () { s with recovering := true, tracker, transcript } ∧
        (s.recovering = true ∧ tracker = s.tracker ∨
          tracker = s.tracker.report (complaint s.tracker tok kinds)) := by
  cases h : s.recovering with
  | false =>
    obtain ⟨transcript, hrun⟩ := run_expected h tok kinds
    exact ⟨_, transcript, hrun, .inr rfl⟩
  | true =>
    refine ⟨s.tracker, s.transcript, ?_, .inl ⟨rfl, rfl⟩⟩
    rw [run_expected_of_recovering h, ← h]

/-- In any state the token ahead is taken; if it is of another kind, it starts a recovery. -/
theorem run_accept_cases {s : ParseState} {tok : Token} (h : s.stream.peek = .ok tok) (k : Kind) :
    ∃ recovering tracker transcript, (accept k).run s =
      .ok tok { s with
        stream := s.stream.rest
        current := tok
        recovering
        tracker
        transcript } ∧
      (tok.kind = k ∧ recovering = false ∧ tracker = s.tracker ∨
        recovering = true ∧ (s.recovering = true ∧ tracker = s.tracker ∨
          tracker = s.tracker.report (complaint s.tracker tok [k]))) := by
  by_cases hk : tok.kind = k
  · obtain ⟨transcript, hrun⟩ := run_accept h hk
    exact ⟨false, s.tracker, transcript, hrun, .inl ⟨hk, rfl, rfl⟩⟩
  · obtain ⟨transcript, henter⟩ := run_enter (text "match(" ++ k.name ++ text ")") s
    obtain ⟨tracker, transcript', hexpected, hcases⟩ := run_expected_cases
      { s with stream := s.stream.rest, current := tok, transcript } tok [k]
    refine ⟨true, tracker, transcript', ?_, .inr ⟨rfl, hcases⟩⟩
    unfold accept
    rw [run_bind_of_ok henter, run_bind_of_ok (run_take_of_ok (s := { s with transcript }) h)]
    dsimp only
    rw [if_neg hk]
    exact run_bind_of_ok hexpected

theorem run_add {s : ParseState} {parent : Nat} (h : parent < s.tree.size) (content : Content) :
    (add parent content).run s =
      .ok s.tree.size { s with tree := s.tree.attach parent content } := by
  have hindex : s.tree.index parent = .ok parent := by
    rw [Tree.index, if_pos ⟨Int.natCast_nonneg parent, by rw [Int.toNat_natCast]; exact h⟩,
      Int.toNat_natCast]
  have hadd : s.tree.add parent content = .ok (s.tree.attach parent content, s.tree.size) := by
    rw [Tree.add, hindex]
  simp only [EStateM.run, add, hadd]

theorem run_act (action : Bool → Generator → Step α) (s : ParseState) :
    ∃ transcript, (act action).run s =
      .ok (action s.tracker.hasError s.generator).value
        { s with
          generator := (action s.tracker.hasError s.generator).generator
          transcript } := by
  unfold act
  rw [run_bind_of_ok (run_get s)]
  by_cases h : s.tracingActions = true
  · dsimp only
    rw [if_pos h]
    exact ⟨_, rfl⟩
  · dsimp only
    rw [if_neg h]
    exact ⟨s.transcript, rfl⟩

/-! ### Steps on the side -/

/-- A step that takes no token, adds no node and reports nothing: all it changes is the generator and
the transcript. -/
def Idle (m : Production α) : Prop :=
  ∀ s : ParseState, ∃ v generator transcript, m.run s = .ok v { s with generator, transcript }

theorem idle_pure (v : α) : Idle (pure v : Production α) :=
  fun s => ⟨v, s.generator, s.transcript, rfl⟩

theorem idle_enter (production : Text) : Idle (enter production) := by
  intro s
  obtain ⟨transcript, h⟩ := run_enter production s
  exact ⟨(), s.generator, transcript, h⟩

theorem idle_derive (n : Nonterminal) : Idle (derive n) := by
  intro s
  obtain ⟨transcript, h⟩ := run_derive n s
  exact ⟨(), s.generator, transcript, h⟩

theorem idle_act (action : Bool → Generator → Step α) : Idle (act action) := by
  intro s
  obtain ⟨transcript, h⟩ := run_act action s
  exact ⟨_, _, transcript, h⟩

end Parse

/-! ### What no run undoes -/

/-- No diagnostic is lost, and once there is an error no instruction is emitted. -/
structure ParseState.Extends (s s' : ParseState) : Prop where
  diagnostics : s.tracker.diagnostics.toList <+: s'.tracker.diagnostics.toList
  program : s.tracker.hasError = true → s'.generator.program = s.generator.program

/-- The state that a run ends in, whether or not it aborts. -/
def stateOf {α : Type} : EStateM.Result Abort ParseState α → ParseState
  | .ok _ s => s
  | .error _ s => s

theorem Tracker.hasError_of_prefix {t t' : Tracker}
    (h : t.diagnostics.toList <+: t'.diagnostics.toList) (he : t.hasError = true) :
    t'.hasError = true := by
  rw [hasError_eq_any, List.any_eq_true] at *
  obtain ⟨d, hd, hsev⟩ := he
  exact ⟨d, h.subset hd, hsev⟩

namespace ParseState.Extends

variable {s s' s'' : ParseState}

theorem of_eq (ht : s'.tracker = s.tracker) (hg : s'.generator = s.generator) : s.Extends s' where
  diagnostics := by simp only [ht, List.prefix_refl]
  program := fun _ => by rw [hg]

theorem refl (s : ParseState) : s.Extends s := of_eq rfl rfl

theorem trans (h : s.Extends s') (h' : s'.Extends s'') : s.Extends s'' where
  diagnostics := h.diagnostics.trans h'.diagnostics
  program := by
    intro he
    rw [h'.program (Tracker.hasError_of_prefix h.diagnostics he), h.program he]

end ParseState.Extends

/-- No run of the production undoes anything. -/
def Steady {α : Type} (m : Production α) : Prop :=
  ∀ s : ParseState, s.Extends (stateOf (m.run s))

namespace Steady

variable {α β : Type}

open Parse ParseState

theorem pure (v : α) : Steady (pure v : Production α) := fun s => Extends.refl s

theorem throw (e : Abort) : Steady (throw e : Production α) := fun s => Extends.refl s

theorem bind {m : Production α} {f : α → Production β} (hm : Steady m) (hf : ∀ v, Steady (f v)) :
    Steady (m >>= f) := by
  intro s
  have h := hm s
  cases hrun : m.run s with
  | ok v s' =>
    rw [hrun] at h
    rw [run_bind_of_ok hrun]
    exact h.trans (hf v s')
  | error e s' =>
    rw [hrun] at h
    rw [run_bind_of_error hrun]
    exact h

theorem enter (production : Text) : Steady (enter production) := by
  intro s
  obtain ⟨transcript, h⟩ := run_enter production s
  rw [h]
  exact Extends.of_eq rfl rfl

theorem derive (n : Nonterminal) : Steady (derive n) := by
  intro s
  obtain ⟨transcript, h⟩ := run_derive n s
  rw [h]
  exact Extends.of_eq rfl rfl

theorem peek : Steady peek := by
  intro s
  cases h : s.stream.peek with
  | ok tok =>
    rw [run_peek_of_ok h]
    exact Extends.refl s
  | error e =>
    rw [run_peek_of_error h]
    exact Extends.refl s

/-- What the token ahead decides between. -/
theorem choose {P : Kind → Prop} [DecidablePred P] {m m' : Production α} (hm : Steady m)
    (hm' : Steady m') : Steady (Parse.peek >>= fun tok => if P tok.kind then m else m') := by
  refine bind peek fun tok => ?_
  split
  · exact hm
  · exact hm'

theorem take : Steady take := by
  intro s
  cases h : s.stream.peek with
  | ok tok =>
    rw [run_take_of_ok h]
    exact Extends.of_eq rfl rfl
  | error e =>
    rw [run_take_of_error h]
    exact Extends.refl s

theorem expected (tok : Token) (kinds : List Kind) : Steady (expected tok kinds) := by
  intro s
  cases h : s.recovering with
  | false =>
    obtain ⟨transcript, hrun⟩ := run_expected h tok kinds
    rw [hrun]
    refine ⟨?_, fun _ => rfl⟩
    show _ <+: (s.tracker.diagnostics.push _).toList
    rw [Array.toList_push]
    exact List.prefix_append _ _
  | true =>
    have hrun : (Parse.expected tok kinds).run s = .ok () s := by
      show EStateM.Result.ok () (if s.recovering = true then s else _) = _
      rw [if_pos h]
    rw [hrun]
    exact Extends.refl s

theorem accept (k : Kind) : Steady (accept k) := by
  refine bind (enter _) fun _ => bind take fun tok => ?_
  dsimp only
  split
  · exact bind (fun s => Extends.of_eq rfl rfl) fun _ => pure tok
  · exact bind (expected tok [k]) fun _ => pure tok

theorem add (parent : Nat) (content : Content) : Steady (add parent content) := by
  intro s
  simp only [EStateM.run, Parse.add]
  split
  · exact Extends.of_eq rfl rfl
  · exact Extends.refl s

theorem branch (parent : Nat) (n : Nonterminal) : Steady (branch parent n) := add parent _

theorem mark (parent : Nat) (kind : Kind) : Steady (mark parent kind) :=
  bind (add parent _) fun _ => pure ()

theorem leaf (parent : Nat) (tok : Token) : Steady (leaf parent tok) :=
  bind (add parent _) fun _ => pure ()

/-- An action that emits nothing while muted is steady. -/
theorem act {action : Bool → Generator → Step α}
    (h : ∀ g, (action true g).generator.program = g.program) : Steady (act action) := by
  intro s
  obtain ⟨transcript, hrun⟩ := run_act action s
  rw [hrun]
  refine ⟨List.prefix_refl _, ?_⟩
  intro he
  show (action s.tracker.hasError s.generator).generator.program = _
  rw [he]
  exact h s.generator

end Steady

end MicroLang
