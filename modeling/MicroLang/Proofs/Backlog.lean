import MicroLang.Proofs.Likeness

/-!
# Parses with a backlog

A tracker may hold diagnostics before a parse starts.  They stay in front, in their order, and the parse
reports behind them what it would have reported to an empty tracker.

The only way back from the tracker into the parse is through the error state, which mutes the code
generator.  So a backlog with an error in it costs the program and nothing else: whether the parser is
recovering is kept apart from the tracker, and symbols and temporaries do not depend on being muted.
Trees, symbols and the reasons to stop are the same, and without an old error so is the code.
-/

namespace MicroLang

open Parse

/-! ### Trackers -/

theorem Severity.tally_append (s : Severity) (ds ds' : Array Diagnostic) :
    s.tally (ds ++ ds') = s.tally ds + s.tally ds' := by
  rw [tally, Array.toList_append, List.countP_append]
  rfl

namespace Tracker

/-- A tracker with the diagnostics of an older one in front of its own. -/
def followedBy (old t : Tracker) : Tracker where
  filename := t.filename
  diagnostics := old.diagnostics ++ t.diagnostics
  errorCount := old.errorCount + t.errorCount
  warningCount := old.warningCount + t.warningCount
  errors_counted := by rw [Severity.tally_append, old.errors_counted, t.errors_counted]
  warnings_counted := by rw [Severity.tally_append, old.warnings_counted, t.warnings_counted]

theorem hasError_followedBy (old t : Tracker) :
    (old.followedBy t).hasError = (old.hasError || t.hasError) := by
  simp only [hasError_eq_any, followedBy, Array.toList_append, List.any_append]

theorem followedBy_report (old t : Tracker) (d : Diagnostic) :
    old.followedBy (t.report d) = (old.followedBy t).report d :=
  eq_of_diagnostics rfl Array.append_push

theorem followedBy_fresh (old : Tracker) : old.followedBy { filename := old.filename } = old :=
  eq_of_diagnostics rfl Array.append_empty

end Tracker

/-! ### The likeness -/

/-- States that differ by a backlog: the diagnostics of the first are those of the second behind the old
ones, and an old error has kept all code from it. -/
structure ParseState.Behind (old : Tracker) (s s' : ParseState) : Prop where
  stream : s.stream = s'.stream
  tree : s.tree = s'.tree
  recovering : s.recovering = s'.recovering
  tracker : s.tracker = old.followedBy s'.tracker
  symbols : s.generator.symbols = s'.generator.symbols
  temporaries : s.generator.temporaries = s'.generator.temporaries
  instructions : s.generator.instructions = if old.hasError then [] else s'.generator.instructions

namespace Likeness

/-- Parses are compared up to a backlog; tokens and errors are the same. -/
def behind (old : Tracker) : Likeness where
  state := ParseState.Behind old
  token := Eq
  error := Eq

variable {old : Tracker}

theorem peek_behind : (behind old).Parallel Eq peek peek := by
  intro s s' hs
  cases hpeek : s'.stream.peek with
  | ok tok =>
    have hpeek' : s.stream.peek = .ok tok := by rw [hs.stream, hpeek]
    rw [run_peek_of_ok hpeek', run_peek_of_ok hpeek]
    exact .ok rfl hs
  | error e =>
    have hpeek' : s.stream.peek = .error e := by rw [hs.stream, hpeek]
    rw [run_peek_of_error hpeek', run_peek_of_error hpeek]
    exact .abort (.lexical rfl) hs

theorem take_behind : (behind old).Parallel Eq take take := by
  intro s s' hs
  cases hpeek : s'.stream.peek with
  | ok tok =>
    have hpeek' : s.stream.peek = .ok tok := by rw [hs.stream, hpeek]
    have hrest : s.stream.rest = s'.stream.rest := by rw [hs.stream]
    rw [run_take_of_ok hpeek', run_take_of_ok hpeek]
    exact .ok rfl { hs with stream := hrest }
  | error e =>
    have hpeek' : s.stream.peek = .error e := by rw [hs.stream, hpeek]
    rw [run_take_of_error hpeek', run_take_of_error hpeek]
    exact .abort (.lexical rfl) hs

/-- Whether something is reported depends on the recovery, and what is reported on the token and the
file's name; neither depends on what the tracker holds. -/
theorem expected_behind (tok : Token) (kinds : List Kind) :
    (behind old).Parallel Eq (expected tok kinds) (expected tok kinds) := by
  intro s s' hs
  cases hrecovering : s'.recovering with
  | true =>
    have hrecovering' : s.recovering = true := by rw [hs.recovering, hrecovering]
    rw [run_expected_of_recovering hrecovering', run_expected_of_recovering hrecovering]
    exact .ok rfl hs
  | false =>
    have hrecovering' : s.recovering = false := by rw [hs.recovering, hrecovering]
    obtain ⟨transcript, hrun⟩ := run_expected hrecovering' tok kinds
    obtain ⟨transcript', hrun'⟩ := run_expected hrecovering tok kinds
    have hsame : complaint s.tracker tok kinds = complaint s'.tracker tok kinds := by
      rw [hs.tracker]
      rfl
    have htracker : s.tracker.report (complaint s.tracker tok kinds) =
        old.followedBy (s'.tracker.report (complaint s'.tracker tok kinds)) := by
      rw [Tracker.followedBy_report, hsame, hs.tracker]
    rw [hrun, hrun']
    exact .ok rfl { hs with recovering := rfl, tracker := htracker }

theorem add_behind (parent : Nat) (content : Content) :
    (behind old).Parallel Eq (add parent content) (add parent content) := by
  intro s s' hs
  show (behind old).Alike Eq (add parent content s) (add parent content s')
  unfold add
  rw [hs.tree]
  cases s'.tree.add parent content with
  | ok added => exact .ok rfl { hs with tree := rfl }
  | error e => exact .abort (.stray e) hs

/-- An action is muted by an old error or by one of its own run; it yields the same value either way. -/
theorem act_behind {α : Type} {action : Bool → Generator → Step α} (h : Impartial action) :
    (behind old).Parallel Eq (act action) (act action) := by
  intro s s' hs
  obtain ⟨transcript, hrun⟩ := run_act action s
  obtain ⟨transcript', hrun'⟩ := run_act action s'
  obtain ⟨hvalue, hsymbols, htemporaries, code, hcode, hcode'⟩ :=
    h.alike hs.symbols hs.temporaries s.tracker.hasError s'.tracker.hasError
  have hmuted : s.tracker.hasError = (old.hasError || s'.tracker.hasError) := by
    rw [hs.tracker, Tracker.hasError_followedBy]
  have hinstructions : (action s.tracker.hasError s.generator).generator.instructions =
      if old.hasError then [] else (action s'.tracker.hasError s'.generator).generator.instructions := by
    rw [hcode, hcode', hs.instructions, hmuted]
    cases old.hasError <;> simp
  rw [hrun, hrun']
  exact .ok hvalue { hs with
    symbols := hsymbols
    temporaries := htemporaries
    instructions := hinstructions }

/-- No step of a parse tells whether there is a backlog, except by the code it emits. -/
theorem kept_behind (old : Tracker) : (behind old).Kept where
  kind h := congrArg Token.kind h
  literal h := congrArg Token.literal h
  silent _ _ hs := { hs with }
  calm hs := { hs with recovering := rfl }
  peek := peek_behind
  take := take_behind
  expected kinds htok := by
    cases htok
    exact expected_behind _ kinds
  label parent _ := add_behind parent _
  token parent htok := by
    cases htok
    exact add_behind parent _
  act h := act_behind h

/-- Parses that are compared with their very errors end for the same reason. -/
theorem eq_of_ended {a a' : Option Abort} (h : Option.Rel (behind old).Ended a a') : a = a' := by
  cases h with
  | none => rfl
  | some hended =>
    cases hended with
    | lexical he => exact congrArg (fun e => some (Abort.lexical e)) he
    | stray e => rfl
    | tooDeep => rfl

end Likeness

/-! ### Whole parses -/

namespace Parsed

/-- A parse with a backlog and a parse without one end in states that differ by the backlog, for the same
reason. -/
theorem behind_ofSource (filename src : Text) (old : Tracker) (tracing tracing' : Bool) :
    (ofSource filename src old tracing).state.Behind old
        (ofSource filename src { filename := old.filename } tracing').state ∧
      (ofSource filename src old tracing).abort =
        (ofSource filename src { filename := old.filename } tracing').abort := by
  have hinitial : ParseState.Behind old
      { stream := Stream.ofSource filename src, tracker := old, tracing, tracingActions := tracing }
      { stream := Stream.ofSource filename src, tracker := { filename := old.filename },
        tracing := tracing', tracingActions := tracing' } := by
    refine ⟨rfl, rfl, rfl, old.followedBy_fresh.symm, rfl, rfl, ?_⟩
    exact (ite_self []).symm
  obtain ⟨hstate, hended⟩ := (Likeness.kept_behind old).ofState hinitial rfl
  exact ⟨hstate, Likeness.eq_of_ended hended⟩

/-- The error of a parse without a lexical error: all errors that its tracker holds. -/
theorem error?_of_no_fault {p : Parsed} (h : p.lexicalError? = none) :
    p.error? = if p.state.tracker.hasError then some (.syntactic p.state.tracker.errors) else none := by
  simp only [error?, h]

/-- What the tracker already holds decides only whether code is emitted.  The tree, the symbols and the
lexical error are those of a parse with an empty tracker, whose diagnostics follow the old ones; the
program is the same too, or empty if there was an old error.  Without a lexical error the parse fails
exactly if there was an old error or the parse with the empty tracker fails, and then with all errors, the
old ones first. -/
theorem backlog_only_mutes (filename src : Text) (old : Tracker) (tracing tracing' : Bool) :
    let p := ofSource filename src old tracing
    let fresh := ofSource filename src { filename := old.filename } tracing'
    p.tree = fresh.tree ∧ p.symbols = fresh.symbols ∧
      p.diagnostics = old.diagnostics.toList ++ fresh.diagnostics ∧
      p.instructions = (if old.hasError then [] else fresh.instructions) ∧
      p.lexicalError? = fresh.lexicalError? ∧
      p.error? = (fresh.lexicalError?.map ParseError.lexical).or
        (if old.hasError = false ∧ fresh.error? = none then none
          else some (.syntactic
            ((old.diagnostics.toList ++ fresh.diagnostics).filter fun d => d.severity = .error))) := by
  intro p fresh
  obtain ⟨hstate, habort⟩ : p.state.Behind old fresh.state ∧ p.abort = fresh.abort :=
    behind_ofSource filename src old tracing tracing'
  have hdiagnostics : p.diagnostics = old.diagnostics.toList ++ fresh.diagnostics := by
    simp only [diagnostics, hstate.tracker, Tracker.followedBy, Array.toList_append]
  have hlexical : p.lexicalError? = fresh.lexicalError? := by
    simp only [lexicalError?, habort]
  refine ⟨hstate.tree, hstate.symbols, hdiagnostics, hstate.instructions, hlexical, ?_⟩
  cases hfault : fresh.lexicalError? with
  | some e => simp [error?, hlexical, hfault]
  | none =>
    have herrors : p.state.tracker.errors =
        (old.diagnostics.toList ++ fresh.diagnostics).filter fun d => d.severity = .error := by
      rw [← hdiagnostics]
      rfl
    rw [error?_of_no_fault (hlexical.trans hfault), error?_of_no_fault hfault, herrors, hstate.tracker,
      Tracker.hasError_followedBy]
    cases old.hasError with
    | true => simp
    | false => cases fresh.state.tracker.hasError <;> simp

end Parsed

end MicroLang
