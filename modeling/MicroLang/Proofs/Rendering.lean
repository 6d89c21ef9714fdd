import MicroLang.Proofs.Growth
import MicroLang.Proofs.Invariance
import MicroLang.Proofs.Observation
import MicroLang.Proofs.Readback
import MicroLang.Proofs.Tokenization

/-!
# Renderings of errors

An error is put into words at several places: a position, a lexical error, a diagnostic, a finding and the
error of a compilation each have a text of their own, and they do not ask the same questions about the
name of the file and the line.  On what a compilation can produce they agree.

For diagnostics the questions come to the same for any position.  A lexical error has no form for a place
that is not known, so the agreement rests on its line being counted from one.  The error of a compilation
leaves out what is not an error, and a parse with an empty tracker reports nothing else.
-/

namespace MicroLang

open Parse

/-! ### Findings and diagnostics -/

/-- The text of a finding on a line of its own. -/
def Finding.textLine (f : Finding) : Text := f.text ++ MicroLang.text "\n"

theorem Diagnostic.line_eq_textLine (d : Diagnostic) : d.line false = (Finding.ofDiagnostic d).textLine := by
  rw [line_plain, text_eq]
  rfl

theorem Diagnostic.flatMap_line (ds : List Diagnostic) :
    ds.flatMap (line false) = (ds.map Finding.ofDiagnostic).flatMap Finding.textLine := by
  rw [List.flatMap_map]
  apply List.flatMap_congr
  intro d _
  exact d.line_eq_textLine

/-- Findings as an error, with a newline behind the last of them. -/
theorem CompileError.text_syntactic {fs : List Finding} (h : fs ≠ []) :
    (CompileError.syntactic fs).text ++ MicroLang.text "\n" = fs.flatMap Finding.textLine := by
  obtain ⟨f, rest, rfl⟩ := List.exists_cons_of_ne_nil h
  show [10].intercalate ((f :: rest).map Finding.text) ++ [10] = _
  rw [List.map_cons, Text.intercalate_concat, ← List.map_cons, List.flatMap_map]
  rfl

/-- A list of diagnostics reads like the findings made of them. -/
theorem Diagnostic.listText_eq {ds : List Diagnostic} (h : ds ≠ []) :
    listText ds = (CompileError.syntactic (ds.map Finding.ofDiagnostic)).text := by
  obtain ⟨d, rest, rfl⟩ := List.exists_cons_of_ne_nil h
  show [10].intercalate ((d :: rest).map Diagnostic.text) = [10].intercalate _
  rw [List.map_map]
  congr 1
  apply List.map_congr_left
  intro d _
  exact d.text_eq

/-! ### Lexical errors -/

/-- A lexical error whose place is known reads the same as the error of the compilation. -/
theorem CompileError.text_ofLexical {e : LexicalError} (h : 0 < e.pos.line) :
    (ofLexical e).text = e.text := by
  show Finding.text ⟨e.pos.filename, e.pos.line, e.pos.column, Severity.error.name, e.message⟩ = _
  have herror : MicroLang.text ": error: " =
      MicroLang.text ": " ++ Severity.error.name ++ MicroLang.text ": " := rfl
  unfold Finding.text Finding.place LexicalError.text Position.text Position.lineColumn
  rw [herror, if_pos h]
  by_cases hname : e.pos.filename = []
  · simp [hname, List.append_assoc]
  · simp [hname, List.append_assoc]

/-- The lexical error that ends a parse is the one in which the source ends. -/
theorem Parsed.ending_of_lexicalError? {filename src : Text} {tracker : Tracker} {tracing : Bool}
    {e : LexicalError} (h : (ofSource filename src tracker tracing).lexicalError? = some e) :
    (Stream.ofSource filename src).ending = .fault e := by
  have hsource : ofSource filename src tracker tracing = ofState (.initial filename src tracker tracing) := rfl
  rcases ofState_cases (Stream.scanned_ofSource filename src)
    (ParseState.growing_initial filename src tracker tracing) with ⟨_, _, hparsed⟩ | ⟨_, _, _, hparsed, hfault⟩
  · rw [hsource, hparsed] at h
    cases h
  · rw [hsource, hparsed] at h
    cases h
    exact hfault

/-- Lines are counted from one. -/
theorem Stream.line_pos_of_fault {filename src : Text} {e : LexicalError}
    (h : (ofSource filename src).ending = .fault e) : 0 < e.pos.line := by
  obtain ⟨before, rest, _, hpos, _⟩ := (tokenizes_ofSource filename src).fault e h
  rw [hpos]
  show (0 : Int) < (1 + before.count 10 : Nat)
  omega

/-! ### Reported diagnostics -/

/-- Whatever a parse reports is an error. -/
theorem Parsed.severity_of_mem {filename src name : Text} {tracing : Bool} {d : Diagnostic}
    (h : d ∈ (ofSource filename src { filename := name } tracing).diagnostics) : d.severity = .error := by
  have hkeeps := keeps_tracker_systemGoal
    (P := fun t => ∀ d ∈ t.diagnostics.toList, d.severity = .error) (fun t tok kinds ht d hd => ?_)
    ((Stream.ofSource filename src).tokens.length + 1)
  · have hend := hkeeps (ParseState.initial filename src { filename := name } tracing) (List.forall_mem_nil _)
    rw [diagnostics, show (ofSource filename src { filename := name } tracing).state = _ from
      state_ofState (ParseState.initial filename src { filename := name } tracing)] at h
    exact hend d h
  · have hpush : (t.report (complaint t tok kinds)).diagnostics.toList =
        t.diagnostics.toList ++ [complaint t tok kinds] := Array.toList_push
    rw [hpush, List.mem_append, List.mem_singleton] at hd
    rcases hd with hd | rfl
    · exact ht d hd
    · rfl

/-- The errors of a parse are all of its diagnostics. -/
theorem Parsed.errors_ofSource (filename src name : Text) (tracing : Bool) :
    (ofSource filename src { filename := name } tracing).state.tracker.errors =
      (ofSource filename src { filename := name } tracing).diagnostics := by
  unfold Tracker.errors
  apply List.filter_eq_self.2
  intro d hd
  exact decide_eq_true (severity_of_mem hd)

theorem Tracker.errors_ne_nil {t : Tracker} (h : t.hasError = true) : t.errors ≠ [] := by
  rw [hasError_eq_any, List.any_eq_true] at h
  obtain ⟨d, hd, herror⟩ := h
  exact List.ne_nil_of_mem (List.mem_filter.2 ⟨hd, herror⟩)

/-- The error of a parse does not depend on the trace. -/
theorem Parsed.SameUpTo.error?_eq {p p' : Parsed} (h : SameUpTo .stay p p') : p.error? = p'.error? := by
  have hlexical := h.lexicalError
  rw [Relocation.lexicalError_stay, Option.map_id, id, id] at hlexical
  unfold Parsed.error?
  rw [hlexical, h.tracker_eq]

/-! ### All renderings -/

/-- The findings of an output, each on a line of its own. -/
def Output.findingLines (o : Output) : Text := o.findings.flatMap Finding.textLine

namespace Compilation

/-- The error of a compilation stands for the error of the parse. -/
theorem errorOf_eq_some_cases {p : Parsed} {error : CompileError} (h : errorOf p = some error) :
    (∃ e, p.lexicalError? = some e ∧ p.error? = some (.lexical e) ∧ error = .ofLexical e) ∨
      p.state.tracker.hasError = true ∧ p.error? = some (.syntactic p.state.tracker.errors) ∧
        error = .syntactic (p.state.tracker.errors.map Finding.ofDiagnostic) := by
  rw [errorOf_eq_errorFrom] at h
  unfold errorFrom at h
  unfold Parsed.error?
  cases hlexical : p.lexicalError? with
  | some e =>
    rw [hlexical] at h
    exact .inl ⟨e, rfl, rfl, (Option.some.inj h).symm⟩
  | none =>
    rw [hlexical] at h
    dsimp only at h ⊢
    by_cases herror : p.state.tracker.hasError = true
    · rw [if_pos herror] at h ⊢
      exact .inr ⟨herror, rfl, (Option.some.inj h).symm⟩
    · rw [if_neg herror] at h
      cases h

/-- Lines that were written, the error of a compilation and that of a parse say the same in the same words.
Something may have been written before. -/
structure RenderingsAgree (before : Text) (c : Compilation) (p : Parsed) : Prop where
  written : c.written = before ++ c.output.findingLines
  syntactic : ∀ errors, c.error = some (.syntactic errors) →
    errors ≠ [] ∧ (CompileError.syntactic errors).text ++ text "\n" = c.output.findingLines ∧
    ∃ ds, p.error? = some (.syntactic ds) ∧ (ParseError.syntactic ds).text ++ text "\n" = c.output.findingLines
  lexical : ∀ name line column message, c.error = some (.lexical name line column message) →
    ∃ e, p.error? = some (.lexical e) ∧
      (CompileError.lexical name line column message).text = (ParseError.lexical e).text

/-- All renderings agree, whether the compilation or the parse is traced or not. -/
theorem renderings_agree (filename src : Text) (chunks : Array Text) (trace tracing : Bool) :
    RenderingsAgree chunks.toList.flatten (ofSource { diagnostics := some { chunks }, trace } filename src)
      (Parsed.ofSource filename src { filename } tracing) := by
  have hlines : (ofSource { diagnostics := some { chunks }, trace } filename src).output.findingLines =
      ((Parsed.ofSource filename src { filename } trace).diagnostics.map Finding.ofDiagnostic).flatMap
        Finding.textLine := rfl
  have herror : (Parsed.ofSource filename src { filename } tracing).error? =
      (Parsed.ofSource filename src { filename } trace).error? :=
    (Parsed.sameUpTo_stay filename src { filename } tracing trace).error?_eq
  refine ⟨?_, fun errors h => ?_, fun name line column message h => ?_⟩
  · rw [written_ofSource, Output.findingLines, findings_ofSource, Diagnostic.flatMap_line]
  · rcases errorOf_eq_some_cases h with ⟨e, _, _, hsyntactic⟩ | ⟨hreported, hparse, hsyntactic⟩
    · cases hsyntactic
    · have hne := Tracker.errors_ne_nil hreported
      rw [Parsed.errors_ofSource] at hne hparse hsyntactic
      cases hsyntactic
      have hfound := mt (List.map_eq_nil_iff (f := Finding.ofDiagnostic)).1 hne
      refine ⟨hfound, ?_, _, herror.trans hparse, ?_⟩
      · rw [CompileError.text_syntactic hfound, hlines]
      · show Diagnostic.listText _ ++ text "\n" = _
        rw [Diagnostic.listText_eq hne, CompileError.text_syntactic hfound, hlines]
  · rcases errorOf_eq_some_cases h with ⟨e, hlexical, hparse, herr⟩ | ⟨_, _, hsyntactic⟩
    · refine ⟨e, herror.trans hparse, ?_⟩
      rw [herr]
      exact CompileError.text_ofLexical (Stream.line_pos_of_fault (Parsed.ending_of_lexicalError? hlexical))
    · cases hsyntactic

/-- A source without a name that has two findings, and a source that cannot be scanned. -/
theorem renderings_agree_faulty :
    let c := ofSource { diagnostics := some {} } [] (text "begin a = 1; b = 2; end")
    let c' := ofSource { diagnostics := some {} } (text "a.mc") (text "begin\n $")
    (∃ errors, c.error = some (.syntactic errors) ∧ errors.length = 2 ∧
      (CompileError.syntactic errors).text ++ text "\n" = c.written) ∧
    ∃ e, (Parsed.ofSource (text "a.mc") (text "begin\n $") { filename := text "a.mc" } true).error? =
        some (.lexical e) ∧
      c'.error.map CompileError.text = some e.text := by
  intro c c'
  have hsyntactic : c.error = some (.syntactic c.output.findings) ∧ c.output.findings.length = 2 := by
    decide +kernel
  have hlexical : c'.error = some (.lexical (text "a.mc") 2 2
      (text "Read unexpected character '$' (ASCII decimal 36).")) := by
    decide +kernel
  obtain ⟨hwritten, hagree, -⟩ := renderings_agree [] (text "begin a = 1; b = 2; end") #[] false true
  obtain ⟨-, -, hagree'⟩ := renderings_agree (text "a.mc") (text "begin\n $") #[] false true
  obtain ⟨-, htext, -⟩ := hagree _ hsyntactic.1
  obtain ⟨e, hparse, htext'⟩ := hagree' _ _ _ _ hlexical
  refine ⟨⟨_, hsyntactic.1, hsyntactic.2, htext.trans hwritten.symm⟩, e, hparse, ?_⟩
  rw [hlexical]
  exact congrArg some htext'

end Compilation

end MicroLang
