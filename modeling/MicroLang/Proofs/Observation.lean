import MicroLang.Proofs.Relocation

/-!
# Observed compilations

Who watches a compilation sees its trace and the lines of its diagnostics.  Neither has any influence on
the result: all configurations give the same output and the same error, even if nothing can be
written.

Colour is put around the labels of diagnostics and nowhere else.  Taking the control sequences away from
the labels of the findings, one after the other, turns the coloured text into the plain one.  The
sequences are looked for at the labels only, since a file name may contain anything.
-/

namespace MicroLang

open Parse

/-! ### Nothing moves -/

namespace Relocation

theorem lexicalError_stay : LexicalError.moved stay = id := by
  funext e
  rfl

theorem tree_stay (t : Tree) : t.moved stay = t := by
  have hnode : Node.moved stay = id := by
    funext n
    obtain ⟨content, parent, children⟩ := n
    cases content <;> rfl
  unfold Tree.moved
  rw [hnode, Array.map_id]

theorem tracker_stay (t : Tracker) : t.moved stay = t := by
  have hdiagnostic : Diagnostic.moved stay = id := by
    funext d
    rfl
  refine Tracker.eq_of_diagnostics rfl ?_
  show t.diagnostics.map (Diagnostic.moved stay) = t.diagnostics
  rw [hdiagnostic, Array.map_id]

end Relocation

/-- Two parses of one source that may be traced or not. -/
theorem Parsed.sameUpTo_stay (filename src : Text) (tracker : Tracker) (tracing tracing' : Bool) :
    SameUpTo .stay (ofSource filename src tracker tracing) (ofSource filename src tracker tracing') :=
  sameUpTo_ofSource rfl tracker tracing tracing'

namespace Parsed.SameUpTo

variable {p p' : Parsed}

theorem tracker_eq (h : SameUpTo .stay p p') : p.state.tracker = p'.state.tracker := by
  have htracker := h.tracker
  rwa [Relocation.tracker_stay, Relocation.tracker_stay] at htracker

theorem output_eq (h : SameUpTo .stay p p') : Output.ofParsed p = Output.ofParsed p' := by
  have htree := h.tree
  rw [Relocation.tree_stay, Relocation.tree_stay] at htree
  unfold Output.ofParsed Parsed.instructions Parsed.symbols Parsed.diagnostics
  rw [h.generator, h.tracker_eq, htree]

theorem errorOf_eq (h : SameUpTo .stay p p') : Compilation.errorOf p = Compilation.errorOf p' := by
  have hlexical := h.lexicalError
  rw [Relocation.lexicalError_stay, Option.map_id, id, id] at hlexical
  rw [Compilation.errorOf_eq_errorFrom, Compilation.errorOf_eq_errorFrom, hlexical, h.tracker_eq]

end Parsed.SameUpTo

/-! ### Coloured lines -/

namespace Severity

/-- The control sequence in front of a coloured label. -/
def opening (s : Severity) : Text :=
  match s.colour? with
  | some code => text "\x1b[1;" ++ code ++ text "m"
  | none => []

/-- The control sequence behind a coloured label. -/
def closing (s : Severity) : Text :=
  match s.colour? with
  | some _ => text "\x1b[0m"
  | none => []

theorem shownLabel_plain (s : Severity) : s.shownLabel false = s.label := rfl

theorem shownLabel_coloured (s : Severity) : s.shownLabel true = s.opening ++ s.label ++ s.closing := by
  cases s <;> rfl

end Severity

/-- The severity that a finding has by name. -/
def Finding.level (f : Finding) : Severity :=
  if f.severity = Severity.error.name then .error
  else if f.severity = Severity.warning.name then .warning
  else .unknown

theorem Finding.level_ofDiagnostic (d : Diagnostic) : (ofDiagnostic d).level = d.severity := by
  obtain ⟨severity, pos, message⟩ := d
  cases severity <;> rfl

namespace Diagnostic

/-- A label stands between the place of the finding and the message. -/
theorem format_eq (label : Text) (d : Diagnostic) :
    d.format label = (Finding.ofDiagnostic d).place ++ label ++ MicroLang.text " " ++ d.message := by
  show d.format label = Finding.place ⟨d.pos.filename, d.pos.line, d.pos.column, _, _⟩ ++ _ ++ _ ++ _
  unfold format Finding.place Position.isValid Position.text Position.lineColumn
  by_cases hline : 0 < d.pos.line
  · by_cases hname : d.pos.filename = []
    · simp [hline, hname, List.append_assoc]
    · simp [hline, hname, List.append_assoc]
  · by_cases hname : d.pos.filename = []
    · simp [hline, hname]
    · simp [hline, hname, List.append_assoc]

/-- A diagnostic reads like the finding made of it. -/
theorem text_eq (d : Diagnostic) : d.text = (Finding.ofDiagnostic d).text := by
  have hcolon : MicroLang.text ": " = MicroLang.text ":" ++ MicroLang.text " " := rfl
  show d.format d.severity.label = _ ++ d.severity.name ++ _ ++ d.message
  rw [format_eq, Severity.label, hcolon]
  simp only [List.append_assoc]

theorem line_eq (coloured : Bool) (d : Diagnostic) :
    d.line coloured = (Finding.ofDiagnostic d).place ++ d.severity.shownLabel coloured
      ++ (MicroLang.text " " ++ d.message ++ MicroLang.text "\n") := by
  simp only [line, format_eq, List.append_assoc]

end Diagnostic

/-- The text without a piece that stands at an offset in it. -/
def Text.without? (t piece : Text) (offset : Nat) : Option Text :=
  (after? piece (t.drop offset)).map (t.take offset ++ ·)

theorem Text.without?_append (start piece rest : Text) :
    without? (start ++ (piece ++ rest)) piece start.length = some (start ++ rest) := by
  have hafter : after? piece (piece ++ rest) = some rest := (after?_eq_some_iff _ _ _).2 rfl
  unfold without?
  rw [List.drop_left, List.take_left, hafter]
  rfl

/-- Takes the control sequences away from the labels of findings whose lines follow each other in a text,
the first of them from an offset on. -/
def uncoloured? : List Finding → Nat → Text → Option Text
  | [], _, t => some t
  | f :: rest, start, t =>
    let label := start + f.place.length
    (t.without? f.level.opening label).bind fun t =>
      (t.without? f.level.closing (label + f.level.label.length)).bind
        (uncoloured? rest (start + f.text.length + 1))

/-- One line: its label loses both sequences, and nothing else changes. -/
theorem uncoloured?_line (d : Diagnostic) (rest : List Finding) (start later : Text) :
    uncoloured? (Finding.ofDiagnostic d :: rest) start.length (start ++ (d.line true ++ later)) =
      uncoloured? rest (start ++ d.line false).length (start ++ d.line false ++ later) := by
  generalize htail : text " " ++ d.message ++ text "\n" = tail
  generalize hplace : (Finding.ofDiagnostic d).place = place
  have hopening : start ++ (d.line true ++ later) =
      (start ++ place) ++ (d.severity.opening ++ (d.severity.label ++ d.severity.closing ++ tail ++ later)) := by
    rw [Diagnostic.line_eq, hplace, htail, Severity.shownLabel_coloured]
    simp only [List.append_assoc]
  have hclosing : (start ++ place) ++ (d.severity.label ++ d.severity.closing ++ tail ++ later) =
      (start ++ place ++ d.severity.label) ++ (d.severity.closing ++ (tail ++ later)) := by
    simp only [List.append_assoc]
  have hplain : d.line false = place ++ d.severity.label ++ tail := by
    rw [Diagnostic.line_eq, hplace, htail, Severity.shownLabel_plain]
  have hlength : start.length + (Finding.ofDiagnostic d).text.length + 1 =
      (start ++ d.line false).length := by
    rw [Diagnostic.line_plain, Diagnostic.text_eq, List.length_append, List.length_append, Nat.add_assoc]
    rfl
  rw [uncoloured?, hlength, Finding.level_ofDiagnostic, hplace, hopening, ← List.length_append,
    Text.without?_append, Option.bind_some, hclosing, ← List.length_append, Text.without?_append,
    Option.bind_some, hplain]
  simp only [List.append_assoc]

/-- All lines of a text. -/
theorem uncoloured?_lines (ds : List Diagnostic) (start : Text) :
    uncoloured? (ds.map Finding.ofDiagnostic) start.length (start ++ ds.flatMap (Diagnostic.line true)) =
      some (start ++ ds.flatMap (Diagnostic.line false)) := by
  induction ds generalizing start with
  | nil => rfl
  | cons d ds ih =>
    rw [List.map_cons, List.flatMap_cons, List.flatMap_cons, uncoloured?_line, ih, List.append_assoc]

/-! ### What is written -/

namespace Compilation

/-- The text that a compilation wrote about its diagnostics. -/
def written (c : Compilation) : Text :=
  match c.diagnostics with
  | some w => w.written
  | none => []

/-- A writer without a limit gets every line. -/
theorem written_writeDiagnostics (coloured : Bool) (ds : List Diagnostic) {w : Writer}
    (h : w.room = none) : (writeDiagnostics coloured ds w).written =
      w.written ++ ds.flatMap (Diagnostic.line coloured) := by
  induction ds generalizing w with
  | nil => simp [writeDiagnostics]
  | cons d ds ih =>
    obtain ⟨_, hwritten, hroom⟩ := Writer.write_unlimited (d.line coloured) w h
    have hrest := ih hroom
    unfold writeDiagnostics at hrest ⊢
    rw [List.foldl_cons, hrest, hwritten, List.flatMap_cons, List.append_assoc]

/-- What a compilation writes does not depend on the trace. -/
theorem written_ofSource (filename src : Text) (chunks : Array Text) (trace coloured : Bool) :
    (ofSource { diagnostics := some { chunks }, trace, coloured } filename src).written =
      chunks.toList.flatten ++
        (Parsed.ofSource filename src { filename } false).diagnostics.flatMap (Diagnostic.line coloured) := by
  have hroom : ({ chunks } : Writer).room = none := rfl
  have htracker := (Parsed.sameUpTo_stay filename src { filename } trace false).tracker_eq
  unfold Parsed.diagnostics
  rw [← htracker]
  exact written_writeDiagnostics coloured _ hroom

theorem findings_ofSource (config : Config) (filename src : Text) :
    (ofSource config filename src).output.findings =
      (Parsed.ofSource filename src { filename } false).diagnostics.map Finding.ofDiagnostic := by
  have htracker := (Parsed.sameUpTo_stay filename src { filename } config.trace false).tracker_eq
  unfold Parsed.diagnostics
  rw [← htracker]
  rfl

/-- All configurations give the same output and the same error.  With a writer that takes everything,
the coloured text is the plain one apart from the control sequences at the labels. -/
theorem observation_changes_nothing (filename src : Text) :
    (∀ config config' : Config,
      (ofSource config filename src).output = (ofSource config' filename src).output ∧
        (ofSource config filename src).error = (ofSource config' filename src).error) ∧
    ∀ (chunks : Array Text) (trace trace' : Bool), ∃ plain coloured : Text,
      (ofSource { diagnostics := some { chunks }, trace } filename src).written =
        chunks.toList.flatten ++ plain ∧
      (ofSource { diagnostics := some { chunks }, trace := trace', coloured := true } filename src).written =
        chunks.toList.flatten ++ coloured ∧
      uncoloured? (ofSource {} filename src).output.findings 0 coloured = some plain := by
  refine ⟨fun config config' => ?_, fun chunks trace trace' => ?_⟩
  · have hsame := Parsed.sameUpTo_stay filename src { filename } config.trace config'.trace
    exact ⟨hsame.output_eq, hsame.errorOf_eq⟩
  · have hplain := written_ofSource filename src chunks trace false
    have hcoloured := written_ofSource filename src chunks trace' true
    rw [findings_ofSource]
    generalize (Parsed.ofSource filename src { filename } false).diagnostics = ds at hplain hcoloured ⊢
    have hlines := uncoloured?_lines ds []
    rw [List.length_nil, List.nil_append, List.nil_append] at hlines
    exact ⟨ds.flatMap (Diagnostic.line false), ds.flatMap (Diagnostic.line true), hplain, hcoloured, hlines⟩

end Compilation

end MicroLang
