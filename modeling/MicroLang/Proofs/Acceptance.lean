import MicroLang.Compilation
import MicroLang.Proofs.Productions

/-!
# Accepted and rejected sources

What a whole parse says about its source.  A source is accepted if its tokens are the words of a program
and nothing else stands in it; then the code is that of the program.  Otherwise there is an error, and
the code is what was emitted before it.
-/

namespace MicroLang

open Parse

/-- The code of a program. -/
def Program.code (p : Program) : List Instruction :=
  (p.translate {}).2.instructions ++ [{ opcode := .halt }]

/-- The tokens are the words of the program, and scanning reaches the end. -/
structure Stream.Spells (stream : Stream) (p : Program) : Prop where
  words : stream.tokens.map Token.word = p.words
  ended : ∃ tok, stream.ending = .eof tok

/-- The words of scanned tokens can be written. -/
theorem Stream.Scanned.writable {stream : Stream} (h : stream.Scanned) {tokens : List Token}
    (htokens : tokens ⊆ stream.tokens) : ∀ w ∈ tokens.map Token.word, w.Writable := by
  intro w hw
  obtain ⟨tok, htok, rfl⟩ := List.mem_map.1 hw
  exact Token.writable_word (h.lexemes tok (htokens htok))

theorem Stream.Spells.writable {stream : Stream} {p : Program} (h : stream.Spells p)
    (hscanned : stream.Scanned) : ∀ w ∈ p.words, w.Writable := by
  rw [← h.words]
  exact hscanned.writable (List.Subset.refl _)

/-! ### Results and their runs -/

namespace Parsed

theorem state_ofState (s : ParseState) :
    (ofState s).state = stateOf ((systemGoal (s.stream.tokens.length + 1)).run s) := by
  unfold ofState
  split
  · next h => rw [h]; rfl
  · next h => rw [h]; rfl

theorem error?_of_ok {s s' : ParseState}
    (h : (systemGoal (s.stream.tokens.length + 1)).run s = .ok () s')
    (hno : s'.tracker.hasError = false) : (ofState s).error? = none := by
  rw [ofState, h]
  show (if s'.tracker.hasError = true then _ else none) = none
  rw [if_neg (by rw [hno]; exact Bool.false_ne_true)]

theorem error?_of_hasError {p : Parsed} (h : p.state.tracker.hasError = true) : p.error? ≠ none := by
  unfold error?
  split
  · exact Option.some_ne_none _
  · rw [if_pos h]
    exact Option.some_ne_none _

theorem error?_of_lexicalError? {p : Parsed} (h : p.lexicalError? ≠ none) : p.error? ≠ none := by
  unfold error?
  split
  · exact Option.some_ne_none _
  · next hnone => exact absurd hnone h

/-- Whatever shows a failure has an error. -/
theorem error?_of_shown {s : ParseState} {f : FirstError} {t : Tracker}
    (h : f.ShownBy t ((systemGoal (s.stream.tokens.length + 1)).run s)) : (ofState s).error? ≠ none := by
  generalize hrun : (systemGoal (s.stream.tokens.length + 1)).run s = r at h
  cases h with
  | fault =>
    rw [ofState, hrun]
    exact Option.some_ne_none _
  | mismatch _ _ _ hdiag _ =>
    rw [← hrun, ← state_ofState] at hdiag
    exact error?_of_hasError (FirstError.hasError_of_complaint hdiag)

theorem instructions_of_shown {s : ParseState} {f : FirstError} {t : Tracker}
    (h : f.ShownBy t ((systemGoal (s.stream.tokens.length + 1)).run s)) :
    (ofState s).instructions = f.code := by
  rw [instructions, state_ofState]
  exact h.code

end Parsed

/-! ### Accepted sources -/

/-- A rejected text is not the text of a program. -/
theorem Stream.not_spells {stream ahead : Stream} {read : List Token} {p : Program}
    (htokens : stream.tokens = read ++ ahead.tokens) (hending : ahead.ending = stream.ending)
    (hscanned : stream.Scanned)
    (hno : ∀ tok, ahead.peek = .ok tok → ¬read.map Token.word ++ [tok.word] <+: p.sentence) :
    ¬stream.Spells p := by
  rintro ⟨hwords, eof, heof⟩
  rw [htokens, List.map_append] at hwords
  obtain ⟨tokens, ending⟩ := ahead
  cases tokens with
  | cons tok rest =>
    refine hno tok rfl ⟨rest.map Token.word ++ [{ kind := .eofSym }], ?_⟩
    rw [Program.sentence, ← hwords, List.map_cons]
    simp only [List.append_assoc, List.cons_append, List.nil_append]
  | nil =>
    dsimp only at hending
    have hpeek : (Stream.mk [] ending).peek = .ok eof := by
      rw [hending, heof]
      rfl
    refine hno eof hpeek ⟨[], ?_⟩
    have hword : eof.word = { kind := .eofSym } := by
      have hkind := hscanned.eof eof heof
      rw [Token.word_of_closed (by rw [hkind]; rfl), hkind]
    rw [Program.sentence, ← hwords, hword, List.map_nil, List.append_nil, List.append_nil]

namespace Parsed

variable {s : ParseState}

/-- A text without errors so far is accepted exactly if it spells a program. -/
theorem error?_eq_none_iff (h : s.Ready (s.stream.tokens.length + 1) [Tree.root]) :
    (ofState s).error? = none ↔ ∃ p, s.stream.Spells p := by
  cases verdict_systemGoal h with
  | accepted p hrun hwords hending htracker _ =>
    have hno := h.noError
    rw [← htracker] at hno
    exact iff_of_true (error?_of_ok hrun hno) ⟨p, hwords, _, hending⟩
  | rejected f read hshown htokens hending _ hexcludes =>
    refine iff_of_false (error?_of_shown hshown) ?_
    rintro ⟨p, hp⟩
    exact Stream.not_spells htokens hending h.scanned (fun tok htok => hexcludes tok htok p) hp

/-- An accepted text leaves the generator behind the translation of its program and its end. -/
theorem generator_of_spells (h : s.Ready (s.stream.tokens.length + 1) [Tree.root]) {p : Program}
    (hp : s.stream.Spells p) :
    (ofState s).state.generator = (Generator.finish false (p.translate s.generator).2).generator := by
  cases verdict_systemGoal h with
  | @accepted p' _ s' hrun hwords _ _ hgenerator =>
    have hsame : p' = p := Program.eq_of_words (hwords.symm.trans hp.words)
    rw [state_ofState, hrun]
    show s'.generator = _
    rw [hgenerator, hsame]
  | rejected f read _ htokens hending _ hexcludes =>
    exact absurd hp
      (Stream.not_spells htokens hending h.scanned fun tok htok => hexcludes tok htok p)

/-- The code of an accepted text is the code of its program. -/
theorem instructions_of_spells (h : s.Ready (s.stream.tokens.length + 1) [Tree.root])
    (hgen : s.generator = {}) {p : Program} (hp : s.stream.Spells p) :
    (ofState s).instructions = p.code := by
  rw [instructions, generator_of_spells h hp, hgen, Program.code]
  exact Generator.instructions_emit _ _

/-- What is known about a text that is not accepted. -/
theorem rejected (h : s.Ready (s.stream.tokens.length + 1) [Tree.root])
    (herror : (ofState s).error? ≠ none) : ∃ (f : FirstError) (read : List Token),
    f.ShownBy s.tracker ((systemGoal (s.stream.tokens.length + 1)).run s) ∧
      s.stream.tokens = read ++ f.ahead.tokens ∧ f.ahead.ending = s.stream.ending ∧
      ∀ next, f.Wants next → Resumes s.generator (read.map Token.word) f.code next := by
  cases verdict_systemGoal h with
  | accepted p _ hwords hending _ _ =>
    exact absurd ((error?_eq_none_iff h).2 ⟨p, hwords, _, hending⟩) herror
  | rejected f read hshown htokens hending hresumes _ =>
    exact ⟨f, read, hshown, htokens, hending, hresumes⟩

end Parsed

/-! ### Sources -/

/-- The state in which the parse of a source starts. -/
def ParseState.initial (filename src : Text) (tracker : Tracker) (tracing : Bool) : ParseState :=
  { stream := Stream.ofSource filename src, tracker, tracing, tracingActions := tracing }

theorem Tracker.hasError_fresh (filename : Text) : ({ filename } : Tracker).hasError = false := rfl

section

variable (filename src : Text) {tracker : Tracker} (tracing : Bool)

theorem ParseState.ready_initial (h : tracker.hasError = false) :
    (initial filename src tracker tracing).Ready ((Stream.ofSource filename src).tokens.length + 1)
      [Tree.root] where
  noError := h
  calm := rfl
  scanned := Stream.scanned_ofSource filename src
  room := Nat.lt_succ_self _
  nodes := by
    intro n hn
    rw [List.mem_singleton.1 hn]
    exact Nat.zero_lt_one

/-- With a tracker that has no errors, a source is accepted exactly if it spells a program. -/
theorem Parsed.error?_ofSource_iff (h : tracker.hasError = false) :
    (ofSource filename src tracker tracing).error? = none ↔
      ∃ p, (Stream.ofSource filename src).Spells p :=
  error?_eq_none_iff (ParseState.ready_initial filename src tracing h)

end

namespace Compilation

variable (config : Config) (filename src : Text)

theorem errorOf_eq_none_iff (p : Parsed) : errorOf p = none ↔ p.error? = none := by
  unfold errorOf
  split
  · next h => exact iff_of_true rfl h
  · next h => exact iff_of_false (Option.some_ne_none _) (by rw [h]; exact Option.some_ne_none _)
  · next h => exact iff_of_false (Option.some_ne_none _) (by rw [h]; exact Option.some_ne_none _)

theorem error_eq_none_iff :
    (ofSource config filename src).error = none ↔ ∃ p, (Stream.ofSource filename src).Spells p :=
  (errorOf_eq_none_iff _).trans
    (Parsed.error?_ofSource_iff filename src config.trace (Tracker.hasError_fresh filename))

/-- The findings are the diagnostics that the run of the parse ends with. -/
theorem findings_eq : (ofSource config filename src).output.findings =
    (stateOf ((systemGoal ((Stream.ofSource filename src).tokens.length + 1)).run
      (ParseState.initial filename src { filename } config.trace))).tracker.diagnostics.toList.map
        Finding.ofDiagnostic := by
  show (Parsed.ofState (ParseState.initial filename src { filename } config.trace)).diagnostics.map
    Finding.ofDiagnostic = _
  rw [Parsed.diagnostics, Parsed.state_ofState]
  rfl

variable {filename src}

/-- The lexical error that ends the run of the parse is the error of the compilation. -/
theorem error_of_lexical {e : LexicalError} {s : ParseState}
    (h : (systemGoal ((Stream.ofSource filename src).tokens.length + 1)).run
      (ParseState.initial filename src { filename } config.trace) = .error (.lexical e) s) :
    (ofSource config filename src).error = some (.ofLexical e) := by
  have hrun : (systemGoal ((ParseState.initial filename src { filename } config.trace).stream.tokens.length
      + 1)).run (ParseState.initial filename src { filename } config.trace) = .error (.lexical e) s := h
  show errorOf (Parsed.ofState (ParseState.initial filename src { filename } config.trace)) = _
  rw [Parsed.ofState, hrun]
  rfl

/-- Nothing is found in a source that is accepted. -/
theorem findings_of_clean (h : (ofSource config filename src).error = none) :
    (ofSource config filename src).output.findings = [] := by
  rw [findings_eq]
  cases verdict_systemGoal
    (ParseState.ready_initial filename src config.trace (Tracker.hasError_fresh filename)) with
  | accepted p hrun _ _ htracker _ =>
    rw [hrun]
    exact congrArg (fun t : Tracker => t.diagnostics.toList.map Finding.ofDiagnostic) htracker
  | rejected f read hshown _ _ _ _ =>
    exact absurd ((errorOf_eq_none_iff _).1 h) (Parsed.error?_of_shown hshown)

/-- The code of an accepted source is the code of its program. -/
theorem code_of_spells {p : Program} (hp : (Stream.ofSource filename src).Spells p) :
    (ofSource config filename src).output.code = p.code.map Instruction.text :=
  congrArg (List.map Instruction.text) (Parsed.instructions_of_spells
    (ParseState.ready_initial filename src config.trace (Tracker.hasError_fresh filename)) rfl hp)

/-- A source that is not accepted has a first error, and what was read before it begins some program. -/
theorem rejected (h : (ofSource config filename src).error ≠ none) :
    ∃ (f : FirstError) (read : List Token) (p : Program) (missing : List Word),
      f.ShownBy { filename } ((systemGoal ((Stream.ofSource filename src).tokens.length + 1)).run
        (ParseState.initial filename src { filename } config.trace)) ∧
      (Stream.ofSource filename src).tokens = read ++ f.ahead.tokens ∧
      f.ahead.ending = (Stream.ofSource filename src).ending ∧
      p.words = read.map Token.word ++ missing ∧ (∀ w ∈ missing, w.Writable) ∧
      f.code <+: (p.translate {}).2.instructions := by
  obtain ⟨f, read, hshown, htokens, hending, hresumes⟩ := Parsed.rejected
    (ParseState.ready_initial filename src config.trace (Tracker.hasError_fresh filename))
    fun herror => h ((errorOf_eq_none_iff _).2 herror)
  obtain ⟨next, hnext⟩ := f.exists_wants
  obtain ⟨p, missing, hwords, hmissing, _, hcode⟩ := hresumes next hnext
  exact ⟨f, read, p, missing, hshown, htokens, hending, hwords, hmissing, hcode⟩

theorem code_of_shown {f : FirstError} {t : Tracker}
    (h : f.ShownBy t ((systemGoal ((Stream.ofSource filename src).tokens.length + 1)).run
      (ParseState.initial filename src { filename } config.trace))) :
    (ofSource config filename src).output.code = f.code.map Instruction.text :=
  congrArg (List.map Instruction.text) (Parsed.instructions_of_shown h)

/-- The instructions of a source that is not accepted are a beginning of those of some program, without
its end. -/
theorem instructions_of_error (h : (ofSource config filename src).error ≠ none) :
    ∃ p : Program, (∀ w ∈ p.words, w.Writable) ∧
      (Parsed.ofSource filename src { filename } config.trace).instructions <+:
        (p.translate {}).2.instructions := by
  obtain ⟨f, read, p, missing, hshown, htokens, _, hwords, hmissing, hcode⟩ := rejected config h
  have hinstructions : (Parsed.ofSource filename src { filename } config.trace).instructions = f.code :=
    Parsed.instructions_of_shown hshown
  have hread : read ⊆ (Stream.ofSource filename src).tokens := by
    rw [htokens]
    exact List.subset_append_left _ _
  refine ⟨p, fun w hw => ?_, hinstructions ▸ hcode⟩
  rw [hwords, List.mem_append] at hw
  rcases hw with hw | hw
  · exact (Stream.scanned_ofSource filename src).writable hread w hw
  · exact hmissing w hw

/-- The code of a source that is not accepted is a beginning of the code of some program, without its
end. -/
theorem code_of_error (h : (ofSource config filename src).error ≠ none) :
    ∃ (p : Program) (code : List Instruction), (∀ w ∈ p.words, w.Writable) ∧
      code <+: (p.translate {}).2.instructions ∧
      (ofSource config filename src).output.code = code.map Instruction.text := by
  obtain ⟨p, hwritable, hstart⟩ := instructions_of_error config h
  exact ⟨p, _, hwritable, hstart, rfl⟩

end Compilation

end MicroLang
