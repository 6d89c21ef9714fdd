import MicroLang.Proofs.Acceptance

/-!
# Containment of errors

The code of a source that does not compile is a correct beginning.  What stands before its first error
can be completed to a source that compiles, and the code emitted so far is a beginning of the code of
the completed source.  The first error stands at the place of the first finding or, if nothing was
reported, at the place of the lexical error that ended the scan.

The completed source is the text of the tokens before the error and of tokens for the words that are
missing, with one blank between neighbours.
-/

namespace MicroLang

open Parse

/-! ### Tokens before a place -/

/-- A token without its place. -/
def Token.unplaced (tok : Token) : Kind × Text := (tok.kind, tok.literal)

namespace Stream

/-- The tokens that stand before a place. -/
def before (s : Stream) (p : Position) : List Token := s.tokens.filter fun tok => tok.pos.before p

/-- Where a stream goes on. -/
def place (s : Stream) : Position :=
  match s.peek with
  | .ok tok => tok.pos
  | .error e => e.pos

/-- The place where a stream goes on is the first of its places. -/
theorem places_eq_cons (s : Stream) : ∃ later, s.places = s.place :: later := by
  obtain ⟨tokens, ending⟩ := s
  cases tokens with
  | cons tok rest => exact ⟨_, rfl⟩
  | nil =>
    cases ending with
    | eof tok => exact ⟨[], rfl⟩
    | fault e => exact ⟨[], rfl⟩

/-- The tokens before the place where the rest of a stream goes on are those in front of the rest. -/
theorem before_place {s ahead : Stream} {read : List Token}
    (hplaces : s.places.Pairwise fun p q => p.before q = true)
    (htokens : s.tokens = read ++ ahead.tokens) (hending : ahead.ending = s.ending) :
    s.before ahead.place = read := by
  have hsplit : s.places = read.map Token.pos ++ ahead.places := by
    rw [places, places, htokens, hending, List.map_append, List.append_assoc]
  rw [hsplit, List.pairwise_append] at hplaces
  obtain ⟨_, hahead, hread⟩ := hplaces
  obtain ⟨later, hlater⟩ := ahead.places_eq_cons
  rw [before, htokens, List.filter_append, List.filter_eq_self.2, List.filter_eq_nil_iff.2,
    List.append_nil]
  · intro tok htok hbefore
    have hmem : tok.pos ∈ ahead.places := List.mem_append_left _ (List.mem_map_of_mem htok)
    rw [hlater] at hmem hahead
    have hself : ahead.place.before ahead.place = true := by
      rcases List.mem_cons.1 hmem with hsame | hmem
      · rw [← hsame] at hbefore ⊢
        exact hbefore
      · exact Position.before_trans ((List.pairwise_cons.1 hahead).1 _ hmem) hbefore
    rw [Position.before_irrefl] at hself
    cases hself
  · intro tok htok
    refine hread _ (List.mem_map_of_mem htok) _ ?_
    rw [hlater]
    exact List.mem_cons_self

end Stream

/-! ### Completed sources -/

/-- The words of tokens follow from their kinds and literals. -/
theorem words_of_unplaced {tokens tokens' : List Token}
    (h : tokens.map Token.unplaced = tokens'.map Token.unplaced) :
    tokens.map Token.word = tokens'.map Token.word := by
  let word (i : Kind × Text) : Word := { kind := i.1, value := if i.1.isOpen then i.2 else [] }
  have hword : ∀ tokens : List Token, tokens.map Token.word = (tokens.map Token.unplaced).map word := by
    intro tokens
    rw [List.map_map]
    rfl
  rw [hword, hword, h]

/-- Words that can be written are the words of tokens that can be scanned. -/
theorem exists_tokens_of_writable {ws : List Word} (h : ∀ w ∈ ws, w.Writable) :
    ∃ tokens : List Token, (∀ tok ∈ tokens, Lexeme tok.kind tok.literal) ∧
      tokens.map Token.word = ws := by
  induction ws with
  | nil => exact ⟨[], fun tok htok => absurd htok List.not_mem_nil, rfl⟩
  | cons w ws ih =>
    obtain ⟨tok, hlexeme, rfl⟩ := h w List.mem_cons_self
    obtain ⟨tokens, hlexemes, rfl⟩ := ih fun v hv => h v (List.mem_cons_of_mem _ hv)
    exact ⟨tok :: tokens, List.forall_mem_cons.2 ⟨hlexeme, hlexemes⟩, rfl⟩

/-- The text of tokens that can be scanned spells what the tokens spell. -/
theorem Stream.exists_source (filename : Text) {tokens : List Token} {p : Program}
    (h : ∀ tok ∈ tokens, Lexeme tok.kind tok.literal) (hwords : tokens.map Token.word = p.words) :
    ∃ src, (ofSource filename src).tokens.map Token.unplaced = tokens.map Token.unplaced ∧
      (ofSource filename src).Spells p := by
  have hitems : ∀ i ∈ tokens.map Token.unplaced, Lexeme i.1 i.2 := by
    intro i hi
    obtain ⟨tok, htok, rfl⟩ := List.mem_map.1 hi
    exact h tok htok
  obtain ⟨htokens, hending⟩ := ofCursor_of_lexemes filename hitems
    (c := { rest := [32].intercalate ((tokens.map Token.unplaced).map Prod.snd) }) (.inl rfl) rfl
  exact ⟨_, htokens, (words_of_unplaced htokens).trans hwords, hending⟩

/-! ### Errors -/

namespace Compilation

/-- The place of the first error: of the first finding, or of the lexical error if there is none. -/
def errorPoint? (c : Compilation) : Option Position :=
  match c.output.findings, c.error with
  | f :: _, _ => some { filename := f.filename, line := f.line, column := f.column }
  | [], some (.lexical filename line column _) => some { filename, line, column }
  | [], _ => none

/-- A failure shows at the place where the source goes on behind what was read before. -/
theorem errorPoint?_of_shown (config : Config) {filename src : Text} {f : FirstError}
    (h : f.ShownBy { filename } ((systemGoal ((Stream.ofSource filename src).tokens.length + 1)).run
      (ParseState.initial filename src { filename } config.trace))) :
    ∃ point, (ofSource config filename src).errorPoint? = some point ∧
      (Stream.ofSource filename src).before point = (Stream.ofSource filename src).before f.ahead.place := by
  have hfindings := findings_eq config filename src
  generalize hrun : (systemGoal ((Stream.ofSource filename src).tokens.length + 1)).run
    (ParseState.initial filename src { filename } config.trace) = r at h hfindings
  cases h with
  | @fault e s' _ hpeek htracker _ =>
    rw [show stateOf (.error (.lexical e) s') = s' from rfl, htracker] at hfindings
    refine ⟨{ filename := e.pos.filename, line := e.pos.line, column := e.pos.column }, ?_, ?_⟩
    · rw [errorPoint?, hfindings, error_of_lexical config hrun]
      rfl
    · rw [Stream.place, hpeek]
      rfl
  | @mismatch _ tok _ hpeek _ hdiag _ =>
    obtain ⟨later, hlater⟩ := hdiag
    rw [← hlater] at hfindings
    refine ⟨{ filename, line := tok.pos.line, column := tok.pos.column }, ?_, ?_⟩
    · rw [errorPoint?, hfindings]
      rfl
    · rw [Stream.place, hpeek]
      rfl

/-- The code of a source that does not compile is a beginning of the code of a source that does and that
starts with the tokens before the first error. -/
theorem failed_code_extends (config : Config) (filename src : Text)
    (h : (ofSource config filename src).error ≠ none) :
    ∃ point completed, (ofSource config filename src).errorPoint? = some point ∧
      (ofSource config filename completed).error = none ∧
      ((Stream.ofSource filename src).before point).map Token.unplaced <+:
        (Stream.ofSource filename completed).tokens.map Token.unplaced ∧
      (ofSource config filename src).output.code <+: (ofSource config filename completed).output.code := by
  obtain ⟨f, read, p, missing, hshown, htokens, hending, hwords, hmissing, hcode⟩ := rejected config h
  obtain ⟨point, hpoint, hbefore⟩ := errorPoint?_of_shown config hshown
  have hread : (Stream.ofSource filename src).before f.ahead.place = read :=
    Stream.before_place (Stream.pairwise_places filename _) htokens hending
  -- the tokens read and tokens for what is missing make the completed source
  obtain ⟨more, hmore, rfl⟩ := exists_tokens_of_writable hmissing
  have hlexemes : ∀ tok ∈ read ++ more, Lexeme tok.kind tok.literal := by
    intro tok htok
    rcases List.mem_append.1 htok with htok | htok
    · refine (Stream.scanned_ofSource filename src).lexemes tok ?_
      rw [htokens]
      exact List.mem_append_left _ htok
    · exact hmore tok htok
  obtain ⟨completed, hsame, hspells⟩ := Stream.exists_source filename (p := p) hlexemes
    (by rw [List.map_append, hwords])
  refine ⟨point, completed, hpoint, (error_eq_none_iff config filename completed).2 ⟨p, hspells⟩, ?_, ?_⟩
  · rw [hsame, hbefore, hread, List.map_append]
    exact List.prefix_append _ _
  · rw [code_of_shown config hshown, code_of_spells config hspells]
    exact (hcode.trans (List.prefix_append _ _)).map Instruction.text

/-- The assignment in front of a missing semicolon is already stored. -/
theorem failed_code_extends_assignment :
    let c := ofSource {} [] (text "begin a := 1 b := 2; end")
    c.error ≠ none ∧ c.output.code = [text "Declare a, Integer", text "Store 1, a"] ∧
      ∃ completed, (ofSource {} [] completed).error = none ∧
        [(.beginSym, text "begin"), (.id, text "a"), (.assignOp, text ":="), (.intLiteral, text "1")] <+:
          (Stream.ofSource [] completed).tokens.map Token.unplaced ∧
        c.output.code <+: (ofSource {} [] completed).output.code := by
  intro c
  have herror : c.error ≠ none := by decide +kernel
  have hcode : c.output.code = [text "Declare a, Integer", text "Store 1, a"] := by decide +kernel
  obtain ⟨point, completed, hpoint, hclean, htokens, hprefix⟩ := failed_code_extends _ _ _ herror
  have hplace : c.errorPoint? = some { line := 1, column := 14 } := by decide +kernel
  cases hpoint.symm.trans hplace
  have hbefore : ((Stream.ofSource [] (text "begin a := 1 b := 2; end")).before
      { line := 1, column := 14 }).map Token.unplaced =
        [(.beginSym, text "begin"), (.id, text "a"), (.assignOp, text ":="), (.intLiteral, text "1")] := by
    decide +kernel
  rw [hbefore] at htokens
  exact ⟨herror, hcode, completed, hclean, htokens, hprefix⟩

end Compilation

end MicroLang
