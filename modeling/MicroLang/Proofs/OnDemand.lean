import MicroLang.Proofs.Totality
import MicroLang.Proofs.Rescanning
import MicroLang.Proofs.Tokenizers

/-!
# Parsing on demand

A parse of a stream has all tokens in front of it.  A parse from a reader scans a token when it is asked for one, so
a lexical error is met only if the parse comes that far.  Both are the same descent with different sources of
tokens.

A source that imitates another one gives a descent the same outcome, but for the source that is left.  A reader
imitates the stream of what it has not taken, and a tokenizer imitates a reader.  So a parse from a reader, behind
any calls on it, has the outcome of the parse of the tokens that were left, and the reader stands behind
the tokens that were taken.
-/

namespace MicroLang

open Parse

/-! ### Sources that answer alike -/

section

variable {σ τ α : Type}

/-- The state of a parse, with another source. -/
def Parsing.withSource (s : Parsing τ) (stream : σ) : Parsing σ where
  stream := stream
  current := s.current
  tree := s.tree
  generator := s.generator
  tracker := s.tracker
  recovering := s.recovering
  tracing := s.tracing
  tracingActions := s.tracingActions
  transcript := s.transcript

/-! Steps that read nothing do the same with any source, which they leave alone. -/

/-- The productions do the same with either source, and neither reads. -/
def Blind (m : ProductionOn τ α) (m' : ProductionOn σ α) : Prop :=
  ∀ (s : Parsing τ) (x : σ), ∃ r : Except Abort α × Parsing τ, Descent.ofResult (m.run s) = r ∧
    r.2.stream = s.stream ∧ r.2.current = s.current ∧
    Descent.ofResult (m'.run (s.withSource x)) = (r.1, r.2.withSource x)

theorem blind_expected (tok : Token) (kinds : List Kind) :
    Blind (expected tok kinds : ProductionOn τ Unit) (expected tok kinds : ProductionOn σ Unit) := by
  rintro ⟨stream, current, tree, generator, tracker, recovering, tracing, tracingActions, transcript⟩ x
  cases recovering with
  | false => exact ⟨_, rfl, rfl, rfl, rfl⟩
  | true => exact ⟨_, rfl, rfl, rfl, rfl⟩

theorem blind_add (parent : Nat) (content : Content) :
    Blind (add parent content : ProductionOn τ Nat) (add parent content : ProductionOn σ Nat) := by
  rintro ⟨stream, current, tree, generator, tracker, recovering, tracing, tracingActions, transcript⟩ x
  simp only [EStateM.run, add, Parsing.withSource]
  cases tree.add parent content with
  | ok added => exact ⟨_, rfl, rfl, rfl, rfl⟩
  | error e => exact ⟨_, rfl, rfl, rfl, rfl⟩

theorem blind_act (action : Bool → Generator → Step α) :
    Blind (act action : ProductionOn τ α) (act action : ProductionOn σ α) := by
  rintro ⟨stream, current, tree, generator, tracker, recovering, tracing, tracingActions, transcript⟩ x
  cases tracingActions with
  | false => exact ⟨_, rfl, rfl, rfl, rfl⟩
  | true => exact ⟨_, rfl, rfl, rfl, rfl⟩

/-- The copy answers as the original does, and again stands where it stands.  Where that is may depend on the token
taken last. -/
structure TokenSource.Imitates (copy : TokenSource σ) (original : TokenSource τ)
    (At : Token → σ → τ → Prop) : Prop where
  peek {current : Token} {x : σ} {y y' : τ} {answer : Except LexicalError Token} (here : At current x y)
    (read : original.peek? y = some (answer, y')) : ∃ x', copy.peek? x = some (answer, x') ∧ At current x' y'
  next {current tok : Token} {x : σ} {y y' : τ} (here : At current x y)
    (read : original.next? y = some (.ok tok, y')) : ∃ x', copy.next? x = some (.ok tok, x') ∧ At tok x' y'
  refused {current : Token} {x : σ} {y y' : τ} {e : LexicalError} (here : At current x y)
    (read : original.next? y = some (.error e, y')) : ∃ x', copy.next? x = some (.error e, x') ∧ At current x' y'
  remaining {current : Token} {x : σ} {y : τ} {shown : Text} (here : At current x y)
    (read : original.remaining? y = some shown) : copy.remaining? x = some shown

variable {copy : TokenSource σ} {original : TokenSource τ} {At : Token → σ → τ → Prop}

theorem Blind.outcome {m : ProductionOn τ α} {m' : ProductionOn σ α} (h : Blind m m') {s : Parsing τ}
    {r : Except Abort α × Parsing τ} (hr : some (Descent.ofResult (m.run s)) = some r) {x : σ}
    (hx : At s.current x s.stream) : ∃ x', At r.2.current x' r.2.stream ∧
      some (Descent.ofResult (m'.run (s.withSource x))) = some (r.1, r.2.withSource x') := by
  obtain ⟨r', hrun, hstream, hcurrent, hrun'⟩ := h s x
  cases hrun.symm.trans (Option.some.inj hr)
  refine ⟨x, ?_, congrArg some hrun'⟩
  rw [hstream, hcurrent]
  exact hx

/-- One step, with either source. -/
theorem Operation.outcome?_withSource (h : copy.Imitates original At) {op : Operation α} {s : Parsing τ}
    {r : Except Abort α × Parsing τ} (hr : op.outcome? original s = some r) {x : σ} (hx : At s.current x s.stream) :
    ∃ x', At r.2.current x' r.2.stream ∧ op.outcome? copy (s.withSource x) = some (r.1, r.2.withSource x') := by
  cases op with
  | pure v =>
    cases hr
    exact ⟨x, hx, rfl⟩
  | enter production =>
    rw [outcome?] at hr ⊢
    cases htracing : s.tracing with
    | false =>
      have htracing' : (s.withSource x).tracing = false := htracing
      rw [htracing] at hr
      cases hr
      rw [htracing']
      exact ⟨x, hx, rfl⟩
    | true =>
      have htracing' : (s.withSource x).tracing = true := htracing
      rw [htracing, if_pos rfl] at hr
      obtain ⟨shown, hshown, rfl⟩ := Option.map_eq_some_iff.1 hr
      have hshown' : copy.remaining? (s.withSource x).stream = some shown := h.remaining hx hshown
      rw [htracing', if_pos rfl, hshown']
      exact ⟨x, hx, rfl⟩
  | peek =>
    rw [outcome?] at hr ⊢
    obtain ⟨⟨answer, stream⟩, hread, rfl⟩ := Option.map_eq_some_iff.1 hr
    obtain ⟨x', hread', hx'⟩ : ∃ x', copy.peek? (s.withSource x).stream = some (answer, x') ∧ _ := h.peek hx hread
    rw [hread']
    cases answer with
    | ok tok => exact ⟨x', hx', rfl⟩
    | error e => exact ⟨x', hx', rfl⟩
  | take =>
    rw [outcome?] at hr ⊢
    obtain ⟨⟨answer, stream⟩, hread, rfl⟩ := Option.map_eq_some_iff.1 hr
    cases answer with
    | ok tok =>
      obtain ⟨x', hread', hx'⟩ : ∃ x', copy.next? (s.withSource x).stream = some (.ok tok, x') ∧ _ := h.next hx hread
      rw [hread']
      exact ⟨x', hx', rfl⟩
    | error e =>
      obtain ⟨x', hread', hx'⟩ : ∃ x', copy.next? (s.withSource x).stream = some (.error e, x') ∧ _ :=
        h.refused hx hread
      rw [hread']
      exact ⟨x', hx', rfl⟩
  | expected tok kinds => exact (blind_expected tok kinds).outcome hr hx
  | recovered =>
    cases hr
    exact ⟨x, hx, rfl⟩
  | add parent content => exact (blind_add parent content).outcome hr hx
  | act action => exact (blind_act action).outcome hr hx

/-- A whole descent, with either source: the outcomes differ in what is left of the source only. -/
theorem Descent.Ends.withSource (h : copy.Imitates original At) {d : Descent α} {s : Parsing τ}
    {r : Except Abort α × Parsing τ} (hends : d.Ends original s r) {x : σ} (hx : At s.current x s.stream) :
    ∃ x', At r.2.current x' r.2.stream ∧ d.Ends copy (s.withSource x) (r.1, r.2.withSource x') := by
  -- on the rules that lead to the outcome: each of them is one for the copy too
  induction hends generalizing x with
  | once outcome =>
    obtain ⟨x', hx', houtcome⟩ := Operation.outcome?_withSource h outcome hx
    exact ⟨x', hx', .once houtcome⟩
  | go _ _ ihfirst ihrest =>
    obtain ⟨x', hx', hfirst⟩ := ihfirst hx
    obtain ⟨x'', hx'', hrest⟩ := ihrest hx'
    exact ⟨x'', hx'', .go hfirst hrest⟩
  | stop _ ih =>
    obtain ⟨x', hx', hfirst⟩ := ih hx
    exact ⟨x', hx', .stop hfirst⟩
  | silent tracing => exact ⟨x, hx, .silent tracing⟩
  | traced tracing walks => exact ⟨x, hx, .traced tracing walks⟩
  | call _ ih =>
    obtain ⟨x', hx', hbody⟩ := ih hx
    exact ⟨x', hx', .call hbody⟩

end

/-! ### Readers -/

/-- Scanning does not leave the end. -/
theorem Stream.ofCursor_behind_end {filename : Text} {c next : Cursor} {tok tok' : Token}
    (hend : ofCursor filename c = ⟨[], .eof tok⟩) (hscan : c.scan filename = .ok (tok', next)) :
    ofCursor filename next = ⟨[], .eof tok⟩ := by
  have hpeek : (ofCursor filename c).peek = .ok tok := by
    rw [hend]
    rfl
  obtain ⟨next', hscan', hrest⟩ := scan_of_peek hpeek
  cases hscan.symm.trans hscan'
  rw [hrest, hend]
  rfl

namespace Lookahead

def source : TokenSource Lookahead where
  peek? l := some l.peek
  next? l := some l.next
  remaining? l := some l.remaining

/-- The reader stands before the tokens of a stream, behind the current one. -/
structure StandsBefore (current : Token) (l : Lookahead) (stream : Stream) : Prop where
  taken : HasTaken stream 0 l
  scanned : stream.Scanned
  current : l.current = current

theorem current_peek (l : Lookahead) : l.peek.2.current = l.current := by
  unfold peek
  cases l.slot with
  | some tok => rfl
  | none =>
    unfold scan
    cases l.cursor.scan l.filename with
    | error e => rfl
    | ok found => rfl

namespace StandsBefore

variable {current tok : Token} {l : Lookahead} {stream : Stream} (h : l.StandsBefore current stream)

include h

/-- The reader sees the first token of the stream and then stands where it stood. -/
theorem peek (hpeek : stream.peek = .ok tok) :
    ∃ reader, l.peek = (.ok tok, reader) ∧ reader.StandsBefore current stream ∧
      Stream.ofCursor reader.filename reader.cursor = stream.rest := by
  have hcurrent := l.current_peek.trans h.current
  have hstill := h.taken.peek
  obtain ⟨tok', reader, hread, -, hok, hahead⟩ | ⟨e, -, -, herror, -⟩ := h.taken.peek_cases
  · cases hok.symm.trans ((stream.peek_skip 0).symm.trans hpeek)
    rw [hread] at hcurrent hstill
    exact ⟨reader, hread, ⟨hstill, h.scanned, hcurrent⟩, hahead.trans (stream.rest_skip 0).symm⟩
  · cases herror.symm.trans ((stream.peek_skip 0).symm.trans hpeek)

theorem peek_of_error {e : LexicalError} (hpeek : stream.peek = .error e) : l.peek = (.error e, l) := by
  obtain ⟨tok, reader, -, -, hok, -⟩ | ⟨e', hread, -, herror, -⟩ := h.taken.peek_cases
  · cases hok.symm.trans ((stream.peek_skip 0).symm.trans hpeek)
  · cases herror.symm.trans ((stream.peek_skip 0).symm.trans hpeek)
    exact hread

/-- The reader takes the first token of the stream and then stands before the next one. -/
theorem next (hpeek : stream.peek = .ok tok) :
    ∃ reader, l.next = (.ok tok, reader) ∧ reader.StandsBefore tok stream.rest := by
  obtain ⟨reader, hread, -, hahead⟩ := h.peek hpeek
  refine ⟨{ reader with slot := none, current := tok }, by rw [Lookahead.next, hread], .empty rfl hahead, ?_, rfl⟩
  exact ⟨fun tok' htok' => h.scanned.lexemes tok' (List.mem_of_mem_tail htok'), h.scanned.eof⟩

theorem remaining : l.remaining = stream.remaining :=
  congrArg Stream.remaining (h.taken.unread h.scanned)

end StandsBefore

/-- A reader imitates the stream of the tokens that it has not taken. -/
theorem imitates_stream : source.Imitates Stream.source StandsBefore where
  peek := by
    rintro current l stream _ answer here ⟨⟩
    cases hpeek : stream.peek with
    | ok tok =>
      obtain ⟨reader, hread, hreader, -⟩ := here.peek hpeek
      exact ⟨reader, congrArg some hread, hreader⟩
    | error e => exact ⟨l, congrArg some (here.peek_of_error hpeek), here⟩
  next := by
    intro current tok l stream stream' here read
    cases hpeek : stream.peek with
    | ok tok' =>
      cases (Stream.next?_source_of_ok hpeek).symm.trans read
      obtain ⟨reader, hread, hreader⟩ := here.next hpeek
      exact ⟨reader, congrArg some hread, hreader⟩
    | error e => cases (Stream.next?_source_of_error hpeek).symm.trans read
  refused := by
    intro current l stream stream' e here read
    cases hpeek : stream.peek with
    | ok tok' => cases (Stream.next?_source_of_ok hpeek).symm.trans read
    | error e' =>
      cases (Stream.next?_source_of_error hpeek).symm.trans read
      refine ⟨l, ?_, here⟩
      show some l.next = _
      rw [next, here.peek_of_error hpeek]
  remaining := by
    rintro current l stream _ here ⟨⟩
    exact congrArg some here.remaining

/-! ### Readers behind calls -/

/-- The token in the slot is a lexeme, or it is the end and there the cursor stands. -/
def SlotScanned (l : Lookahead) : Prop :=
  ∀ tok, l.slot = some tok → Lexeme tok.kind tok.literal ∨
    tok.kind = .eofSym ∧ Stream.ofCursor l.filename l.cursor = ⟨[], .eof tok⟩

theorem slotScanned_of_none {l : Lookahead} (h : l.slot = none) : l.SlotScanned := by
  intro tok hslot
  cases h.symm.trans hslot

namespace SlotScanned

variable {l : Lookahead} (h : l.SlotScanned)

include h

theorem scan : l.scan.2.SlotScanned := by
  intro tok hslot
  unfold Lookahead.scan at hslot ⊢
  cases hscan : l.cursor.scan l.filename with
  | error e =>
    rw [hscan] at hslot
    exact h tok hslot
  | ok found =>
    obtain ⟨tok', cursor⟩ := found
    rw [hscan] at hslot
    obtain hlexeme | ⟨hk, hend⟩ := h tok hslot
    · exact .inl hlexeme
    · exact .inr ⟨hk, Stream.ofCursor_behind_end hend hscan⟩

theorem peek : l.peek.2.SlotScanned := by
  cases hslot : l.slot with
  | some tok =>
    rw [peek_of_slot hslot]
    exact h
  | none =>
    cases hscan : l.cursor.scan l.filename with
    | error e =>
      rw [Lookahead.peek_of_error hslot hscan]
      exact h
    | ok found =>
      obtain ⟨tok, cursor⟩ := found
      rw [peek_of_scan hslot hscan]
      rintro _ ⟨⟩
      -- the cursor is behind the token that is now in the slot, unless this is the end
      by_cases hk : tok.kind = .eofSym
      · exact .inr ⟨hk, Stream.ofCursor_behind_end (Stream.ofCursor_of_eof hscan hk) hscan⟩
      · have hscanned := Stream.scanned_ofCursor l.filename l.cursor
        rw [Stream.ofCursor_of_token hscan hk] at hscanned
        exact .inl (hscanned.lexemes tok List.mem_cons_self)

theorem next : l.next.2.SlotScanned := by
  have hpeek := h.peek
  unfold Lookahead.next
  generalize l.peek = r at hpeek
  obtain ⟨answer, reader⟩ := r
  cases answer with
  | error e => exact hpeek
  | ok tok => exact slotScanned_of_none rfl

theorem reply (call : Call) : (l.reply call).2.SlotScanned := by
  cases call with
  | scan => exact h.scan
  | peek => exact h.peek
  | next => exact h.next
  | current => exact h
  | remaining => exact h

theorem after (calls : List Call) : (l.after calls).SlotScanned := by
  induction calls generalizing l with
  | nil => exact h
  | cons call calls ih => exact ih (h.reply call)

/-- The reader stands before the tokens that it has not taken. -/
theorem standsBefore : l.StandsBefore l.current l.unread := by
  have hlater := Stream.scanned_ofCursor l.filename l.cursor
  cases hslot : l.slot with
  | none =>
    have hunread : l.unread = Stream.ofCursor l.filename l.cursor := by rw [unread, hslot]
    rw [hunread]
    exact ⟨.empty hslot rfl, hlater, rfl⟩
  | some tok =>
    obtain hlexeme | ⟨hk, hend⟩ := h tok hslot
    · have hunread : l.unread = (Stream.ofCursor l.filename l.cursor).cons tok := by
        rw [unread, hslot]
        exact if_neg hlexeme.ne_eofSym
      rw [hunread]
      exact ⟨.full hslot rfl rfl, ⟨List.forall_mem_cons.2 ⟨hlexeme, hlater.lexemes⟩, hlater.eof⟩, rfl⟩
    · have hunread : l.unread = ⟨[], .eof tok⟩ := by
        rw [unread, hslot]
        exact if_pos hk
      rw [hend] at hlater
      rw [hunread]
      exact ⟨.full hslot rfl hend, hlater, rfl⟩

end SlotScanned

theorem slotScanned_ofSource (filename src : Text) : (ofSource filename src).SlotScanned := slotScanned_of_none rfl

end Lookahead

/-! ### Tokenizers -/

namespace Tokenizer

def source (src : Text) : TokenSource Tokenizer where
  peek? := peek? src
  next? := next? src
  remaining? := remaining? src

theorem Matches.imitates {src : Text} {r? : Option (Except LexicalError Token × Tokenizer)}
    {r : Except LexicalError Token × Lookahead} (h : Matches src r? r) {answer : Except LexicalError Token}
    {l : Lookahead} (read : some r = some (answer, l)) : ∃ k, r? = some (answer, k) ∧ k.Follows src l := by
  cases Option.some.inj read
  exact h

/-- A tokenizer imitates the reader that stands where it does. -/
theorem imitates_lookahead (src : Text) :
    (source src).Imitates Lookahead.source fun _ k l => k.Follows src l where
  peek here read := here.peek.imitates read
  next here read := here.next.imitates read
  refused here read := here.next.imitates read
  remaining here read := here.remaining.trans read

end Tokenizer

/-! ### Parses on demand -/

namespace Parsed

/-- How the descent of the parse ended. -/
def result (p : Parsed) : Except Abort Unit :=
  match p.abort with
  | none => .ok ()
  | some abort => .error abort

theorem result_ofState (s : ParseState) :
    Descent.ofResult ((Parse.systemGoal (s.stream.tokens.length + 1)).run s) =
      ((ofState s).result, (ofState s).state) := by
  unfold ofState
  cases (Parse.systemGoal (s.stream.tokens.length + 1)).run s with
  | ok v s' => rfl
  | error abort s' => rfl

variable {s : ParseState} {l : Lookahead}

/-- The descent with a reader ends as the parse of the stream that it stands before. -/
theorem ends_lookahead (hl : l.StandsBefore s.current s.stream) (htree : s.tree.Walkable) :
    ∃ l', l'.StandsBefore (ofState s).state.current (ofState s).state.stream ∧
      Descent.systemGoal.Ends Lookahead.source (s.withSource l)
        ((ofState s).result, (ofState s).state.withSource l') := by
  have hends := (Descent.ends_systemGoal hl.scanned htree).1
  rw [result_ofState] at hends
  exact hends.withSource Lookahead.imitates_stream hl

/-- A parse from a reader, behind any calls on it, takes token by token from it.  It has an outcome, and this is the
outcome of the parse of the tokens that had not been taken.  The reader is left where that parse ends. -/
theorem ofLookahead_onDemand (filename src : Text) (calls : List Call) (tracker : Tracker) (tracing : Bool) :
    let l := (Lookahead.ofSource filename src).after calls
    let p := ofLookahead l tracker tracing
    ∃ l', l'.unread = p.state.stream ∧ l'.current = p.state.current ∧
      ∀ outcome, Descent.systemGoal.Ends Lookahead.source { stream := l, current := l.current, tracker, tracing }
        outcome ↔ outcome = (p.result, p.state.withSource l') := by
  intro l p
  have hl : l.SlotScanned := (Lookahead.slotScanned_ofSource filename src).after calls
  obtain ⟨l', hl', hends⟩ := ends_lookahead (s := { stream := l.unread, current := l.current, tracker, tracing })
    hl.standsBefore (Tree.walkable_ofRoot _)
  refine ⟨l', hl'.taken.unread hl'.scanned, hl'.current, fun outcome => ⟨fun h => h.unique hends, ?_⟩⟩
  rintro rfl
  exact hends

/-- A parse of a source that is scanned byte by byte while it goes on has an outcome, and this is the outcome
of the parse of the stream. -/
theorem ofSource_onDemand (filename src : Text) (tracker : Tracker) (tracing : Bool) :
    let p := ofSource filename src tracker tracing
    ∃ k', k'.remaining? src = some p.state.stream.remaining ∧ k'.current = p.state.current ∧
      ∀ outcome, Descent.systemGoal.Ends (Tokenizer.source src)
        { stream := .ofSource src filename, tracker, tracing, tracingActions := tracing } outcome ↔
          outcome = (p.result, p.state.withSource k') := by
  intro p
  obtain ⟨l', hl', hends⟩ := ends_lookahead (s := .initial filename src tracker tracing)
    (Lookahead.slotScanned_ofSource filename src).standsBefore (Tree.walkable_ofRoot _)
  obtain ⟨k', hk', hends'⟩ := hends.withSource (Tokenizer.imitates_lookahead src)
    (Tokenizer.follows_ofSource src filename)
  refine ⟨k', ?_, hk'.current.symm.trans hl'.current, fun outcome => ⟨fun h => h.unique hends', ?_⟩⟩
  · rw [hk'.remaining]
    exact congrArg some hl'.remaining
  · rintro rfl
    exact hends'

end Parsed

end MicroLang
