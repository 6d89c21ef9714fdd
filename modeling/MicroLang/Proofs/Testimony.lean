import MicroLang.Proofs.Composition
import MicroLang.Proofs.Progress

/-!
# What a trace attests

A trace is written from inside all productions, and what it says about a run is true.  The records of
emitted instructions are the instructions of the program, in order.  The records of requests for a token show
what was still to be read at that time: the first one all tokens of the source, and every later one a token
less, until there are none.

That is so because accepting is the only step that takes tokens, it takes one, and nobody looks at the token
ahead in a way that loses it.  A request that meets a lexical error is the last record of its kind, and takes
nothing.
-/

namespace MicroLang

open Parse

/-! ### Records -/

namespace Trace

/-- The value of a record under the given key. -/
def attribute? (r : Trace) (key : Text) : Option Text := r.attributes.lookup key

/-- The code of an emitted instruction. -/
def emitted? (r : Trace) : Option Text :=
  if r.message = text "emit" then r.attribute? (text "code") else none

/-- What remained to be read when a token was requested. -/
def requested? (r : Trace) : Option Text :=
  if r.message = text "call" ∧ (r.attribute? (text "production")).any (text "match(").isPrefixOf = true then
    r.attribute? (text "remaining")
  else none

theorem emitted?_emit (code : Text) : (emit code).emitted? = some code := by
  simp only [emitted?, message, attribute?, attributes, List.lookup_cons, BEq.rfl, if_true]

theorem requested?_enter (production remaining : Text) : (enter production remaining).requested? =
    if (text "match(").isPrefixOf production then some remaining else none := by
  have hremaining : (enter production remaining).attribute? (text "remaining") = some remaining := rfl
  simp only [requested?, hremaining]
  simp only [message, attribute?, attributes, List.lookup_cons, BEq.rfl, Option.any_some, true_and]

theorem requested?_of_not_isEnter {r : Trace} (h : r.isEnter = false) : r.requested? = none := by
  cases r with
  | enter production remaining => cases h
  | _ => rfl

end Trace

namespace Event

/-- The record of an event that is one. -/
def record? : Event → Option Trace
  | .record r => some r
  | .diagnostic _ => none

end Event

/-- The records of a transcript. -/
def ParseState.records (s : ParseState) : List Trace := s.transcript.toList.filterMap Event.record?

/-! ### Actions -/

/-- The records of the action are true: they show the instructions that it emits, and no production. -/
def Candid {α : Type} (action : Bool → Generator → Step α) : Prop :=
  Silent action ∧ ∀ muted g, ∃ code, (action muted g).generator.instructions = g.instructions ++ code ∧
    (action muted g).records.filterMap Trace.emitted? = code.map Instruction.text

namespace Generator

theorem candid_emit (muted : Bool) (i : Instruction) (g : Generator) :
    ∃ code, (emit muted i g).generator.instructions = g.instructions ++ code ∧
      (emit muted i g).records.filterMap Trace.emitted? = code.map Instruction.text := by
  cases muted with
  | true => exact ⟨[], (List.append_nil _).symm, rfl⟩
  | false =>
    refine ⟨[i], Array.toList_push, ?_⟩
    simp only [emit, Bool.false_eq_true, if_false, List.filterMap_cons, Trace.emitted?_emit,
      List.filterMap_nil, List.map_cons, List.map_nil]

theorem candid_declare (muted : Bool) (name : Text) (kind : SymbolKind) (g : Generator) :
    ∃ code, (declare muted name kind g).generator.instructions = g.instructions ++ code ∧
      (declare muted name kind g).records.filterMap Trace.emitted? = code.map Instruction.text := by
  unfold declare
  split
  · exact ⟨[], (List.append_nil _).symm, rfl⟩
  · exact candid_emit _ _ _

end Generator

theorem Deed.candid {α : Type} {action : Bool → Generator → Step α} (h : Deed action) : Candid action := by
  cases h with
  | start => exact ⟨.start, fun _ g => ⟨[], (List.append_nil _).symm, rfl⟩⟩
  | finish => exact ⟨.finish, fun _ _ => Generator.candid_emit _ _ _⟩
  | identifier name => exact ⟨.identifier name, fun _ _ => Generator.candid_declare _ _ _ _⟩
  | literal digits => exact ⟨.literal digits, fun _ g => ⟨[], (List.append_nil _).symm, rfl⟩⟩
  | operation operator => exact ⟨.operation operator, fun _ g => ⟨[], (List.append_nil _).symm, rfl⟩⟩
  | combine left op right =>
    refine ⟨.combine left op right, fun muted g => ?_⟩
    -- the temporary is declared first, then the operation is emitted
    obtain ⟨declared, hdeclared, hrecords⟩ := Generator.candid_declare muted
      (Generator.temporaryName (g.temporaries + 1)) .temporary { g with temporaries := g.temporaries + 1 }
    obtain ⟨code, hcode, hrecords'⟩ := Generator.candid_emit muted
      { opcode := op, operands := [left.value, right.value, (Generator.newTemporary muted g).value] }
      (Generator.newTemporary muted g).generator
    refine ⟨declared ++ code, ?_, ?_⟩
    · rw [← List.append_assoc]
      exact hcode.trans (congrArg (· ++ code) hdeclared)
    · rw [List.map_append, ← hrecords, ← hrecords', ← List.filterMap_append]
      rfl
  | assign source destination => exact ⟨.assign source destination, fun _ _ => Generator.candid_emit _ _ _⟩
  | readInto operand => exact ⟨.readInto operand, fun _ _ => Generator.candid_emit _ _ _⟩
  | writeExpression operand => exact ⟨.writeExpression operand, fun _ _ => Generator.candid_emit _ _ _⟩

/-! ### Tokens that a run takes -/

/-- A run of the production from the state takes these tokens and has this result.  Only `take` takes a token,
and only if there is one. -/
inductive Consumes : {α : Type} → Production α → ParseState → List Token →
    EStateM.Result Abort ParseState α → Prop where
  | pure {α : Type} (v : α) (s : ParseState) : Consumes (pure v) s [] (.ok v s)
  | throw {α : Type} (e : Abort) (s : ParseState) : Consumes (throw e : Production α) s [] (.error e s)
  | basic {α : Type} {m : Production α} (h : Basic m) (s : ParseState) : Consumes m s [] (m.run s)
  | request (k : Kind) (s : ParseState) :
      Consumes (enter (text "match(" ++ k.name ++ text ")")) s []
        ((enter (text "match(" ++ k.name ++ text ")")).run s)
  | calm (s : ParseState) :
      Consumes (modify fun s => { s with recovering := false }) s [] (.ok () { s with recovering := false })
  | token {s : ParseState} {tok : Token} (ahead : s.stream.peek = .ok tok) :
      Consumes take s [tok] (take.run s)
  | fault {s : ParseState} {e : LexicalError} (ahead : s.stream.peek = .error e) :
      Consumes take s [] (take.run s)
  | next {α β : Type} {m : Production α} {f : α → Production β} {s s' : ParseState} {v : α}
      {toks toks' : List Token} {r : EStateM.Result Abort ParseState β} (first : Consumes m s toks (.ok v s'))
      (second : Consumes (f v) s' toks' r) : Consumes (m >>= f) s (toks ++ toks') r
  | stop {α β : Type} {m : Production α} {f : α → Production β} {s s' : ParseState} {e : Abort}
      {toks : List Token} (first : Consumes m s toks (.error e s')) : Consumes (m >>= f) s toks (.error e s')

namespace Consumes

variable {α β : Type} {m : Production α} {f : α → Production β} {s s' : ParseState} {toks toks' : List Token}

theorem bind_of_ok {v : α} (hm : Consumes m s toks (m.run s)) (hrun : m.run s = .ok v s')
    (hf : Consumes (f v) s' toks' ((f v).run s')) :
    Consumes (m >>= f) s (toks ++ toks') ((m >>= f).run s) := by
  rw [hrun] at hm
  rw [run_bind_of_ok hrun]
  exact .next hm hf

theorem bind_of_error {e : Abort} (hm : Consumes m s toks (m.run s)) (hrun : m.run s = .error e s') :
    Consumes (m >>= f) s toks ((m >>= f).run s) := by
  rw [hrun] at hm
  rw [run_bind_of_error hrun]
  exact .stop hm

/-- Accepting takes the token ahead, of whatever kind it is. -/
theorem accept {tok : Token} (h : s.stream.peek = .ok tok) (k : Kind) :
    Consumes (Parse.accept k) s [tok] ((Parse.accept k).run s) := by
  obtain ⟨transcript, henter⟩ := run_enter (text "match(" ++ k.name ++ text ")") s
  refine (request k s).bind_of_ok henter ?_
  refine (token (s := { s with transcript }) h).bind_of_ok (run_take_of_ok (s := { s with transcript }) h) ?_
  dsimp only
  split
  · exact (calm _).bind_of_ok rfl (.pure tok _)
  · obtain ⟨tracker, transcript', hexpected, _⟩ :=
      run_expected_cases { s with stream := s.stream.rest, current := tok, transcript } tok [k]
    exact (basic (.expected tok [k]) _).bind_of_ok hexpected (.pure tok _)

theorem accept_of_error {e : LexicalError} (h : s.stream.peek = .error e) (k : Kind) :
    Consumes (Parse.accept k) s [] ((Parse.accept k).run s) := by
  obtain ⟨transcript, henter⟩ := run_enter (text "match(" ++ k.name ++ text ")") s
  refine (request k s).bind_of_ok henter ?_
  exact (fault (s := { s with transcript }) h).bind_of_error
    (run_take_of_error (s := { s with transcript }) h)

end Consumes

/-! ### True transcripts -/

namespace ParseState

/-- What a traced parse has shown is true, with this many requests and these tokens taken. -/
structure Attested (source : Stream) (requests : Nat) (taken : List Token) (s : ParseState) : Prop where
  tracing : s.tracing = true
  tracingActions : s.tracingActions = true
  emitted : s.records.filterMap Trace.emitted? = s.generator.instructions.map Instruction.text
  requested : s.records.filterMap Trace.requested? =
    (List.range requests).map fun i => (source.skip i).remaining
  stream : s.stream = source.skip taken.length
  delivered : taken.map Except.ok = (List.range taken.length).map source.raw

variable {source : Stream} {requests : Nat} {taken : List Token} {s s' : ParseState}

theorem records_append (events : List Event) (h : s'.transcript.toList = s.transcript.toList ++ events) :
    s'.records = s.records ++ events.filterMap Event.record? := by
  rw [records, h, List.filterMap_append]
  rfl

theorem filterMap_record? (rs : List Trace) : (rs.map Event.record).filterMap Event.record? = rs := by
  rw [List.filterMap_map]
  exact List.filterMap_some

/-- A step that requests and takes nothing, and shows what it emits. -/
theorem Attested.step (h : s.Attested source requests taken) (events : List Event) (code : List Instruction)
    (htracing : s'.tracing = s.tracing) (hactions : s'.tracingActions = s.tracingActions)
    (hstream : s'.stream = s.stream) (htranscript : s'.transcript.toList = s.transcript.toList ++ events)
    (hsilent : (events.filterMap Event.record?).filterMap Trace.requested? = [])
    (hcode : s'.generator.instructions = s.generator.instructions ++ code)
    (hemitted : (events.filterMap Event.record?).filterMap Trace.emitted? = code.map Instruction.text) :
    s'.Attested source requests taken := by
  have hrecords := records_append events htranscript
  refine ⟨htracing.trans h.tracing, hactions.trans h.tracingActions, ?_, ?_, hstream.trans h.stream,
    h.delivered⟩
  · rw [hrecords, List.filterMap_append, h.emitted, hemitted, hcode, List.map_append]
  · rw [hrecords, List.filterMap_append, h.requested, hsilent, List.append_nil]

/-- A step that shows nothing. -/
theorem Attested.still (h : s.Attested source requests taken) (htracing : s'.tracing = s.tracing)
    (hactions : s'.tracingActions = s.tracingActions) (hstream : s'.stream = s.stream)
    (htranscript : s'.transcript = s.transcript) (hgenerator : s'.generator = s.generator) :
    s'.Attested source requests taken := by
  refine h.step [] [] htracing hactions hstream ?_ rfl ?_ rfl
  · rw [htranscript, List.append_nil]
  · rw [hgenerator, List.append_nil]

end ParseState

open ParseState

theorem Nonterminal.not_request (n : Nonterminal) : (text "match(").isPrefixOf n.name = false := by
  cases n <;> rfl

theorem Basic.keeps_attested {α : Type} {m : Production α} (h : Basic m) (source : Stream) (requests : Nat)
    (taken : List Token) : Keeps (Attested source requests taken) m := by
  intro s hs
  cases h with
  | enter n =>
    unfold Parse.enter
    rw [run_bind_of_ok (run_get s), if_pos hs.tracing]
    refine hs.step [.record (.enter n.name s.stream.remaining)] [] rfl rfl rfl
      Array.toList_appendList ?_ (List.append_nil _).symm rfl
    simp only [List.filterMap_cons, List.filterMap_nil, Event.record?, Trace.requested?_enter, n.not_request,
      Bool.false_eq_true, if_false]
  | derive n =>
    unfold Parse.derive
    rw [run_bind_of_ok (run_get s), if_pos hs.tracing]
    exact hs.step [.record (.derive n.name s.tree.derivation)] [] rfl rfl rfl
      Array.toList_appendList rfl (List.append_nil _).symm rfl
  | peek =>
    cases hpeek : s.stream.peek with
    | ok tok => rwa [run_peek_of_ok hpeek]
    | error e => rwa [run_peek_of_error hpeek]
  | expected tok kinds =>
    cases hcalm : s.recovering with
    | true => rwa [run_expected_of_recovering hcalm]
    | false =>
      rw [run_expected_of_calm hcalm]
      exact hs.step [.diagnostic (complaint s.tracker tok kinds)] [] rfl rfl rfl
        Array.toList_push rfl (List.append_nil _).symm rfl
  | add parent content =>
    rcases run_add_cases parent content s with ⟨_, hadd⟩ | ⟨e, hadd⟩
    · rw [hadd]
      exact hs.still rfl rfl rfl rfl rfl
    · rwa [hadd]
  | act haction =>
    rename_i action
    obtain ⟨hsilent, hcandid⟩ := haction.candid
    obtain ⟨code, hcode, hemitted⟩ := hcandid s.tracker.hasError s.generator
    unfold Parse.act
    rw [run_bind_of_ok (run_get s)]
    dsimp only
    rw [if_pos hs.tracingActions]
    refine hs.step ((action s.tracker.hasError s.generator).records.map Event.record) code
      rfl rfl rfl Array.toList_appendList ?_ hcode ?_
    · rw [filterMap_record?, List.filterMap_eq_nil_iff]
      intro r hr
      have hany := List.any_eq_false.1 (hsilent s.tracker.hasError s.generator) r hr
      exact Trace.requested?_of_not_isEnter (Bool.eq_false_iff.2 hany)
    · rw [filterMap_record?, hemitted]

namespace ParseState

variable {source : Stream} {taken : List Token} {s : ParseState}

theorem records_requested (s : ParseState) (k : Kind) :
    (Parse.requested s k).records = s.records ++ [.enter k.request s.stream.remaining] :=
  records_append [.record (.enter k.request s.stream.remaining)] Array.toList_push

/-- A request shows what remains. -/
theorem Attested.requested_succ (h : s.Attested source taken.length taken) (k : Kind) :
    (Parse.requested s k).records.filterMap Trace.requested? =
      (List.range (taken.length + 1)).map fun i => (source.skip i).remaining := by
  have hrequest : (text "match(").isPrefixOf k.request = true := Event.isRequest_request k []
  rw [records_requested, List.filterMap_append, h.requested, List.range_succ, List.map_append]
  simp only [List.filterMap_cons, List.filterMap_nil, Trace.requested?_enter, hrequest, if_true, h.stream,
    List.map_cons, List.map_nil]

theorem Attested.emitted_requested (h : s.Attested source taken.length taken) (k : Kind) :
    (Parse.requested s k).records.filterMap Trace.emitted? =
      (Parse.requested s k).generator.instructions.map Instruction.text := by
  rw [records_requested, List.filterMap_append, h.emitted]
  exact List.append_nil _

/-- A request that is answered. -/
theorem Attested.answered (h : s.Attested source taken.length taken) {tok : Token}
    (hpeek : s.stream.peek = .ok tok) (k : Kind) :
    (Parse.requested s k).Attested source (taken ++ [tok]).length (taken ++ [tok]) := by
  have hlength : (taken ++ [tok]).length = taken.length + 1 := List.length_append
  have hraw : source.raw taken.length = .ok tok := by rw [← Stream.peek_skip, ← h.stream, hpeek]
  refine ⟨h.tracing, h.tracingActions, h.emitted_requested k, ?_, ?_, ?_⟩
  · rw [hlength]
    exact h.requested_succ k
  · rw [hlength, ← Stream.rest_skip, ← h.stream]
    rfl
  · rw [hlength, List.range_succ, List.map_append, List.map_append, h.delivered, List.map_singleton,
      List.map_singleton, hraw]

/-- A request that is not answered, since there is a lexical error ahead. -/
theorem Attested.unanswered (h : s.Attested source taken.length taken) {e : LexicalError}
    (hpeek : s.stream.peek = .error e) (k : Kind) :
    (Parse.requested s k).Attested source (taken.length + 1) taken := by
  refine ⟨h.tracing, h.tracingActions, h.emitted_requested k, h.requested_succ k, ?_, h.delivered⟩
  rw [← h.stream]
  exact Stream.rest_of_peek_error hpeek

end ParseState

/-- The state behind a run is attested, with one request more than tokens only where the run aborts with a
lexical error. -/
inductive Attests {α : Type} (source : Stream) (taken : List Token) :
    EStateM.Result Abort ParseState α → Prop where
  | ended {v : α} {s : ParseState} (h : s.Attested source taken.length taken) : Attests source taken (.ok v s)
  | aborted {e : Abort} {s : ParseState} (h : s.Attested source taken.length taken) :
      Attests source taken (.error e s)
  | cut {e : LexicalError} {s : ParseState} (h : s.Attested source (taken.length + 1) taken)
      (fault : source.raw taken.length = .error e) : Attests source taken (.error (.lexical e) s)

theorem Basic.attests {α : Type} {m : Production α} (h : Basic m) {source : Stream} {s : ParseState}
    {taken : List Token} (hs : s.Attested source taken.length taken) : Attests source taken (m.run s) := by
  have hkept := h.keeps_attested source taken.length taken s hs
  cases hrun : m.run s with
  | ok v s' =>
    rw [hrun] at hkept
    exact .ended hkept
  | error e s' =>
    rw [hrun] at hkept
    exact .aborted hkept

/-- Accepting shows one request.  If there is a token ahead, it is taken, and reported if it is of the wrong
kind. -/
theorem ParseState.Attested.accept {source : Stream} {s : ParseState} {taken : List Token}
    (hs : s.Attested source taken.length taken) (k : Kind) :
    ∃ more, Consumes (Parse.accept k) s more ((Parse.accept k).run s) ∧
      Attests source (taken ++ more) ((Parse.accept k).run s) := by
  cases hpeek : s.stream.peek with
  | error e =>
    refine ⟨[], .accept_of_error hpeek k, ?_⟩
    rw [run_accept_of_fault hs.tracing hpeek, List.append_nil]
    refine .cut (hs.unanswered hpeek k) ?_
    rw [← Stream.peek_skip, ← hs.stream, hpeek]
  | ok tok =>
    refine ⟨[tok], .accept hpeek k, ?_⟩
    have hanswered := hs.answered hpeek k
    rw [run_accept_of_tracing hs.tracing hpeek]
    split
    · exact .ended (hanswered.still rfl rfl rfl rfl rfl)
    · have hcurrent : ParseState.Attested source _ _ { Parse.requested s k with current := tok } :=
        hanswered.still rfl rfl rfl rfl rfl
      have hexpected := (Basic.expected tok [k]).keeps_attested source _ _ _ hcurrent
      obtain ⟨tracker, transcript, hrun, _⟩ :=
        run_expected_cases { Parse.requested s k with current := tok } tok [k]
      rw [hrun] at hexpected
      rw [run_bind_of_ok hrun]
      exact .ended hexpected

/-- Whatever is composed of such steps takes tokens one after the other.  Behind a part that aborts nothing
follows, so a request that is not answered stays the last one. -/
theorem Composed.attests {α : Type} {m : Production α} (h : Composed m) {source : Stream} {s : ParseState}
    {taken : List Token} (hs : s.Attested source taken.length taken) :
    ∃ more, Consumes m s more (m.run s) ∧ Attests source (taken ++ more) (m.run s) := by
  induction h generalizing s taken with
  | pure v => exact ⟨[], .pure v s, .ended (by rwa [List.append_nil])⟩
  | tooDeep => exact ⟨[], .throw _ s, .aborted (by rwa [List.append_nil])⟩
  | basic h => exact ⟨[], .basic h s, by rw [List.append_nil]; exact h.attests hs⟩
  | accept k => exact hs.accept k
  | @bind α β m f _ _ ihm ihf =>
    obtain ⟨first, hfirst, hattests⟩ := ihm hs
    cases hrun : m.run s with
    | ok v s' =>
      rw [hrun] at hattests
      cases hattests with
      | ended hs' =>
        obtain ⟨second, hsecond, hattests'⟩ := ihf v hs'
        rw [List.append_assoc] at hattests'
        refine ⟨first ++ second, hfirst.bind_of_ok hrun hsecond, ?_⟩
        rwa [run_bind_of_ok hrun]
    | error e s' =>
      rw [hrun] at hattests
      refine ⟨first, hfirst.bind_of_error hrun, ?_⟩
      rw [run_bind_of_error hrun]
      cases hattests with
      | aborted h => exact .aborted h
      | cut h fault => exact .cut h fault

/-! ### Whole compilations -/

namespace Parsed

/-- A traced parse takes tokens one after the other and ends in an attested state. -/
theorem attested_ofState {source : Stream} {s : ParseState} (h : s.Attested source 0 []) :
    ∃ taken, Consumes (systemGoal (s.stream.tokens.length + 1)) s taken
        ((systemGoal (s.stream.tokens.length + 1)).run s) ∧
      ∃ requests, (ofState s).state.Attested source requests taken ∧
        (requests = taken.length ∨ requests = taken.length + 1 ∧
          ∃ e, source.raw taken.length = .error e ∧ (ofState s).lexicalError? = some e) := by
  obtain ⟨taken, hconsumes, hattests⟩ := (Composed.systemGoal (s.stream.tokens.length + 1)).attests
    (show s.Attested source [].length [] from h)
  refine ⟨taken, hconsumes, ?_⟩
  rw [List.nil_append] at hattests
  rw [ofState]
  cases hrun : (systemGoal (s.stream.tokens.length + 1)).run s with
  | ok v s' =>
    rw [hrun] at hattests
    cases hattests with
    | ended h' => exact ⟨_, h', .inl rfl⟩
  | error e s' =>
    rw [hrun] at hattests
    cases hattests with
    | aborted h' => exact ⟨_, h', .inl rfl⟩
    | cut h' fault => exact ⟨_, h', .inr ⟨rfl, _, fault, rfl⟩⟩

theorem attested_ofSource (filename src : Text) (tracker : Tracker) :
    ∃ taken, Consumes (systemGoal ((Stream.ofSource filename src).tokens.length + 1))
        (ParseState.initial filename src tracker true) taken
        ((systemGoal ((Stream.ofSource filename src).tokens.length + 1)).run
          (ParseState.initial filename src tracker true)) ∧
      ∃ requests, (ofSource filename src tracker true).state.Attested (Stream.ofSource filename src) requests
          taken ∧
        (requests = taken.length ∨ requests = taken.length + 1 ∧
          ∃ e, (Stream.ofSource filename src).raw taken.length = .error e ∧
            (ofSource filename src tracker true).lexicalError? = some e) := by
  have hinitial : (ParseState.initial filename src tracker true).Attested
      (Stream.ofSource filename src) 0 [] := ⟨rfl, rfl, rfl, rfl, rfl, rfl⟩
  have hstream : (ParseState.initial filename src tracker true).stream = Stream.ofSource filename src := rfl
  have hparsed : ofState (ParseState.initial filename src tracker true) =
    ofSource filename src tracker true := rfl
  have hends := attested_ofState hinitial
  rwa [hstream, hparsed] at hends

end Parsed

namespace Compilation

/-- The trace of a compilation is true, given the tokens that its parse took.  Its emitted instructions are
those of the code.  Its requests show one token less each time, and each is answered by the next token of
the source, unless it is the last one and meets the lexical error that ends the compilation. -/
structure Testimony (c : Compilation) (source : Stream) (taken : List Token) : Prop where
  emitted : c.trace.filterMap Trace.emitted? = c.output.code
  remaining : c.trace.filterMap Trace.requested? =
    (List.range (c.trace.filterMap Trace.requested?).length).map fun i =>
      [32].intercalate ((source.tokens.drop i).map Token.literal)
  delivered : taken.map Except.ok = (List.range taken.length).map source.raw
  answered : (c.trace.filterMap Trace.requested?).length = taken.length ∨
    (c.trace.filterMap Trace.requested?).length = taken.length + 1 ∧
      ∃ e, source.raw taken.length = .error e ∧ c.error = some (.ofLexical e)

theorem errorOf_of_lexicalError? {p : Parsed} {e : LexicalError} (h : p.lexicalError? = some e) :
    errorOf p = some (.ofLexical e) := by
  simp only [errorOf, Parsed.error?, h]

theorem testimony_of_attested (config : Config) (filename src : Text) {source : Stream} {taken : List Token}
    {requests : Nat}
    (h : (Parsed.ofSource filename src { filename } config.trace).state.Attested source requests taken)
    (hanswered : requests = taken.length ∨ requests = taken.length + 1 ∧
      ∃ e, source.raw taken.length = .error e ∧
        (Parsed.ofSource filename src { filename } config.trace).lexicalError? = some e) :
    (ofSource config filename src).Testimony source taken := by
  have htrace : (ofSource config filename src).trace =
    (Parsed.ofSource filename src { filename } config.trace).state.records := rfl
  have hlength : ((ofSource config filename src).trace.filterMap Trace.requested?).length = requests := by
    rw [htrace, h.requested, List.length_map, List.length_range]
  refine ⟨?_, ?_, h.delivered, ?_⟩
  · rw [htrace, h.emitted]
    rfl
  · rw [hlength, htrace, h.requested]
    rfl
  · rw [hlength]
    rcases hanswered with heq | ⟨heq, e, hraw, hfault⟩
    · exact .inl heq
    · exact .inr ⟨heq, e, hraw, errorOf_of_lexicalError? hfault⟩

/-- The trace of every compilation is true: its emitted instructions are the code, and its requests are
answered one by one by the tokens that the parse takes. -/
theorem trace_is_true (config : Config) (filename src : Text) : ∃ taken,
    Consumes (systemGoal ((Stream.ofSource filename src).tokens.length + 1))
      (ParseState.initial filename src { filename } true) taken
      ((systemGoal ((Stream.ofSource filename src).tokens.length + 1)).run
        (ParseState.initial filename src { filename } true)) ∧
    (ofSource { config with trace := true } filename src).Testimony (Stream.ofSource filename src) taken := by
  obtain ⟨taken, hconsumes, requests, hattested, hanswered⟩ :=
    Parsed.attested_ofSource filename src { filename }
  exact ⟨taken, hconsumes,
    testimony_of_attested { config with trace := true } filename src hattested hanswered⟩

end Compilation

end MicroLang
