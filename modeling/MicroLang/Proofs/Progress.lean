import MicroLang.Proofs.Invariance
import MicroLang.Proofs.Observation
import MicroLang.Proofs.Spelling

/-!
# Progress between reports

The transcript of a traced parse tells in one order what was reported and where the parser asked for a
token of some kind.  Each time it asks, one token is taken, so the transcript can be replayed over the
tokens of the source: a request is a match if the token it takes is of the kind that it names.

Reports come in the order of their places, and between two of them a token is matched that does not stand
before the first.  What carries this through a parse is how far the stream is ahead of the reports.  No
report is ahead of the stream, and unless the parser is recovering all of them are behind it.  Only a match
ends a recovery, and what it takes was not passed by any report.

The end of the source is different from other tokens in that it is taken and still ahead.  It is matched
once, and nothing is reported behind it.
-/

namespace MicroLang

open Parse

/-! ### Transcripts replayed -/

/-- How a trace names the request for a token of the kind. -/
def Kind.request (k : Kind) : Text := text "match(" ++ k.name ++ text ")"

theorem Kind.request_inj {k k' : Kind} (h : k.request = k'.request) : k = k' :=
  name_inj (List.append_cancel_left (List.append_cancel_right h))

/-- What a transcript tells about the order of reports and tokens. -/
inductive Milestone where
  | matched (tok : Token)
  | reported (d : Diagnostic)
deriving DecidableEq, Repr

def Milestone.report? : Milestone → Option Diagnostic
  | .matched _ => none
  | .reported d => some d

namespace Event

/-- Whether a token is requested. -/
def isRequest : Event → Bool
  | .record (.enter production _) => (text "match(").isPrefixOf production
  | _ => false

/-- What the event tells where the given answer is ahead: a report, or a match if the token is of the
kind that is requested. -/
def milestone? (ahead : Except LexicalError Token) : Event → Option Milestone
  | .diagnostic d => some (.reported d)
  | .record (.enter production _) =>
    match ahead with
    | .ok tok => if production = tok.kind.request then some (.matched tok) else none
    | .error _ => none
  | .record _ => none

theorem isRequest_request (k : Kind) (remaining : Text) :
    (record (.enter k.request remaining)).isRequest = true := by
  rw [isRequest, List.isPrefixOf_iff_prefix, Kind.request, List.append_assoc]
  exact List.prefix_append _ _

/-- The event is neither a request nor a report. -/
def IsSilent : Event → Prop
  | .diagnostic _ => False
  | .record (.enter production _) => (text "match(").isPrefixOf production = false
  | .record _ => True

theorem IsSilent.isRequest {e : Event} (h : e.IsSilent) : e.isRequest = false := by
  cases e with
  | diagnostic d => rfl
  | record r =>
    cases r with
    | enter production remaining => exact h
    | _ => rfl

theorem IsSilent.milestone? {e : Event} (h : e.IsSilent) (ahead : Except LexicalError Token) :
    e.milestone? ahead = none := by
  cases e with
  | diagnostic d => cases h
  | record r =>
    cases r with
    | enter production remaining =>
      cases ahead with
      | error e => rfl
      | ok tok =>
        have hne : production ≠ tok.kind.request := by
          rintro rfl
          have hrequest := isRequest_request tok.kind remaining
          rw [IsSilent.isRequest h] at hrequest
          cases hrequest
        exact if_neg hne
    | _ => rfl

end Event

namespace Stream

/-- The stream behind an event: a request takes a token. -/
def past (stream : Stream) (e : Event) : Stream := if e.isRequest then stream.rest else stream

/-- The stream behind some events. -/
def after (stream : Stream) (events : List Event) : Stream := events.foldl past stream

/-- What the events tell one after the other. -/
def replay (stream : Stream) : List Event → List Milestone
  | [] => []
  | e :: events => (e.milestone? stream.peek).toList ++ replay (stream.past e) events

theorem after_append (stream : Stream) (events more : List Event) :
    stream.after (events ++ more) = (stream.after events).after more := List.foldl_append

theorem replay_append (stream : Stream) (events more : List Event) :
    stream.replay (events ++ more) = stream.replay events ++ (stream.after events).replay more := by
  induction events generalizing stream with
  | nil => rfl
  | cons e events ih =>
    rw [List.cons_append, replay, replay, ih, List.append_assoc]
    rfl

theorem replay_silent {events : List Event} (h : ∀ e ∈ events, e.IsSilent) (stream : Stream) :
    stream.replay events = [] ∧ stream.after events = stream := by
  induction events with
  | nil => exact ⟨rfl, rfl⟩
  | cons e events ih =>
    have he := h e List.mem_cons_self
    have hpast : stream.past e = stream := by
      rw [past, he.isRequest]
      rfl
    obtain ⟨hreplay, hafter⟩ := ih fun e' he' => h e' (List.mem_cons_of_mem _ he')
    constructor
    · rw [replay, he.milestone?, hpast, hreplay]
      rfl
    · show (stream.past e).after events = stream
      rw [hpast, hafter]

end Stream

/-! ### Reports and matches in order -/

/-- Behind every report there is a match of a token that does not stand before it. -/
def Settled (l : List Milestone) : Prop :=
  ∀ before d after, l = before ++ .reported d :: after →
    ∃ tok, .matched tok ∈ after ∧ d.pos.offset ≤ tok.pos.offset

/-- Between two reports there is a match of a token that does not stand before the first. -/
def Advances (l : List Milestone) : Prop :=
  ∀ before d between d' after, l = before ++ .reported d :: (between ++ .reported d' :: after) →
    ∃ tok, .matched tok ∈ between ∧ d.pos.offset ≤ tok.pos.offset

theorem Advances.concat {l : List Milestone} (h : Advances l) {r : Milestone}
    (hr : ∀ d, r = .reported d → Settled l) : Advances (l ++ [r]) := by
  intro before d between d' after hsplit
  rcases List.eq_nil_or_concat after with rfl | ⟨after, last, rfl⟩
  · -- the report is the new one
    have hsplit' : l ++ [r] = (before ++ .reported d :: between) ++ [.reported d'] := by
      rw [hsplit, List.append_assoc]
      rfl
    obtain ⟨hl, hlast⟩ := List.append_inj' hsplit' rfl
    exact hr d' (List.cons.inj hlast).1 before d between hl
  · have hsplit' : l ++ [r] =
        (before ++ .reported d :: (between ++ .reported d' :: after)) ++ [last] := by
      rw [hsplit]
      simp only [List.concat_eq_append, List.append_assoc, List.cons_append]
    exact h before d between d' after (List.append_inj' hsplit' rfl).1

/-- A match settles all reports that are not ahead of it. -/
theorem settled_concat {l : List Milestone} {tok : Token}
    (h : ∀ d, .reported d ∈ l → d.pos.offset ≤ tok.pos.offset) : Settled (l ++ [.matched tok]) := by
  intro before d after hsplit
  rcases List.eq_nil_or_concat after with rfl | ⟨after, last, rfl⟩
  · obtain ⟨_, hlast⟩ := List.append_inj' hsplit rfl
    cases hlast
  · have hsplit' : l ++ [.matched tok] = (before ++ .reported d :: after) ++ [last] := by
      rw [hsplit]
      simp only [List.concat_eq_append, List.append_assoc, List.cons_append]
    obtain ⟨hl, hlast⟩ := List.append_inj' hsplit' rfl
    refine ⟨tok, ?_, h d ?_⟩
    · rw [← (List.cons.inj hlast).1, List.concat_eq_append]
      exact List.mem_append_right _ List.mem_cons_self
    · rw [hl]
      exact List.mem_append_right _ List.mem_cons_self

theorem mem_reports {l : List Milestone} {d : Diagnostic} :
    d ∈ l.filterMap Milestone.report? ↔ .reported d ∈ l := by
  rw [List.mem_filterMap]
  constructor
  · rintro ⟨r, hr, hd⟩
    cases r with
    | matched tok => cases hd
    | reported d' =>
      cases hd
      exact hr
  · exact fun h => ⟨_, h, rfl⟩

/-! ### Steps of a traced parse -/

namespace Stream

theorem rest_of_peek_error {stream : Stream} {e : LexicalError} (h : stream.peek = .error e) :
    stream.rest = stream := by
  obtain ⟨tokens, ending⟩ := stream
  cases (ending_of_peek_error h).1
  rfl

/-- A token that is not the end is taken for good. -/
theorem Scanned.delivered_of_peek {stream : Stream} (h : stream.Scanned) {tok : Token}
    (hpeek : stream.peek = .ok tok) (hno : tok.kind ≠ .eofSym) :
    stream.delivered = [tok] ++ stream.rest.delivered :=
  delivered_of_append (h.tokens_of_peek hpeek hno) rfl

end Stream

namespace ParseState

/-- A step that takes no token and reports nothing. -/
structure Aside (s s' : ParseState) : Prop where
  tracing : s'.tracing = s.tracing
  stream : s'.stream = s.stream
  tracker : s'.tracker = s.tracker
  recovering : s'.recovering = s.recovering
  transcript : ∃ events, (∀ e ∈ events, e.IsSilent) ∧
    s'.transcript.toList = s.transcript.toList ++ events

/-- What a traced parse has left behind: its transcript, replayed over the source, leads to the tokens that are
still ahead and to the reports that the tracker holds; these stand at tokens, in order, and there is
progress between them. -/
structure Recorded (source : Stream) (s : ParseState) : Prop where
  tracing : s.tracing = true
  stream : source.after s.transcript.toList = s.stream
  reports : (source.replay s.transcript.toList).filterMap Milestone.report? = s.tracker.diagnostics.toList
  increasing : s.tracker.diagnostics.toList.Pairwise fun d d' => d.pos.offset < d'.pos.offset
  located : ∀ d ∈ s.tracker.diagnostics.toList, ∃ tok ∈ source.delivered, d.pos.offset = tok.pos.offset
  advances : Advances (source.replay s.transcript.toList)

/-- The reports are not ahead of the stream, and unless the parser is recovering they are settled and behind
it. -/
structure Advancing (source : Stream) (s : ParseState) : Prop extends s.Recorded source where
  scanned : s.stream.Scanned
  suffix : s.stream.delivered <:+ source.delivered
  reached : ∀ d ∈ s.tracker.diagnostics.toList, ∀ tok ∈ s.stream.delivered,
    d.pos.offset ≤ tok.pos.offset
  settled : s.recovering = false → Settled (source.replay s.transcript.toList)
  passed : s.recovering = false → ∀ d ∈ s.tracker.diagnostics.toList, ∀ tok ∈ s.stream.delivered,
    d.pos.offset < tok.pos.offset

variable {source : Stream} {s s' : ParseState}

theorem Aside.replay (h : s.Aside s') (source : Stream) :
    source.replay s'.transcript.toList = source.replay s.transcript.toList ∧
      source.after s'.transcript.toList = source.after s.transcript.toList := by
  obtain ⟨events, hsilent, htranscript⟩ := h.transcript
  obtain ⟨hreplay, hafter⟩ := Stream.replay_silent hsilent (source.after s.transcript.toList)
  rw [htranscript, Stream.replay_append, Stream.after_append, hreplay, hafter, List.append_nil]
  exact ⟨rfl, rfl⟩

theorem Recorded.aside (h : s.Recorded source) (hs : s.Aside s') : s'.Recorded source := by
  obtain ⟨hreplay, hafter⟩ := hs.replay source
  constructor
  · rw [hs.tracing, h.tracing]
  · rw [hafter, h.stream, hs.stream]
  · rw [hreplay, h.reports, hs.tracker]
  · rw [hs.tracker]
    exact h.increasing
  · rw [hs.tracker]
    exact h.located
  · rw [hreplay]
    exact h.advances

theorem Advancing.aside (h : s.Advancing source) (hs : s.Aside s') : s'.Advancing source := by
  obtain ⟨hreplay, _⟩ := hs.replay source
  refine ⟨h.toRecorded.aside hs, ?_, ?_, ?_, ?_, ?_⟩
  · rw [hs.stream]
    exact h.scanned
  · rw [hs.stream]
    exact h.suffix
  · rw [hs.stream, hs.tracker]
    exact h.reached
  · rw [hs.recovering, hreplay]
    exact h.settled
  · rw [hs.recovering, hs.stream, hs.tracker]
    exact h.passed

theorem aside_of_eq (htracing : s'.tracing = s.tracing) (hstream : s'.stream = s.stream)
    (htracker : s'.tracker = s.tracker) (hrecovering : s'.recovering = s.recovering)
    (htranscript : s'.transcript = s.transcript) : s.Aside s' := by
  refine ⟨htracing, hstream, htracker, hrecovering, [], List.forall_mem_nil _, ?_⟩
  rw [htranscript, List.append_nil]

theorem aside_record (s : ParseState) {records : List Trace}
    (h : ∀ r ∈ records, (Event.record r).IsSilent) :
    s.Aside { s with transcript := s.transcript ++ records.map Event.record } := by
  refine ⟨rfl, rfl, rfl, rfl, records.map Event.record, fun e he => ?_, Array.toList_appendList⟩
  obtain ⟨r, hr, rfl⟩ := List.mem_map.1 he
  exact h r hr

end ParseState

namespace Parse

open ParseState

theorem aside_enter (n : Nonterminal) (s : ParseState) : s.Aside (stateOf ((enter n.name).run s)) := by
  unfold enter
  rw [run_bind_of_ok (run_get s)]
  split
  · refine aside_record s fun r hr => ?_
    rw [List.mem_singleton.1 hr]
    cases n <;> rfl
  · exact aside_of_eq rfl rfl rfl rfl rfl

theorem aside_derive (n : Nonterminal) (s : ParseState) : s.Aside (stateOf ((derive n).run s)) := by
  unfold derive
  rw [run_bind_of_ok (run_get s)]
  split
  · refine aside_record s fun r hr => ?_
    rw [List.mem_singleton.1 hr]
    trivial
  · exact aside_of_eq rfl rfl rfl rfl rfl

theorem aside_add (parent : Nat) (content : Content) (s : ParseState) :
    s.Aside (stateOf ((add parent content).run s)) := by
  simp only [EStateM.run, add]
  split <;> exact aside_of_eq rfl rfl rfl rfl rfl

theorem aside_act {α : Type} {action : Bool → Generator → Step α} (h : Silent action) (s : ParseState) :
    s.Aside (stateOf ((act action).run s)) := by
  have hsilent : ∀ r ∈ (action s.tracker.hasError s.generator).records, (Event.record r).IsSilent := by
    intro r hr
    have hany := List.any_eq_false.1 (h s.tracker.hasError s.generator) r hr
    cases r with
    | enter production remaining => exact absurd rfl hany
    | _ => trivial
  unfold act
  rw [run_bind_of_ok (run_get s)]
  by_cases htracing : s.tracingActions = true
  · dsimp only
    rw [if_pos htracing]
    obtain ⟨_, _, _, _, htranscript⟩ := aside_record s hsilent
    exact ⟨rfl, rfl, rfl, rfl, htranscript⟩
  · dsimp only
    rw [if_neg htracing]
    exact aside_of_eq rfl rfl rfl rfl rfl

/-- Tracing, a request leaves one record. -/
theorem run_enter_request {s : ParseState} (h : s.tracing = true) (k : Kind) :
    (enter (text "match(" ++ k.name ++ text ")")).run s = .ok () { s with
      transcript := s.transcript.push (.record (.enter k.request s.stream.remaining)) } := by
  unfold enter
  rw [run_bind_of_ok (run_get s), if_pos h]
  rfl

/-- Unless the parser is recovering, a wrong token is reported. -/
theorem run_expected_of_calm {s : ParseState} (h : s.recovering = false) (tok : Token)
    (kinds : List Kind) :
    (expected tok kinds).run s = .ok () { s with
      recovering := true
      tracker := s.tracker.report (complaint s.tracker tok kinds)
      transcript := s.transcript.push (.diagnostic (complaint s.tracker tok kinds)) } := by
  show EStateM.Result.ok () (if s.recovering = true then s else _) = _
  rw [h]
  rfl

/-- The state behind a request for a token, which takes the token ahead. -/
def requested (s : ParseState) (k : Kind) : ParseState :=
  { s with
    stream := s.stream.rest
    transcript := s.transcript.push (.record (.enter k.request s.stream.remaining)) }

/-- Tracing, a request takes the token ahead and judges it. -/
theorem run_accept_of_tracing {s : ParseState} (h : s.tracing = true) {tok : Token}
    (hpeek : s.stream.peek = .ok tok) (k : Kind) :
    (accept k).run s = if tok.kind = k then
        .ok tok { requested s k with current := tok, recovering := false }
      else (expected tok [k] >>= fun _ => pure tok).run { requested s k with current := tok } := by
  have htake := run_take_of_ok (s := { s with
    transcript := s.transcript.push (.record (.enter k.request s.stream.remaining)) }) hpeek
  unfold accept
  rw [run_bind_of_ok (run_enter_request h k), run_bind_of_ok htake]
  dsimp only
  split <;> rfl

theorem run_accept_of_fault {s : ParseState} (h : s.tracing = true) {e : LexicalError}
    (hpeek : s.stream.peek = .error e) (k : Kind) :
    (accept k).run s = .error (.lexical e) (requested s k) := by
  have htake := run_take_of_error (s := { s with
    transcript := s.transcript.push (.record (.enter k.request s.stream.remaining)) }) hpeek
  unfold accept
  rw [run_bind_of_ok (run_enter_request h k), run_bind_of_error htake, requested,
    Stream.rest_of_peek_error hpeek]

end Parse

/-! ### Tokens that are requested and tokens that are reported -/

namespace ParseState

variable {source : Stream} {s : ParseState}

theorem Recorded.after_requested (h : s.Recorded source) (k : Kind) :
    source.after (requested s k).transcript.toList = s.stream.rest := by
  have hpast : s.stream.past (.record (.enter k.request s.stream.remaining)) = s.stream.rest :=
    if_pos (Event.isRequest_request k _)
  rw [requested, Array.toList_push, Stream.after_append, h.stream]
  exact hpast

theorem Recorded.replay_requested (h : s.Recorded source) (k : Kind) :
    source.replay (requested s k).transcript.toList = source.replay s.transcript.toList ++
      (Event.milestone? s.stream.peek (.record (.enter k.request s.stream.remaining))).toList := by
  rw [requested, Array.toList_push, Stream.replay_append, h.stream, Stream.replay, Stream.replay,
    List.append_nil]

/-- The token that is taken is of another kind, or there is none. -/
theorem Advancing.missed (h : s.Advancing source) {k : Kind}
    (hmiss : ∀ tok, s.stream.peek = .ok tok → tok.kind ≠ k) : (requested s k).Advancing source := by
  have hreplay : source.replay (requested s k).transcript.toList = source.replay s.transcript.toList := by
    rw [h.replay_requested]
    cases hpeek : s.stream.peek with
    | error e => exact List.append_nil _
    | ok tok =>
      have hne : k.request ≠ tok.kind.request := fun heq => hmiss tok hpeek (Kind.request_inj heq).symm
      simp only [Event.milestone?, if_neg hne, Option.toList_none, List.append_nil]
  have hsubset : ∀ tok ∈ s.stream.rest.delivered, tok ∈ s.stream.delivered :=
    fun tok htok => s.stream.suffix_rest.subset htok
  refine ⟨⟨h.tracing, h.after_requested k, ?_, h.increasing, h.located, ?_⟩, ?_, ?_, ?_, ?_, ?_⟩
  · rw [hreplay]
    exact h.reports
  · rw [hreplay]
    exact h.advances
  · exact s.stream.shrinks_rest.scanned h.scanned
  · exact s.stream.suffix_rest.trans h.suffix
  · exact fun d hd tok htok => h.reached d hd tok (hsubset tok htok)
  · rw [hreplay]
    exact h.settled
  · exact fun hcalm d hd tok htok => h.passed hcalm d hd tok (hsubset tok htok)

/-- The token that is taken is of the kind that is requested: a match, which settles all reports. -/
theorem Advancing.matched (h : s.Advancing source) {tok : Token} (hpeek : s.stream.peek = .ok tok) :
    ParseState.Recorded source { requested s tok.kind with current := tok, recovering := false } ∧
      Settled (source.replay (requested s tok.kind).transcript.toList) := by
  have hreplay : source.replay (requested s tok.kind).transcript.toList =
      source.replay s.transcript.toList ++ [.matched tok] := by
    rw [h.replay_requested, hpeek]
    simp [Event.milestone?]
  have hmem : tok ∈ s.stream.delivered := by
    obtain ⟨later, hlater⟩ := Stream.delivered_of_peek hpeek
    rw [hlater]
    exact List.mem_cons_self
  refine ⟨⟨h.tracing, h.after_requested tok.kind, ?_, h.increasing, h.located, ?_⟩, ?_⟩
  · show (source.replay (requested s tok.kind).transcript.toList).filterMap _ = s.tracker.diagnostics.toList
    rw [hreplay, List.filterMap_append, h.reports]
    exact List.append_nil _
  · show Advances (source.replay (requested s tok.kind).transcript.toList)
    rw [hreplay]
    exact h.advances.concat fun d hd => nomatch hd
  · rw [hreplay]
    refine settled_concat fun d hd => h.reached d ?_ tok hmem
    rw [← h.reports]
    exact mem_reports.2 hd

variable (hsource : source.delivered.Pairwise fun tok tok' => tok.pos.offset < tok'.pos.offset)

include hsource

/-- Behind a match of any token but the end, all reports are behind the stream. -/
theorem Advancing.passed_match (h : s.Advancing source) {tok : Token} (hpeek : s.stream.peek = .ok tok)
    (hno : tok.kind ≠ .eofSym) :
    ParseState.Advancing source { requested s tok.kind with current := tok, recovering := false } := by
  obtain ⟨hrecorded, hsettled⟩ := h.matched hpeek
  have hdelivered := h.scanned.delivered_of_peek hpeek hno
  have hordered := hsource.sublist h.suffix.sublist
  rw [hdelivered] at hordered
  have hpassed : ∀ d ∈ s.tracker.diagnostics.toList, ∀ tok' ∈ s.stream.rest.delivered,
      d.pos.offset < tok'.pos.offset := by
    intro d hd tok' htok'
    have hle := h.reached d hd tok (by simp [hdelivered])
    have hlt := (List.pairwise_cons.1 hordered).1 tok' htok'
    omega
  refine ⟨hrecorded, s.stream.shrinks_rest.scanned h.scanned, s.stream.suffix_rest.trans h.suffix, ?_,
    fun _ => hsettled, fun _ => hpassed⟩
  exact fun d hd tok' htok' => Int.le_of_lt (hpassed d hd tok' htok')

omit hsource

/-- A report at a token that is behind no other report and not behind the stream. -/
theorem Advancing.expected (h : s.Advancing source) {tok : Token} (htok : tok ∈ source.delivered)
    (hpassed : s.recovering = false → ∀ d ∈ s.tracker.diagnostics.toList, d.pos.offset < tok.pos.offset)
    (hahead : ∀ tok' ∈ s.stream.delivered, tok.pos.offset ≤ tok'.pos.offset) (kinds : List Kind) :
    (stateOf ((Parse.expected tok kinds).run s)).Advancing source := by
  cases hcalm : s.recovering with
  | true =>
    rw [run_expected_of_recovering hcalm]
    exact h
  | false =>
    rw [run_expected_of_calm hcalm]
    have hreplay : source.replay (s.transcript.push (.diagnostic (complaint s.tracker tok kinds))).toList =
        source.replay s.transcript.toList ++ [.reported (complaint s.tracker tok kinds)] := by
      rw [Array.toList_push, Stream.replay_append]
      rfl
    have hdiagnostics : (s.tracker.report (complaint s.tracker tok kinds)).diagnostics.toList =
        s.tracker.diagnostics.toList ++ [complaint s.tracker tok kinds] := Array.toList_push
    have hcases : ∀ d ∈ (s.tracker.report (complaint s.tracker tok kinds)).diagnostics.toList,
        d ∈ s.tracker.diagnostics.toList ∨ d.pos.offset = tok.pos.offset := by
      intro d hd
      rw [hdiagnostics] at hd
      rcases List.mem_append.1 hd with hd | hd
      · exact .inl hd
      · rw [List.mem_singleton.1 hd]
        exact .inr rfl
    refine ⟨⟨h.tracing, ?_, ?_, ?_, ?_, ?_⟩, h.scanned, h.suffix, ?_, nofun, nofun⟩
    · show source.after (s.transcript.push _).toList = s.stream
      rw [Array.toList_push, Stream.after_append, h.stream]
      rfl
    · show (source.replay (s.transcript.push _).toList).filterMap _ = _
      rw [hreplay, List.filterMap_append, h.reports]
      exact hdiagnostics.symm
    · show (s.tracker.report _).diagnostics.toList.Pairwise _
      rw [hdiagnostics, List.pairwise_append]
      refine ⟨h.increasing, List.pairwise_singleton _ _, fun d hd d' hd' => ?_⟩
      rw [List.mem_singleton.1 hd']
      exact hpassed hcalm d hd
    · intro d hd
      rcases hcases d hd with hd | hoffset
      · exact h.located d hd
      · exact ⟨tok, htok, hoffset⟩
    · show Advances (source.replay (s.transcript.push _).toList)
      rw [hreplay]
      exact h.advances.concat fun _ _ => h.settled hcalm
    · intro d hd tok' htok'
      rcases hcases d hd with hd | hoffset
      · exact h.reached d hd tok' htok'
      · rw [hoffset]
        exact hahead tok' htok'

include hsource

/-- No token is delivered before the one ahead. -/
theorem Advancing.ahead (h : s.Advancing source) {tok : Token} (hpeek : s.stream.peek = .ok tok) :
    tok ∈ s.stream.delivered ∧ ∀ tok' ∈ s.stream.delivered, tok.pos.offset ≤ tok'.pos.offset := by
  obtain ⟨later, hlater⟩ := Stream.delivered_of_peek hpeek
  have hordered := hsource.sublist h.suffix.sublist
  rw [hlater] at hordered ⊢
  refine ⟨List.mem_cons_self, fun tok' htok' => ?_⟩
  rcases List.mem_cons.1 htok' with rfl | htok'
  · exact Int.le_refl _
  · exact Int.le_of_lt ((List.pairwise_cons.1 hordered).1 tok' htok')

theorem Advancing.keepsAt_expected (tok : Token) (kinds : List Kind) :
    KeepsAt (Advancing source) tok (Parse.expected tok kinds) := by
  intro s h hpeek
  obtain ⟨hmem, hahead⟩ := h.ahead hsource hpeek
  exact h.expected (h.suffix.subset hmem) (fun hcalm d hd => h.passed hcalm d hd tok hmem) hahead kinds

/-- A request takes the token ahead and matches or reports it.  Only the match of the end leaves reports at
what is still ahead. -/
theorem Advancing.accept (h : s.Advancing source) (k : Kind) :
    (stateOf ((Parse.accept k).run s)).Recorded source ∧
      (k ≠ .eofSym → (stateOf ((Parse.accept k).run s)).Advancing source) := by
  cases hpeek : s.stream.peek with
  | error e =>
    have hmissed : (requested s k).Advancing source := by
      refine h.missed fun tok htok => ?_
      rw [hpeek] at htok
      cases htok
    rw [run_accept_of_fault h.tracing hpeek]
    exact ⟨hmissed.toRecorded, fun _ => hmissed⟩
  | ok tok =>
    rw [run_accept_of_tracing h.tracing hpeek]
    by_cases hkind : tok.kind = k
    · subst hkind
      rw [if_pos rfl]
      exact ⟨(h.matched hpeek).1, fun hno => h.passed_match hsource hpeek hno⟩
    · -- the wrong token is taken first and reported from behind it
      have hmissed : (requested s k).Advancing source := by
        refine h.missed fun tok' htok' => ?_
        rw [hpeek] at htok'
        cases htok'
        exact hkind
      have hcurrent : ParseState.Advancing source { requested s k with current := tok } :=
        { hmissed with }
      obtain ⟨hmem, hahead⟩ := h.ahead hsource hpeek
      have hexpected := hcurrent.expected (h.suffix.subset hmem)
        (fun hcalm d hd => h.passed hcalm d hd tok hmem)
        (fun tok' htok' => hahead tok' (s.stream.suffix_rest.subset htok')) [k]
      have hstate := stateOf_bind hexpected fun _ => Keeps.pure tok
      rw [if_neg hkind]
      exact ⟨hstate.toRecorded, fun _ => hstate⟩

/-- Progress is kept up by all steps of all productions. -/
theorem invariant_advancing : Invariant (Advancing source) where
  enter n s h := h.aside (aside_enter n s)
  derive n s h := h.aside (aside_derive n s)
  add parent content s h := h.aside (aside_add parent content s)
  act haction s h := h.aside (aside_act haction s)
  expected := Advancing.keepsAt_expected hsource
  accept hk _ h := (h.accept hsource _).2 hk

/-- A whole parse leaves a record of its progress. -/
theorem Advancing.systemGoal (h : s.Advancing source) (bound : Nat) :
    (stateOf ((Parse.systemGoal bound).run s)).Recorded source := by
  have hbody := (invariant_advancing hsource).goalBody bound s h
  rw [systemGoal_eq]
  cases hrun : (goalBody bound).run s with
  | error e s' =>
    rw [hrun] at hbody
    rw [run_bind_of_error hrun]
    exact hbody.toRecorded
  | ok v s' =>
    rw [hrun] at hbody
    rw [run_bind_of_ok hrun]
    refine stateOf_bind (Advancing.accept hsource hbody .eofSym).1 fun _ s'' hs'' => ?_
    exact hs''.aside (aside_act Silent.finish s'')

end ParseState

/-! ### Whole parses -/

namespace Parsed

theorem recorded_ofSource (filename src name : Text) :
    (ofSource filename src { filename := name } true).state.Recorded (Stream.ofSource filename src) := by
  have hinitial : ParseState.Advancing (Stream.ofSource filename src)
      { stream := Stream.ofSource filename src, tracker := { filename := name }, tracing := true,
        tracingActions := true } := by
    refine ⟨⟨rfl, rfl, rfl, .nil, nofun, ?_⟩, Stream.scanned_ofSource filename src,
      List.suffix_refl _, nofun, fun _ => ?_, fun _ => nofun⟩
    · intro before d between d' after hsplit
      simp [Stream.replay] at hsplit
    · intro before d after hsplit
      simp [Stream.replay] at hsplit
  have hend := hinitial.systemGoal (Stream.pairwise_delivered filename src)
    ((Stream.ofSource filename src).tokens.length + 1)
  rw [ofSource, state_ofState]
  exact hend

/-- What is reported does not depend on tracing. -/
theorem diagnostics_traced (filename src : Text) (tracker : Tracker) (tracing : Bool) :
    (ofSource filename src tracker tracing).diagnostics =
      (ofSource filename src tracker true).state.tracker.diagnostics.toList := by
  rw [diagnostics, (sameUpTo_stay filename src tracker tracing true).tracker_eq]

/-- Reports come in strict order with progress in between.  Traced or not, a parse with an empty tracker
reports at tokens of the source, with strictly increasing offsets and so at most once for a token.  In
the transcript, which lists all reports and leads to where the parser stands, a token is matched between
any two reports that does not stand before the first. -/
theorem reports_advance (filename src name : Text) (tracing : Bool) :
    let source := Stream.ofSource filename src
    let reports := (ofSource filename src { filename := name } tracing).diagnostics
    let traced := (ofSource filename src { filename := name } true).state
    let milestones := source.replay traced.transcript.toList
    reports.Pairwise (fun d d' => d.pos.offset < d'.pos.offset) ∧
      (∀ d ∈ reports, ∃ tok ∈ source.delivered, d.pos.offset = tok.pos.offset) ∧
      (∀ tok : Token, (reports.map fun d => d.pos.offset).count tok.pos.offset ≤ 1) ∧
      source.after traced.transcript.toList = traced.stream ∧
      milestones.filterMap Milestone.report? = reports ∧
      ∀ before d between d' after,
        milestones = before ++ .reported d :: (between ++ .reported d' :: after) →
          ∃ tok, .matched tok ∈ between ∧ d.pos.offset ≤ tok.pos.offset := by
  have h := recorded_ofSource filename src name
  have hreports := diagnostics_traced filename src { filename := name } tracing
  generalize (ofSource filename src { filename := name } tracing).diagnostics = reports at hreports ⊢
  generalize (ofSource filename src { filename := name } true).state = traced at h hreports ⊢
  subst hreports
  have hnodup : (traced.tracker.diagnostics.toList.map fun d => d.pos.offset).Nodup :=
    List.pairwise_map.2 (h.increasing.imp fun hlt => Int.ne_of_lt hlt)
  refine ⟨h.increasing, h.located, fun tok => ?_, h.stream, h.reports, h.advances⟩
  exact List.nodup_iff_count.1 hnodup tok.pos.offset

/-- A semicolon that stands in place of a value is reported and then matched; the second report is at `end`,
which stands in place of a semicolon. -/
theorem reports_advance_two_statements :
    let src := text "begin a := ; b := 2 end"
    let milestones := (Stream.ofSource [] src).replay
      (ofSource [] src { filename := [] } true).state.transcript.toList
    let first : Diagnostic :=
      ⟨.error, { line := 1, column := 12, offset := 11 },
        Tracker.expectedMessage [.lParen, .id, .intLiteral] .semiColon⟩
    let second : Diagnostic :=
      ⟨.error, { line := 1, column := 21, offset := 20 }, Tracker.expectedMessage [.semiColon] .endSym⟩
    (ofSource [] src { filename := [] } false).diagnostics = [first, second] ∧
      ∃ before between after,
        milestones = before ++ .reported first :: (between ++ .reported second :: after) ∧
        ∃ tok, .matched tok ∈ between ∧ first.pos.offset ≤ tok.pos.offset := by
  intro src milestones first second
  have hsplit : milestones = milestones.take 3 ++
      .reported first :: ((milestones.drop 4).take 4 ++ .reported second :: milestones.drop 9) := by
    decide +kernel
  obtain ⟨_, _, _, _, hreports, hadvances⟩ := reports_advance [] src [] false
  refine ⟨hreports.symm.trans (by decide +kernel), _, _, _, hsplit, ?_⟩
  exact hadvances _ _ _ _ _ hsplit

end Parsed

end MicroLang
