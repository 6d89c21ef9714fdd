import MicroLang.Proofs.Scanning
import MicroLang.Token.Lookahead

/-!
# Calls on a reader

A reader with one token of lookahead answers five kinds of calls.  Its answers to any sequence of calls are
those of a simple machine over the raw stream of tokens, which knows how many attempts to scan it has
made, the token that it has looked at and not taken, and the token taken last.  So no order of
calls loses or repeats a token, and an error stops the machine where it stands.

The relation between a reader and the machine is kept by each call, and from this the equality of all
answers follows by induction on the calls.
-/

namespace MicroLang

/-- What a reader can be asked. -/
inductive Call where
  | scan
  | peek
  | next
  | current
  | remaining
deriving DecidableEq, Repr

/-- What it answers: a scanned token or the error in its place, the token taken last, or a text. -/
inductive Answer where
  | scanned (r : Except LexicalError Token)
  | token (tok : Token)
  | text (t : Text)

namespace Lookahead

/-- The answer to a call and the reader behind it. -/
def reply (l : Lookahead) : Call → Answer × Lookahead
  | .scan => (.scanned l.scan.1, l.scan.2)
  | .peek => (.scanned l.peek.1, l.peek.2)
  | .next => (.scanned l.next.1, l.next.2)
  | .current => (.token l.current, l)
  | .remaining => (.text l.remaining, l)

/-- The answers to calls in a row. -/
def replies (l : Lookahead) : List Call → List Answer
  | [] => []
  | call :: calls => (l.reply call).1 :: (l.reply call).2.replies calls

end Lookahead

/-! ### The machine -/

/-- How far a machine over a raw stream of tokens has come. -/
structure RawReader where
  /-- The number of the next attempt to scan. -/
  index : Nat := 0
  /-- The token looked at and not taken. -/
  slot : Option Token := none
  /-- The token taken last. -/
  current : Token := {}

namespace RawReader

variable (stream : Stream)

/-- The next token of the stream; an error is not passed. -/
def scan (m : RawReader) : Except LexicalError Token × RawReader :=
  match stream.raw m.index with
  | .ok tok => (.ok tok, { m with index := m.index + 1 })
  | .error e => (.error e, m)

/-- The token in the slot, which is filled from the stream if it is empty. -/
def peek (m : RawReader) : Except LexicalError Token × RawReader :=
  match m.slot with
  | some tok => (.ok tok, m)
  | none =>
    match stream.raw m.index with
    | .ok tok => (.ok tok, { m with index := m.index + 1, slot := some tok })
    | .error e => (.error e, m)

/-- The token that looking shows; it leaves the slot and becomes the current one. -/
def next (m : RawReader) : Except LexicalError Token × RawReader :=
  match m.peek stream with
  | (.ok tok, m) => (.ok tok, { m with slot := none, current := tok })
  | (.error e, m) => (.error e, m)

/-- The texts of the token in the slot and of those to be scanned, up to the end or to the error. -/
def remaining (m : RawReader) : Text :=
  [32].intercalate (((m.slot.toList ++ stream.tokens.drop m.index).takeWhile
    fun tok => tok.kind != .eofSym).map Token.literal)

def reply (m : RawReader) : Call → Answer × RawReader
  | .scan => (.scanned (m.scan stream).1, (m.scan stream).2)
  | .peek => (.scanned (m.peek stream).1, (m.peek stream).2)
  | .next => (.scanned (m.next stream).1, (m.next stream).2)
  | .current => (.token m.current, m)
  | .remaining => (.text (m.remaining stream), m)

def replies (m : RawReader) : List Call → List Answer
  | [] => []
  | call :: calls => (m.reply stream call).1 :: (m.reply stream call).2.replies calls

end RawReader

/-! ### One call -/

/-- The reader stands where the machine does. -/
structure Lookahead.Follows (stream : Stream) (l : Lookahead) (m : RawReader) : Prop where
  ahead : Stream.ofCursor l.filename l.cursor = stream.skip m.index
  slot : l.slot = m.slot
  current : l.current = m.current

namespace Lookahead.Follows

variable {stream : Stream} {l : Lookahead} {m : RawReader}

/-- Answers that agree, from readers that then stand where the machines do. -/
def Agree {α : Type} (stream : Stream) (a : α × Lookahead) (b : α × RawReader) : Prop :=
  a.1 = b.1 ∧ a.2.Follows stream b.2

theorem scan (h : l.Follows stream m) : Agree stream l.scan (m.scan stream) := by
  have hpeek : (Stream.ofCursor l.filename l.cursor).peek = stream.raw m.index := by
    rw [h.ahead, Stream.peek_skip]
  unfold Lookahead.scan RawReader.scan
  cases hraw : stream.raw m.index with
  | ok tok =>
    rw [hraw] at hpeek
    obtain ⟨next, hscan, hnext⟩ := Stream.scan_of_peek hpeek
    rw [hscan]
    refine ⟨rfl, ?_, h.slot, h.current⟩
    rw [h.ahead, Stream.rest_skip] at hnext
    exact hnext
  | error e =>
    rw [hraw] at hpeek
    rw [Stream.scan_of_peek_error hpeek]
    exact ⟨rfl, h⟩

theorem peek (h : l.Follows stream m) : Agree stream l.peek (m.peek stream) := by
  unfold Lookahead.peek RawReader.peek
  rw [h.slot]
  cases hslot : m.slot with
  | some tok => exact ⟨rfl, h⟩
  | none =>
    obtain ⟨hanswer, hreader⟩ := h.scan
    unfold RawReader.scan at hanswer hreader
    cases hscan : l.scan with
    | mk answer reader =>
      rw [hscan] at hanswer hreader
      cases hraw : stream.raw m.index with
      | ok tok =>
        rw [hraw] at hanswer hreader
        cases hanswer
        exact ⟨rfl, hreader.ahead, rfl, hreader.current⟩
      | error e =>
        rw [hraw] at hanswer hreader
        cases hanswer
        exact ⟨rfl, hreader⟩

theorem next (h : l.Follows stream m) : Agree stream l.next (m.next stream) := by
  unfold Lookahead.next RawReader.next
  obtain ⟨hanswer, hreader⟩ := h.peek
  cases hpeek : l.peek with
  | mk answer reader =>
    cases hpeek' : m.peek stream with
    | mk answer' machine =>
      rw [hpeek, hpeek'] at hanswer hreader
      cases hanswer
      cases answer with
      | ok tok => exact ⟨rfl, hreader.ahead, rfl, rfl⟩
      | error e => exact ⟨rfl, hreader⟩

/-- What has not been taken is the slot and the rest of the stream. -/
theorem remaining (h : l.Follows stream m) (hs : stream.Scanned) : l.remaining = m.remaining stream := by
  have hlater : (stream.tokens.drop m.index).takeWhile (fun tok => tok.kind != .eofSym) =
      stream.tokens.drop m.index := by
    have hall : ∀ tok ∈ stream.tokens.drop m.index, (tok.kind != .eofSym) = true :=
      fun tok htok => bne_iff_ne.2 (hs.lexemes tok (List.mem_of_mem_drop htok)).ne_eofSym
    have htake : (stream.tokens.drop m.index ++ []).takeWhile (fun tok => tok.kind != Kind.eofSym) =
        stream.tokens.drop m.index ++ [] := List.takeWhile_append_of_pos hall
    rwa [List.append_nil] at htake
  unfold Lookahead.remaining Lookahead.unread RawReader.remaining
  rw [h.ahead, h.slot]
  cases m.slot with
  | none =>
    rw [Option.toList_none, List.nil_append, hlater]
    rfl
  | some tok =>
    by_cases hk : tok.kind = .eofSym
    · simp only [Stream.remaining, Option.toList_some, List.singleton_append, List.takeWhile_cons, hk,
        bne_self_eq_false, Bool.false_eq_true, if_false, if_true]
    · simp only [if_neg hk, Stream.remaining, Stream.cons, Stream.skip, Option.toList_some,
        List.singleton_append, List.takeWhile_cons, bne_iff_ne.2 hk, if_true, hlater]

/-- A call is answered alike and leaves the reader where it leaves the machine. -/
theorem reply (h : l.Follows stream m) (hs : stream.Scanned) (call : Call) :
    Agree stream (l.reply call) (m.reply stream call) := by
  cases call with
  | scan => exact ⟨congrArg Answer.scanned h.scan.1, h.scan.2⟩
  | peek => exact ⟨congrArg Answer.scanned h.peek.1, h.peek.2⟩
  | next => exact ⟨congrArg Answer.scanned h.next.1, h.next.2⟩
  | current => exact ⟨congrArg Answer.token h.current, h⟩
  | remaining => exact ⟨congrArg Answer.text (h.remaining hs), h⟩

/-! ### Calls in a row -/

theorem replies (h : l.Follows stream m) (hs : stream.Scanned) (calls : List Call) :
    l.replies calls = m.replies stream calls := by
  induction calls generalizing l m with
  | nil => rfl
  | cons call calls ih =>
    obtain ⟨hanswer, hlater⟩ := h.reply hs call
    rw [Lookahead.replies, RawReader.replies, hanswer, ih hlater]

end Lookahead.Follows

namespace Lookahead

/-- Scanning again and again gives the answers of the raw stream. -/
theorem replies_scan {stream : Stream} {l : Lookahead} {k : Nat}
    (h : Stream.ofCursor l.filename l.cursor = stream.skip k) (n : Nat) :
    l.replies (List.replicate n .scan) =
      (List.range' k n).map fun i => .scanned (stream.raw i) := by
  induction n generalizing l k with
  | zero => rfl
  | succ n ih =>
    have hfollows : l.Follows stream { index := k, slot := l.slot, current := l.current } :=
      ⟨h, rfl, rfl⟩
    obtain ⟨hanswer, hlater⟩ := hfollows.scan
    unfold RawReader.scan at hanswer hlater
    rw [List.replicate_succ, replies, List.range'_succ, List.map_cons]
    cases hraw : stream.raw k with
    | ok tok =>
      simp only [hraw] at hanswer hlater
      rw [← hanswer, ← ih hlater.ahead]
      rfl
    | error e =>
      simp only [hraw] at hanswer hlater
      have hahead := hlater.ahead
      rw [← Stream.skip_succ_of_error hraw] at hahead
      rw [← hanswer, ← ih hahead]
      rfl

theorem follows_ofSource (filename src : Text) :
    (ofSource filename src).Follows (Stream.ofSource filename src) {} :=
  ⟨rfl, rfl, rfl⟩

/-- A call that leaves the reader as it was can be left out of a sequence of calls. -/
theorem eraseIdx_replies {call : Call} (hcall : ∀ l : Lookahead, (l.reply call).2 = l) (l : Lookahead)
    (earlier later : List Call) :
    (l.replies (earlier ++ call :: later)).eraseIdx earlier.length = l.replies (earlier ++ later) := by
  induction earlier generalizing l with
  | nil =>
    rw [List.nil_append, List.nil_append, replies, hcall]
    rfl
  | cons first earlier ih =>
    rw [List.cons_append, List.cons_append, replies, replies, List.length_cons, List.eraseIdx_cons_succ,
      ih]

/-- The answers to any sequence of calls are those of the machine over the raw stream, and leaving out
a question for the current token or for the remaining text changes no other answer. -/
theorem replies_of_machine (filename src : Text) (calls : List Call) :
    (ofSource filename src).replies calls =
      ({} : RawReader).replies (Stream.ofSource filename src) calls ∧
    ∀ earlier later : List Call,
      ((ofSource filename src).replies (earlier ++ .current :: later)).eraseIdx earlier.length =
        (ofSource filename src).replies (earlier ++ later) ∧
      ((ofSource filename src).replies (earlier ++ .remaining :: later)).eraseIdx earlier.length =
        (ofSource filename src).replies (earlier ++ later) := by
  refine ⟨(follows_ofSource filename src).replies (Stream.scanned_ofSource filename src) calls, ?_⟩
  intro earlier later
  exact ⟨eraseIdx_replies (fun _ => rfl) _ earlier later, eraseIdx_replies (fun _ => rfl) _ earlier later⟩

end Lookahead

end MicroLang
