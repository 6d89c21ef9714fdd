import MicroLang.Proofs.Characters

/-!
# Tokenizers

Around a scanner a tokenizer remembers the first lexical error, the token that was looked at and not taken, and the
token taken last.  The scanner does not go back when it meets an error, but since the error is remembered and told
again nobody can see how far it went.  What is left to be read is found out by taking all tokens from a copy.

A tokenizer answers any calls as a reader does that an error leaves unchanged and that knows the tokens ahead.
Each call keeps the tokenizer where the reader stands, and there is always an answer: no cut fails.
-/

namespace MicroLang

/-- A scanner with the first lexical error that it met, the token looked at and the token taken last. -/
structure Tokenizer where
  scanner : Scanner
  error? : Option LexicalError := none
  /-- Whether the token looked at has not been taken yet. -/
  peeked : Bool := false
  peekTok : Token := {}
  current : Token := {}

namespace Tokenizer

variable (src : Text)

def ofSource (filename : Text) : Tokenizer := { scanner := .ofSource src filename }

/-- Scans the next token, or tells the error that was met once. -/
def scan? (k : Tokenizer) : Option (Except LexicalError Token × Tokenizer) :=
  match k.error? with
  | some e => some (.error e, k)
  | none =>
    match k.scanner.token? src with
    | none => none
    | some (.error e, scanner) => some (.error e, { k with scanner, error? := some e })
    | some (.ok tok, scanner) => some (.ok tok, { k with scanner })

/-- Looks at the next token. -/
def peek? (k : Tokenizer) : Option (Except LexicalError Token × Tokenizer) :=
  if k.peeked then some (.ok k.peekTok, k)
  else match k.scan? src with
    | none => none
    | some (.error e, k) => some (.error e, k)
    | some (.ok tok, k) => some (.ok tok, { k with peekTok := tok, peeked := true })

/-- Takes the next token. -/
def next? (k : Tokenizer) : Option (Except LexicalError Token × Tokenizer) :=
  match k.peek? src with
  | none => none
  | some (.error e, k) => some (.error e, k)
  | some (.ok tok, k) => some (.ok tok, { k with current := tok, peeked := false })

/-- How often the scanner can step on, twice, and whether a token has been looked at. -/
def left (k : Tokenizer) : Nat := 2 * k.scanner.left src + k.peeked.toNat

variable {src} {filename : Text} {k k' : Tokenizer} {l : Lookahead} {tok : Token}

theorem left_next?_lt (h : k.next? src = some (.ok tok, k')) (hk : tok.kind ≠ .eofSym) :
    k'.left src < k.left src := by
  unfold next? peek? at h
  cases hpeeked : k.peeked with
  | true =>
    -- the scanner does not move, but the token that was looked at is gone
    rw [hpeeked, if_pos rfl] at h
    cases h
    rw [left, left, hpeeked]
    exact Nat.lt_succ_self _
  | false =>
    rw [hpeeked, if_neg Bool.false_ne_true, scan?] at h
    cases herror : k.error? with
    | some e =>
      rw [herror] at h
      cases h
    | none =>
      rw [herror] at h
      cases htoken : k.scanner.token? src with
      | none =>
        rw [htoken] at h
        cases h
      | some r =>
        obtain ⟨answer, scanner⟩ := r
        rw [htoken] at h
        cases answer with
        | error e => cases h
        | ok tok' =>
          cases h
          have hless := Scanner.left_token?_lt htoken hk
          show 2 * scanner.left src + 0 < 2 * k.scanner.left src + k.peeked.toNat
          omega

/-- The tokens that are taken one after the other, up to the end or to an error. -/
def takeAll? (src : Text) (k : Tokenizer) : Option (List Token) :=
  match h : k.next? src with
  | none => none
  | some (.error _, _) => some []
  | some (.ok tok, later) =>
    if hk : tok.kind = .eofSym then some [] else (later.takeAll? src).map (tok :: ·)
termination_by k.left src
decreasing_by exact left_next?_lt h hk

theorem takeAll?_of_error {e : LexicalError} (h : k.next? src = some (.error e, k')) :
    k.takeAll? src = some [] := by
  rw [takeAll?]
  split
  · next hnone => cases hnone.symm.trans h
  · rfl
  · next hok => cases hok.symm.trans h

theorem takeAll?_of_ok (h : k.next? src = some (.ok tok, k')) :
    k.takeAll? src = if tok.kind = .eofSym then some [] else (k'.takeAll? src).map (tok :: ·) := by
  rw [takeAll?]
  split
  · next hnone => cases hnone.symm.trans h
  · next herror => cases herror.symm.trans h
  · next hok =>
    cases hok.symm.trans h
    rfl

/-- The texts of the tokens that a copy of the tokenizer takes, with one blank between them. -/
def remaining? (src : Text) (k : Tokenizer) : Option Text :=
  (k.takeAll? src).map fun toks => [32].intercalate (toks.map Token.literal)

/-- The answer to a call and the tokenizer behind it, unless a cut does not lie in the source. -/
def reply? (src : Text) (k : Tokenizer) : Call → Option (Answer × Tokenizer)
  | .scan => (k.scan? src).map (Prod.map .scanned id)
  | .peek => (k.peek? src).map (Prod.map .scanned id)
  | .next => (k.next? src).map (Prod.map .scanned id)
  | .current => some (.token k.current, k)
  | .remaining => (k.remaining? src).map fun t => (.text t, k)

/-- The answers to calls in a row. -/
def replies? (src : Text) (k : Tokenizer) : List Call → Option (List Answer)
  | [] => some []
  | call :: calls => (k.reply? src call).bind fun r => (r.2.replies? src calls).map (r.1 :: ·)

/-! ### Tokenizers and readers -/

/-- What lies ahead of a cursor, for a scanner that has met an error or none: with an error it can stand
anywhere. -/
inductive Faces (src filename : Text) (cursor : Cursor) : Option LexicalError → Scanner → Prop where
  | free {s : Scanner} {p : Location} (stands : s.StandsAt src filename p) (here : cursor = p.cursor src) :
      Faces src filename cursor none s
  | blocked {e : LexicalError} (fails : cursor.scan filename = .error e) (s : Scanner) :
      Faces src filename cursor (some e) s

/-- The tokenizer stands where the reader does. -/
structure Follows (src : Text) (k : Tokenizer) (l : Lookahead) : Prop where
  ahead : Faces src l.filename l.cursor k.error? k.scanner
  slot : l.slot = if k.peeked then some k.peekTok else none
  current : l.current = k.current

/-- There is an answer, the reader gives the same, and then the tokenizer stands where the reader does. -/
def Matches {α : Type} (src : Text) (r? : Option (α × Tokenizer)) (r : α × Lookahead) : Prop :=
  ∃ k, r? = some (r.1, k) ∧ k.Follows src r.2

variable (h : k.Follows src l)

include h

theorem Follows.scan : Matches src (k.scan? src) l.scan := by
  have hahead := h.ahead
  unfold scan? Lookahead.scan
  cases herror : k.error? with
  | some e =>
    rw [herror] at hahead
    obtain _ | ⟨hfails⟩ := hahead
    rw [hfails]
    exact ⟨k, rfl, h⟩
  | none =>
    rw [herror] at hahead
    obtain ⟨hstands, hhere⟩ := hahead
    obtain ⟨found, r, hfound, htoken, hreaches⟩ := hstands.exists_token
    obtain ⟨found', hfound', hscan⟩ := Location.exists_scan? src l.filename _
    cases hfound.symm.trans hfound'
    rw [hhere, ← hscan, htoken]
    cases hreaches with
    | ok hstands' => exact ⟨_, rfl, .free hstands' rfl, h.slot, h.current⟩
    | error e s' =>
      -- the reader has not moved, so what stopped the scanner is still ahead of it
      have hfails : l.cursor.scan l.filename = .error e := by
        rw [hhere, ← hscan]
        rfl
      exact ⟨_, rfl, .blocked hfails s', h.slot, h.current⟩

theorem Follows.peek : Matches src (k.peek? src) l.peek := by
  unfold peek? Lookahead.peek
  cases hpeeked : k.peeked with
  | true =>
    rw [h.slot, hpeeked]
    exact ⟨k, rfl, h⟩
  | false =>
    obtain ⟨later, hscan, hlater⟩ := h.scan
    rw [h.slot, hpeeked, if_neg Bool.false_ne_true, if_neg Bool.false_ne_true, hscan]
    dsimp only
    generalize l.scan = r at hlater
    obtain ⟨answer, reader⟩ := r
    cases answer with
    | error e => exact ⟨later, rfl, hlater⟩
    | ok tok => exact ⟨_, rfl, hlater.ahead, rfl, hlater.current⟩

theorem Follows.next : Matches src (k.next? src) l.next := by
  obtain ⟨later, hpeek, hlater⟩ := h.peek
  unfold next? Lookahead.next
  rw [hpeek]
  generalize l.peek = r at hlater
  obtain ⟨answer, reader⟩ := r
  cases answer with
  | error e => exact ⟨later, rfl, hlater⟩
  | ok tok => exact ⟨_, rfl, hlater.ahead, rfl, rfl⟩

/-- A copy of the tokenizer takes the tokens that a copy of the reader takes. -/
theorem Follows.takeAll : k.takeAll? src = some l.takeAll := by
  fun_induction Lookahead.takeAll l generalizing k with
  | case1 l e later hnext =>
    obtain ⟨k', hnext', -⟩ := h.next
    rw [hnext] at hnext'
    exact takeAll?_of_error hnext'
  | case2 l tok later hnext hk =>
    obtain ⟨k', hnext', -⟩ := h.next
    rw [hnext] at hnext'
    rw [takeAll?_of_ok hnext', if_pos hk]
  | case3 l tok later hnext hk ih =>
    obtain ⟨k', hnext', hlater⟩ := h.next
    rw [hnext] at hnext' hlater
    rw [takeAll?_of_ok hnext', if_neg hk, ih hlater]
    rfl

theorem Follows.remaining : k.remaining? src = some l.remaining := by
  rw [remaining?, h.takeAll, Lookahead.remaining_eq_takeAll]
  rfl

/-- A call is answered alike and leaves the tokenizer where it leaves the reader. -/
theorem Follows.reply (call : Call) : Matches src (k.reply? src call) (l.reply call) := by
  have hscanned : ∀ {r? : Option (Except LexicalError Token × Tokenizer)}
      {r : Except LexicalError Token × Lookahead}, Matches src r? r →
        Matches src (r?.map (Prod.map Answer.scanned id)) (.scanned r.1, r.2) := by
    rintro _ r ⟨later, rfl, hlater⟩
    exact ⟨later, rfl, hlater⟩
  cases call with
  | scan => exact hscanned h.scan
  | peek => exact hscanned h.peek
  | next => exact hscanned h.next
  | current => exact ⟨k, by rw [reply?, ← h.current]; rfl, h⟩
  | remaining => exact ⟨k, by rw [reply?, h.remaining]; rfl, h⟩

omit h in
theorem follows_ofSource (src filename : Text) :
    (ofSource src filename).Follows src (Lookahead.ofSource filename src) :=
  ⟨.free (Scanner.standsAt_ofSource src filename) rfl, rfl, rfl⟩

/-- To any calls in a row a tokenizer has all answers, and they are those of the reader. -/
theorem Follows.replies (calls : List Call) : k.replies? src calls = some (l.replies calls) := by
  induction calls generalizing k l with
  | nil => rfl
  | cons call calls ih =>
    obtain ⟨later, hreply, hlater⟩ := h.reply call
    rw [replies?, hreply, Option.bind_some, ih hlater]
    rfl

omit h in
/-- A tokenizer of a source and a reader of it answer all calls alike. -/
theorem replies?_ofSource (filename src : Text) (calls : List Call) :
    (ofSource src filename).replies? src calls = some ((Lookahead.ofSource filename src).replies calls) :=
  (follows_ofSource src filename).replies calls

end Tokenizer

end MicroLang
