import MicroLang.Token.Stream

/-!
# One token of lookahead

A reader over a source remembers a token that was looked at and not yet taken, and the token taken last.
Looking fills the slot, taking empties it, and scanning past the slot leaves it alone.  An error
changes nothing, so it is met again by the next attempt.
-/

namespace MicroLang

structure Lookahead where
  filename : Text
  cursor : Cursor
  slot : Option Token := none
  current : Token := {}
deriving DecidableEq, Repr

namespace Lookahead

/-- A reader at the start of a source. -/
def ofSource (filename src : Text) : Lookahead := { filename, cursor := { rest := src } }

/-- Scans the next token past the slot. -/
def scan (l : Lookahead) : Except LexicalError Token × Lookahead :=
  match l.cursor.scan l.filename with
  | .error e => (.error e, l)
  | .ok (tok, cursor) => (.ok tok, { l with cursor })

/-- Looks at the next token. -/
def peek (l : Lookahead) : Except LexicalError Token × Lookahead :=
  match l.slot with
  | some tok => (.ok tok, l)
  | none =>
    match l.scan with
    | (.error e, l) => (.error e, l)
    | (.ok tok, l) => (.ok tok, { l with slot := some tok })

/-- Takes the next token. -/
def next (l : Lookahead) : Except LexicalError Token × Lookahead :=
  match l.peek with
  | (.error e, l) => (.error e, l)
  | (.ok tok, l) => (.ok tok, { l with slot := none, current := tok })

/-- The tokens that have not been taken, the slot first. -/
def unread (l : Lookahead) : Stream :=
  let later := Stream.ofCursor l.filename l.cursor
  match l.slot with
  | none => later
  | some tok => if tok.kind = .eofSym then ⟨[], .eof tok⟩ else later.cons tok

/-- The texts of the tokens that have not been taken, with one blank between them. -/
def remaining (l : Lookahead) : Text := l.unread.remaining

/-! ### Taking all tokens -/

theorem peek_of_slot {l : Lookahead} {tok : Token} (h : l.slot = some tok) : l.peek = (.ok tok, l) := by
  rw [peek, h]

theorem peek_of_error {l : Lookahead} {e : LexicalError} (hslot : l.slot = none)
    (h : l.cursor.scan l.filename = .error e) : l.peek = (.error e, l) := by
  rw [peek, hslot, scan, h]

theorem peek_of_scan {l : Lookahead} {tok : Token} {cursor : Cursor} (hslot : l.slot = none)
    (h : l.cursor.scan l.filename = .ok (tok, cursor)) :
    l.peek = (.ok tok, { l with cursor, slot := some tok }) := by
  rw [peek, hslot, scan, h]

/-- The tokens not taken are the one that is taken next and those that are not taken then.  The end and an
error come after all of them. -/
theorem tokens_unread (l : Lookahead) :
    l.unread.tokens = match l.next with
      | (.error _, _) => []
      | (.ok tok, later) => if tok.kind = .eofSym then [] else tok :: later.unread.tokens := by
  cases hslot : l.slot with
  | some tok =>
    rw [next, peek_of_slot hslot, unread, hslot]
    dsimp only
    split <;> rfl
  | none =>
    rw [unread, hslot]
    cases hscan : l.cursor.scan l.filename with
    | error e => rw [next, peek_of_error hslot hscan, Stream.ofCursor_of_error hscan]
    | ok found =>
      obtain ⟨tok, cursor⟩ := found
      rw [next, peek_of_scan hslot hscan]
      dsimp only
      by_cases hk : tok.kind = .eofSym
      · rw [Stream.ofCursor_of_eof hscan hk, if_pos hk]
      · rw [Stream.ofCursor_of_token hscan hk, if_neg hk]
        rfl

theorem tokens_unread_of_next {l later : Lookahead} {tok : Token} (h : l.next = (.ok tok, later))
    (hk : tok.kind ≠ .eofSym) : l.unread.tokens = tok :: later.unread.tokens := by
  rw [tokens_unread, h]
  exact if_neg hk

theorem length_unread_lt_of_next {l later : Lookahead} {tok : Token} (h : l.next = (.ok tok, later))
    (hk : tok.kind ≠ .eofSym) : later.unread.tokens.length < l.unread.tokens.length := by
  rw [tokens_unread_of_next h hk]
  exact Nat.lt_succ_self _

/-- The tokens that are taken one after the other, up to the end or to an error. -/
def takeAll (l : Lookahead) : List Token :=
  match h : l.next with
  | (.error _, _) => []
  | (.ok tok, later) => if hk : tok.kind = .eofSym then [] else tok :: later.takeAll
termination_by l.unread.tokens.length
decreasing_by exact length_unread_lt_of_next h hk

theorem takeAll_eq (l : Lookahead) : l.takeAll = l.unread.tokens := by
  fun_induction takeAll l with
  | case1 l e later h => rw [tokens_unread, h]
  | case2 l tok later h hk =>
    rw [tokens_unread, h]
    exact (if_pos hk).symm
  | case3 l tok later h hk ih => rw [ih, tokens_unread_of_next h hk]

/-- The remaining text is what a copy of the reader meets when all tokens are taken from it. -/
theorem remaining_eq_takeAll (l : Lookahead) :
    l.remaining = [32].intercalate (l.takeAll.map Token.literal) := by
  rw [takeAll_eq]
  rfl

end Lookahead

end MicroLang
