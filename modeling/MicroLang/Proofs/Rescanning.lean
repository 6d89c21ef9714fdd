import MicroLang.Proofs.Calls
import MicroLang.Proofs.Containment

/-!
# Scanning the remaining text again

The text that a reader shows of what it has not taken is a source in its own right.  Scanning it reaches the
end and gives the tokens that were left, with their kinds and their spelling; only the places are new.  A
blank ends every token and starts none, so no two tokens run together at a seam and no comment begins
there.

Which tokens are left is said by counting: a reader that was only looked at and taken from has taken one
token of the stream for each call that takes one.  The token in its slot is then the next one, and the
cursor stands behind it.
-/

namespace MicroLang

/-! ### Streams -/

/-- The remaining text of scanned tokens is scanned as these tokens, up to its end. -/
theorem Stream.Scanned.rescan {stream : Stream} (h : stream.Scanned) (filename : Text) :
    (ofSource filename stream.remaining).tokens.map Token.unplaced = stream.tokens.map Token.unplaced ∧
      ∃ tok, (ofSource filename stream.remaining).ending = .eof tok := by
  have hitems : ∀ item ∈ stream.tokens.map Token.unplaced, Lexeme item.1 item.2 := by
    intro item hitem
    obtain ⟨tok, htok, rfl⟩ := List.mem_map.1 hitem
    exact h.lexemes tok htok
  have hrest : stream.remaining =
      [] ++ [32].intercalate ((stream.tokens.map Token.unplaced).map Prod.snd) := by
    rw [List.map_map]
    rfl
  exact ofCursor_of_lexemes filename hitems (.inl rfl) hrest

/-- The remaining text depends on the spelling of the tokens only. -/
theorem Stream.remaining_of_unplaced {stream stream' : Stream}
    (h : stream.tokens.map Token.unplaced = stream'.tokens.map Token.unplaced) :
    stream.remaining = stream'.remaining := by
  have hliterals : ∀ tokens : List Token,
      tokens.map Token.literal = (tokens.map Token.unplaced).map Prod.snd := by
    intro tokens
    rw [List.map_map]
    rfl
  rw [remaining, remaining, hliterals, hliterals, h]

theorem Stream.Scanned.skip {stream : Stream} (h : stream.Scanned) (n : Nat) : (stream.skip n).Scanned :=
  ⟨fun tok htok => h.lexemes tok (List.mem_of_mem_drop htok), h.eof⟩

/-- A token of the stream is followed by what is left behind it. -/
theorem Stream.skip_of_raw {stream : Stream} (h : stream.Scanned) {n : Nat} {tok : Token}
    (hraw : stream.raw n = .ok tok) :
    stream.skip n = if tok.kind = .eofSym then ⟨[], .eof tok⟩ else (stream.skip (n + 1)).cons tok := by
  obtain ⟨tokens, ending⟩ := stream
  rw [raw] at hraw
  cases hhead : tokens[n]? with
  | some first =>
    simp only [hhead] at hraw
    cases hraw
    have hmem : tok ∈ tokens := List.mem_of_getElem? hhead
    have hdrop : tokens.drop n = tok :: tokens.drop (n + 1) :=
      List.drop_eq_getElem?_toList_append.trans (by rw [hhead]; rfl)
    rw [if_neg (h.lexemes tok hmem).ne_eofSym]
    simp only [skip, cons, hdrop]
  | none =>
    have hdrop : tokens.drop n = [] := List.drop_eq_nil_iff.2 (List.getElem?_eq_none_iff.1 hhead)
    cases ending with
    | fault e => simp only [hhead, reduceCtorEq] at hraw
    | eof last =>
      simp only [hhead] at hraw
      cases hraw
      rw [if_pos (h.eof tok rfl)]
      simp only [skip, hdrop]

/-! ### Readers -/

namespace Lookahead

/-- The reader behind calls in a row. -/
def after (l : Lookahead) : List Call → Lookahead
  | [] => l
  | call :: calls => (l.reply call).2.after calls

/-- The reader has taken the given number of tokens from the stream.  The next one may be in the slot. -/
inductive HasTaken (stream : Stream) (n : Nat) (l : Lookahead) : Prop
  | empty : l.slot = none → Stream.ofCursor l.filename l.cursor = stream.skip n → HasTaken stream n l
  | full {tok : Token} : l.slot = some tok → stream.raw n = .ok tok →
      Stream.ofCursor l.filename l.cursor = stream.skip (n + 1) → HasTaken stream n l

namespace HasTaken

variable {stream : Stream} {n : Nat} {l : Lookahead}

/-- Looking puts the next token into the slot, or meets the error in its place and changes nothing. -/
theorem peek_cases (h : HasTaken stream n l) :
    (∃ tok reader, l.peek = (.ok tok, reader) ∧ reader.slot = some tok ∧ stream.raw n = .ok tok ∧
      Stream.ofCursor reader.filename reader.cursor = stream.skip (n + 1)) ∨
    ∃ e, l.peek = (.error e, l) ∧ l.slot = none ∧ stream.raw n = .error e ∧
      Stream.ofCursor l.filename l.cursor = stream.skip n := by
  cases h with
  | full hslot hraw hahead =>
    exact .inl ⟨_, l, by simp only [Lookahead.peek, hslot], hslot, hraw, hahead⟩
  | empty hslot hahead =>
    have hpeek : (Stream.ofCursor l.filename l.cursor).peek = stream.raw n := by
      rw [hahead, Stream.peek_skip]
    cases hraw : stream.raw n with
    | ok tok =>
      obtain ⟨cursor, hscan, hnext⟩ := Stream.scan_of_peek (hpeek.trans hraw)
      rw [hahead, Stream.rest_skip] at hnext
      refine .inl ⟨tok, { l with cursor, slot := some tok }, ?_, rfl, rfl, hnext⟩
      simp only [Lookahead.peek, hslot, Lookahead.scan, hscan]
    | error e =>
      have hscan := Stream.scan_of_peek_error (hpeek.trans hraw)
      refine .inr ⟨e, ?_, hslot, rfl, hahead⟩
      simp only [Lookahead.peek, hslot, Lookahead.scan, hscan]

theorem peek (h : HasTaken stream n l) : HasTaken stream n l.peek.2 := by
  obtain ⟨tok, reader, hpeek, hslot, hraw, hahead⟩ | ⟨e, hpeek, hslot, -, hahead⟩ := h.peek_cases
  · rw [hpeek]
    exact .full hslot hraw hahead
  · rw [hpeek]
    exact .empty hslot hahead

/-- Taking goes one token on.  An error is not passed, and behind any number of tokens it is still there. -/
theorem next (h : HasTaken stream n l) : HasTaken stream (n + 1) l.next.2 := by
  obtain ⟨tok, reader, hpeek, -, -, hahead⟩ | ⟨e, hpeek, hslot, hraw, hahead⟩ := h.peek_cases
  · rw [Lookahead.next, hpeek]
    exact .empty rfl hahead
  · rw [Lookahead.next, hpeek]
    exact .empty hslot (hahead.trans (Stream.skip_succ_of_error hraw).symm)

theorem reply (h : HasTaken stream n l) {call : Call} (hcall : call ≠ .scan) :
    HasTaken stream (n + [call].count .next) (l.reply call).2 := by
  cases call with
  | scan => exact absurd rfl hcall
  | peek => exact h.peek
  | next => exact h.next
  | current => exact h
  | remaining => exact h

theorem after (h : HasTaken stream n l) {calls : List Call} (hcalls : Call.scan ∉ calls) :
    HasTaken stream (n + calls.count .next) (l.after calls) := by
  induction calls generalizing l n with
  | nil => exact h
  | cons call calls ih =>
    have hcall : call ≠ .scan := fun heq => hcalls (heq ▸ List.mem_cons_self)
    have hlater := ih (h.reply hcall) fun hmem => hcalls (List.mem_cons_of_mem call hmem)
    rwa [Nat.add_assoc, ← List.count_append, List.singleton_append] at hlater

theorem unread (h : HasTaken stream n l) (hstream : stream.Scanned) : l.unread = stream.skip n := by
  cases h with
  | empty hslot hahead => rw [Lookahead.unread, hslot, hahead]
  | full hslot hraw hahead => rw [Lookahead.unread, hslot, hahead, Stream.skip_of_raw hstream hraw]

end HasTaken

/-- Behind calls that look and take, the remaining text is scanned without an error as the tokens that
were not taken, up to the error if one is among them; so scanning it again leaves the same text. -/
theorem remaining_rescans (filename src filename' : Text) (calls : List Call) (h : Call.scan ∉ calls) :
    let left := (Stream.ofSource filename src).tokens.drop (calls.count .next)
    let shown := ((ofSource filename src).after calls).remaining
    (Stream.ofSource filename' shown).tokens.map Token.unplaced = left.map Token.unplaced ∧
      (∃ tok, (Stream.ofSource filename' shown).ending = .eof tok) ∧
      (ofSource filename' shown).remaining = shown := by
  have hstream : (Stream.ofSource filename src).Scanned := Stream.scanned_ofSource filename src
  have hstart : HasTaken (Stream.ofSource filename src) 0 (ofSource filename src) := .empty rfl rfl
  have hunread : ((ofSource filename src).after calls).unread =
      (Stream.ofSource filename src).skip (calls.count .next) := by
    have hafter := (hstart.after h).unread hstream
    rwa [Nat.zero_add] at hafter
  obtain ⟨htokens, hending⟩ := (hstream.skip (calls.count .next)).rescan filename'
  intro left shown
  have hshown : shown = ((Stream.ofSource filename src).skip (calls.count .next)).remaining :=
    congrArg Stream.remaining hunread
  rw [hshown]
  exact ⟨htokens, hending, Stream.remaining_of_unplaced htokens⟩

/-- Signs next to each other, a number in front of a name, a comment and a keyword in mixed case, behind two
tokens taken and one looked at; the source ends in a character that starts no token. -/
theorem remaining_rescans_seams :
    let src := text "x:=12ab- -3-- gone\n+BeGin,:=#"
    let calls := [Call.peek, .next, .remaining, .next, .peek]
    let shown := ((ofSource [] src).after calls).remaining
    Call.scan ∉ calls ∧ shown = text "12 ab - - 3 + BeGin , :=" ∧
      (Stream.ofSource [] shown).tokens.map Token.unplaced =
        ((Stream.ofSource [] src).tokens.drop 2).map Token.unplaced ∧
      (∃ tok, (Stream.ofSource [] shown).ending = .eof tok) ∧ (ofSource [] shown).remaining = shown := by
  intro src calls shown
  have hcalls : Call.scan ∉ calls := by decide
  exact ⟨hcalls, by decide +kernel, remaining_rescans [] src [] calls hcalls⟩

end Lookahead

end MicroLang
