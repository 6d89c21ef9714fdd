import MicroLang.Token.Scan

/-!
# Token streams

Scanning a source to its end gives finitely many tokens and an ending: the `eofSym` token, which is
delivered for as long as anyone asks, or a lexical error, which is repeated in the same way.
-/

namespace MicroLang

/-- What comes after the last proper token. -/
inductive Ending where
  | eof (tok : Token)
  | fault (e : LexicalError)
deriving DecidableEq, Repr

/-- The tokens still to be read and what comes after them. -/
structure Stream where
  tokens : List Token
  ending : Ending
deriving DecidableEq, Repr

namespace Stream

def cons (tok : Token) (s : Stream) : Stream := { s with tokens := tok :: s.tokens }

/-- The stream from a cursor on. -/
def ofCursor (filename : Text) (c : Cursor) : Stream :=
  match h : c.scan filename with
  | .error e => ⟨[], .fault e⟩
  | .ok (tok, next) =>
    if hk : tok.kind = .eofSym then ⟨[], .eof tok⟩
    else cons tok (ofCursor filename next)
termination_by c.rest.length
decreasing_by exact Cursor.length_rest_lt_of_scan h hk

/-- The stream of a whole source. -/
def ofSource (filename src : Text) : Stream := ofCursor filename { rest := src }

/-- The next token, which stays in the stream. -/
def peek (s : Stream) : Except LexicalError Token :=
  match s.tokens, s.ending with
  | tok :: _, _ => .ok tok
  | [], .eof tok => .ok tok
  | [], .fault e => .error e

/-- The stream without its next token; an ending stays. -/
def rest (s : Stream) : Stream := { s with tokens := s.tokens.tail }

/-- The texts of the tokens still to be read, with one blank between them. -/
def remaining (s : Stream) : Text := [32].intercalate (s.tokens.map Token.literal)

/-- The error the stream ends in, if it does. -/
def fault? (s : Stream) : Option LexicalError :=
  match s.ending with
  | .eof _ => none
  | .fault e => some e

theorem ofCursor_of_error {filename : Text} {c : Cursor} {e : LexicalError}
    (h : c.scan filename = .error e) : ofCursor filename c = ⟨[], .fault e⟩ := by
  rw [ofCursor]
  split
  · next h' => cases h.symm.trans h'; rfl
  · next h' => cases h.symm.trans h'

theorem ofCursor_of_eof {filename : Text} {c next : Cursor} {tok : Token}
    (h : c.scan filename = .ok (tok, next)) (hk : tok.kind = .eofSym) :
    ofCursor filename c = ⟨[], .eof tok⟩ := by
  rw [ofCursor]
  split
  · next h' => cases h.symm.trans h'
  · next h' =>
    cases h.symm.trans h'
    rw [dif_pos hk]

theorem ofCursor_of_token {filename : Text} {c next : Cursor} {tok : Token}
    (h : c.scan filename = .ok (tok, next)) (hk : tok.kind ≠ .eofSym) :
    ofCursor filename c = cons tok (ofCursor filename next) := by
  rw [ofCursor]
  split
  · next h' => cases h.symm.trans h'
  · next h' =>
    cases h.symm.trans h'
    rw [dif_neg hk]

end Stream

end MicroLang
