import MicroLang.Token

/-!
# Scanning

A cursor stands in front of the bytes that are still to be read and knows its line, column and offset.
Scanning a token passes the gap in front of it, which consists of white space and of comments from
`--` to the end of the line, and then takes the longest lexeme that starts there.  Where no lexeme
starts, scanning fails with a fault at that place, and the cursor stays where it was, so that a second
attempt fails in the same way.
-/

namespace MicroLang

/-- A place in a source together with the bytes from there on. -/
structure Cursor where
  line : Nat := 1
  column : Nat := 1
  offset : Nat := 0
  rest : Text
deriving DecidableEq, Repr

namespace Cursor

/-- The cursor one byte further; a newline starts a new line behind it. -/
def step (c : Cursor) : Cursor :=
  match c.rest with
  | [] => c
  | b :: t =>
    if b = 10 then { line := c.line + 1, column := 1, offset := c.offset + 1, rest := t }
    else { c with column := c.column + 1, offset := c.offset + 1, rest := t }

/-- The cursor `n` bytes further. -/
def skip : Nat → Cursor → Cursor
  | 0, c => c
  | n + 1, c => skip n c.step

def position (filename : Text) (c : Cursor) : Position :=
  { filename, line := c.line, column := c.column, offset := c.offset }

theorem rest_step (c : Cursor) : c.step.rest = c.rest.drop 1 := by
  unfold step
  split
  · next h => simp only [h, List.drop_nil]
  · next h => split <;> simp only [h, List.drop_one, List.tail_cons]

@[simp] theorem rest_skip (n : Nat) (c : Cursor) : (c.skip n).rest = c.rest.drop n := by
  induction n generalizing c with
  | zero => simp only [skip, List.drop_zero]
  | succ n ih => rw [skip, ih, rest_step, List.drop_drop, Nat.add_comm]

theorem skip_add (m n : Nat) (c : Cursor) : c.skip (m + n) = (c.skip m).skip n := by
  induction m generalizing c with
  | zero => simp only [skip, Nat.zero_add]
  | succ m ih => rw [Nat.succ_add, skip, ih, skip]

end Cursor

/-- Why no lexeme starts at a place. -/
inductive Fault where
  /-- The byte starts no token. -/
  | unexpected (b : UInt8)
  /-- The first byte of a two-byte token is not followed by its second. -/
  | unpaired (first second : UInt8) (found : Option UInt8)
  /-- The identifier is longer than the language allows. -/
  | overlong (word : Text)
deriving DecidableEq, Repr

namespace Fault

/-- The character whose number is the value of the byte. -/
def shown (b : UInt8) : Text := Text.ofChar (Char.ofNat b.toNat)

def message : Fault → Text
  | .unexpected b =>
    text "Read unexpected character '" ++ shown b ++ text "' (ASCII decimal "
      ++ Text.ofNat b.toNat ++ text ")."
  | .unpaired first second found =>
    text "Expected '" ++ shown second ++ text "' after '" ++ shown first ++ text "'. Instead found "
      ++ (match found with
        | none => text "end of input."
        | some b => text "'" ++ shown b ++ text "'.")
  | .overlong word =>
    text "Invalid length of " ++ Text.ofNat word.length ++ text " characters for identifier '"
      ++ word ++ text "'. Identifiers can be at most " ++ Text.ofNat Token.maxIdentifierLength
      ++ text " characters."

end Fault

/-- A fault and the place where the scan stopped. -/
structure LexicalError where
  pos : Position
  fault : Fault
deriving DecidableEq, Repr

namespace LexicalError

def message (e : LexicalError) : Text := e.fault.message

/-- Display as `position: error: message`. -/
def text (e : LexicalError) : Text := e.pos.text ++ MicroLang.text ": error: " ++ e.message

end LexicalError

/-! ### Gaps and lexemes -/

/-- The white space of the language: blank, tab, newline, vertical tab, form feed, return. -/
def isSpace (b : UInt8) : Bool := b == 32 || (9 ≤ b && b ≤ 13)

/-- The bytes that continue a word. -/
def isWordByte (b : UInt8) : Bool := Text.isLetter b || Text.isDigit b || b == 95

/-- The length of the gap that a text starts with.  Inside a comment every byte up to the newline
belongs to it. -/
def gap (inComment : Bool) : Text → Nat
  | [] => 0
  | b :: t =>
    if inComment then 1 + gap (b != 10) t
    else if isSpace b then 1 + gap false t
    else if b = 45 && t.head? = some 45 then 1 + gap true t
    else 0

/-- A token of two bytes, of which the first has been read. -/
def pair (first second : UInt8) (kind : Kind) (t : Text) : Except Fault (Kind × Text) :=
  match t with
  | [] => .error (.unpaired first second none)
  | b :: _ => if b = second then .ok (kind, [first, second]) else .error (.unpaired first second (some b))

/-- The lexeme that starts with the byte `b` in front of `t`: its kind and its text. -/
def lexeme (b : UInt8) (t : Text) : Except Fault (Kind × Text) :=
  if Text.isLetter b then
    let word := b :: t.takeWhile isWordByte
    let kind := Kind.ofWord word
    if kind = .id && Token.maxIdentifierLength < word.length then .error (.overlong word)
    else .ok (kind, word)
  else if Text.isDigit b then .ok (.intLiteral, b :: t.takeWhile Text.isDigit)
  else if b = 40 then .ok (.lParen, [b])
  else if b = 41 then .ok (.rParen, [b])
  else if b = 59 then .ok (.semiColon, [b])
  else if b = 44 then .ok (.comma, [b])
  else if b = 43 then .ok (.plusOp, [b])
  else if b = 61 then .ok (.equalOp, [b])
  else if b = 45 then .ok (.minusOp, [b])
  else if b = 58 then pair b 61 .assignOp t
  else if b = 42 then pair b 42 .exponentOp t
  else .error (.unexpected b)

/-- A case distinction has its result from one of its two branches. -/
theorem of_ite_eq {α : Type} {c : Prop} [Decidable c] {x y r : α} {P : Prop} (hx : c → x = r → P)
    (hy : ¬c → y = r → P) (h : (if c then x else y) = r) : P := by
  by_cases hc : c
  · rw [if_pos hc] at h
    exact hx hc h
  · rw [if_neg hc] at h
    exact hy hc h

/-- A pair is read as its two bytes. -/
theorem pair_eq_ok {first second : UInt8} {k kind : Kind} {t literal : Text}
    (h : pair first second k t = .ok (kind, literal)) :
    kind = k ∧ literal = [first, second] ∧ ∃ u, t = second :: u := by
  cases t with
  | nil => cases h
  | cons b u =>
    refine of_ite_eq (fun hb h => ?_) (fun _ h => ?_) h
    · cases h
      exact ⟨rfl, rfl, u, by rw [hb]⟩
    · cases h

/-- The text of a lexeme starts with the byte that it was read from. -/
theorem lexeme_ok_ne_nil {b : UInt8} {t : Text} {kind : Kind} {literal : Text}
    (h : lexeme b t = .ok (kind, literal)) : 0 < literal.length := by
  have hsome : ∀ {k : Kind} {u : Text},
      (Except.ok (k, b :: u) : Except Fault (Kind × Text)) = .ok (kind, literal) → 0 < literal.length := by
    intro k u h
    cases h
    exact Nat.zero_lt_succ _
  have hpair : ∀ {second : UInt8} {k : Kind}, pair b second k t = .ok (kind, literal) →
      0 < literal.length := by
    intro second k h
    rw [(pair_eq_ok h).2.1]
    exact Nat.zero_lt_succ _
  unfold lexeme at h
  refine of_ite_eq (fun _ => of_ite_eq (fun _ h => by cases h) fun _ => hsome) (fun _ => ?_) h
  refine of_ite_eq (fun _ => hsome) fun _ => ?_
  -- what is left is a chain of comparisons with the first bytes of the marks
  refine of_ite_eq (fun _ => hsome) fun _ => of_ite_eq (fun _ => hsome) fun _ => ?_
  refine of_ite_eq (fun _ => hsome) fun _ => of_ite_eq (fun _ => hsome) fun _ => ?_
  refine of_ite_eq (fun _ => hsome) fun _ => of_ite_eq (fun _ => hsome) fun _ => ?_
  refine of_ite_eq (fun _ => hsome) fun _ => of_ite_eq (fun _ => hpair) fun _ => ?_
  exact of_ite_eq (fun _ => hpair) fun _ h => by cases h

/-! ### The next token -/

/-- The next token and the cursor behind it.  At the end of the source this is `eofSym`, again and
again. -/
def Cursor.scan (filename : Text) (c : Cursor) : Except LexicalError (Token × Cursor) :=
  let here := c.skip (gap false c.rest)
  let pos := here.position filename
  match here.rest with
  | [] => .ok ({ kind := .eofSym, pos }, here)
  | b :: t =>
    match lexeme b t with
    | .error fault => .error { pos, fault }
    | .ok (kind, literal) => .ok ({ kind, literal, pos }, here.skip literal.length)

/-- Every token but the last takes at least one byte. -/
theorem Cursor.length_rest_lt_of_scan {filename : Text} {c next : Cursor} {tok : Token}
    (h : c.scan filename = .ok (tok, next)) (hk : tok.kind ≠ .eofSym) :
    next.rest.length < c.rest.length := by
  unfold Cursor.scan at h
  dsimp only at h
  split at h
  · cases h
    exact absurd rfl hk
  · next b t hrest =>
    split at h
    · cases h
    · next kind literal hlex =>
      cases h
      have hpos := lexeme_ok_ne_nil hlex
      have hlen : (b :: t).length ≤ c.rest.length := by
        rw [← hrest, rest_skip, List.length_drop]
        omega
      rw [rest_skip, hrest, List.length_drop]
      simp only [List.length_cons] at *
      omega

end MicroLang
