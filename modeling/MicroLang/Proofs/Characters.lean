import MicroLang.Proofs.Offsets

/-!
# Scanning character by character

A scanner that holds one character of its source and two positions, the one of that character and the one of the
next.  Behind the last character it holds a zero, which it tells from a zero in the source by a flag.  A token
is scanned by stepping on until the character does not belong to it any more; words and numbers are then cut out
of the source, and a cut that does not lie in the source gives no result.

While tokens are scanned the character and the positions are those of a location in the source, and each step
goes to the next location.  So every loop stops where the loop over locations stops, and every token is the one
that is scanned by offsets.  Behind a lexical error the scanner may stand anywhere: it does not go back.
-/

namespace MicroLang

/-- The character that a scanner stands on, and what it knows about its place. -/
structure Scanner where
  /-- The character, or zero behind the last one. -/
  ch : UInt8 := 0
  atEnd : Bool := false
  /-- The offset of the character behind this one. -/
  offset : Nat := 0
  pos : Position := {}
  nextPos : Position

namespace Scanner

variable (src : Text)

/-- Goes to the next character. -/
def advance (s : Scanner) : Scanner :=
  match src[s.offset]? with
  | none => { s with pos := s.nextPos, ch := 0, atEnd := true }
  | some b =>
    { s with
      pos := s.nextPos
      ch := b
      offset := s.offset + 1
      nextPos :=
        { s.nextPos with
          line := if b = 10 then s.nextPos.line + 1 else s.nextPos.line
          column := if b = 10 then 1 else s.nextPos.column + 1
          offset := (s.offset + 1 : Nat) } }

/-- The scanner on the first character of a source. -/
def ofSource (filename : Text) : Scanner :=
  advance src { nextPos := { filename, line := 1, column := 1 } }

/-- How often the scanner can step on. -/
def left (s : Scanner) : Nat := if s.atEnd then 0 else src.length - s.offset + 1

variable {src} {filename : Text} {s s' : Scanner} {p : Location} {test : UInt8 → Bool}

theorem left_advance_lt (h : s.atEnd = false) : (s.advance src).left src < s.left src := by
  unfold left advance
  rw [h]
  split
  · simp
  · next b hb =>
    have hlt := (List.getElem?_eq_some_iff.1 hb).1
    simp only [Bool.false_eq_true, if_false]
    omega

/-! ### Loops -/

/-- Steps on while the character passes a test. -/
def advanceWhile (src : Text) (test : UInt8 → Bool) (s : Scanner) : Scanner :=
  if h : s.atEnd = false ∧ test s.ch = true then advanceWhile src test (s.advance src) else s
termination_by s.left src
decreasing_by exact left_advance_lt h.1

theorem left_advanceWhile_le (src : Text) (test : UInt8 → Bool) (s : Scanner) :
    (s.advanceWhile src test).left src ≤ s.left src := by
  fun_induction advanceWhile src test s with
  | case1 s h ih => exact Nat.le_trans ih (Nat.le_of_lt (left_advance_lt h.1))
  | case2 => exact Nat.le_refl _

theorem left_advanceWhile_lt (hend : s.atEnd = false) (htest : test s.ch = true) :
    (s.advanceWhile src test).left src < s.left src := by
  rw [advanceWhile, dif_pos ⟨hend, htest⟩]
  exact Nat.lt_of_le_of_lt (left_advanceWhile_le src test _) (left_advance_lt hend)

/-- The byte behind the character, or zero if there is none. -/
def nextByte (src : Text) (s : Scanner) : UInt8 := src[s.offset]?.getD 0

/-- The character and the next byte start a comment. -/
def AtComment (src : Text) (s : Scanner) : Prop := s.ch = 45 ∧ s.atEnd = false ∧ s.nextByte src = 45

instance : Decidable (s.AtComment src) := inferInstanceAs (Decidable (_ ∧ _ ∧ _))

theorem left_comment_lt (h : (s.advanceWhile src isSpace).AtComment src) :
    ((s.advanceWhile src isSpace).advanceWhile src Location.inLine).left src < s.left src := by
  have htest : Location.inLine (s.advanceWhile src isSpace).ch = true := by
    rw [h.1]
    decide
  exact Nat.lt_of_lt_of_le (left_advanceWhile_lt h.2.1 htest) (left_advanceWhile_le src isSpace s)

/-- Steps over white space and comments. -/
def passGap (src : Text) (s : Scanner) : Scanner :=
  if h : (s.advanceWhile src isSpace).AtComment src then
    passGap src ((s.advanceWhile src isSpace).advanceWhile src Location.inLine)
  else s.advanceWhile src isSpace
termination_by s.left src
decreasing_by exact left_comment_lt h

theorem left_passGap_le (src : Text) (s : Scanner) : (s.passGap src).left src ≤ s.left src := by
  fun_induction passGap src s with
  | case1 s h ih => exact Nat.le_trans ih (Nat.le_of_lt (left_comment_lt h))
  | case2 s h => exact left_advanceWhile_le src isSpace s

/-! ### Tokens -/

/-- The offset behind the last character that was passed. -/
def endOffset (src : Text) (s : Scanner) : Nat := if s.atEnd then src.length else s.pos.offset.toNat

/-- The characters from a position up to the scanner, if they lie in the source. -/
def cut? (src : Text) (start : Position) (s : Scanner) : Option Text :=
  src.slice? start.offset.toNat (s.endOffset src)

/-- A token of one character. -/
def single (src : Text) (kind : Kind) (s : Scanner) : Except LexicalError Token × Scanner :=
  (.ok { kind, literal := [s.ch], pos := s.pos }, s.advance src)

/-- A token of two characters, of which the second is given. -/
def pair (src : Text) (second : UInt8) (kind : Kind) (s : Scanner) : Except LexicalError Token × Scanner :=
  let next := s.advance src
  if next.atEnd then (.error { pos := s.pos, fault := .unpaired s.ch second none }, next)
  else if next.ch ≠ second then
    (.error { pos := s.pos, fault := .unpaired s.ch second (some next.ch) }, next)
  else (.ok { kind, literal := [s.ch, second], pos := s.pos }, next.advance src)

/-- A word: a keyword, or an identifier unless it is too long. -/
def word? (src : Text) (s : Scanner) : Option (Except LexicalError Token × Scanner) := do
  let behind := s.advanceWhile src isWordByte
  let literal ← behind.cut? src s.pos
  let kind := Kind.ofWord literal
  if kind = .id && Token.maxIdentifierLength < literal.length then
    return (.error { pos := s.pos, fault := .overlong literal }, behind)
  else return (.ok { kind, literal, pos := s.pos }, behind)

def number? (src : Text) (s : Scanner) : Option (Except LexicalError Token × Scanner) := do
  let behind := s.advanceWhile src Text.isDigit
  let literal ← behind.cut? src s.pos
  return (.ok { kind := .intLiteral, literal, pos := s.pos }, behind)

/-- A mark, or the complaint that no token starts with the character. -/
def mark (src : Text) (s : Scanner) : Except LexicalError Token × Scanner :=
  if s.ch = 40 then s.single src .lParen
  else if s.ch = 41 then s.single src .rParen
  else if s.ch = 59 then s.single src .semiColon
  else if s.ch = 44 then s.single src .comma
  else if s.ch = 43 then s.single src .plusOp
  else if s.ch = 61 then s.single src .equalOp
  else if s.ch = 45 then s.single src .minusOp
  else if s.ch = 58 then s.pair src 61 .assignOp
  else if s.ch = 42 then s.pair src 42 .exponentOp
  else (.error { pos := s.pos, fault := .unexpected s.ch }, s)

/-- The token that starts with the character. -/
def lexeme? (src : Text) (s : Scanner) : Option (Except LexicalError Token × Scanner) :=
  if Text.isLetter s.ch then s.word? src
  else if Text.isDigit s.ch then s.number? src
  else some (s.mark src)

/-- The next token. -/
def token? (src : Text) (s : Scanner) : Option (Except LexicalError Token × Scanner) :=
  let here := s.passGap src
  if here.atEnd then some (.ok { kind := .eofSym, pos := here.pos }, here) else here.lexeme? src

theorem left_single_lt {kind : Kind} {tok : Token} (hend : s.atEnd = false)
    (h : s.single src kind = (.ok tok, s')) : s'.left src < s.left src := by
  cases h
  exact left_advance_lt hend

theorem left_pair_lt {second : UInt8} {kind : Kind} {tok : Token} (hend : s.atEnd = false)
    (h : s.pair src second kind = (.ok tok, s')) : s'.left src < s.left src := by
  unfold pair at h
  dsimp only at h
  split at h
  · cases h
  · next hnext =>
    split at h
    · cases h
    · cases h
      exact Nat.lt_trans (left_advance_lt (Bool.eq_false_iff.2 hnext)) (left_advance_lt hend)

theorem left_mark_lt {tok : Token} (hend : s.atEnd = false) (h : s.mark src = (.ok tok, s')) :
    s'.left src < s.left src := by
  unfold mark at h
  refine of_ite_eq (fun _ => left_single_lt hend) (fun _ => ?_) h
  refine of_ite_eq (fun _ => left_single_lt hend) fun _ => of_ite_eq (fun _ => left_single_lt hend) fun _ => ?_
  refine of_ite_eq (fun _ => left_single_lt hend) fun _ => of_ite_eq (fun _ => left_single_lt hend) fun _ => ?_
  refine of_ite_eq (fun _ => left_single_lt hend) fun _ => of_ite_eq (fun _ => left_single_lt hend) fun _ => ?_
  refine of_ite_eq (fun _ => left_pair_lt hend) fun _ => of_ite_eq (fun _ => left_pair_lt hend) fun _ h => ?_
  cases h

theorem left_lexeme?_lt {tok : Token} (hend : s.atEnd = false) (h : s.lexeme? src = some (.ok tok, s')) :
    s'.left src < s.left src := by
  unfold lexeme? at h
  split at h
  · next hletter =>
    obtain ⟨literal, -, hword⟩ := Option.bind_eq_some_iff.1 h
    dsimp only at hword
    split at hword
    · cases hword
    · cases hword
      exact left_advanceWhile_lt hend (isWordByte_of_isLetter hletter)
  · split at h
    · next hdigit =>
      obtain ⟨literal, -, hnumber⟩ := Option.bind_eq_some_iff.1 h
      cases hnumber
      exact left_advanceWhile_lt hend hdigit
    · exact left_mark_lt hend (Option.some.inj h)

/-- Behind every token but the last the scanner is nearer to the end. -/
theorem left_token?_lt {tok : Token} (h : s.token? src = some (.ok tok, s')) (hk : tok.kind ≠ .eofSym) :
    s'.left src < s.left src := by
  unfold token? at h
  dsimp only at h
  split at h
  · cases h
    exact absurd rfl hk
  · next hend => exact Nat.lt_of_lt_of_le (left_lexeme?_lt (Bool.eq_false_iff.2 hend) h) (left_passGap_le src s)

/-! ### Scanners at locations -/

/-- The scanner stands on the character at a location. -/
structure StandsAt (src filename : Text) (s : Scanner) (p : Location) : Prop where
  ch : src[p.offset]? = if s.atEnd then none else some s.ch
  offset : s.offset = (p.step src).offset
  pos : s.pos = p.position filename
  nextPos : s.nextPos = (p.step src).position filename
  within : p.offset ≤ src.length

/-- A scanner that is about to reach a location stands there when it has stepped on. -/
theorem standsAt_advance (hoffset : s.offset = p.offset) (hnext : s.nextPos = p.position filename)
    (hend : s.atEnd = true → src[p.offset]? = none) (hwithin : p.offset ≤ src.length) :
    (s.advance src).StandsAt src filename p := by
  unfold advance
  rw [hoffset]
  cases hb : src[p.offset]? with
  | none =>
    have hstep : p.step src = p := by rw [Location.step, hb]
    refine ⟨hb, ?_, hnext, ?_, hwithin⟩
    · rw [hstep]
    · rw [hstep]
      exact hnext
  | some b =>
    have hinside : s.atEnd = false := by
      refine Bool.eq_false_iff.2 fun htrue => ?_
      cases hb.symm.trans (hend htrue)
    refine ⟨?_, (Location.offset_step hb).symm, hnext, ?_, hwithin⟩
    · rw [hb, hinside]
      rfl
    · rw [hnext, Location.step, hb]
      dsimp only
      split
      · rfl
      · rfl

theorem standsAt_ofSource (src filename : Text) : (ofSource src filename).StandsAt src filename {} :=
  standsAt_advance rfl rfl (fun hend => absurd hend Bool.false_ne_true) (Nat.zero_le _)

namespace StandsAt

variable (h : s.StandsAt src filename p)

include h

theorem byte (hend : s.atEnd = false) : src[p.offset]? = some s.ch := by
  rw [h.ch, hend]
  rfl

theorem byte_atEnd (hend : s.atEnd = true) : src[p.offset]? = none := by
  rw [h.ch, hend]
  rfl

/-- Stepping on goes to the next location. -/
theorem advance : (s.advance src).StandsAt src filename (p.step src) := by
  cases hend : s.atEnd with
  | false =>
    refine standsAt_advance h.offset h.nextPos (fun htrue => absurd htrue (Bool.eq_false_iff.1 hend)) ?_
    rw [Location.offset_step (h.byte hend)]
    exact (List.getElem?_eq_some_iff.1 (h.byte hend)).1
  | true =>
    have hstep : p.step src = p := by rw [Location.step, h.byte_atEnd hend]
    have hoffset := h.offset
    have hnext := h.nextPos
    rw [hstep] at hoffset hnext ⊢
    exact standsAt_advance hoffset hnext (fun _ => h.byte_atEnd hend) h.within

theorem advanceWhile (test : UInt8 → Bool) :
    (s.advanceWhile src test).StandsAt src filename (p.passWhile src test) := by
  fun_induction Scanner.advanceWhile src test s generalizing p with
  | case1 s hpass ih =>
    rw [Location.passWhile_of_pass (h.byte hpass.1) hpass.2]
    exact ih h.advance
  | case2 s hstop =>
    rw [Location.passWhile_of_stop]
    · exact h
    · intro b hb htest
      cases hend : s.atEnd with
      | false =>
        cases (h.byte hend).symm.trans hb
        exact hstop ⟨hend, htest⟩
      | true => cases (h.byte_atEnd hend).symm.trans hb

theorem atComment_iff : s.AtComment src ↔ p.AtComment src := by
  cases hend : s.atEnd with
  | true =>
    refine iff_of_false (fun hs => ?_) fun hp => ?_
    · cases hend.symm.trans hs.2.1
    · cases (h.byte_atEnd hend).symm.trans hp.1
  | false =>
    have hb := h.byte hend
    have hnext : s.nextByte src = 45 ↔ src[p.offset + 1]? = some 45 := by
      rw [nextByte, h.offset, Location.offset_step hb]
      cases src[p.offset + 1]? with
      | none => decide
      | some c => exact Option.some_inj.symm
    rw [Scanner.AtComment, Location.AtComment, hb, hnext, Option.some_inj]
    exact ⟨fun hs => ⟨hs.1, hs.2.2⟩, fun hp => ⟨hp.1, hend, hp.2⟩⟩

theorem passGap : (s.passGap src).StandsAt src filename (p.passGap src) := by
  fun_induction Scanner.passGap src s generalizing p with
  | case1 s hcomment ih =>
    rw [Location.passGap, dif_pos ((h.advanceWhile isSpace).atComment_iff.1 hcomment)]
    exact ih ((h.advanceWhile isSpace).advanceWhile Location.inLine)
  | case2 s hcomment =>
    rw [Location.passGap, dif_neg fun hp => hcomment ((h.advanceWhile isSpace).atComment_iff.2 hp)]
    exact h.advanceWhile isSpace

theorem endOffset_eq : s.endOffset src = p.offset := by
  unfold endOffset
  split
  · next hend => exact Nat.le_antisymm (List.getElem?_eq_none_iff.1 (h.byte_atEnd hend)) h.within
  · rw [h.pos]
    exact Int.toNat_natCast p.offset

/-- What is cut out behind a loop is the slice between the two locations. -/
theorem cut?_advanceWhile (test : UInt8 → Bool) : (s.advanceWhile src test).cut? src s.pos =
    src.slice? p.offset (p.passWhile src test).offset := by
  rw [cut?, (h.advanceWhile test).endOffset_eq, h.pos]
  congr 1

end StandsAt

/-! ### Tokens at locations -/

/-- A lexeme that starts at a location, and what a scanner says that stands there.  Behind an error the scanner
stands anywhere. -/
inductive Agrees (src filename : Text) (p : Location) :
    Except Fault (Kind × Text) → Except LexicalError Token × Scanner → Prop where
  | ok (kind : Kind) (literal : Text) {s : Scanner} (h : s.StandsAt src filename (p.skip src literal.length)) :
      Agrees src filename p (.ok (kind, literal)) (.ok { kind, literal, pos := p.position filename }, s)
  | error (fault : Fault) (s : Scanner) :
      Agrees src filename p (.error fault) (.error { pos := p.position filename, fault }, s)

theorem agrees_ite {c : Prop} [Decidable c] {found found' : Except Fault (Kind × Text)}
    {r r' : Except LexicalError Token × Scanner} (hpos : Agrees src filename p found r)
    (hneg : ¬c → Agrees src filename p found' r') :
    Agrees src filename p (if c then found else found') (if c then r else r') := by
  by_cases hc : c
  · rw [if_pos hc, if_pos hc]
    exact hpos
  · rw [if_neg hc, if_neg hc]
    exact hneg hc

/-- A token from a location on with the location behind it, and what a scanner says that stands there. -/
inductive Reaches (src filename : Text) :
    Except LexicalError (Token × Location) → Except LexicalError Token × Scanner → Prop where
  | ok {tok : Token} {p : Location} {s : Scanner} (h : s.StandsAt src filename p) :
      Reaches src filename (.ok (tok, p)) (.ok tok, s)
  | error (e : LexicalError) (s : Scanner) : Reaches src filename (.error e) (.error e, s)

namespace StandsAt

variable (h : s.StandsAt src filename p)

include h

theorem single (kind : Kind) : Agrees src filename p (.ok (kind, [s.ch])) (s.single src kind) := by
  rw [Scanner.single, h.pos]
  exact .ok kind [s.ch] h.advance

theorem pair (hend : s.atEnd = false) (second : UInt8) (kind : Kind) :
    Agrees src filename p (MicroLang.pair s.ch second kind src[p.offset + 1]?.toList)
      (s.pair src second kind) := by
  have hnext := h.advance.ch
  rw [Location.offset_step (h.byte hend)] at hnext
  unfold Scanner.pair
  rw [hnext, h.pos]
  dsimp only
  split
  · exact .error _ _
  · show Agrees src filename p (if (s.advance src).ch = second then _ else _) _
    by_cases hsecond : (s.advance src).ch = second
    · rw [if_pos hsecond, if_neg fun hne => hne hsecond]
      exact .ok kind [s.ch, second] h.advance.advance
    · rw [if_neg hsecond, if_pos hsecond]
      exact .error _ _

theorem mark (hend : s.atEnd = false) (hletter : ¬Text.isLetter s.ch = true) (hdigit : ¬Text.isDigit s.ch = true) :
    Agrees src filename p (lexeme s.ch src[p.offset + 1]?.toList) (s.mark src) := by
  unfold lexeme Scanner.mark
  rw [if_neg hletter, if_neg hdigit]
  refine agrees_ite (h.single _) fun _ => agrees_ite (h.single _) fun _ => agrees_ite (h.single _) fun _ => ?_
  refine agrees_ite (h.single _) fun _ => agrees_ite (h.single _) fun _ => agrees_ite (h.single _) fun _ => ?_
  refine agrees_ite (h.single _) fun _ => agrees_ite (h.pair hend 61 _) fun _ => ?_
  refine agrees_ite (h.pair hend 42 _) fun _ => ?_
  rw [h.pos]
  exact .error _ s

/-- The lexeme at a location is found, and the scanner says it. -/
theorem exists_lexeme (hend : s.atEnd = false) : ∃ found r, p.lexeme? src s.ch = some found ∧
    s.lexeme? src = some r ∧ Agrees src filename p found r := by
  have hb := h.byte hend
  unfold Location.lexeme? Scanner.lexeme?
  by_cases hletter : Text.isLetter s.ch = true
  · obtain ⟨word, hslice, hbehind⟩ := Location.exists_run hb (isWordByte_of_isLetter hletter)
    have hstands := h.advanceWhile isWordByte
    rw [hbehind] at hstands
    rw [if_pos hletter, if_pos hletter, word?, h.cut?_advanceWhile, hslice, h.pos]
    by_cases hlong : (Kind.ofWord word = .id && Token.maxIdentifierLength < word.length) = true
    · exact ⟨_, _, if_pos hlong, if_pos hlong, .error _ _⟩
    · exact ⟨_, _, if_neg hlong, if_neg hlong, .ok _ word hstands⟩
  · rw [if_neg hletter, if_neg hletter]
    by_cases hdigit : Text.isDigit s.ch = true
    · obtain ⟨number, hslice, hbehind⟩ := Location.exists_run hb hdigit
      have hstands := h.advanceWhile Text.isDigit
      rw [hbehind] at hstands
      rw [if_pos hdigit, if_pos hdigit, number?, h.cut?_advanceWhile, hslice, h.pos]
      exact ⟨_, _, rfl, rfl, .ok _ number hstands⟩
    · rw [if_neg hdigit, if_neg hdigit]
      exact ⟨_, _, rfl, rfl, h.mark hend hletter hdigit⟩

/-- The next token from a location on is found, and the scanner says it. -/
theorem exists_token : ∃ found r, p.scan? src filename = some found ∧ s.token? src = some r ∧
    Reaches src filename found r := by
  have hhere := h.passGap
  unfold Location.scan? token?
  dsimp only
  cases hend : (s.passGap src).atEnd with
  | true =>
    rw [hhere.byte_atEnd hend, if_pos rfl, hhere.pos]
    exact ⟨_, _, rfl, rfl, .ok hhere⟩
  | false =>
    obtain ⟨found, r, hfound, hr, hagrees⟩ := hhere.exists_lexeme hend
    rw [hhere.byte hend, if_neg Bool.false_ne_true]
    dsimp only
    rw [hfound, hr]
    cases hagrees with
    | ok kind literal hstands => exact ⟨_, _, rfl, rfl, .ok hstands⟩
    | error fault s' => exact ⟨_, _, rfl, rfl, .error _ s'⟩

end StandsAt

end Scanner

end MicroLang
