import MicroLang.Proofs.Tokenization

/-!
# Scanning by offsets

A scanner that keeps the whole source and knows only how far it has come.  It goes on byte by byte while a
test holds, and it cuts words and numbers out of the source, from the offset where they start to the offset
where it stands.  A slice whose ends do not lie in the source in this order does not exist.

All loops end because the offset grows and stays within the source: the loop over bytes directly, the loop over
white space and comments because a comment has at least its two minus signs, and the loop over tokens because
every token but the last takes a byte.  From every location the scanner has a result, and it is the one that
scanning the remaining bytes gives, so no slice fails.
-/

namespace MicroLang

/-- The bytes of a text from an offset up to another, if both lie in the text in this order. -/
def Text.slice? (t : Text) (start stop : Nat) : Option Text :=
  if start ≤ stop ∧ stop ≤ t.length then some ((t.drop start).take (stop - start)) else none

theorem Text.slice?_add {t : Text} {start n : Nat} (h : start + n ≤ t.length) :
    t.slice? start (start + n) = some ((t.drop start).take n) := by
  rw [slice?, if_pos ⟨Nat.le_add_right start n, h⟩, Nat.add_sub_cancel_left]

/-- A place in a source. -/
structure Location where
  line : Nat := 1
  column : Nat := 1
  offset : Nat := 0

namespace Location

variable (src : Text)

def position (filename : Text) (p : Location) : Position :=
  { filename, line := p.line, column := p.column, offset := p.offset }

/-- The location one byte further; a newline starts a new line behind it. -/
def step (p : Location) : Location :=
  match src[p.offset]? with
  | none => p
  | some b =>
    if b = 10 then { line := p.line + 1, column := 1, offset := p.offset + 1 }
    else { p with column := p.column + 1, offset := p.offset + 1 }

/-- The location `n` bytes further. -/
def skip : Nat → Location → Location
  | 0, p => p
  | n + 1, p => skip n (p.step src)

variable {src} {p : Location} {b : UInt8} {t : Text}

/-- The cursor at a location. -/
def cursor (src : Text) (p : Location) : Cursor :=
  { line := p.line, column := p.column, offset := p.offset, rest := src.drop p.offset }

theorem getElem?_of_drop_nil {i : Nat} (h : src.drop i = []) : src[i]? = none := by
  rw [← List.head?_drop, h, List.head?_nil]

theorem getElem?_of_drop_cons {i : Nat} (h : src.drop i = b :: t) : src[i]? = some b := by
  rw [← List.head?_drop, h, List.head?_cons]

theorem drop_of_drop_cons {i : Nat} (h : src.drop i = b :: t) : src.drop (i + 1) = t := by
  rw [← List.drop_drop, h, List.drop_one, List.tail_cons]

theorem drop_eq_cons {i : Nat} (h : src[i]? = some b) : src.drop i = b :: src.drop (i + 1) := by
  obtain ⟨hlt, hb⟩ := List.getElem?_eq_some_iff.1 h
  rw [List.drop_eq_getElem_cons hlt, hb]

theorem cursor_step (src : Text) (p : Location) : (p.step src).cursor src = (p.cursor src).step := by
  cases hdrop : src.drop p.offset with
  | nil => simp only [step, cursor, Cursor.step, getElem?_of_drop_nil hdrop, hdrop]
  | cons b t =>
    simp only [step, cursor, Cursor.step, getElem?_of_drop_cons hdrop, hdrop]
    by_cases hb : b = 10
    · simp only [if_pos hb, drop_of_drop_cons hdrop]
    · simp only [if_neg hb, drop_of_drop_cons hdrop]

theorem cursor_skip (src : Text) (n : Nat) (p : Location) :
    (p.skip src n).cursor src = (p.cursor src).skip n := by
  induction n generalizing p with
  | zero => rfl
  | succ n ih => rw [skip, Cursor.skip, ih, cursor_step]

theorem skip_add (src : Text) (m n : Nat) (p : Location) :
    p.skip src (m + n) = (p.skip src m).skip src n := by
  induction m generalizing p with
  | zero => rw [Nat.zero_add, skip]
  | succ m ih => rw [Nat.succ_add, skip, ih, skip]

theorem offset_step (h : src[p.offset]? = some b) : (p.step src).offset = p.offset + 1 := by
  rw [step, h]
  dsimp only
  split
  · rfl
  · rfl

theorem drop_offset_skip (src : Text) (n : Nat) (p : Location) :
    src.drop (p.skip src n).offset = (src.drop p.offset).drop n := by
  have hrest := congrArg Cursor.rest (cursor_skip src n p)
  rwa [Cursor.rest_skip] at hrest

theorem offset_skip {n : Nat} (h : n ≤ (src.drop p.offset).length) :
    (p.skip src n).offset = p.offset + n := by
  induction n generalizing p with
  | zero => rfl
  | succ n ih =>
    cases hdrop : src.drop p.offset with
    | nil =>
      rw [hdrop] at h
      exact absurd h (Nat.not_succ_le_zero n)
    | cons b t =>
      have hoffset := offset_step (getElem?_of_drop_cons hdrop)
      have hle : n ≤ (src.drop (p.step src).offset).length := by
        rw [hdrop, List.length_cons] at h
        rw [hoffset, drop_of_drop_cons hdrop]
        omega
      rw [skip, ih hle, hoffset]
      omega

/-! ### Loops -/

/-- The first location from here on where the source ends or its byte fails a test. -/
def passWhile (src : Text) (test : UInt8 → Bool) (p : Location) : Location :=
  match h : src[p.offset]? with
  | none => p
  | some b => if test b then passWhile src test (p.step src) else p
termination_by src.length - p.offset
decreasing_by
  have hlt := (List.getElem?_eq_some_iff.1 h).1
  rw [offset_step h]
  omega

theorem passWhile_of_pass {test : UInt8 → Bool} (hb : src[p.offset]? = some b) (htest : test b = true) :
    p.passWhile src test = (p.step src).passWhile src test := by
  rw [passWhile]
  split
  · next h => cases hb.symm.trans h
  · next h =>
    cases hb.symm.trans h
    exact if_pos htest

theorem passWhile_of_stop {test : UInt8 → Bool} (h : ∀ b ∈ src[p.offset]?, ¬test b = true) :
    p.passWhile src test = p := by
  rw [passWhile]
  split
  · rfl
  · next b hb => exact if_neg (h b hb)

/-- The loop over bytes stops behind the longest run of bytes that pass the test. -/
theorem passWhile_eq (src : Text) (test : UInt8 → Bool) (p : Location) :
    p.passWhile src test = p.skip src ((src.drop p.offset).takeWhile test).length := by
  generalize hdrop : src.drop p.offset = rest
  induction rest generalizing p with
  | nil =>
    refine passWhile_of_stop fun b hb => ?_
    cases (getElem?_of_drop_nil hdrop).symm.trans hb
  | cons b t ih =>
    have hb := getElem?_of_drop_cons hdrop
    have hstep : src.drop (p.step src).offset = t := by rw [offset_step hb, drop_of_drop_cons hdrop]
    by_cases htest : test b = true
    · rw [passWhile_of_pass hb htest, ih _ hstep, List.takeWhile_cons_of_pos htest]
      rfl
    · rw [List.takeWhile_cons_of_neg htest]
      refine passWhile_of_stop fun c hc => ?_
      cases hb.symm.trans hc
      exact htest

theorem drop_length_takeWhile (test : UInt8 → Bool) (t : Text) :
    t.drop (t.takeWhile test).length = t.dropWhile test := by
  conv => lhs; arg 2; rw [← List.takeWhile_append_dropWhile (p := test) (l := t)]
  exact List.drop_left

theorem drop_passWhile (src : Text) (test : UInt8 → Bool) (p : Location) :
    src.drop (p.passWhile src test).offset = (src.drop p.offset).dropWhile test := by
  rw [passWhile_eq, drop_offset_skip, drop_length_takeWhile]

/-- The byte does not end its line. -/
def inLine (b : UInt8) : Bool := b != 10

/-- At the location a comment starts. -/
def AtComment (src : Text) (p : Location) : Prop := src[p.offset]? = some 45 ∧ src[p.offset + 1]? = some 45

instance (p : Location) : Decidable (p.AtComment src) := inferInstanceAs (Decidable (_ ∧ _))

theorem AtComment.drop_eq (h : p.AtComment src) :
    src.drop p.offset = 45 :: 45 :: src.drop (p.offset + 1 + 1) := by
  rw [drop_eq_cons h.1, drop_eq_cons h.2]

/-- Behind white space and a comment less is left of the source. -/
theorem length_drop_comment_lt (h : (p.passWhile src isSpace).AtComment src) :
    (src.drop ((p.passWhile src isSpace).passWhile src inLine).offset).length < (src.drop p.offset).length := by
  have hspace := (List.dropWhile_sublist (l := src.drop p.offset) isSpace).length_le
  have hline := (List.dropWhile_sublist
    (l := src.drop ((p.passWhile src isSpace).offset + 1 + 1)) inLine).length_le
  rw [← drop_passWhile, h.drop_eq, List.length_cons, List.length_cons] at hspace
  rw [drop_passWhile, h.drop_eq, List.dropWhile_cons_of_pos (by decide), List.dropWhile_cons_of_pos (by decide)]
  omega

/-- The location behind white space and comments.  A comment ends in front of its newline. -/
def passGap (src : Text) (p : Location) : Location :=
  if h : (p.passWhile src isSpace).AtComment src then
    passGap src ((p.passWhile src isSpace).passWhile src inLine)
  else p.passWhile src isSpace
termination_by (src.drop p.offset).length
decreasing_by exact length_drop_comment_lt h

/-- White space at the start of a gap can be passed first. -/
theorem gap_eq_takeWhile (t : Text) :
    gap false t = (t.takeWhile isSpace).length + gap false (t.dropWhile isSpace) := by
  induction t with
  | nil => rfl
  | cons b t ih =>
    by_cases hb : isSpace b = true
    · rw [gap_space hb, List.takeWhile_cons_of_pos hb, List.dropWhile_cons_of_pos hb, List.length_cons, ih]
      omega
    · rw [List.takeWhile_cons_of_neg hb, List.dropWhile_cons_of_neg hb, List.length_nil, Nat.zero_add]

/-- A comment can be passed up to its newline, which is white space. -/
theorem gap_true_eq_takeWhile (t : Text) :
    gap true t = (t.takeWhile inLine).length + gap false (t.dropWhile inLine) := by
  induction t with
  | nil => rfl
  | cons b t ih =>
    by_cases hb : inLine b = true
    · have hne : (b != 10) = true := hb
      rw [gap, if_pos rfl, hne, List.takeWhile_cons_of_pos hb, List.dropWhile_cons_of_pos hb, List.length_cons,
        ih]
      omega
    · rw [List.takeWhile_cons_of_neg hb, List.dropWhile_cons_of_neg hb, List.length_nil, Nat.zero_add]
      have hnewline : b = 10 := by simpa [inLine] using hb
      subst hnewline
      rfl

/-- A comment that a gap starts with can be passed first. -/
theorem gap_minus_eq_takeWhile (t : Text) :
    gap false (45 :: 45 :: t) =
      ((45 :: 45 :: t).takeWhile inLine).length + gap false ((45 :: 45 :: t).dropWhile inLine) := by
  rw [gap_minus, gap_true_eq_takeWhile, List.takeWhile_cons_of_pos (by decide),
    List.takeWhile_cons_of_pos (by decide), List.dropWhile_cons_of_pos (by decide),
    List.dropWhile_cons_of_pos (by decide), List.length_cons, List.length_cons]
  omega

/-- A text that starts with neither white space nor a comment starts with no gap. -/
theorem gap_eq_zero {t : Text} (hspace : ∀ b ∈ t.head?, isSpace b = false)
    (hcomment : ¬(t[0]? = some 45 ∧ t[1]? = some 45)) : gap false t = 0 := by
  cases t with
  | nil => rfl
  | cons b u =>
    rw [gap, if_neg Bool.false_ne_true, hspace b rfl, if_neg Bool.false_ne_true, if_neg]
    simpa [List.head?_eq_getElem?] using hcomment

/-- The loop over white space and comments stops behind the gap. -/
theorem passGap_eq (src : Text) (p : Location) :
    p.passGap src = p.skip src (gap false (src.drop p.offset)) := by
  induction hn : (src.drop p.offset).length using Nat.strongRecOn generalizing p with
  | ind n ih =>
    have hrest := drop_passWhile src isSpace p
    rw [passGap, gap_eq_takeWhile, ← hrest, skip_add, ← passWhile_eq]
    by_cases hcomment : (p.passWhile src isSpace).AtComment src
    · have hless := length_drop_comment_lt hcomment
      have hgap := gap_minus_eq_takeWhile (src.drop ((p.passWhile src isSpace).offset + 1 + 1))
      rw [← hcomment.drop_eq, ← drop_passWhile] at hgap
      rw [dif_pos hcomment, ih _ (hn ▸ hless) _ rfl, hgap, skip_add, ← passWhile_eq]
    · have hspace : ∀ b ∈ (src.drop (p.passWhile src isSpace).offset).head?, isSpace b = false := by
        rw [hrest]
        exact head?_dropWhile_eq_false _
      have hzero : gap false (src.drop (p.passWhile src isSpace).offset) = 0 := by
        refine gap_eq_zero hspace ?_
        rwa [List.getElem?_drop, List.getElem?_drop]
      rw [dif_neg hcomment, hzero]
      rfl

/-! ### Lexemes -/

/-- The lexeme at a location whose byte is `b`.  Words and numbers are slices of the source; for everything
else one more byte is looked at. -/
def lexeme? (src : Text) (p : Location) (b : UInt8) : Option (Except Fault (Kind × Text)) :=
  if Text.isLetter b then do
    let word ← src.slice? p.offset (p.passWhile src isWordByte).offset
    let kind := Kind.ofWord word
    if kind = .id && Token.maxIdentifierLength < word.length then return .error (.overlong word)
    else return .ok (kind, word)
  else if Text.isDigit b then do
    let number ← src.slice? p.offset (p.passWhile src Text.isDigit).offset
    return .ok (.intLiteral, number)
  else some (lexeme b src[p.offset + 1]?.toList)

/-- What is neither a word nor a number is known from its byte and the next one. -/
theorem lexeme_eq_of_next (hletter : ¬Text.isLetter b = true) (hdigit : ¬Text.isDigit b = true) (t : Text) :
    lexeme b t.head?.toList = lexeme b t := by
  have hpair : ∀ second kind, pair b second kind t.head?.toList = pair b second kind t := by
    intro second kind
    cases t with
    | nil => rfl
    | cons c u => rfl
  unfold lexeme
  simp only [if_neg hletter, if_neg hdigit, hpair]

/-- A run of bytes that starts at a location is a slice of the source. -/
theorem slice?_passWhile {test : UInt8 → Bool} (hb : src[p.offset]? = some b) (htest : test b = true) :
    src.slice? p.offset (p.passWhile src test).offset =
      some (b :: (src.drop (p.offset + 1)).takeWhile test) := by
  have hrun : (src.drop p.offset).takeWhile test = b :: (src.drop (p.offset + 1)).takeWhile test := by
    rw [drop_eq_cons hb, List.takeWhile_cons_of_pos htest]
  have hle := (List.takeWhile_sublist (l := src.drop p.offset) test).length_le
  have hlt := (List.getElem?_eq_some_iff.1 hb).1
  have hwithin : p.offset + ((src.drop p.offset).takeWhile test).length ≤ src.length := by
    rw [List.length_drop] at hle
    omega
  rw [passWhile_eq, offset_skip hle, Text.slice?_add hwithin, ← hrun,
    ← List.prefix_iff_eq_take.1 (List.takeWhile_prefix test)]

/-- The slice that a loop leaves behind is as long as the way that the loop went. -/
theorem exists_run {test : UInt8 → Bool} (hb : src[p.offset]? = some b) (htest : test b = true) :
    ∃ run, src.slice? p.offset (p.passWhile src test).offset = some run ∧
      p.passWhile src test = p.skip src run.length := by
  refine ⟨_, slice?_passWhile hb htest, ?_⟩
  rw [passWhile_eq, drop_eq_cons hb, List.takeWhile_cons_of_pos htest]

theorem lexeme?_eq (hb : src[p.offset]? = some b) :
    p.lexeme? src b = some (lexeme b (src.drop (p.offset + 1))) := by
  by_cases hletter : Text.isLetter b = true
  · rw [lexeme?, if_pos hletter, slice?_passWhile hb (isWordByte_of_isLetter hletter), Option.bind_eq_bind,
      Option.bind_some, lexeme, if_pos hletter]
    dsimp only
    split
    · rfl
    · rfl
  · by_cases hdigit : Text.isDigit b = true
    · rw [lexeme?, if_neg hletter, if_pos hdigit, slice?_passWhile hb hdigit, lexeme, if_neg hletter,
        if_pos hdigit]
      rfl
    · rw [lexeme?, if_neg hletter, if_neg hdigit, ← List.head?_drop, lexeme_eq_of_next hletter hdigit]

/-! ### Tokens -/

/-- The next token and the location behind it. -/
def scan? (src filename : Text) (p : Location) : Option (Except LexicalError (Token × Location)) :=
  let here := p.passGap src
  let pos := here.position filename
  match src[here.offset]? with
  | none => some (.ok ({ kind := .eofSym, pos }, here))
  | some b => do
    match ← here.lexeme? src b with
    | .error fault => return .error { pos, fault }
    | .ok (kind, literal) => return .ok ({ kind, literal, pos }, here.skip src literal.length)

/-- Scanning by offsets always has a result, and it is that of scanning the remaining bytes. -/
theorem exists_scan? (src filename : Text) (p : Location) :
    ∃ found, p.scan? src filename = some found ∧
      found.map (Prod.map id (cursor src)) = (p.cursor src).scan filename := by
  generalize hhere : p.skip src (gap false (src.drop p.offset)) = here
  have hcursor : (p.cursor src).skip (gap false (p.cursor src).rest) = here.cursor src := by
    rw [← hhere, cursor_skip]
    rfl
  unfold scan? Cursor.scan
  rw [passGap_eq, hhere, hcursor]
  dsimp only
  cases hbyte : src[here.offset]? with
  | none =>
    have hend : (here.cursor src).rest = [] := List.drop_eq_nil_of_le (List.getElem?_eq_none_iff.1 hbyte)
    rw [hend]
    exact ⟨_, rfl, rfl⟩
  | some b =>
    have hcons : (here.cursor src).rest = b :: src.drop (here.offset + 1) := drop_eq_cons hbyte
    rw [hcons]
    dsimp only
    rw [lexeme?_eq hbyte, Option.bind_eq_bind, Option.bind_some]
    cases hlexeme : lexeme b (src.drop (here.offset + 1)) with
    | error fault => exact ⟨_, rfl, rfl⟩
    | ok found =>
      refine ⟨_, rfl, ?_⟩
      simp only [Except.map, Prod.map, id, cursor_skip]
      rfl

theorem scan_of_scan? {filename : Text} {tok : Token} {next : Location}
    (h : p.scan? src filename = some (.ok (tok, next))) :
    (p.cursor src).scan filename = .ok (tok, next.cursor src) := by
  obtain ⟨found, hfound, hscan⟩ := exists_scan? src filename p
  cases h.symm.trans hfound
  exact hscan.symm

/-- The stream from a location on. -/
def stream? (src filename : Text) (p : Location) : Option Stream :=
  match h : p.scan? src filename with
  | none => none
  | some (.error e) => some ⟨[], .fault e⟩
  | some (.ok (tok, next)) =>
    if hk : tok.kind = .eofSym then some ⟨[], .eof tok⟩
    else (stream? src filename next).map (Stream.cons tok)
termination_by (src.drop p.offset).length
decreasing_by exact Cursor.length_rest_lt_of_scan (scan_of_scan? h) hk

/-- The scanner that cuts its tokens out of the source gives the stream of the source. -/
theorem stream?_eq (src filename : Text) (p : Location) :
    p.stream? src filename = some (Stream.ofCursor filename (p.cursor src)) := by
  induction hn : (p.cursor src).rest.length using Nat.strongRecOn generalizing p with
  | ind n ih =>
    obtain ⟨found, hfound, hscan⟩ := exists_scan? src filename p
    rw [stream?]
    split
    · next h => cases hfound.symm.trans h
    · next e h =>
      cases hfound.symm.trans h
      rw [Stream.ofCursor_of_error hscan.symm]
    · next tok next h =>
      have hscan := scan_of_scan? h
      by_cases hkind : tok.kind = .eofSym
      · rw [dif_pos hkind, Stream.ofCursor_of_eof hscan hkind]
      · have hless := Cursor.length_rest_lt_of_scan hscan hkind
        rw [dif_neg hkind, Stream.ofCursor_of_token hscan hkind, ih _ (hn ▸ hless) next rfl]
        rfl

end Location

/-- The stream of a source, scanned by offsets. -/
def Stream.sliced? (filename src : Text) : Option Stream := Location.stream? src filename {}

theorem Stream.sliced?_eq (filename src : Text) : sliced? filename src = some (ofSource filename src) :=
  Location.stream?_eq src filename {}

end MicroLang
