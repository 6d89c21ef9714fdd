import MicroLang.Token.Stream

/-!
# Lexemes

A declarative account of the texts that scanning takes for tokens.  `Lexeme kind literal` says that the
text by itself is a token of the kind: a word, a run of digits or one of the fixed marks.  Scanning
delivers lexemes only, and a lexeme is scanned as itself wherever no byte stands behind it that would
make it longer.
-/

namespace MicroLang

/-! ### The texts of tokens -/

/-- The tokens with a fixed text that is no word. -/
def marks : List (Kind × Text) :=
  [(.lParen, [40]), (.rParen, [41]), (.semiColon, [59]), (.comma, [44]), (.plusOp, [43]),
    (.equalOp, [61]), (.minusOp, [45]), (.assignOp, [58, 61]), (.exponentOp, [42, 42])]

/-- The text by itself is a token of the kind. -/
inductive Lexeme : Kind → Text → Prop
  | word {b : UInt8} {t : Text} : Text.isLetter b = true → t.all isWordByte = true →
      (Kind.ofWord (b :: t) = .id → (b :: t).length ≤ Token.maxIdentifierLength) →
      Lexeme (Kind.ofWord (b :: t)) (b :: t)
  | number {b : UInt8} {t : Text} : Text.isDigit b = true → t.all Text.isDigit = true →
      Lexeme .intLiteral (b :: t)
  | mark {kind : Kind} {literal : Text} : (kind, literal) ∈ marks → Lexeme kind literal

/-- The byte would make a token of the kind longer: a word, a run of digits, or a minus, which it would
turn into the start of a comment. -/
def Kind.extendedBy (kind : Kind) (b : UInt8) : Bool :=
  match kind with
  | .beginSym | .endSym | .readSym | .writeSym | .id => isWordByte b
  | .intLiteral => Text.isDigit b
  | .minusOp => b == 45
  | _ => false

/-- A token of the kind ends where the text starts. -/
def Kind.Ends (kind : Kind) (u : Text) : Prop := ∀ b ∈ u.head?, kind.extendedBy b = false

theorem Kind.extendedBy_ofWord (word : Text) (b : UInt8) :
    (ofWord word).extendedBy b = isWordByte b := by
  rcases isKeyword_or_eq_id_ofWord word with h | h
  · cases hk : ofWord word with
    | beginSym | endSym | readSym | writeSym => rfl
    | _ =>
      rw [hk] at h
      cases h
  · rw [h]
    rfl

theorem isLetter_eq_false_of_isDigit {b : UInt8} (h : Text.isDigit b = true) :
    Text.isLetter b = false := by
  simp only [Text.isDigit, Text.isLetter, Bool.and_eq_true, decide_eq_true_eq, Bool.or_eq_false_iff,
    Bool.and_eq_false_iff, decide_eq_false_iff_not, UInt8.le_iff_toNat_le, UInt8.reduceToNat] at *
  omega

theorem isWordByte_of_isDigit {b : UInt8} (h : Text.isDigit b = true) : isWordByte b = true := by
  simp only [isWordByte, h, Bool.or_true, Bool.true_or]

theorem isWordByte_of_isLetter {b : UInt8} (h : Text.isLetter b = true) : isWordByte b = true := by
  simp only [isWordByte, h, Bool.true_or]

/-- A run that satisfies a predicate throughout and ends where the predicate fails is the longest. -/
theorem takeWhile_append_of_stop {p : UInt8 → Bool} {r u : Text} (hr : r.all p = true)
    (hu : ∀ b ∈ u.head?, p b = false) : (r ++ u).takeWhile p = r := by
  rw [List.takeWhile_append_of_pos (List.all_eq_true.1 hr)]
  cases u with
  | nil => rw [List.takeWhile_nil, List.append_nil]
  | cons b u =>
    have hb : p b = false := hu b rfl
    rw [List.takeWhile_cons, hb, if_neg Bool.false_ne_true, List.append_nil]

/-- What is scanned as a token is a lexeme, and it stands at the front of the text. -/
theorem lexeme_of_lexeme_eq_ok {b : UInt8} {t : Text} {kind : Kind} {literal : Text}
    (h : lexeme b t = .ok (kind, literal)) : Lexeme kind literal ∧ ∃ u, b :: t = literal ++ u := by
  have hmark : ∀ {k : Kind}, (k, [b]) ∈ marks →
      (Except.ok (k, [b]) : Except Fault (Kind × Text)) = .ok (kind, literal) →
        Lexeme kind literal ∧ ∃ u, b :: t = literal ++ u := by
    intro k hk h
    cases h
    exact ⟨.mark hk, t, rfl⟩
  have hpair : ∀ {second : UInt8} {k : Kind}, (k, [b, second]) ∈ marks →
      pair b second k t = .ok (kind, literal) → Lexeme kind literal ∧ ∃ u, b :: t = literal ++ u := by
    intro second k hk h
    obtain ⟨rfl, rfl, u, rfl⟩ := pair_eq_ok h
    exact ⟨.mark hk, u, rfl⟩
  unfold lexeme at h
  refine of_ite_eq (fun hletter h => ?_) (fun _ => ?_) h
  · refine of_ite_eq (fun _ h => by cases h) (fun hlong h => ?_) h
    cases h
    refine ⟨.word hletter (List.all_takeWhile ..) ?_, t.dropWhile isWordByte, ?_⟩
    · intro hid
      simpa only [hid, decide_true, Bool.true_and, decide_eq_true_eq, Nat.not_lt] using hlong
    · rw [List.cons_append, List.takeWhile_append_dropWhile]
  refine of_ite_eq (fun hdigit h => ?_) fun _ => ?_
  · cases h
    refine ⟨.number hdigit (List.all_takeWhile ..), t.dropWhile Text.isDigit, ?_⟩
    rw [List.cons_append, List.takeWhile_append_dropWhile]
  -- what is left is a chain of comparisons with the first bytes of the marks
  refine of_ite_eq (fun hb => hmark (by rw [hb]; decide)) fun _ => ?_
  refine of_ite_eq (fun hb => hmark (by rw [hb]; decide)) fun _ => ?_
  refine of_ite_eq (fun hb => hmark (by rw [hb]; decide)) fun _ => ?_
  refine of_ite_eq (fun hb => hmark (by rw [hb]; decide)) fun _ => ?_
  refine of_ite_eq (fun hb => hmark (by rw [hb]; decide)) fun _ => ?_
  refine of_ite_eq (fun hb => hmark (by rw [hb]; decide)) fun _ => ?_
  refine of_ite_eq (fun hb => hmark (by rw [hb]; decide)) fun _ => ?_
  refine of_ite_eq (fun hb => hpair (by rw [hb]; decide)) fun _ => ?_
  exact of_ite_eq (fun hb => hpair (by rw [hb]; decide)) fun _ h => by cases h

/-- A lexeme is scanned as itself where it ends. -/
theorem lexeme_append {kind : Kind} {b : UInt8} {r u : Text} (h : Lexeme kind (b :: r))
    (hu : kind.Ends u) : lexeme b (r ++ u) = .ok (kind, b :: r) := by
  generalize hl : b :: r = literal at h
  cases h with
  | word hb hr hlen =>
    cases hl
    have hstop : ∀ c ∈ u.head?, isWordByte c = false := by
      intro c hc
      rw [← Kind.extendedBy_ofWord (b :: r)]
      exact hu c hc
    have hrun : (r ++ u).takeWhile isWordByte = r := takeWhile_append_of_stop hr hstop
    have hshort : ¬(decide (Kind.ofWord (b :: r) = .id) &&
        decide (Token.maxIdentifierLength < (b :: r).length)) = true := by
      simpa only [Bool.and_eq_true, decide_eq_true_eq, not_and, Nat.not_lt] using hlen
    simp only [lexeme, hb, if_true, hrun, if_neg hshort]
  | number hb hr =>
    cases hl
    have hrun : (r ++ u).takeWhile Text.isDigit = r := takeWhile_append_of_stop hr hu
    simp only [lexeme, isLetter_eq_false_of_isDigit hb, Bool.false_eq_true, if_false, hb, if_true,
      hrun]
  | mark hm =>
    subst hl
    simp only [marks, List.mem_cons, Prod.mk.injEq, List.cons.injEq, List.not_mem_nil, or_false] at hm
    rcases hm with h | h | h | h | h | h | h | h | h <;> obtain ⟨rfl, rfl, rfl⟩ := h <;> rfl

namespace Lexeme

variable {kind : Kind} {literal : Text}

theorem ne_nil (h : Lexeme kind literal) : literal ≠ [] := by
  cases h with
  | word => exact List.cons_ne_nil _ _
  | number => exact List.cons_ne_nil _ _
  | mark hm =>
    intro hnil
    subst hnil
    simp only [marks, List.mem_cons, Prod.mk.injEq, List.nil_eq, List.cons_ne_nil, and_false,
      List.not_mem_nil, or_false] at hm

/-- A text that is no word and no run of digits is a mark. -/
theorem mem_marks (h : Lexeme kind literal) (hw : kind.isKeyword = false) (hid : kind ≠ .id)
    (hint : kind ≠ .intLiteral) : (kind, literal) ∈ marks := by
  cases h with
  | word hb ht hlen =>
    rcases Kind.isKeyword_or_eq_id_ofWord _ with hk | hk
    · exact absurd hk (by rw [hw]; exact Bool.false_ne_true)
    · exact absurd hk hid
  | number => exact absurd rfl hint
  | mark hm => exact hm

theorem ne_eofSym (h : Lexeme kind literal) : kind ≠ .eofSym := by
  intro hk
  subst hk
  have hm := h.mem_marks rfl (by decide) (by decide)
  simp only [marks, List.mem_cons, Prod.mk.injEq, reduceCtorEq, false_and, List.not_mem_nil,
    or_false] at hm

theorem eq_plus (h : Lexeme .plusOp literal) : literal = [43] := by
  have hm := h.mem_marks rfl (by decide) (by decide)
  simpa only [marks, List.mem_cons, Prod.mk.injEq, reduceCtorEq, false_and, List.not_mem_nil,
    or_false, false_or, true_and] using hm

theorem eq_minus (h : Lexeme .minusOp literal) : literal = [45] := by
  have hm := h.mem_marks rfl (by decide) (by decide)
  simpa only [marks, List.mem_cons, Prod.mk.injEq, reduceCtorEq, false_and, List.not_mem_nil,
    or_false, false_or, true_and] using hm

/-- An identifier is a letter followed by bytes of words. -/
theorem of_id (h : Lexeme .id literal) :
    ∃ b t, literal = b :: t ∧ Text.isLetter b = true ∧ t.all isWordByte = true := by
  generalize hk : Kind.id = k at h
  cases h with
  | word hb ht => exact ⟨_, _, rfl, hb, ht⟩
  | number => cases hk
  | mark hm =>
    subst hk
    simp only [marks, List.mem_cons, Prod.mk.injEq, reduceCtorEq, false_and, List.not_mem_nil,
      or_false] at hm

/-- A number is a run of digits. -/
theorem of_intLiteral (h : Lexeme .intLiteral literal) :
    literal ≠ [] ∧ literal.all Text.isDigit = true := by
  refine ⟨h.ne_nil, ?_⟩
  generalize hk : Kind.intLiteral = k at h
  cases h with
  | @word b t _ _ _ =>
    rcases Kind.isKeyword_or_eq_id_ofWord (b :: t) with hw | hw
    · rw [← hk] at hw
      cases hw
    · rw [← hk] at hw
      cases hw
  | number hb ht => rw [List.all_cons, hb, ht, Bool.and_true]
  | mark hm =>
    subst hk
    simp only [marks, List.mem_cons, Prod.mk.injEq, reduceCtorEq, false_and, List.not_mem_nil,
      or_false] at hm

end Lexeme

end MicroLang
