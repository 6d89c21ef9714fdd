import MicroLang.Proofs.Lexeme

/-!
# Scanned streams

What a stream of tokens keeps from the source it was scanned from.  Its tokens are lexemes and its end
is `eofSym`; the places of its tokens and of its ending increase strictly; and writing lexemes with
one blank between neighbours and scanning the text gives the same lexemes back.
-/

namespace MicroLang

/-! ### One scan -/

/-- The three ways a scan can end: at the end of the source, at a fault, with a token. -/
theorem Cursor.scan_cases (filename : Text) (c : Cursor) :
    ((c.skip (gap false c.rest)).rest = [] ∧
      c.scan filename = .ok ({ kind := .eofSym, pos := (c.skip (gap false c.rest)).position filename },
        c.skip (gap false c.rest))) ∨
    (∃ fault, c.scan filename =
      .error { pos := (c.skip (gap false c.rest)).position filename, fault }) ∨
    (∃ b t kind literal, (c.skip (gap false c.rest)).rest = b :: t ∧
      lexeme b t = .ok (kind, literal) ∧
      c.scan filename =
        .ok ({ kind, literal, pos := (c.skip (gap false c.rest)).position filename },
          c.skip (gap false c.rest + literal.length))) := by
  cases hrest : (c.skip (gap false c.rest)).rest with
  | nil =>
    left
    exact ⟨rfl, by simp only [Cursor.scan, hrest]⟩
  | cons b t =>
    right
    cases hlex : lexeme b t with
    | error fault =>
      left
      exact ⟨fault, by simp only [Cursor.scan, hrest, hlex]⟩
    | ok found =>
      obtain ⟨kind, literal⟩ := found
      right
      exact ⟨b, t, kind, literal, rfl, hlex, by simp only [Cursor.scan, hrest, hlex, Cursor.skip_add]⟩

/-- A gap lies within the text. -/
theorem gap_le_length (inComment : Bool) (t : Text) : gap inComment t ≤ t.length := by
  induction t generalizing inComment with
  | nil => exact Nat.le_refl 0
  | cons b t ih =>
    have h₁ := ih (b != 10)
    have h₂ := ih false
    have h₃ := ih true
    rw [gap, List.length_cons]
    split
    · omega
    split
    · omega
    split
    · omega
    · omega

/-- The tokens are lexemes and the end is `eofSym`. -/
structure Stream.Scanned (s : Stream) : Prop where
  lexemes : ∀ tok ∈ s.tokens, Lexeme tok.kind tok.literal
  eof : ∀ tok, s.ending = .eof tok → tok.kind = .eofSym

namespace Stream

theorem scanned_ofCursor (filename : Text) (c : Cursor) : (ofCursor filename c).Scanned := by
  induction hn : c.rest.length using Nat.strongRecOn generalizing c with
  | ind n ih =>
    subst hn
    rcases c.scan_cases filename with ⟨_, h⟩ | ⟨fault, h⟩ | ⟨b, t, kind, literal, _, hlex, h⟩
    · rw [ofCursor_of_eof h rfl]
      refine ⟨fun tok hmem => absurd hmem List.not_mem_nil, ?_⟩
      intro tok htok
      cases htok
      rfl
    · rw [ofCursor_of_error h]
      refine ⟨fun tok hmem => absurd hmem List.not_mem_nil, ?_⟩
      intro tok htok
      cases htok
    · have hlexeme := (lexeme_of_lexeme_eq_ok hlex).1
      have hlater := ih _ (Cursor.length_rest_lt_of_scan h hlexeme.ne_eofSym) _ rfl
      rw [ofCursor_of_token h hlexeme.ne_eofSym]
      refine ⟨?_, hlater.eof⟩
      intro tok hmem
      rcases List.mem_cons.1 hmem with rfl | hmem
      · exact hlexeme
      · exact hlater.lexemes tok hmem

theorem scanned_ofSource (filename src : Text) : (ofSource filename src).Scanned :=
  scanned_ofCursor filename _

/-! ### Attempt by attempt -/

/-- The answer to attempt number `k` to scan a token, counted from zero: a token while there are any,
and then the ending for ever. -/
def raw (s : Stream) (k : Nat) : Except LexicalError Token :=
  match s.tokens[k]?, s.ending with
  | some tok, _ => .ok tok
  | none, .eof tok => .ok tok
  | none, .fault e => .error e

/-- What is left behind the first `k` attempts. -/
def skip (s : Stream) (k : Nat) : Stream := { s with tokens := s.tokens.drop k }

theorem peek_skip (s : Stream) (k : Nat) : (s.skip k).peek = s.raw k := by
  obtain ⟨tokens, ending⟩ := s
  rw [raw, ← List.head?_drop]
  cases htokens : tokens.drop k with
  | nil => cases ending <;> simp only [skip, peek, htokens, List.head?_nil]
  | cons tok rest => simp only [skip, peek, htokens, List.head?_cons]

theorem rest_skip (s : Stream) (k : Nat) : (s.skip k).rest = s.skip (k + 1) := by
  simp only [skip, rest, List.tail_drop]

/-- An error is met again by every later attempt. -/
theorem skip_succ_of_error {s : Stream} {k : Nat} {e : LexicalError} (h : s.raw k = .error e) :
    s.skip (k + 1) = s.skip k := by
  have hnone : s.tokens.drop k = [] := by
    rw [List.drop_eq_nil_iff, ← List.getElem?_eq_none_iff]
    unfold raw at h
    split at h
    · cases h
    · cases h
    · assumption
  simp only [skip, ← List.tail_drop, hnone, List.tail_nil]

theorem ending_of_peek_error {s : Stream} {e : LexicalError} (h : s.peek = .error e) :
    s.tokens = [] ∧ s.ending = .fault e := by
  obtain ⟨tokens, ending⟩ := s
  cases tokens with
  | cons first rest => cases h
  | nil =>
    cases ending with
    | eof last => cases h
    | fault e' =>
      cases h
      exact ⟨rfl, rfl⟩

/-- Scanning delivers the token ahead and goes on with the rest of the stream. -/
theorem scan_of_peek {filename : Text} {c : Cursor} {tok : Token}
    (h : (ofCursor filename c).peek = .ok tok) :
    ∃ next, c.scan filename = .ok (tok, next) ∧
      ofCursor filename next = (ofCursor filename c).rest := by
  rcases c.scan_cases filename with ⟨hend, hscan⟩ | ⟨fault, hscan⟩ | ⟨b, t, kind, literal, _, hlex, hscan⟩
  · rw [ofCursor_of_eof hscan rfl] at h ⊢
    cases h
    -- the end of the source is scanned again from where it was met
    have hagain : (c.skip (gap false c.rest)).scan filename =
        .ok ({ kind := .eofSym, pos := (c.skip (gap false c.rest)).position filename },
          c.skip (gap false c.rest)) := by
      simp only [Cursor.scan, hend, gap, Cursor.skip]
    exact ⟨_, hscan, ofCursor_of_eof hagain rfl⟩
  · rw [ofCursor_of_error hscan] at h
    cases h
  · have hno := (lexeme_of_lexeme_eq_ok hlex).1.ne_eofSym
    rw [ofCursor_of_token hscan hno] at h ⊢
    cases h
    exact ⟨_, hscan, rfl⟩

theorem scan_of_peek_error {filename : Text} {c : Cursor} {e : LexicalError}
    (h : (ofCursor filename c).peek = .error e) : c.scan filename = .error e := by
  rcases c.scan_cases filename with ⟨_, hscan⟩ | ⟨fault, hscan⟩ | ⟨b, t, kind, literal, _, hlex, hscan⟩
  · rw [ofCursor_of_eof hscan rfl] at h
    cases h
  · rw [ofCursor_of_error hscan] at h
    cases h
    exact hscan
  · rw [ofCursor_of_token hscan (lexeme_of_lexeme_eq_ok hlex).1.ne_eofSym] at h
    cases h

/-! ### Places -/

/-- The places of all tokens and of the ending. -/
def places (s : Stream) : List Position :=
  s.tokens.map Token.pos ++ [match s.ending with
    | .eof tok => tok.pos
    | .fault e => e.pos]

theorem places_cons (tok : Token) (s : Stream) : (s.cons tok).places = tok.pos :: s.places := rfl

end Stream

namespace Cursor

/-- One byte further is a later place. -/
theorem before_position_step (filename : Text) {c : Cursor} (h : c.rest ≠ []) :
    (c.position filename).before (c.step.position filename) = true := by
  unfold step
  split
  · next hnil => exact absurd hnil h
  · split
    · have hline : (c.line : Int) ≠ (c.line + 1 : Nat) := by omega
      rw [Position.before, position, position, if_pos hline]
      exact decide_eq_true (Int.ofNat_lt.2 (Nat.lt_succ_self c.line))
    · rw [Position.before, position, position, if_neg (not_not_intro rfl)]
      exact decide_eq_true (Int.ofNat_lt.2 (Nat.lt_succ_self c.column))

/-- More bytes further is a later place. -/
theorem before_position_skip (filename : Text) {c : Cursor} {m n : Nat} (hmn : m < n)
    (hn : n ≤ c.rest.length) :
    ((c.skip m).position filename).before ((c.skip n).position filename) = true := by
  induction n with
  | zero => omega
  | succ n ih =>
    have hrest : (c.skip n).rest ≠ [] := by
      intro hnil
      have hlen := congrArg List.length hnil
      rw [rest_skip, List.length_drop, List.length_nil] at hlen
      omega
    have hstep := before_position_step filename hrest
    have hlast : c.skip (n + 1) = (c.skip n).step := by rw [skip_add]; rfl
    rw [hlast]
    rcases Nat.lt_or_ge m n with hlt | hge
    · exact Position.before_trans (ih hlt (by omega)) hstep
    · rw [show m = n by omega]
      exact hstep

end Cursor

namespace Stream

/-- Every place of a stream lies within the text in front of the cursor. -/
theorem exists_skip_of_mem_places {filename : Text} {c : Cursor} {p : Position}
    (hp : p ∈ (ofCursor filename c).places) :
    ∃ n ≤ c.rest.length, p = (c.skip n).position filename := by
  induction hn : c.rest.length using Nat.strongRecOn generalizing c with
  | ind n ih =>
    subst hn
    have hgap := gap_le_length false c.rest
    rcases c.scan_cases filename with ⟨_, h⟩ | ⟨fault, h⟩ | ⟨b, t, kind, literal, hrest, hlex, h⟩
    · rw [ofCursor_of_eof h rfl] at hp
      exact ⟨_, hgap, List.mem_singleton.1 hp⟩
    · rw [ofCursor_of_error h] at hp
      exact ⟨_, hgap, List.mem_singleton.1 hp⟩
    · obtain ⟨hlexeme, u, hu⟩ := lexeme_of_lexeme_eq_ok hlex
      rw [ofCursor_of_token h hlexeme.ne_eofSym, places_cons] at hp
      rcases List.mem_cons.1 hp with rfl | hp
      · exact ⟨_, hgap, rfl⟩
      · obtain ⟨m, hm, rfl⟩ := ih _ (Cursor.length_rest_lt_of_scan h hlexeme.ne_eofSym) hp rfl
        have hlen := congrArg List.length (hrest.trans hu)
        rw [Cursor.rest_skip, List.length_drop, List.length_append] at hlen
        rw [Cursor.rest_skip, List.length_drop] at hm
        refine ⟨gap false c.rest + literal.length + m, ?_, ?_⟩
        · omega
        · rw [Cursor.skip_add (gap false c.rest + literal.length)]

/-- The places of a stream increase strictly. -/
theorem pairwise_places (filename : Text) (c : Cursor) :
    (ofCursor filename c).places.Pairwise fun p q => p.before q = true := by
  induction hn : c.rest.length using Nat.strongRecOn generalizing c with
  | ind n ih =>
    subst hn
    rcases c.scan_cases filename with ⟨_, h⟩ | ⟨fault, h⟩ | ⟨b, t, kind, literal, hrest, hlex, h⟩
    · rw [ofCursor_of_eof h rfl]
      exact List.pairwise_singleton ..
    · rw [ofCursor_of_error h]
      exact List.pairwise_singleton ..
    · obtain ⟨hlexeme, u, hu⟩ := lexeme_of_lexeme_eq_ok hlex
      have hlater := ih _ (Cursor.length_rest_lt_of_scan h hlexeme.ne_eofSym) _ rfl
      rw [ofCursor_of_token h hlexeme.ne_eofSym, places_cons, List.pairwise_cons]
      refine ⟨?_, hlater⟩
      intro q hq
      obtain ⟨m, hm, rfl⟩ := exists_skip_of_mem_places hq
      have hpos := List.length_pos_iff.2 hlexeme.ne_nil
      have hlen := congrArg List.length (hrest.trans hu)
      rw [Cursor.rest_skip, List.length_drop, List.length_append] at hlen
      rw [Cursor.rest_skip, List.length_drop] at hm
      rw [← Cursor.skip_add]
      exact Cursor.before_position_skip filename (by omega) (by omega)

end Stream

/-! ### Scanning what was written -/

/-- A byte of words starts no gap. -/
theorem gap_of_isWordByte {b : UInt8} {t : Text} (hb : isWordByte b = true) : gap false (b :: t) = 0 := by
  have hspace : isSpace b = false := by
    simp only [isWordByte, Text.isLetter, Text.isDigit, isSpace, Bool.or_eq_true, Bool.and_eq_true,
      decide_eq_true_eq, beq_iff_eq, Bool.or_eq_false_iff, Bool.and_eq_false_iff,
      decide_eq_false_iff_not, beq_eq_false_iff_ne, ne_eq, UInt8.le_iff_toNat_le, UInt8.reduceToNat,
      ← UInt8.toNat_inj] at *
    omega
  have hminus : b ≠ 45 := by
    intro hb'
    subst hb'
    revert hb
    decide
  rw [gap, hspace]
  simp only [Bool.false_eq_true, if_false, hminus, decide_false, Bool.false_and]

/-- In front of a lexeme there is no gap, where the lexeme ends. -/
theorem gap_lexeme_append {kind : Kind} {literal u : Text} (h : Lexeme kind literal)
    (hu : kind.Ends u) : gap false (literal ++ u) = 0 := by
  cases h with
  | word hb => exact gap_of_isWordByte (isWordByte_of_isLetter hb)
  | number hb => exact gap_of_isWordByte (isWordByte_of_isDigit hb)
  | mark hm =>
    simp only [marks, List.mem_cons, Prod.mk.injEq, List.not_mem_nil, or_false] at hm
    rcases hm with h | h | h | h | h | h | h | h | h <;> obtain ⟨rfl, rfl⟩ := h
    case inr.inr.inr.inr.inr.inr.inl =>
      cases u with
      | nil => rfl
      | cons b u =>
        have hb : (b == 45) = false := hu b rfl
        have hhead : ¬b = 45 := by simpa only [beq_eq_false_iff_ne] using hb
        simp only [List.singleton_append, gap, List.head?_cons, Option.some.injEq, hhead, decide_false,
          Bool.and_false, Bool.false_eq_true, if_false]
        rfl
    all_goals rfl

/-- A lexeme behind at most one blank is scanned, up to what follows it. -/
theorem Cursor.scan_lexeme (filename : Text) {c : Cursor} {kind : Kind} {lead literal u : Text}
    (hlead : lead = [] ∨ lead = [32]) (h : Lexeme kind literal) (hu : ∀ b ∈ u.head?, b = 32)
    (hrest : c.rest = lead ++ (literal ++ u)) :
    ∃ pos next, c.scan filename = .ok ({ kind, literal, pos }, next) ∧ next.rest = u := by
  have hends : kind.Ends u := by
    intro b hb
    rw [hu b hb]
    cases kind <;> rfl
  have hgap : gap false c.rest = lead.length := by
    rw [hrest]
    rcases hlead with rfl | rfl
    · rw [List.nil_append]
      exact gap_lexeme_append h hends
    · show 1 + gap false (literal ++ u) = 1
      rw [gap_lexeme_append h hends]
  have hhere : (c.skip (gap false c.rest)).rest = literal ++ u := by
    rw [rest_skip, hgap, hrest, List.drop_left]
  cases hlit : literal with
  | nil => exact absurd hlit h.ne_nil
  | cons b r =>
    subst hlit
    refine ⟨(c.skip (gap false c.rest)).position filename,
      (c.skip (gap false c.rest)).skip (b :: r).length, ?_, ?_⟩
    · rw [List.cons_append] at hhere
      simp only [scan, hhere, lexeme_append h hends]
    · rw [rest_skip, hhere, List.drop_left]

namespace Stream

/-- Lexemes with one blank between neighbours, and perhaps one in front, are scanned as themselves. -/
theorem ofCursor_of_lexemes (filename : Text) {items : List (Kind × Text)}
    (hitems : ∀ i ∈ items, Lexeme i.1 i.2) {c : Cursor} {lead : Text}
    (hlead : lead = [] ∨ lead = [32])
    (hrest : c.rest = lead ++ [32].intercalate (items.map Prod.snd)) :
    (ofCursor filename c).tokens.map (fun tok => (tok.kind, tok.literal)) = items ∧
      ∃ tok, (ofCursor filename c).ending = .eof tok := by
  induction items generalizing c lead with
  | nil =>
    have hhere : (c.skip (gap false c.rest)).rest = [] := by
      rw [Cursor.rest_skip, hrest]
      rcases hlead with rfl | rfl <;> rfl
    have hscan : c.scan filename =
        .ok ({ kind := .eofSym, pos := (c.skip (gap false c.rest)).position filename },
          c.skip (gap false c.rest)) := by simp only [Cursor.scan, hhere]
    rw [ofCursor_of_eof hscan rfl]
    exact ⟨rfl, _, rfl⟩
  | cons i items ih =>
    have hlexeme : Lexeme i.1 i.2 := hitems i List.mem_cons_self
    have hlater : ∀ j ∈ items, Lexeme j.1 j.2 := fun j hj => hitems j (List.mem_cons_of_mem i hj)
    -- the blank in front of the next lexeme, if there is one
    obtain ⟨lead', hlead', hsep, htail⟩ : ∃ lead' : Text, (lead' = [] ∨ lead' = [32]) ∧
        (∀ b ∈ (lead' ++ [32].intercalate (items.map Prod.snd)).head?, b = 32) ∧
        [32].intercalate ((i :: items).map Prod.snd) =
          i.2 ++ (lead' ++ [32].intercalate (items.map Prod.snd)) := by
      cases items with
      | nil =>
        refine ⟨[], .inl rfl, ?_, ?_⟩
        · intro b hb
          cases hb
        · rw [List.map_singleton, List.intercalate_singleton]
          exact (List.append_nil i.2).symm
      | cons j items =>
        refine ⟨[32], .inr rfl, ?_, ?_⟩
        · intro b hb
          cases hb
          rfl
        · rw [List.map_cons, List.map_cons, List.intercalate_cons_cons, List.append_assoc]
    obtain ⟨pos, next, hscan, hnext⟩ :=
      Cursor.scan_lexeme filename hlead hlexeme hsep (hrest.trans (congrArg (lead ++ ·) htail))
    obtain ⟨htokens, hending⟩ := ih hlater hlead' hnext
    rw [ofCursor_of_token hscan hlexeme.ne_eofSym]
    refine ⟨?_, hending⟩
    show (i.1, i.2) :: _ = _
    rw [htokens]

end Stream

end MicroLang
