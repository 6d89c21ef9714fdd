import MicroLang.Json
import MicroLang.Text.Blank

/-!
# String literals of JSON

Reading a text piece by piece loses nothing: the pieces, written one after the other, are the text again.
A literal writes each scalar value in a form of its own, and no form begins another one or starts with the
quote that ends the literal.  So a literal tells the text from which it was made, provided that it is
UTF-8 throughout; a stray byte is written like U+FFFD and cannot be told from it.
-/

namespace MicroLang

namespace Text

theorem toNat_ofNat_scalar {v : Nat} (h : v < 0xD800 ∨ 0xDFFF < v ∧ v < 0x110000) :
    (Char.ofNat v).val.toNat = v := by
  have hvalid : v.isValidChar := h
  have hchar : Char.ofNat v = Char.ofNatAux v hvalid := dif_pos hvalid
  rw [hchar]
  rfl

theorem ofNat_of_toNat {n : Nat} {b : UInt8} (h : n = b.toNat) : UInt8.ofNat n = b := by
  rw [h, UInt8.ofNat_toNat]

theorem isTail_iff (b : UInt8) : isTail b = true ↔ 0x80 ≤ b.toNat ∧ b.toNat ≤ 0xBF := by
  simp only [isTail, Bool.and_eq_true, decide_eq_true_eq, UInt8.le_iff_toNat_le, UInt8.reduceToNat]

/-- The well-formed sequences: a first byte, what follows it, the scalar value and how many bytes of what
follows belong to it. -/
inductive Sequence (lead : UInt8) : Text → Nat → Nat → Prop where
  | one {rest : Text} {v : Nat} (hlead : lead.toNat < 0x80) (hv : v = lead.toNat) : Sequence lead rest v 0
  | two {a : UInt8} {rest : Text} {v : Nat} (hlead : 0xC2 ≤ lead.toNat ∧ lead.toNat < 0xE0)
      (ha : 0x80 ≤ a.toNat ∧ a.toNat ≤ 0xBF) (hv : v = (lead.toNat - 0xC0) * 64 + (a.toNat - 0x80)) :
      Sequence lead (a :: rest) v 1
  | three {a b : UInt8} {rest : Text} {v : Nat} (hlead : 0xE0 ≤ lead.toNat ∧ lead.toNat < 0xF0)
      (ha : 0x80 ≤ a.toNat ∧ a.toNat ≤ 0xBF) (hb : 0x80 ≤ b.toNat ∧ b.toNat ≤ 0xBF)
      (hv : v = (lead.toNat - 0xE0) * 4096 + (a.toNat - 0x80) * 64 + (b.toNat - 0x80))
      (hscalar : 0x800 ≤ v ∧ (0xD800 ≤ v → 0xDFFF < v)) : Sequence lead (a :: b :: rest) v 2
  | four {a b c : UInt8} {rest : Text} {v : Nat} (hlead : 0xF0 ≤ lead.toNat ∧ lead.toNat < 0xF5)
      (ha : 0x80 ≤ a.toNat ∧ a.toNat ≤ 0xBF) (hb : 0x80 ≤ b.toNat ∧ b.toNat ≤ 0xBF)
      (hc : 0x80 ≤ c.toNat ∧ c.toNat ≤ 0xBF)
      (hv : v = (lead.toNat - 0xF0) * 262144 + (a.toNat - 0x80) * 4096 + (b.toNat - 0x80) * 64
        + (c.toNat - 0x80)) (hscalar : 0x10000 ≤ v ∧ v ≤ 0x10FFFF) :
      Sequence lead (a :: b :: c :: rest) v 3

theorem Sequence.of_sequence? {lead : UInt8} {rest : Text} {v width : Nat}
    (h : sequence? lead rest = some (v, width)) : Sequence lead rest v width := by
  unfold sequence? at h
  simp only [isTail_iff, Bool.and_eq_true, decide_eq_true_eq, Bool.not_eq_true', Bool.and_eq_false_imp,
    decide_eq_false_iff_not, Nat.not_le] at h
  by_cases h1 : lead.toNat < 0x80
  · rw [if_pos h1] at h
    obtain ⟨rfl, rfl⟩ := Prod.mk.inj (Option.some.inj h)
    exact .one h1 rfl
  rw [if_neg h1] at h
  by_cases h2 : lead.toNat < 0xC2
  · rw [if_pos h2] at h
    cases h
  rw [if_neg h2] at h
  by_cases h3 : lead.toNat < 0xE0
  · rw [if_pos h3] at h
    split at h
    · next a rest =>
      by_cases ha : 0x80 ≤ a.toNat ∧ a.toNat ≤ 0xBF
      · rw [if_pos ha] at h
        obtain ⟨hv, rfl⟩ := Prod.mk.inj (Option.some.inj h)
        exact .two ⟨by omega, h3⟩ ha hv.symm
      · rw [if_neg ha] at h
        cases h
    · cases h
  rw [if_neg h3] at h
  by_cases h4 : lead.toNat < 0xF0
  · rw [if_pos h4] at h
    split at h
    · next a b rest =>
      split at h
      · next hscalar =>
        obtain ⟨hv, rfl⟩ := Prod.mk.inj (Option.some.inj h)
        obtain ⟨⟨⟨ha, hb⟩, hlow⟩, hhigh⟩ := hscalar
        rw [hv] at hlow hhigh
        exact .three ⟨by omega, h4⟩ ha hb hv.symm ⟨hlow, hhigh⟩
      · cases h
    · cases h
  rw [if_neg h4] at h
  by_cases h5 : lead.toNat < 0xF5
  · rw [if_pos h5] at h
    split at h
    · next a b c rest =>
      split at h
      · next hscalar =>
        obtain ⟨hv, rfl⟩ := Prod.mk.inj (Option.some.inj h)
        obtain ⟨⟨⟨⟨ha, hb⟩, hc⟩, hlow⟩, hhigh⟩ := hscalar
        rw [hv] at hlow hhigh
        exact .four ⟨by omega, h5⟩ ha hb hc hv.symm ⟨hlow, hhigh⟩
      · cases h
    · cases h
  · rw [if_neg h5] at h
    cases h

/-- A well-formed sequence is the one that its scalar value is written with. -/
theorem Sequence.ofChar_eq {lead : UInt8} {rest : Text} {v width : Nat} (h : Sequence lead rest v width) :
    ofChar (Char.ofNat v) = lead :: rest.take width := by
  unfold ofChar String.utf8EncodeChar
  cases h with
  | one hlead hv =>
    rw [toNat_ofNat_scalar (by omega), if_pos (by omega), ofNat_of_toNat hv]
    rfl
  | @two a _ _ hlead ha hv =>
    rw [toNat_ofNat_scalar (by omega), if_neg (by omega), if_pos (by omega),
      ofNat_of_toNat (b := lead) (by omega), ofNat_of_toNat (b := a) (by omega)]
    rfl
  | @three a b _ _ hlead ha hb hv hscalar =>
    rw [toNat_ofNat_scalar (by omega), if_neg (by omega), if_neg (by omega), if_pos (by omega),
      ofNat_of_toNat (b := lead) (by omega), ofNat_of_toNat (b := a) (by omega),
      ofNat_of_toNat (b := b) (by omega)]
    rfl
  | @four a b c _ _ hlead ha hb hc hv hscalar =>
    rw [toNat_ofNat_scalar (by omega), if_neg (by omega), if_neg (by omega), if_neg (by omega),
      ofNat_of_toNat (b := lead) (by omega), ofNat_of_toNat (b := a) (by omega),
      ofNat_of_toNat (b := b) (by omega), ofNat_of_toNat (b := c) (by omega)]
    rfl

/-- The pieces behind bytes that are already taken. -/
theorem bytes_piecesAfter (skip : Nat) (t : Text) : (piecesAfter skip t).flatMap Piece.bytes = t.drop skip := by
  induction t generalizing skip with
  | nil =>
    cases skip <;> rfl
  | cons b t ih =>
    cases skip with
    | succ skip => exact ih skip
    | zero =>
      rw [piecesAfter]
      split
      · next v width h =>
        have hbytes := (Sequence.of_sequence? h).ofChar_eq
        rw [List.flatMap_cons, ih, Piece.bytes, hbytes, List.cons_append, List.take_append_drop]
        rfl
      · rw [List.flatMap_cons, ih]
        rfl

/-- Reading a text loses nothing. -/
theorem bytes_pieces (t : Text) : t.pieces.flatMap Piece.bytes = t := bytes_piecesAfter 0 t

/-- A text that is UTF-8 throughout is read as scalar values. -/
theorem exists_chars {t : Text} (h : t.isUtf8 = true) :
    ∃ cs : List Char, t.pieces = cs.map Piece.scalar ∧ t = cs.flatMap ofChar := by
  have hscalar : ∀ p ∈ t.pieces, ∃ c, p = .scalar c := by
    intro p hp
    have hp := List.all_eq_true.1 h p hp
    cases p with
    | scalar c => exact ⟨c, rfl⟩
    | stray b => cases hp
  obtain ⟨cs, hcs⟩ : ∃ cs : List Char, t.pieces = cs.map Piece.scalar := by
    generalize t.pieces = ps at hscalar
    induction ps with
    | nil => exact ⟨[], rfl⟩
    | cons p ps ih =>
      obtain ⟨c, rfl⟩ := hscalar p List.mem_cons_self
      obtain ⟨cs, rfl⟩ := ih fun q hq => hscalar q (List.mem_cons_of_mem _ hq)
      exact ⟨c :: cs, rfl⟩
  refine ⟨cs, hcs, ?_⟩
  rw [← bytes_pieces t, hcs, List.flatMap_map]
  rfl

end Text

/-! ### Escaped forms -/

namespace Json

/-- The numbers of the scalar values that have an escape. -/
def escaped : List Nat := List.range 0x20 ++ [34, 92, 0x2028, 0x2029]

theorem escapeChar_of_not_mem {c : Char} (h : c.toNat ∉ escaped) : escapeChar c = Text.ofChar c := by
  have hrange : 0x20 ≤ c.toNat ∧ c.toNat ≠ 34 ∧ c.toNat ≠ 92 ∧ c.toNat ≠ 0x2028 ∧ c.toNat ≠ 0x2029 := by
    simp only [escaped, List.mem_append, List.mem_range, List.mem_cons, List.not_mem_nil, or_false] at h
    omega
  have hshort : shortEscape? c.toNat = none := by
    unfold shortEscape?
    split
    · omega
    · omega
    · omega
    · omega
    · omega
    · rfl
  have hfirst : ¬(decide (c.toNat = 34) || decide (c.toNat = 92)) = true := by
    simp only [Bool.or_eq_true, decide_eq_true_eq]
    omega
  have hlast : ¬(decide (c.toNat < 0x20) || decide (c.toNat = 0x2028) || decide (c.toNat = 0x2029)) = true := by
    simp only [Bool.or_eq_true, decide_eq_true_eq]
    omega
  rw [escapeChar, if_neg hfirst, hshort]
  exact if_neg hlast

/-- The bytes of a scalar value outside ASCII are outside ASCII. -/
theorem mem_ofChar {c : Char} {b : UInt8} (h : b ∈ Text.ofChar c) : b.toNat = c.toNat ∨ 128 ≤ b.toNat := by
  have hv : c.val.toNat = c.toNat := rfl
  have hbyte : ∀ n : Nat, n < 256 → (UInt8.ofNat n).toNat = n := fun n hn => UInt8.toNat_ofNat_of_lt' hn
  unfold Text.ofChar String.utf8EncodeChar at h
  dsimp only at h
  split at h
  · left
    rw [List.mem_singleton.1 h, hbyte _ (by omega), hv]
  · right
    split at h
    · simp only [List.mem_cons, List.not_mem_nil, or_false] at h
      rcases h with rfl | rfl <;> rw [hbyte _ (by omega)] <;> omega
    · split at h
      · simp only [List.mem_cons, List.not_mem_nil, or_false] at h
        rcases h with rfl | rfl | rfl <;> rw [hbyte _ (by omega)] <;> omega
      · simp only [List.mem_cons, List.not_mem_nil, or_false] at h
        rcases h with rfl | rfl | rfl | rfl <;> rw [hbyte _ (by omega)] <;> omega

theorem ofChar_ne_nil (c : Char) : Text.ofChar c ≠ [] := by
  unfold Text.ofChar String.utf8EncodeChar
  dsimp only
  split
  · simp
  · split
    · simp
    · split <;> simp

/-- Quotes and backslashes are never written as they are. -/
theorem ne_of_mem_ofChar {c : Char} (hc : c.toNat ∉ escaped) {b : UInt8} (hb : b ∈ Text.ofChar c) :
    b ≠ 34 ∧ b ≠ 92 := by
  simp only [escaped, List.mem_append, List.mem_range, List.mem_cons, List.not_mem_nil, or_false] at hc
  have hcases := mem_ofChar hb
  refine ⟨?_, ?_⟩
  · rintro rfl
    simp only [UInt8.reduceToNat] at hcases
    omega
  · rintro rfl
    simp only [UInt8.reduceToNat] at hcases
    omega

/-- The encoding of a scalar value can be told from what follows it. -/
theorem ofChar_append_inj {c c' : Char} {x y : Text} (h : Text.ofChar c ++ x = Text.ofChar c' ++ y) :
    c = c' ∧ x = y := by
  have hdecode : ∀ (c : Char) (x : Text), (Text.ofChar c ++ x).toByteArray.utf8DecodeChar? 0 = some c := by
    intro c x
    rw [List.toByteArray_append]
    exact ByteArray.utf8DecodeChar?_utf8EncodeChar_append
  have hc := hdecode c x
  rw [h, hdecode c' y] at hc
  cases hc
  exact ⟨rfl, List.append_cancel_left h⟩

/-- No escape begins another one. -/
theorem escapeChar_prefix_inj : ∀ v ∈ escaped, ∀ w ∈ escaped,
    escapeChar (Char.ofNat v) <+: escapeChar (Char.ofNat w) → v = w := by
  decide +kernel

theorem head?_escapeChar_of_mem {c : Char} (h : c.toNat ∈ escaped) : (escapeChar c).head? = some 92 := by
  have hall : ∀ v ∈ escaped, (escapeChar (Char.ofNat v)).head? = some 92 := by decide +kernel
  rw [← Char.ofNat_toNat c]
  exact hall _ h

theorem head?_escapeChar_of_not_mem {c : Char} (h : c.toNat ∉ escaped) :
    ∃ b, (escapeChar c).head? = some b ∧ b ≠ 34 ∧ b ≠ 92 := by
  obtain ⟨b, t, hbytes⟩ := List.exists_cons_of_ne_nil (ofChar_ne_nil c)
  refine ⟨b, ?_, ne_of_mem_ofChar h (by rw [hbytes]; exact List.mem_cons_self)⟩
  rw [escapeChar_of_not_mem h, hbytes]
  rfl

/-- No form starts with a quote. -/
theorem head?_escapeChar (c : Char) : ∃ b, (escapeChar c).head? = some b ∧ b ≠ 34 := by
  by_cases h : c.toNat ∈ escaped
  · exact ⟨92, head?_escapeChar_of_mem h, by decide⟩
  · obtain ⟨b, hb, hne, -⟩ := head?_escapeChar_of_not_mem h
    exact ⟨b, hb, hne⟩

/-- The form of a scalar value can be told from what follows it. -/
theorem escapeChar_append_inj {c c' : Char} {x y : Text} (h : escapeChar c ++ x = escapeChar c' ++ y) :
    c = c' ∧ x = y := by
  have hhead : ∀ {c : Char} {b : UInt8} {x : Text}, (escapeChar c).head? = some b →
      (escapeChar c ++ x).head? = some b := by
    intro c b x hb
    obtain ⟨t, ht⟩ := List.head?_eq_some_iff.1 hb
    rw [ht]
    rfl
  by_cases hc : c.toNat ∈ escaped
  · by_cases hc' : c'.toNat ∈ escaped
    · have hsame : c.toNat = c'.toNat := by
        have hprefix := List.prefix_or_prefix_of_prefix (List.prefix_append (escapeChar c) x)
          (h ▸ List.prefix_append (escapeChar c') y)
        rw [← Char.ofNat_toNat c, ← Char.ofNat_toNat c'] at hprefix
        rcases hprefix with hprefix | hprefix
        · exact escapeChar_prefix_inj _ hc _ hc' hprefix
        · exact (escapeChar_prefix_inj _ hc' _ hc hprefix).symm
      have hchar : c = c' := by
        rw [← Char.ofNat_toNat c, hsame, Char.ofNat_toNat]
      subst hchar
      exact ⟨rfl, List.append_cancel_left h⟩
    · obtain ⟨b, hb, -, hne⟩ := head?_escapeChar_of_not_mem hc'
      have hfirst := congrArg List.head? h
      rw [hhead (head?_escapeChar_of_mem hc), hhead hb] at hfirst
      exact absurd (Option.some.inj hfirst).symm hne
  · by_cases hc' : c'.toNat ∈ escaped
    · obtain ⟨b, hb, -, hne⟩ := head?_escapeChar_of_not_mem hc
      have hfirst := congrArg List.head? h
      rw [hhead (head?_escapeChar_of_mem hc'), hhead hb] at hfirst
      exact absurd (Option.some.inj hfirst) hne
    · rw [escapeChar_of_not_mem hc, escapeChar_of_not_mem hc'] at h
      exact ofChar_append_inj h

/-! ### Literals -/

/-- A quote ends the forms in front of it. -/
theorem escapeChars_append_inj {cs cs' : List Char} {x y : Text}
    (h : cs.flatMap escapeChar ++ 34 :: x = cs'.flatMap escapeChar ++ 34 :: y) : cs = cs' ∧ x = y := by
  have hend : ∀ {c : Char} {cs : List Char} {x y : Text},
      34 :: x ≠ (c :: cs).flatMap escapeChar ++ 34 :: y := by
    intro c cs x y hsame
    obtain ⟨b, hb, hne⟩ := head?_escapeChar c
    obtain ⟨t, ht⟩ := List.head?_eq_some_iff.1 hb
    rw [List.flatMap_cons, ht] at hsame
    exact hne (List.cons.inj hsame).1.symm
  induction cs generalizing cs' with
  | nil =>
    cases cs' with
    | nil => exact ⟨rfl, (List.cons.inj h).2⟩
    | cons c' cs' => exact absurd h hend
  | cons c cs ih =>
    cases cs' with
    | nil => exact absurd h.symm hend
    | cons c' cs' =>
      rw [List.flatMap_cons, List.flatMap_cons, List.append_assoc, List.append_assoc] at h
      obtain ⟨rfl, hrest⟩ := escapeChar_append_inj h
      obtain ⟨rfl, hxy⟩ := ih hrest
      exact ⟨rfl, hxy⟩

theorem literal_eq {t : Text} {cs : List Char} (h : t.pieces = cs.map Piece.scalar) :
    literal t = 34 :: (cs.flatMap escapeChar ++ [34]) := by
  rw [literal, h, List.flatMap_map]
  rfl

/-- A literal tells its text and where it ends. -/
theorem literal_append_inj {t t' x y : Text} (ht : t.isUtf8 = true) (ht' : t'.isUtf8 = true)
    (h : literal t ++ x = literal t' ++ y) : t = t' ∧ x = y := by
  obtain ⟨cs, hpieces, hcs⟩ := Text.exists_chars ht
  obtain ⟨cs', hpieces', hcs'⟩ := Text.exists_chars ht'
  rw [literal_eq hpieces, literal_eq hpieces', List.cons_append, List.cons_append, List.append_assoc,
    List.append_assoc] at h
  obtain ⟨rfl, hxy⟩ := escapeChars_append_inj (List.cons.inj h).2
  exact ⟨hcs.trans hcs'.symm, hxy⟩

end Json

end MicroLang
