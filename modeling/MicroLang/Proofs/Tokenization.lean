import MicroLang.Proofs.Calls

/-!
# Sources as gaps and lexemes

A declarative account of what scanning makes of a source.  A source is a gap and a lexeme, a gap and a
lexeme, and so on, until only a gap is left or a text that starts no token.  A gap consists of white
space and of comments; a lexeme ends where the next byte would not make it longer.  Every token
carries the place behind the text in front of it, counted in lines, columns and bytes.

Every source can be read in this way and in no other, and the stream of its tokens is that reading.
-/

namespace MicroLang

/-! ### Places -/

/-- The place behind a text: its newlines, the bytes behind the last of them, and its length. -/
def Position.behind (filename before : Text) : Position :=
  { filename
    line := (1 + before.count 10 : Nat)
    column := (1 + (before.reverse.takeWhile fun b => b != 10).length : Nat)
    offset := before.length }

namespace Cursor

/-- The cursor between two texts. -/
def between (before rest : Text) : Cursor :=
  { line := 1 + before.count 10
    column := 1 + (before.reverse.takeWhile fun b => b != 10).length
    offset := before.length
    rest }

theorem position_between (filename before rest : Text) :
    (between before rest).position filename = .behind filename before := rfl

theorem step_between (before : Text) (b : UInt8) (rest : Text) :
    (between before (b :: rest)).step = between (before ++ [b]) rest := by
  simp only [step, between]
  by_cases hb : b = 10
  · subst hb
    simp only [if_true, List.count_append, List.count_singleton_self, List.reverse_append,
      List.reverse_singleton, List.singleton_append, List.takeWhile_cons, List.length_append,
      List.length_singleton, bne_self_eq_false, Bool.false_eq_true, if_false, List.length_nil]
    rfl
  · have hne : (b != 10) = true := bne_iff_ne.2 hb
    simp only [if_neg hb, List.count_append, List.count_singleton, List.reverse_append,
      List.reverse_singleton, List.singleton_append, List.takeWhile_cons, hne, List.length_append,
      if_true, List.length_cons, beq_iff_eq, Nat.add_zero, Nat.add_assoc]
    rfl

theorem skip_between (before t rest : Text) :
    (between before (t ++ rest)).skip t.length = between (before ++ t) rest := by
  induction t generalizing before with
  | nil => rw [List.append_nil]; rfl
  | cons b t ih =>
    rw [List.length_cons, skip, List.cons_append, step_between, ih, List.append_assoc]
    rfl

end Cursor

/-! ### Gaps -/

/-- White space and comments.  A comment runs to the next newline; the last one of a source, where the
gap is final, may also run to the end. -/
inductive Gap (final : Bool) : Text → Prop
  | nil : Gap final []
  | space {b : UInt8} {t : Text} : isSpace b = true → Gap final t → Gap final (b :: t)
  | comment {body t : Text} : 10 ∉ body → Gap final t → Gap final (45 :: 45 :: (body ++ 10 :: t))
  | last {body : Text} : final = true → 10 ∉ body → Gap final (45 :: 45 :: body)

theorem gap_space {b : UInt8} (hb : isSpace b = true) (t : Text) : gap false (b :: t) = 1 + gap false t := by
  rw [gap, if_neg Bool.false_ne_true, if_pos hb]

theorem gap_minus (t : Text) : gap false (45 :: 45 :: t) = 2 + gap true t := by
  show 1 + (1 + gap true t) = _
  omega

/-- A comment goes on to its newline, and the gap behind it. -/
theorem gap_comment {body : Text} (h : 10 ∉ body) (t : Text) :
    gap true (body ++ 10 :: t) = body.length + 1 + gap false t := by
  induction body with
  | nil =>
    show 1 + gap false t = 0 + 1 + gap false t
    omega
  | cons b body ih =>
    rw [List.mem_cons, not_or] at h
    have hb : (b != 10) = true := bne_iff_ne.2 (Ne.symm h.1)
    rw [List.cons_append, gap, if_pos rfl, hb, ih h.2, List.length_cons]
    omega

theorem gap_comment_end {body : Text} (h : 10 ∉ body) : gap true body = body.length := by
  induction body with
  | nil => rfl
  | cons b body ih =>
    rw [List.mem_cons, not_or] at h
    have hb : (b != 10) = true := bne_iff_ne.2 (Ne.symm h.1)
    rw [gap, if_pos rfl, hb, ih h.2, List.length_cons]
    omega

/-- A gap is passed as a whole where no gap goes on behind it. -/
theorem gap_append {g r : Text} (h : Gap r.isEmpty g) (hr : gap false r = 0) :
    gap false (g ++ r) = g.length := by
  induction h with
  | nil => exact hr
  | space hb _ ih =>
    rw [List.cons_append, gap_space hb, ih, List.length_cons]
    omega
  | @comment body t hbody _ ih =>
    rw [List.cons_append, List.cons_append, List.append_assoc, List.cons_append, gap_minus,
      gap_comment hbody, ih]
    simp only [List.length_cons, List.length_append]
    omega
  | @last body hend hbody =>
    rw [List.isEmpty_iff.1 hend, List.append_nil, gap_minus, gap_comment_end hbody]
    simp only [List.length_cons]
    omega

/-- Every text starts with a gap, perhaps an empty one, behind which no gap goes on. -/
theorem exists_gap (t : Text) : ∃ g r, t = g ++ r ∧ Gap r.isEmpty g ∧ gap false r = 0 := by
  induction hn : t.length using Nat.strongRecOn generalizing t with
  | ind n ih =>
    subst hn
    cases t with
    | nil => exact ⟨[], [], rfl, .nil, rfl⟩
    | cons b t =>
      by_cases hspace : isSpace b = true
      · obtain ⟨g, r, rfl, hg, hr⟩ := ih t.length (Nat.lt_succ_self _) t rfl
        exact ⟨b :: g, r, rfl, .space hspace hg, hr⟩
      · by_cases hminus : b = 45 ∧ t.head? = some 45
        · obtain ⟨rfl, hhead⟩ := hminus
          obtain ⟨t, rfl⟩ := List.head?_eq_some_iff.1 hhead
          by_cases hnewline : 10 ∈ t
          · obtain ⟨body, u, rfl, hbody⟩ := List.eq_append_cons_of_mem hnewline
            obtain ⟨g, r, rfl, hg, hr⟩ := ih u.length (by simp; omega) u rfl
            refine ⟨45 :: 45 :: (body ++ 10 :: g), r, ?_, .comment hbody hg, hr⟩
            simp only [List.cons_append, List.append_assoc]
          · refine ⟨45 :: 45 :: t, [], ?_, .last rfl hnewline, rfl⟩
            rw [List.append_nil]
        · refine ⟨[], b :: t, rfl, .nil, ?_⟩
          rw [gap, if_neg Bool.false_ne_true, if_neg hspace, if_neg]
          simpa only [Bool.and_eq_true, decide_eq_true_eq] using hminus

/-! ### Texts that start no token -/

/-- The text starts no token, for the reason given: an identifier that is too long, the first byte of a
pair without the second, or a byte that neither a token nor a gap starts with. -/
inductive Malformed : Fault → Text → Prop
  | overlong {b : UInt8} {t u : Text} : Text.isLetter b = true → t.all isWordByte = true →
      (∀ c ∈ u.head?, isWordByte c = false) → Kind.ofWord (b :: t) = .id →
      Token.maxIdentifierLength < (b :: t).length → Malformed (.overlong (b :: t)) (b :: (t ++ u))
  | unpaired {kind : Kind} {first second : UInt8} {u : Text} : (kind, [first, second]) ∈ marks →
      u.head? ≠ some second → Malformed (.unpaired first second u.head?) (first :: u)
  | unexpected {b : UInt8} {u : Text} :
      (∀ kind literal, Lexeme kind literal → literal.head? ≠ some b) → isSpace b = false →
      Malformed (.unexpected b) (b :: u)

/-- What is left behind the longest run of word bytes does not start with one. -/
theorem head?_dropWhile_eq_false {p : UInt8 → Bool} (t : Text) :
    ∀ b ∈ (t.dropWhile p).head?, p b = false := by
  intro b hb
  have hstop := List.head?_dropWhile_not p t
  rw [Option.mem_def.1 hb] at hstop
  exact hstop

theorem pair_eq_error {first second : UInt8} {k : Kind} {t : Text} {fault : Fault}
    (h : pair first second k t = .error fault) :
    fault = .unpaired first second t.head? ∧ t.head? ≠ some second := by
  cases t with
  | nil =>
    cases h
    exact ⟨rfl, Option.some_ne_none _ ∘ Eq.symm⟩
  | cons b t =>
    refine of_ite_eq (fun _ h => ?_) (fun hb h => ?_) h
    · cases h
    · cases h
      exact ⟨rfl, fun hsame => hb (Option.some.inj hsame)⟩

/-- Where scanning fails, the text starts no token. -/
theorem malformed_of_lexeme_eq_error {b : UInt8} {t : Text} {fault : Fault}
    (h : lexeme b t = .error fault) (hspace : isSpace b = false) : Malformed fault (b :: t) := by
  have hpair : ∀ {second : UInt8} {k : Kind}, (k, [b, second]) ∈ marks →
      pair b second k t = .error fault → Malformed fault (b :: t) := by
    intro second k hk h
    obtain ⟨rfl, hhead⟩ := pair_eq_error h
    exact .unpaired hk hhead
  unfold lexeme at h
  refine of_ite_eq (fun hletter h => ?_) (fun hletter => ?_) h
  · refine of_ite_eq (fun hlong h => ?_) (fun _ h => by cases h) h
    cases h
    rw [Bool.and_eq_true, decide_eq_true_eq, decide_eq_true_eq] at hlong
    have hsplit : b :: t = b :: (t.takeWhile isWordByte ++ t.dropWhile isWordByte) := by
      rw [List.takeWhile_append_dropWhile]
    rw [hsplit]
    exact .overlong hletter (List.all_takeWhile ..) (head?_dropWhile_eq_false t) hlong.1 hlong.2
  refine of_ite_eq (fun _ h => by cases h) fun hdigit => ?_
  refine of_ite_eq (fun _ h => by cases h) fun h₁ => of_ite_eq (fun _ h => by cases h) fun h₂ => ?_
  refine of_ite_eq (fun _ h => by cases h) fun h₃ => of_ite_eq (fun _ h => by cases h) fun h₄ => ?_
  refine of_ite_eq (fun _ h => by cases h) fun h₅ => of_ite_eq (fun _ h => by cases h) fun h₆ => ?_
  refine of_ite_eq (fun _ h => by cases h) fun h₇ => ?_
  refine of_ite_eq (fun hb => hpair (by rw [hb]; decide)) fun h₈ => ?_
  refine of_ite_eq (fun hb => hpair (by rw [hb]; decide)) fun h₉ h => ?_
  cases h
  refine .unexpected ?_ hspace
  intro kind literal hlexeme hhead
  cases hlexeme with
  | word hb =>
    cases hhead
    exact hletter hb
  | number hb =>
    cases hhead
    exact hdigit hb
  | mark hm =>
    simp only [marks, List.mem_cons, Prod.mk.injEq, List.not_mem_nil, or_false] at hm
    rcases hm with h | h | h | h | h | h | h | h | h <;> obtain ⟨rfl, rfl⟩ := h <;> cases hhead <;>
      contradiction

/-- Where the text starts no token, scanning fails. -/
theorem Malformed.lexeme_eq_error {b : UInt8} {t : Text} {fault : Fault} (h : Malformed fault (b :: t)) :
    lexeme b t = .error fault := by
  cases h with
  | @overlong _ w u hb hw hu hid hlen =>
    have hrun : (w ++ u).takeWhile isWordByte = w := takeWhile_append_of_stop hw hu
    have hlong : (decide (Kind.ofWord (b :: w) = .id) &&
        decide (Token.maxIdentifierLength < (b :: w).length)) = true := by
      rw [decide_eq_true hid, decide_eq_true hlen]
      rfl
    simp only [lexeme, hb, if_true, hrun, if_pos hlong]
  | @unpaired kind _ second _ hm hhead =>
    have hpair : pair b second kind t = .error (.unpaired b second t.head?) := by
      cases t with
      | nil => rfl
      | cons c t =>
        rw [pair, if_neg (fun hc => hhead (congrArg some hc))]
        rfl
    simp only [marks, List.mem_cons, Prod.mk.injEq, List.cons.injEq, List.cons_ne_nil,
      and_false, and_true, List.not_mem_nil, or_false, false_or] at hm
    rcases hm with ⟨rfl, rfl, rfl⟩ | ⟨rfl, rfl, rfl⟩
    · exact hpair
    · exact hpair
  | unexpected hno hspace =>
    have hletter : ¬Text.isLetter b = true := by
      intro hb
      exact hno _ [b] (.word hb rfl fun _ => Nat.succ_le_succ (Nat.zero_le _)) rfl
    have hdigit : ¬Text.isDigit b = true := by
      intro hb
      exact hno _ [b] (.number hb rfl) rfl
    have hmark : ∀ (kind : Kind) (c : UInt8) (r : Text), (kind, c :: r) ∈ marks → ¬b = c := by
      intro kind c r hm hb
      exact hno kind (c :: r) (.mark hm) (congrArg some hb.symm)
    rw [lexeme, if_neg hletter, if_neg hdigit, if_neg (hmark .lParen 40 [] (by decide)),
      if_neg (hmark .rParen 41 [] (by decide)), if_neg (hmark .semiColon 59 [] (by decide)),
      if_neg (hmark .comma 44 [] (by decide)), if_neg (hmark .plusOp 43 [] (by decide)),
      if_neg (hmark .equalOp 61 [] (by decide)), if_neg (hmark .minusOp 45 [] (by decide)),
      if_neg (hmark .assignOp 58 [61] (by decide)), if_neg (hmark .exponentOp 42 [42] (by decide))]

theorem Malformed.gap_eq_zero {fault : Fault} {t : Text} (h : Malformed fault t) : gap false t = 0 := by
  cases h with
  | overlong hb => exact gap_of_isWordByte (isWordByte_of_isLetter hb)
  | unpaired hm =>
    simp only [marks, List.mem_cons, Prod.mk.injEq, List.cons.injEq, List.cons_ne_nil, and_false,
      and_true, List.not_mem_nil, or_false, false_or] at hm
    rcases hm with ⟨rfl, rfl, rfl⟩ | ⟨rfl, rfl, rfl⟩
    · rfl
    · rfl
  | @unexpected b u hno hspace =>
    have hminus : b ≠ 45 := by
      intro hb
      exact hno .minusOp [45] (.mark (by decide)) (congrArg some hb.symm)
    rw [gap, if_neg Bool.false_ne_true, if_neg (by rw [hspace]; exact Bool.false_ne_true), if_neg]
    simp only [hminus, decide_false, Bool.false_and, Bool.false_eq_true, not_false_eq_true]

/-- A scanned lexeme is the longest one. -/
theorem ends_of_lexeme_eq_ok {kind : Kind} {b : UInt8} {r u : Text}
    (h : lexeme b (r ++ u) = .ok (kind, b :: r)) (hgap : gap false (b :: (r ++ u)) = 0) :
    kind.Ends u := by
  have hrest : ∀ {p : UInt8 → Bool}, (r ++ u).takeWhile p = r → ∀ c ∈ u.head?, p c = false := by
    intro p hrun
    have hu : u = (r ++ u).dropWhile p := by
      have hsplit := List.takeWhile_append_dropWhile (p := p) (l := r ++ u)
      rw [hrun] at hsplit
      exact (List.append_cancel_left hsplit).symm
    rw [hu]
    exact head?_dropWhile_eq_false _
  have hlexeme := (lexeme_of_lexeme_eq_ok h).1
  generalize hl : b :: r = literal at hlexeme
  cases hlexeme with
  | word hb =>
    cases hl
    simp only [lexeme, hb, if_true] at h
    refine of_ite_eq (fun _ h => by cases h) (fun _ h => ?_) h
    have hrun : (r ++ u).takeWhile isWordByte = r :=
      (List.cons.inj (congrArg Prod.snd (Except.ok.inj h))).2
    intro c hc
    rw [Kind.extendedBy_ofWord]
    exact hrest hrun c hc
  | number hb =>
    cases hl
    simp only [lexeme, isLetter_eq_false_of_isDigit hb, Bool.false_eq_true, if_false, hb, if_true] at h
    exact hrest (List.cons.inj (congrArg Prod.snd (Except.ok.inj h))).2
  | mark hm =>
    subst hl
    simp only [marks, List.mem_cons, Prod.mk.injEq, List.cons.injEq, List.not_mem_nil, or_false] at hm
    rcases hm with hm | hm | hm | hm | hm | hm | hm | hm | hm <;> obtain ⟨rfl, rfl, rfl⟩ := hm
    case inr.inr.inr.inr.inr.inr.inl =>
      -- a second minus would have started a comment
      intro c hc
      obtain ⟨u, rfl⟩ := List.head?_eq_some_iff.1 (Option.mem_def.1 hc)
      refine beq_eq_false_iff_ne.2 ?_
      rintro rfl
      rw [List.nil_append, gap_minus] at hgap
      omega
    all_goals exact fun c _ => rfl

/-! ### Readings -/

/-- How a text behind another one is read: gaps and lexemes in turn, up to a final gap or to a text that
starts no token. -/
inductive Reading (filename : Text) : Text → Text → Stream → Prop
  | eof {before g : Text} : Gap true g →
      Reading filename before g ⟨[], .eof { kind := .eofSym, pos := .behind filename (before ++ g) }⟩
  | fault {before g rest : Text} {fault : Fault} : Gap false g → Malformed fault rest →
      Reading filename before (g ++ rest) ⟨[], .fault ⟨.behind filename (before ++ g), fault⟩⟩
  | token {before g literal rest : Text} {kind : Kind} {stream : Stream} : Gap false g →
      Lexeme kind literal → kind.Ends rest → Reading filename (before ++ g ++ literal) rest stream →
      Reading filename before (g ++ (literal ++ rest))
        (stream.cons { kind, literal, pos := .behind filename (before ++ g) })

namespace Cursor

variable (filename : Text) {before g : Text}

theorem skip_gap_between (before : Text) {r : Text} (hg : Gap r.isEmpty g) (hr : gap false r = 0) :
    (between before (g ++ r)).skip (gap false (g ++ r)) = between (before ++ g) r := by
  rw [gap_append hg hr, skip_between]

theorem scan_between_end (hg : Gap true g) : (between before g).scan filename =
    .ok ({ kind := .eofSym, pos := .behind filename (before ++ g) }, between (before ++ g) []) := by
  have hhere := skip_gap_between before (r := []) hg rfl
  rw [List.append_nil] at hhere
  show scan filename (between before g) = _
  simp only [scan, show (between before g).rest = g from rfl, hhere]
  rfl

theorem scan_between_fault {b : UInt8} {t : Text} {fault : Fault} (hg : Gap false g)
    (hr : gap false (b :: t) = 0) (hlex : lexeme b t = .error fault) :
    (between before (g ++ b :: t)).scan filename = .error ⟨.behind filename (before ++ g), fault⟩ := by
  have hhere := skip_gap_between before (r := b :: t) hg hr
  simp only [scan, show (between before (g ++ b :: t)).rest = g ++ b :: t from rfl, hhere,
    show (between (before ++ g) (b :: t)).rest = b :: t from rfl, hlex]
  rfl

theorem scan_between_token {kind : Kind} {literal rest : Text} (hg : Gap false g)
    (hlexeme : Lexeme kind literal) (hends : kind.Ends rest) :
    (between before (g ++ (literal ++ rest))).scan filename =
      .ok ({ kind, literal, pos := .behind filename (before ++ g) },
        between (before ++ g ++ literal) rest) := by
  obtain ⟨b, r, rfl⟩ := List.exists_cons_of_ne_nil hlexeme.ne_nil
  have hgap := gap_lexeme_append hlexeme hends
  have hhere := skip_gap_between before (r := b :: (r ++ rest)) hg hgap
  simp only [List.cons_append, scan, show (between before (g ++ b :: (r ++ rest))).rest =
    g ++ b :: (r ++ rest) from rfl, hhere,
    show (between (before ++ g) (b :: (r ++ rest))).rest = b :: (r ++ rest) from rfl,
    lexeme_append hlexeme hends]
  rw [← List.cons_append, skip_between]
  rfl

end Cursor

namespace Reading

variable {filename : Text}

/-- A reading is what scanning finds. -/
theorem eq_ofCursor {before rest : Text} {s : Stream} (h : Reading filename before rest s) :
    s = Stream.ofCursor filename (.between before rest) := by
  induction h with
  | eof hg => rw [Stream.ofCursor_of_eof (Cursor.scan_between_end filename hg) rfl]
  | @fault before g rest fault hg hrest =>
    cases rest with
    | nil => cases hrest
    | cons b t =>
      rw [Stream.ofCursor_of_error
        (Cursor.scan_between_fault filename hg hrest.gap_eq_zero hrest.lexeme_eq_error)]
  | token hg hlexeme hends _ ih =>
    rw [Stream.ofCursor_of_token (Cursor.scan_between_token filename hg hlexeme hends)
      hlexeme.ne_eofSym, ih]

/-- Whatever scanning finds is a reading. -/
theorem ofCursor (before rest : Text) :
    Reading filename before rest (Stream.ofCursor filename (.between before rest)) := by
  induction hn : rest.length using Nat.strongRecOn generalizing before rest with
  | ind n ih =>
    subst hn
    obtain ⟨g, r, rfl, hg, hr⟩ := exists_gap rest
    cases r with
    | nil =>
      rw [List.append_nil, Stream.ofCursor_of_eof (Cursor.scan_between_end filename hg) rfl]
      exact .eof hg
    | cons b t =>
      cases hlex : lexeme b t with
      | error fault =>
        have hspace : isSpace b = false := by
          cases hb : isSpace b with
          | false => rfl
          | true =>
            rw [gap_space hb] at hr
            omega
        rw [Stream.ofCursor_of_error (Cursor.scan_between_fault filename hg hr hlex)]
        exact .fault hg (malformed_of_lexeme_eq_error hlex hspace)
      | ok found =>
        obtain ⟨kind, literal⟩ := found
        obtain ⟨hlexeme, u, hu⟩ := lexeme_of_lexeme_eq_ok hlex
        obtain ⟨c, r, rfl⟩ := List.exists_cons_of_ne_nil hlexeme.ne_nil
        rw [List.cons_append] at hu
        obtain ⟨rfl, rfl⟩ := List.cons.inj hu
        have hends := ends_of_lexeme_eq_ok hlex hr
        rw [← List.cons_append, Stream.ofCursor_of_token
          (Cursor.scan_between_token filename hg hlexeme hends) hlexeme.ne_eofSym]
        refine .token hg hlexeme hends (ih u.length ?_ _ u rfl)
        simp only [List.length_append, List.length_cons]
        omega

variable {before rest : Text} {s : Stream}

/-- A token of a reading has the bytes that stand at its place, and it ends there. -/
theorem token_of_mem (h : Reading filename before rest s) {tok : Token} (htok : tok ∈ s.tokens) :
    ∃ front u, rest = front ++ (tok.literal ++ u) ∧ tok.pos = .behind filename (before ++ front) ∧
      Lexeme tok.kind tok.literal ∧ tok.kind.Ends u := by
  induction h with
  | eof => cases htok
  | fault => cases htok
  | @token before g literal rest kind stream _ hlexeme hends _ ih =>
    rcases List.mem_cons.1 htok with rfl | htok
    · exact ⟨g, rest, rfl, rfl, hlexeme, hends⟩
    · obtain ⟨front, u, rfl, hpos, hrest⟩ := ih htok
      refine ⟨g ++ literal ++ front, u, ?_, ?_, hrest⟩
      · simp only [List.append_assoc]
      · rw [hpos]
        simp only [List.append_assoc]

/-- The end of a reading is the end of the text. -/
theorem eof_of_ending (h : Reading filename before rest s) {tok : Token} (htok : s.ending = .eof tok) :
    tok = { kind := .eofSym, pos := .behind filename (before ++ rest) } := by
  induction h with
  | eof =>
    cases htok
    rfl
  | fault => cases htok
  | token _ _ _ _ ih =>
    rw [ih htok]
    simp only [List.append_assoc]

/-- Where a reading fails, the text starts no token. -/
theorem fault_of_ending (h : Reading filename before rest s) {e : LexicalError}
    (he : s.ending = .fault e) :
    ∃ front u, rest = front ++ u ∧ e.pos = .behind filename (before ++ front) ∧ Malformed e.fault u := by
  induction h with
  | eof => cases he
  | @fault before g rest fault _ hrest =>
    cases he
    exact ⟨g, rest, rfl, rfl, hrest⟩
  | @token before g literal rest kind stream _ _ _ _ ih =>
    obtain ⟨front, u, rfl, hpos, hrest⟩ := ih he
    refine ⟨g ++ literal ++ front, u, ?_, ?_, hrest⟩
    · simp only [List.append_assoc]
    · rw [hpos]
      simp only [List.append_assoc]

end Reading

/-- A source has one reading, the stream of its tokens. -/
theorem reading_iff (filename src : Text) (s : Stream) :
    Reading filename [] src s ↔ s = Stream.ofSource filename src := by
  constructor
  · exact Reading.eq_ofCursor
  · rintro rfl
    exact Reading.ofCursor [] src

/-- Where a lexeme stands and ends, the text does not fail to start a token. -/
theorem Lexeme.not_malformed {kind : Kind} {literal u : Text} (h : Lexeme kind literal)
    (hu : kind.Ends u) (fault : Fault) : ¬Malformed fault (literal ++ u) := by
  intro hbad
  obtain ⟨b, r, rfl⟩ := List.exists_cons_of_ne_nil h.ne_nil
  rw [List.cons_append] at hbad
  have hok := lexeme_append h hu
  rw [hbad.lexeme_eq_error] at hok
  cases hok

/-! ### The order of places -/

theorem Position.offset_behind (filename before : Text) :
    (behind filename before).offset = before.length := rfl

theorem Cursor.position_skip (filename : Text) {src : Text} {n : Nat} (hn : n ≤ src.length) :
    (Cursor.skip n { rest := src }).position filename = .behind filename (src.take n) := by
  have hskip := skip_between [] (src.take n) (src.drop n)
  rw [List.take_append_drop, List.length_take_of_le hn, List.nil_append] at hskip
  exact (congrArg (position filename) hskip).trans (position_between filename _ _)

namespace Stream

/-- Every place lies behind a beginning of the source. -/
theorem place_of_mem {filename src : Text} {p : Position} (hp : p ∈ (ofSource filename src).places) :
    ∃ n ≤ src.length, p = .behind filename (src.take n) := by
  obtain ⟨n, hn, rfl⟩ := exists_skip_of_mem_places hp
  exact ⟨n, hn, Cursor.position_skip filename hn⟩

/-- One place is before another exactly if its offset is smaller. -/
theorem before_iff_of_mem {filename src : Text} {p q : Position}
    (hp : p ∈ (ofSource filename src).places) (hq : q ∈ (ofSource filename src).places) :
    p.before q = true ↔ p.offset < q.offset := by
  have hlt : ∀ {m n : Nat}, m < n → n ≤ src.length →
      (Position.behind filename (src.take m)).before (.behind filename (src.take n)) = true := by
    intro m n hmn hn
    rw [← Cursor.position_skip filename hn, ← Cursor.position_skip filename (by omega : m ≤ src.length)]
    exact Cursor.before_position_skip filename hmn hn
  obtain ⟨m, hm, rfl⟩ := place_of_mem hp
  obtain ⟨n, hn, rfl⟩ := place_of_mem hq
  rw [Position.offset_behind, Position.offset_behind, List.length_take_of_le hm, List.length_take_of_le hn,
    Int.ofNat_lt]
  constructor
  · intro hbefore
    rcases Nat.lt_trichotomy m n with h | rfl | h
    · exact h
    · rw [Position.before_irrefl] at hbefore
      cases hbefore
    · have hself := Position.before_trans hbefore (hlt h hm)
      rw [Position.before_irrefl] at hself
      cases hself
  · intro h
    exact hlt h hn

/-- What a stream of tokens says about the source that it was scanned from. -/
structure Tokenizes (filename src : Text) (s : Stream) : Prop where
  /-- Gaps and lexemes in turn make up the source, up to a final gap or to where no token starts, and
  no other stream is read from it in this way. -/
  reading : ∀ s' : Stream, Reading filename [] src s' ↔ s' = s
  /-- A token is the text at its place, it ends where that text does, and a token starts there. -/
  token : ∀ tok ∈ s.tokens, ∃ before rest, src = before ++ (tok.literal ++ rest) ∧
    tok.pos = .behind filename before ∧ Lexeme tok.kind tok.literal ∧ tok.kind.Ends rest ∧
    ∀ fault, ¬Malformed fault (tok.literal ++ rest)
  /-- The end is behind the whole source. -/
  eof : ∀ tok, s.ending = .eof tok → tok = { kind := .eofSym, pos := .behind filename src }
  /-- A fault is where the text starts no token, and says why. -/
  fault : ∀ e, s.ending = .fault e → ∃ before rest, src = before ++ rest ∧
    e.pos = .behind filename before ∧ Malformed e.fault rest
  /-- Every place is counted from the beginning of the source. -/
  place : ∀ p ∈ s.places, ∃ n ≤ src.length, p = .behind filename (src.take n)
  /-- The order of places by line and column is that of their offsets. -/
  order : ∀ p ∈ s.places, ∀ q ∈ s.places, p.before q = true ↔ p.offset < q.offset

theorem tokenizes_ofSource (filename src : Text) : (ofSource filename src).Tokenizes filename src := by
  have hreading := (reading_iff filename src _).2 rfl
  refine ⟨reading_iff filename src, ?_, ?_, ?_, fun p => place_of_mem, fun p hp q => before_iff_of_mem hp⟩
  · intro tok htok
    obtain ⟨before, rest, hsrc, hpos, hlexeme, hends⟩ := hreading.token_of_mem htok
    exact ⟨before, rest, hsrc, hpos, hlexeme, hends, hlexeme.not_malformed hends⟩
  · intro tok htok
    exact hreading.eof_of_ending htok
  · intro e he
    exact hreading.fault_of_ending he

end Stream

/-- Repeated scans deliver the tokens of the source and then its ending again and again, and the tokens
are those of the one reading of the source as gaps and lexemes. -/
theorem scanning_is_lossless (filename src : Text) :
    (∀ n, (Lookahead.ofSource filename src).replies (List.replicate n .scan) =
      (List.range n).map fun k => .scanned ((Stream.ofSource filename src).raw k)) ∧
    (Stream.ofSource filename src).Tokenizes filename src := by
  refine ⟨fun n => ?_, Stream.tokenizes_ofSource filename src⟩
  rw [List.range_eq_range']
  exact Lookahead.replies_scan rfl n

end MicroLang
