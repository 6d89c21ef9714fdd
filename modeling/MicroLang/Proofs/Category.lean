import MicroLang.Proofs.Phrase

/-!
# Syntactic categories

A category is a set of phrases that can be recognised with one word of lookahead.  It knows by which
kinds its phrases start and which kinds would continue a phrase, so that none of them may stand
behind it.  Where no such word follows, the words of a phrase can be cut off a text in one way only.

Categories are put together in two ways: one phrase behind another, and a phrase with an optional tail.
Both ways ask for what makes one word of lookahead enough: the kinds that continue the first part do
not start the second.
-/

namespace MicroLang

/-- The first word of a text, if it has one, does not continue a phrase. -/
def Stops (continues : Kind → Bool) (u : List Word) : Prop :=
  ∀ w ∈ u.head?, continues w.kind = false

theorem stops_cons {continues : Kind → Bool} {w : Word} {u : List Word} :
    Stops continues (w :: u) ↔ continues w.kind = false := by
  constructor
  · intro h
    exact h w rfl
  · intro h v hv
    cases hv
    exact h

/-- A set of phrases that one word of lookahead tells apart. -/
structure Category (α : Type) where
  words : α → List Word
  /-- The kinds that a phrase starts with. -/
  starts : Kind → Bool
  /-- The kinds that may not follow a phrase, because they would belong to it. -/
  continues : Kind → Bool
  sample : α
  starts_words : ∀ a, ∃ w rest, words a = w :: rest ∧ starts w.kind = true
  unique : ∀ {a a' : α} {u u' : List Word}, words a ++ u = words a' ++ u' →
    Stops continues u → Stops continues u' → words a = words a'
  writable_sample : ∀ w ∈ words sample, w.Writable

namespace Category

variable {α β : Type}

theorem length_words_pos (C : Category α) (a : α) : 0 < (C.words a).length := by
  obtain ⟨w, rest, hw, _⟩ := C.starts_words a
  rw [hw]
  exact Nat.succ_pos _

/-- No phrase, followed by anything that does not continue it, starts with these words. -/
def Excludes (C : Category α) (l : List Word) : Prop :=
  ∀ a u, Stops C.continues u → ¬l <+: C.words a ++ u

/-- Some phrase that can be written starts with the kind. -/
def Offers (C : Category α) (k : Kind) : Prop :=
  ∃ a w rest, C.words a = w :: rest ∧ w.kind = k ∧ ∀ v ∈ C.words a, v.Writable

/-- Anything may follow phrases that nothing continues. -/
theorem apart_never {C : Category α} {D : Category β} (h : ∀ k, C.continues k = false) :
    ∀ k, C.continues k = true → D.starts k = false := by
  intro k hk
  rw [h] at hk
  cases hk

/-- What does not continue a phrase may follow it. -/
theorem apart_kind {C : Category α} {k : Kind} (h : C.continues k = false) :
    ∀ k', C.continues k' = true → decide (k' = k) = false := by
  intro k' hk'
  refine decide_eq_false fun heq => ?_
  rw [heq, h] at hk'
  cases hk'

/-- What follows a phrase is free of its continuations when a phrase of the other category is there. -/
theorem stops_words_append {C : Category α} {D : Category β}
    (apart : ∀ k, C.continues k = true → D.starts k = false) (b : β) (u : List Word) :
    Stops C.continues (D.words b ++ u) := by
  obtain ⟨w, rest, hw, hstart⟩ := D.starts_words b
  rw [hw, List.cons_append, stops_cons]
  cases hc : C.continues w.kind with
  | false => rfl
  | true =>
    have hno := apart w.kind hc
    rw [hstart] at hno
    cases hno

/-- A phrase and behind it another. -/
def seq (C : Category α) (D : Category β) (apart : ∀ k, C.continues k = true → D.starts k = false) :
    Category (α × β) where
  words p := C.words p.1 ++ D.words p.2
  starts := C.starts
  continues := D.continues
  sample := (C.sample, D.sample)
  starts_words p := by
    obtain ⟨w, rest, hw, hstart⟩ := C.starts_words p.1
    exact ⟨w, rest ++ D.words p.2, by rw [hw, List.cons_append], hstart⟩
  unique := by
    intro p p' u u' h hu hu'
    rw [List.append_assoc, List.append_assoc] at h
    have hfirst := C.unique h (stops_words_append apart p.2 u) (stops_words_append apart p'.2 u')
    rw [hfirst] at h
    have hsecond := D.unique (List.append_cancel_left h) hu hu'
    rw [hfirst, hsecond]
  writable_sample w hw := by
    rcases List.mem_append.1 hw with hw | hw
    · exact C.writable_sample w hw
    · exact D.writable_sample w hw

section

variable {C : Category α} {D : Category β} {l : List Word}

theorem Excludes.seq_left (apart : ∀ k, C.continues k = true → D.starts k = false)
    (h : C.Excludes l) : (C.seq D apart).Excludes l := by
  intro p u _ hl
  rw [show (C.seq D apart).words p = C.words p.1 ++ D.words p.2 from rfl, List.append_assoc] at hl
  exact h p.1 _ (stops_words_append apart p.2 u) hl

theorem Excludes.seq_right (apart : ∀ k, C.continues k = true → D.starts k = false) {a : α}
    {w : Word} (hw : C.continues w.kind = false) (h : D.Excludes (w :: l)) :
    (C.seq D apart).Excludes (C.words a ++ w :: l) := by
  rintro p u hu ⟨z, hz⟩
  rw [show (C.seq D apart).words p = C.words p.1 ++ D.words p.2 from rfl, List.append_assoc,
    List.append_assoc] at hz
  have hfirst := C.unique hz (stops_cons.2 hw) (stops_words_append apart p.2 u)
  rw [hfirst] at hz
  exact h p.2 u hu ⟨z, List.append_cancel_left hz⟩

end

/-- The words of an optional phrase. -/
def optional (D : Category β) : Option β → List Word
  | none => []
  | some b => D.words b

theorem stops_optional_append {C : Category α} {D : Category β}
    (apart : ∀ k, C.continues k = true → D.starts k = false)
    (joined : ∀ k, D.continues k = (D.starts k || C.continues k)) (o : Option β) {u : List Word}
    (hu : Stops D.continues u) : Stops C.continues (D.optional o ++ u) := by
  cases o with
  | none =>
    intro w hw
    have hw' := hu w hw
    rw [joined, Bool.or_eq_false_iff] at hw'
    exact hw'.2
  | some b => exact stops_words_append apart b u

/-- A phrase and perhaps another behind it, which is there whenever a word that starts it is. -/
def withTail (C : Category α) (D : Category β) (apart : ∀ k, C.continues k = true → D.starts k = false)
    (joined : ∀ k, D.continues k = (D.starts k || C.continues k)) : Category (α × Option β) where
  words p := C.words p.1 ++ D.optional p.2
  starts := C.starts
  continues := D.continues
  sample := (C.sample, none)
  starts_words p := by
    obtain ⟨w, rest, hw, hstart⟩ := C.starts_words p.1
    exact ⟨w, rest ++ D.optional p.2, by rw [hw, List.cons_append], hstart⟩
  unique := by
    have hstops : ∀ (o : Option β) {u : List Word}, Stops D.continues u →
        Stops C.continues (D.optional o ++ u) := stops_optional_append apart joined
    -- a tail on one side only would have to start with a word that the other side excludes
    have hnone : ∀ {b : β} {u u' : List Word}, u = D.words b ++ u' → Stops D.continues u → False := by
      intro b u u' h hu
      obtain ⟨w, rest, hw, hstart⟩ := D.starts_words b
      rw [h, hw, List.cons_append, stops_cons, joined, hstart] at hu
      cases hu
    rintro ⟨a, o⟩ ⟨a', o'⟩ u u' h hu hu'
    rw [List.append_assoc, List.append_assoc] at h
    have hfirst := C.unique h (hstops o hu) (hstops o' hu')
    rw [hfirst] at h
    have hrest := List.append_cancel_left h
    cases o with
    | none =>
      cases o' with
      | none => rw [hfirst]
      | some b' => exact (hnone hrest hu).elim
    | some b =>
      cases o' with
      | none => exact (hnone hrest.symm hu').elim
      | some b' =>
        show C.words a ++ D.words b = C.words a' ++ D.words b'
        rw [hfirst, D.unique hrest hu hu']
  writable_sample w hw := by
    rcases List.mem_append.1 hw with hw | hw
    · exact C.writable_sample w hw
    · cases hw

section

variable {C : Category α} {D : Category β} {l : List Word}

theorem Excludes.withTail_left (apart : ∀ k, C.continues k = true → D.starts k = false)
    (joined : ∀ k, D.continues k = (D.starts k || C.continues k)) (h : C.Excludes l) :
    (C.withTail D apart joined).Excludes l := by
  intro p u hu hl
  rw [show (C.withTail D apart joined).words p = C.words p.1 ++ D.optional p.2 from rfl,
    List.append_assoc] at hl
  exact h p.1 _ (stops_optional_append apart joined p.2 hu) hl

theorem Excludes.withTail_right (apart : ∀ k, C.continues k = true → D.starts k = false)
    (joined : ∀ k, D.continues k = (D.starts k || C.continues k)) {a : α} {w : Word}
    (hw : C.continues w.kind = false) (hstart : D.starts w.kind = true) (h : D.Excludes (w :: l)) :
    (C.withTail D apart joined).Excludes (C.words a ++ w :: l) := by
  rintro ⟨a', o⟩ u hu ⟨z, hz⟩
  rw [show (C.withTail D apart joined).words (a', o) = C.words a' ++ D.optional o from rfl,
    List.append_assoc, List.append_assoc] at hz
  have hfirst := C.unique hz (stops_cons.2 hw) (stops_optional_append apart joined o hu)
  rw [hfirst] at hz
  have hrest := List.append_cancel_left hz
  cases o with
  | none =>
    rw [show D.optional none ++ u = u from rfl, List.cons_append] at hrest
    rw [← hrest, show (C.withTail D apart joined).continues = D.continues from rfl, stops_cons,
      joined, hstart] at hu
    cases hu
  | some b => exact h b u hu ⟨z, hrest⟩

end

end Category

/-! ### Unique reading of phrases -/

mutual

/-- The words of an expression are cut off a text in one way, if no operator follows. -/
theorem Expr.eq_of_words_append {u u' : List Word} : ∀ (e e' : Expr),
    e.words ++ u = e'.words ++ u' → Stops Kind.isAddOp u → Stops Kind.isAddOp u' → e = e'
  | .single p, .single p', h, _, _ => by
    rw [Expr.words, Expr.words] at h
    rw [Primary.eq_of_words_append p p' h]
  | .single p, .chain p' op' e', h, hu, _ => by
    rw [Expr.words, Expr.words, List.append_assoc] at h
    have hp := Primary.eq_of_words_append p p' h
    subst hp
    rw [List.append_cancel_left h, AddOp.words] at hu
    have hop := stops_cons.1 hu
    cases op' <;> cases hop
  | .chain p op e, .single p', h, _, hu' => by
    rw [Expr.words, Expr.words, List.append_assoc] at h
    have hp := Primary.eq_of_words_append p p' h
    subst hp
    rw [← List.append_cancel_left h, AddOp.words] at hu'
    have hop := stops_cons.1 hu'
    cases op <;> cases hop
  | .chain p op e, .chain p' op' e', h, hu, hu' => by
    simp only [Expr.words, List.append_assoc] at h
    have hp := Primary.eq_of_words_append p p' h
    subst hp
    have hrest := List.append_cancel_left h
    rw [AddOp.words, AddOp.words] at hrest
    obtain ⟨hop, he⟩ := List.cons.inj hrest
    rw [Expr.eq_of_words_append e e' he hu hu']
    cases op <;> cases op' <;> first | rfl | cases hop

/-- The words of a primary are cut off a text in one way. -/
theorem Primary.eq_of_words_append {u u' : List Word} : ∀ (p p' : Primary),
    p.words ++ u = p'.words ++ u' → p = p'
  | .paren e, .paren e', h => by
    rw [Primary.words, Primary.words, List.cons_append, List.cons_append, List.append_assoc,
      List.append_assoc] at h
    rw [Expr.eq_of_words_append e e' (List.cons.inj h).2 (stops_cons.2 rfl) (stops_cons.2 rfl)]
  | .name x, .name x', h => by
    cases (List.cons.inj h).1
    rfl
  | .number d, .number d', h => by
    cases (List.cons.inj h).1
    rfl
  | .paren _, .name _, h | .paren _, .number _, h | .name _, .paren _, h | .name _, .number _, h
  | .number _, .paren _, h | .number _, .name _, h => by
    rw [Primary.words, Primary.words] at h
    cases (List.cons.inj h).1

end

/-- The words of a series are cut off a text in one way, if neither another item nor a continuation of
the last one follows. -/
theorem Series.eq_of_words_append {α : Type} {item : α → List Word} {separator : List Word}
    (more continues : Kind → Bool)
    (hitem : ∀ {a a' : α} {u u' : List Word}, item a ++ u = item a' ++ u' →
      Stops continues u → Stops continues u' → a = a')
    (hmore : ∀ a, ∃ w rest, separator ++ item a = w :: rest ∧ more w.kind = true ∧
      continues w.kind = false)
    {u u' : List Word} {s s' : Series α} (h : s.words separator item ++ u = s'.words separator item ++ u')
    (hu : Stops (fun k => more k || continues k) u) (hu' : Stops (fun k => more k || continues k) u') :
    s = s' := by
  obtain ⟨a, rest⟩ := s
  obtain ⟨a', rest'⟩ := s'
  have hstops : ∀ (as : List α) {v : List Word}, Stops (fun k => more k || continues k) v →
      Stops continues ((as.flatMap fun b => separator ++ item b) ++ v) := by
    intro as v hv
    cases as with
    | nil => exact fun w hw => (Bool.or_eq_false_iff.1 (hv w hw)).2
    | cons b as =>
      obtain ⟨w, tail, hw, _, hno⟩ := hmore b
      rw [List.flatMap_cons, hw, List.cons_append, List.cons_append, stops_cons]
      exact hno
  have hnil : ∀ {b : α} {as : List α} {v v' : List Word}, Stops (fun k => more k || continues k) v →
      v = (b :: as).flatMap (fun b => separator ++ item b) ++ v' → False := by
    intro b as v v' hv hvv
    obtain ⟨w, tail, hw, hyes, _⟩ := hmore b
    rw [hvv, List.flatMap_cons, hw, List.cons_append, List.cons_append, stops_cons, hyes] at hv
    cases hv
  rw [words, words, List.append_assoc, List.append_assoc] at h
  -- the first items agree, and what is left is again a series behind its separator
  induction rest generalizing a a' rest' with
  | nil =>
    have hfirst := hitem h (hstops [] hu) (hstops rest' hu')
    subst hfirst
    cases rest' with
    | nil => rfl
    | cons b' rest' => exact (hnil hu (List.append_cancel_left h)).elim
  | cons b rest ih =>
    have hfirst := hitem h (hstops (b :: rest) hu) (hstops rest' hu')
    subst hfirst
    have hrest := List.append_cancel_left h
    cases rest' with
    | nil => exact (hnil hu' hrest.symm).elim
    | cons b' rest' =>
      rw [List.flatMap_cons, List.flatMap_cons] at hrest
      simp only [List.append_assoc] at hrest
      have hlater := ih b b' rest' (List.append_cancel_left hrest)
      cases hlater
      rfl

theorem Series.eq_of_names_append {u u' : List Word} {xs xs' : Series Text}
    (h : xs.listed nameWords ++ u = xs'.listed nameWords ++ u')
    (hu : Stops (fun k => decide (k = .comma)) u) (hu' : Stops (fun k => decide (k = .comma)) u') :
    xs = xs' := by
  refine Series.eq_of_words_append (fun k => decide (k = .comma)) (fun _ => false) ?_ ?_ h ?_ ?_
  · intro x x' v v' hx _ _
    cases (List.cons.inj hx).1
    rfl
  · exact fun x => ⟨_, _, rfl, rfl, rfl⟩
  · exact fun w hw => Bool.or_eq_false_iff.2 ⟨hu w hw, rfl⟩
  · exact fun w hw => Bool.or_eq_false_iff.2 ⟨hu' w hw, rfl⟩

theorem Series.eq_of_expressions_append {u u' : List Word} {es es' : Series Expr}
    (h : es.listed Expr.words ++ u = es'.listed Expr.words ++ u')
    (hu : Stops (fun k => decide (k = .comma) || k.isAddOp) u)
    (hu' : Stops (fun k => decide (k = .comma) || k.isAddOp) u') : es = es' := by
  refine Series.eq_of_words_append (fun k => decide (k = .comma)) Kind.isAddOp ?_ ?_ h hu hu'
  · exact fun {e e' v v'} => Expr.eq_of_words_append e e'
  · exact fun e => ⟨_, _, rfl, rfl, rfl⟩

/-- The words of a statement are cut off a text in one way. -/
theorem Statement.eq_of_words_append {u u' : List Word} (s s' : Statement)
    (h : s.words ++ u = s'.words ++ u') : s = s' := by
  cases s with
  | assign x e =>
    cases s' with
    | assign x' e' =>
      simp only [Statement.words, List.cons_append, List.append_assoc, List.cons.injEq, Word.mk.injEq,
        true_and] at h
      obtain ⟨rfl, h⟩ := h
      rw [Expr.eq_of_words_append e e' h (stops_cons.2 rfl) (stops_cons.2 rfl)]
    | read _ => cases (List.cons.inj h).1
    | write _ => cases (List.cons.inj h).1
  | read xs =>
    cases s' with
    | read xs' =>
      simp only [Statement.words, List.cons_append, List.append_assoc, List.cons.injEq,
        true_and] at h
      rw [Series.eq_of_names_append h (stops_cons.2 rfl) (stops_cons.2 rfl)]
    | assign _ _ => cases (List.cons.inj h).1
    | write _ => cases (List.cons.inj h).1
  | write es =>
    cases s' with
    | write es' =>
      simp only [Statement.words, List.cons_append, List.append_assoc, List.cons.injEq,
        true_and] at h
      rw [Series.eq_of_expressions_append h (stops_cons.2 rfl) (stops_cons.2 rfl)]
    | assign _ _ => cases (List.cons.inj h).1
    | read _ => cases (List.cons.inj h).1

theorem Statement.words_starts (s : Statement) :
    ∃ w rest, s.words = w :: rest ∧ w.kind.isStatementStart = true := by
  cases s <;> exact ⟨_, _, rfl, rfl⟩

/-- The words of a list of statements are cut off a text in one way, if no statement follows. -/
theorem Series.eq_of_statements_append {u u' : List Word} {s s' : Series Statement}
    (h : s.words [] Statement.words ++ u = s'.words [] Statement.words ++ u')
    (hu : Stops Kind.isStatementStart u) (hu' : Stops Kind.isStatementStart u') : s = s' := by
  refine Series.eq_of_words_append Kind.isStatementStart (fun _ => false) ?_ ?_ h ?_ ?_
  · exact fun {t t' v v'} ht _ _ => Statement.eq_of_words_append t t' ht
  · intro t
    obtain ⟨w, rest, hw, hstart⟩ := t.words_starts
    exact ⟨w, rest, hw, hstart, rfl⟩
  · exact fun w hw => Bool.or_eq_false_iff.2 ⟨hu w hw, rfl⟩
  · exact fun w hw => Bool.or_eq_false_iff.2 ⟨hu' w hw, rfl⟩

/-- Different programs have different words. -/
theorem Program.eq_of_words {p p' : Program} (h : p.words = p'.words) : p = p' := by
  obtain ⟨s⟩ := p
  obtain ⟨s'⟩ := p'
  rw [Program.words, Program.words, List.cons.injEq] at h
  have hs : s = s' := Series.eq_of_statements_append h.2 (stops_cons.2 rfl) (stops_cons.2 rfl)
  rw [hs]

/-! ### The categories of the grammar -/

/-- A spelling of the kind. -/
def Kind.sample : Kind → Text
  | .beginSym => text "begin"
  | .endSym => text "end"
  | .readSym => text "read"
  | .writeSym => text "write"
  | .lParen => [40]
  | .rParen => [41]
  | .semiColon => [59]
  | .comma => [44]
  | .assignOp => [58, 61]
  | .plusOp => [43]
  | .minusOp => [45]
  | .equalOp => [61]
  | .exponentOp => [42, 42]
  | .id => [97]
  | .intLiteral => [48]
  | .eofSym | .unnamed _ => []

/-- The kinds that scanning delivers in front of the end. -/
def Kind.isScanned : Kind → Bool
  | .eofSym | .unnamed _ => false
  | _ => true

theorem Kind.lexeme_sample {k : Kind} (h : k.isScanned = true) : Lexeme k k.sample := by
  cases k with
  | eofSym => cases h
  | unnamed => cases h
  | beginSym => exact (lexeme_of_lexeme_eq_ok (b := 98) (t := [101, 103, 105, 110]) rfl).1
  | endSym => exact (lexeme_of_lexeme_eq_ok (b := 101) (t := [110, 100]) rfl).1
  | readSym => exact (lexeme_of_lexeme_eq_ok (b := 114) (t := [101, 97, 100]) rfl).1
  | writeSym => exact (lexeme_of_lexeme_eq_ok (b := 119) (t := [114, 105, 116, 101]) rfl).1
  | id => exact (lexeme_of_lexeme_eq_ok (b := 97) (t := []) rfl).1
  | intLiteral => exact (lexeme_of_lexeme_eq_ok (b := 48) (t := []) rfl).1
  | _ => exact .mark (by decide)

/-- The kinds whose tokens differ in nothing but spelling. -/
def Kind.isFixed (k : Kind) : Bool := k.isScanned && !k.isOpen

theorem Kind.isScanned_of_isFixed {k : Kind} (h : k.isFixed = true) : k.isScanned = true :=
  (Bool.and_eq_true_iff.1 h).1

theorem Kind.isOpen_of_isFixed {k : Kind} (h : k.isFixed = true) : k.isOpen = false := by
  have hopen := (Bool.and_eq_true_iff.1 h).2
  rw [Bool.not_eq_true'] at hopen
  exact hopen

theorem Kind.writable_of_isFixed {k : Kind} (h : k.isFixed = true) : Word.Writable { kind := k } :=
  ⟨{ kind := k, literal := k.sample }, lexeme_sample (isScanned_of_isFixed h),
    Token.word_of_closed (isOpen_of_isFixed h)⟩

theorem Kind.writable_of_isOpen {k : Kind} (h : k.isOpen = true) : Word.Writable ⟨k, k.sample⟩ := by
  refine ⟨{ kind := k, literal := k.sample }, lexeme_sample ?_, Token.word_of_open h⟩
  cases k <;> first | rfl | cases h

/-- A token of the kind, spelled as the kind asks for unless it leaves the spelling open. -/
structure Token.Fits (k : Kind) (tok : Token) : Prop where
  kind : tok.kind = k
  spelled : k.isOpen = false → Lexeme k tok.literal

theorem Token.Fits.word_of_closed {k : Kind} {tok : Token} (h : tok.Fits k) (hk : k.isOpen = false) :
    tok.word = { kind := k } := by
  rw [Token.word_of_closed (by rw [h.kind]; exact hk), h.kind]

theorem Token.Fits.word_of_open {k : Kind} {tok : Token} (h : tok.Fits k) (hk : k.isOpen = true) :
    tok.word = ⟨k, tok.literal⟩ := by
  rw [Token.word_of_open (by rw [h.kind]; exact hk), h.kind]

namespace Category

variable {α : Type}

/-- The tokens of one kind. -/
def terminal (k : Kind) (h : k.isScanned = true) : Category { tok : Token // tok.Fits k } where
  words t := [t.1.word]
  starts k' := decide (k' = k)
  continues _ := false
  sample := ⟨{ kind := k, literal := k.sample }, rfl, fun _ => Kind.lexeme_sample h⟩
  starts_words t := ⟨t.1.word, [], rfl, decide_eq_true t.2.kind⟩
  unique := by
    intro t t' u u' h _ _
    rw [(List.cons.inj h).1]
  writable_sample w hw := by
    rw [List.mem_singleton.1 hw]
    exact Token.writable_word (Kind.lexeme_sample h)

/-- One word of a fixed kind. -/
def symbol (k : Kind) (h : k.isFixed = true) : Category Unit where
  words _ := [{ kind := k }]
  starts k' := decide (k' = k)
  continues _ := false
  sample := ()
  starts_words _ := ⟨_, [], rfl, decide_eq_true rfl⟩
  unique := fun _ _ _ => rfl
  writable_sample w hw := by
    rw [List.mem_singleton.1 hw]
    exact Kind.writable_of_isFixed h

/-- The phrases of a category, each behind a word of a fixed kind. -/
def after (k : Kind) (h : k.isFixed = true) (D : Category α) : Category α where
  words a := { kind := k } :: D.words a
  starts k' := decide (k' = k)
  continues := D.continues
  sample := D.sample
  starts_words a := ⟨_, _, rfl, decide_eq_true rfl⟩
  unique := by
    intro a a' u u' h hu hu'
    rw [D.unique (List.cons.inj h).2 hu hu']
  writable_sample w hw := by
    rcases List.mem_cons.1 hw with rfl | hw
    · exact Kind.writable_of_isFixed h
    · exact D.writable_sample w hw

/-- Names. -/
def name : Category Text where
  words := nameWords
  starts k := decide (k = .id)
  continues _ := false
  sample := Kind.sample .id
  starts_words x := ⟨_, [], rfl, rfl⟩
  unique := by
    intro x x' u u' h _ _
    rw [nameWords, nameWords, (List.cons.inj h).1]
  writable_sample w hw := by
    rw [List.mem_singleton.1 hw]
    exact Kind.writable_of_isOpen rfl

/-- The additive operators. -/
def addOp : Category AddOp where
  words := AddOp.words
  starts := Kind.isAddOp
  continues _ := false
  sample := .plus
  starts_words op := ⟨_, [], rfl, by cases op <;> rfl⟩
  unique := by
    intro op op' u u' h _ _
    rw [AddOp.words, AddOp.words, (List.cons.inj h).1]
  writable_sample w hw := by
    rw [List.mem_singleton.1 hw]
    exact Kind.writable_of_isFixed (k := .plusOp) rfl

/-- The kinds that a primary starts with. -/
def startsPrimary : Kind → Bool
  | .lParen | .id | .intLiteral => true
  | _ => false

theorem startsPrimary_words (p : Primary) :
    ∃ w rest, p.words = w :: rest ∧ startsPrimary w.kind = true := by
  cases p <;> exact ⟨_, _, rfl, rfl⟩

def primary : Category Primary where
  words := Primary.words
  starts := startsPrimary
  continues _ := false
  sample := .number (Kind.sample .intLiteral)
  starts_words := startsPrimary_words
  unique := by
    intro p p' u u' h _ _
    rw [Primary.eq_of_words_append p p' h]
  writable_sample w hw := by
    rw [List.mem_singleton.1 hw]
    exact Kind.writable_of_isOpen rfl

/-- Expressions; an operator would continue one. -/
def expression : Category Expr where
  words := Expr.words
  starts := startsPrimary
  continues := Kind.isAddOp
  sample := .single primary.sample
  starts_words e := by
    cases e with
    | single p => exact startsPrimary_words p
    | chain p op e =>
      obtain ⟨w, rest, hw, hstart⟩ := startsPrimary_words p
      exact ⟨w, rest ++ (op.words ++ e.words), by rw [Expr.words, hw, List.cons_append], hstart⟩
  unique := by
    intro e e' u u' h hu hu'
    rw [Expr.eq_of_words_append e e' h hu hu']
  writable_sample := primary.writable_sample

/-- Names with commas; a comma would continue them. -/
def names : Category (Series Text) where
  words := Series.listed nameWords
  starts k := decide (k = .id)
  continues k := decide (k = .comma)
  sample := { first := name.sample }
  starts_words xs := ⟨_, _, rfl, rfl⟩
  unique := by
    intro xs xs' u u' h hu hu'
    rw [Series.eq_of_names_append h hu hu']
  writable_sample := name.writable_sample

/-- Expressions with commas; a comma or an operator would continue them. -/
def expressions : Category (Series Expr) where
  words := Series.listed Expr.words
  starts := startsPrimary
  continues k := decide (k = .comma) || k.isAddOp
  sample := { first := expression.sample }
  starts_words es := by
    obtain ⟨w, rest, hw, hstart⟩ := expression.starts_words es.first
    exact ⟨w, _, by rw [Series.listed, Series.words, show es.first.words = w :: rest from hw,
      List.cons_append], hstart⟩
  unique := by
    intro es es' u u' h hu hu'
    rw [Series.eq_of_expressions_append h hu hu']
  writable_sample w hw := by
    rw [Series.listed, Series.words, List.flatMap_nil, List.append_nil] at hw
    exact expression.writable_sample w hw

def statement : Category Statement where
  words := Statement.words
  starts := Kind.isStatementStart
  continues _ := false
  sample := .read names.sample
  starts_words := Statement.words_starts
  unique := by
    intro s s' u u' h _ _
    rw [Statement.eq_of_words_append s s' h]
  writable_sample w hw := by
    simp only [Statement.words, List.mem_cons, List.mem_append, List.not_mem_nil, or_false] at hw
    rcases hw with rfl | rfl | hw | rfl | rfl
    · exact Kind.writable_of_isFixed (k := .readSym) rfl
    · exact Kind.writable_of_isFixed (k := .lParen) rfl
    · exact names.writable_sample w hw
    · exact Kind.writable_of_isFixed (k := .rParen) rfl
    · exact Kind.writable_of_isFixed (k := .semiColon) rfl

/-- Statements in a row; another statement would continue them. -/
def statements : Category (Series Statement) where
  words := Series.words [] Statement.words
  starts := Kind.isStatementStart
  continues := Kind.isStatementStart
  sample := { first := statement.sample }
  starts_words s := by
    obtain ⟨w, rest, hw, hstart⟩ := s.first.words_starts
    exact ⟨w, _, by rw [Series.words, hw, List.cons_append], hstart⟩
  unique := by
    intro s s' u u' h hu hu'
    rw [Series.eq_of_statements_append h hu hu']
  writable_sample w hw := by
    rw [Series.words, List.flatMap_nil, List.append_nil] at hw
    exact statement.writable_sample w hw

def program : Category Program where
  words := Program.words
  starts k := decide (k = .beginSym)
  continues _ := false
  sample := { statements := statements.sample }
  starts_words p := ⟨_, _, rfl, rfl⟩
  unique := by
    intro p p' u u' h _ _
    simp only [Program.words, List.cons_append, List.append_assoc, List.cons.injEq, true_and] at h
    have hs := Series.eq_of_statements_append h (stops_cons.2 rfl) (stops_cons.2 rfl)
    rw [Program.words, Program.words, hs]
  writable_sample w hw := by
    simp only [Program.words, List.mem_cons, List.mem_append, List.not_mem_nil, or_false] at hw
    rcases hw with rfl | hw | rfl
    · exact Kind.writable_of_isFixed (k := .beginSym) rfl
    · exact statements.writable_sample w hw
    · exact Kind.writable_of_isFixed (k := .endSym) rfl

end Category

end MicroLang
