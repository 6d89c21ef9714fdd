import MicroLang.Listing
import MicroLang.Proofs.Emission

/-!
# Names and numbers in instructions

An operand is an identifier of the source, a number of the source or the name of a temporary.  The
three are told apart by their spelling: an identifier is a word, a number consists of digits, and the name
of a temporary has an ampersand in it.  Different temporaries have different names, because different
numbers have different numerals.

A phrase is well spelled if its names are identifiers and its numbers consist of digits.  Every phrase
whose words can be written is.
-/

namespace MicroLang

/-! ### Numerals -/

namespace Text

theorem toNat_byte {c : Char} (h : c.isDigit = true) : (UInt8.ofNat c.toNat).toNat = c.toNat := by
  have hrange : 48 ≤ c.toNat ∧ c.toNat ≤ 57 := Char.isDigit_iff_toNat.1 h
  rw [UInt8.toNat_ofNat', Nat.mod_eq_of_lt]
  omega

theorem isDigit_byte {c : Char} (h : c.isDigit = true) : isDigit (UInt8.ofNat c.toNat) = true := by
  have hrange : 48 ≤ c.toNat ∧ c.toNat ≤ 57 := Char.isDigit_iff_toNat.1 h
  simp only [isDigit, Bool.and_eq_true, decide_eq_true_eq, UInt8.le_iff_toNat_le, UInt8.reduceToNat,
    toNat_byte h]
  exact hrange

theorem all_isDigit_ofNat (n : Nat) : (ofNat n).all isDigit = true := by
  rw [ofNat, List.all_map, List.all_eq_true]
  intro c hc
  exact isDigit_byte (Nat.isDigit_of_mem_toDigits (by decide) (by decide) hc)

/-- A numeral denotes its number. -/
theorem toNat_ofNat (n : Nat) : toNat (ofNat n) = n := by
  have hfold : ∀ (l : List Char), (∀ c ∈ l, c.isDigit = true) → ∀ start : Nat,
      (l.map fun c => UInt8.ofNat c.toNat).foldl (fun n b => 10 * n + (b.toNat - 48)) start =
        Nat.ofDigitChars 10 l start := by
    intro l
    induction l with
    | nil => exact fun _ _ => rfl
    | cons c l ih =>
      intro hl start
      rw [List.map_cons, List.foldl_cons, toNat_byte (hl c List.mem_cons_self),
        ih (fun d hd => hl d (List.mem_cons_of_mem _ hd))]
      rfl
  rw [toNat, ofNat, hfold _ (fun c hc => Nat.isDigit_of_mem_toDigits (by decide) (by decide) hc)]
  exact Nat.ofDigitChars_toDigits (by decide) (by decide)

theorem ofNat_inj {m n : Nat} (h : ofNat m = ofNat n) : m = n := by
  rw [← toNat_ofNat m, h, toNat_ofNat]

/-- There are 256 bytes to look at. -/
theorem forall_byte {p : UInt8 → Prop} (h : ∀ n < 256, p (UInt8.ofNat n)) (b : UInt8) : p b := by
  have hb := h b.toNat b.toNat_lt
  rwa [UInt8.ofNat_toNat] at hb

/-- The bytes of the numerals of integers. -/
def isNumeral (b : UInt8) : Bool := isDigit b || b == 45

theorem all_isNumeral_ofNat (n : Nat) : (ofNat n).all isNumeral = true := by
  rw [List.all_eq_true]
  intro b hb
  rw [isNumeral, List.all_eq_true.1 (all_isDigit_ofNat n) b hb, Bool.true_or]

theorem all_isNumeral_ofInt (n : Int) : (ofInt n).all isNumeral = true := by
  cases n with
  | ofNat n => exact all_isNumeral_ofNat n
  | negSucc n => exact all_isNumeral_ofNat (n + 1)

theorem ofInt_ne_nil (n : Int) : ofInt n ≠ [] := by
  cases n with
  | ofNat n =>
    intro h
    exact Nat.toDigits_ne_nil (List.map_eq_nil_iff.1 h)
  | negSucc n => exact List.cons_ne_nil _ _

/-- A minus is no digit, so the numeral of a negative number is that of no other. -/
theorem ofNat_ne_minus (n : Nat) (t : Text) : ofNat n ≠ 45 :: t := by
  intro h
  have hdigits := all_isDigit_ofNat n
  rw [h, List.all_cons] at hdigits
  cases hdigits

theorem ofInt_inj {m n : Int} (h : ofInt m = ofInt n) : m = n := by
  cases m with
  | ofNat m =>
    cases n with
    | ofNat n => exact congrArg Int.ofNat (ofNat_inj h)
    | negSucc n => exact absurd h (ofNat_ne_minus m _)
  | negSucc m =>
    cases n with
    | ofNat n => exact absurd h.symm (ofNat_ne_minus n _)
    | negSucc n =>
      have hsucc := ofNat_inj (List.cons.inj h).2
      rw [Nat.succ.inj hsucc]

/-- The numeral of a positive number does not start with a zero. -/
theorem ofNat_eq_cons {n : Nat} (h : 0 < n) : ∃ d ds, ofNat n = d :: ds ∧ d ≠ 48 := by
  induction n using Nat.strongRecOn with
  | ind n ih =>
    by_cases hn : n < 10
    · refine ⟨UInt8.ofNat n.digitChar.toNat, [], ?_, ?_⟩
      · rw [ofNat, Nat.toDigits_of_lt_base hn]
        rfl
      · intro hzero
        have hbyte : (UInt8.ofNat n.digitChar.toNat).toNat = 48 := congrArg UInt8.toNat hzero
        rw [Nat.toNat_digitChar_of_lt_ten hn, UInt8.toNat_ofNat'] at hbyte
        omega
    · obtain ⟨d, ds, hds, hd⟩ := ih (n / 10) (by omega) (by omega)
      refine ⟨d, ds ++ [UInt8.ofNat (n % 10).digitChar.toNat], ?_, hd⟩
      rw [ofNat, Nat.toDigits_of_base_le (by decide) (by omega), List.map_append]
      rw [ofNat] at hds
      rw [hds]
      rfl

end Text

/-! ### Temporaries -/

namespace Generator

theorem temporaryName_inj {m n : Nat} (h : temporaryName m = temporaryName n) : m = n :=
  Text.ofNat_inj (List.append_cancel_left h)

theorem isNumber_temporaryName (n : Nat) : OperandShape.isNumber (temporaryName n) = false := rfl

theorem isTemporary_temporaryName {n : Nat} (h : 0 < n) :
    OperandShape.isTemporary (temporaryName n) = true := by
  obtain ⟨d, ds, hds, hd⟩ := Text.ofNat_eq_cons h
  have hdigits := Text.all_isDigit_ofNat n
  rw [hds, List.all_cons, Bool.and_eq_true_iff] at hdigits
  have hafter : Text.after? (text "Temp&") (temporaryName n) = some (d :: ds) := by
    rw [temporaryName, hds]
    rfl
  rw [OperandShape.isTemporary, hafter]
  show (Text.isDigit d && decide (d ≠ 48) && ds.all Text.isDigit) = true
  rw [hdigits.1, hdigits.2, decide_eq_true hd]
  rfl

/-- Every temporary among the symbols has a number that was given out. -/
def Fresh (g : Generator) : Prop := ∀ n, temporaryName n ∈ g.symbols.names → n ≤ g.temporaries

namespace Fresh

variable {g : Generator}

/-- The next temporary is new. -/
theorem not_mem (h : g.Fresh) : temporaryName (g.temporaries + 1) ∉ g.symbols.names := by
  intro hmem
  have hle := h _ hmem
  omega

/-- A number may be given out before its temporary is declared. -/
theorem next (h : g.Fresh) : Fresh { g with temporaries := g.temporaries + 1 } :=
  fun n hn => Nat.le_succ_of_le (h n hn)

theorem emit (h : g.Fresh) (i : Instruction) : (Generator.emit false i g).generator.Fresh := by
  rw [Fresh, symbols_emit, temporaries_emit]
  exact h

theorem declare (h : g.Fresh) {name : Text} (kind : SymbolKind)
    (hname : ∀ n, name = temporaryName n → n ≤ g.temporaries) :
    (Generator.declare false name kind g).generator.Fresh := by
  by_cases hmem : name ∈ g.symbols.names
  · rw [declare_of_known hmem]
    exact h
  · obtain ⟨_, hnames, htemporaries⟩ := declare_of_new hmem kind
    intro n hn
    rw [hnames, List.mem_append, List.mem_singleton] at hn
    rw [htemporaries]
    rcases hn with hn | hn
    · exact h n hn
    · exact hname n hn.symm

end Fresh

end Generator

/-! ### Identifiers and numbers -/

theorem Lexeme.isIdentifier {x : Text} (h : Lexeme .id x) : OperandShape.isIdentifier x = true := by
  obtain ⟨b, t, rfl, hb, ht⟩ := h.of_id
  rw [OperandShape.isIdentifier, hb, Bool.true_and]
  exact ht

theorem Lexeme.isNumber {digits : Text} (h : Lexeme .intLiteral digits) :
    OperandShape.isNumber digits = true := by
  obtain ⟨hne, hall⟩ := h.of_intLiteral
  rw [OperandShape.isNumber, hall, Bool.and_true, Bool.not_eq_true', List.isEmpty_eq_false_iff]
  exact hne

theorem isNumber_of_isIdentifier {x : Text} (h : OperandShape.isIdentifier x = true) :
    OperandShape.isNumber x = false := by
  cases x with
  | nil => cases h
  | cons b t =>
    have hb := (Bool.and_eq_true_iff.1 h).1
    cases hd : Text.isDigit b with
    | false => rw [OperandShape.isNumber, List.all_cons, hd, Bool.false_and, Bool.and_false]
    | true =>
      rw [isLetter_eq_false_of_isDigit hd] at hb
      cases hb

/-- No identifier is the name of a temporary. -/
theorem ne_temporaryName_of_isIdentifier {x : Text} (h : OperandShape.isIdentifier x = true) (n : Nat) :
    x ≠ Generator.temporaryName n := by
  rintro rfl
  cases h

/-! ### Well-spelled phrases -/

mutual

def Expr.WellSpelled : Expr → Prop
  | .single p => p.WellSpelled
  | .chain p _ e => p.WellSpelled ∧ e.WellSpelled

def Primary.WellSpelled : Primary → Prop
  | .paren e => e.WellSpelled
  | .name x => OperandShape.isIdentifier x = true
  | .number digits => OperandShape.isNumber digits = true

end

def Statement.WellSpelled : Statement → Prop
  | .assign x e => OperandShape.isIdentifier x = true ∧ e.WellSpelled
  | .read xs => ∀ x ∈ xs.first :: xs.rest, OperandShape.isIdentifier x = true
  | .write es => ∀ e ∈ es.first :: es.rest, e.WellSpelled

def Program.WellSpelled (p : Program) : Prop :=
  ∀ t ∈ p.statements.first :: p.statements.rest, t.WellSpelled

theorem Word.Writable.isIdentifier {x : Text} (h : Word.Writable ⟨.id, x⟩) :
    OperandShape.isIdentifier x = true := (h.lexeme rfl).isIdentifier

mutual

theorem Expr.wellSpelled : ∀ e : Expr, (∀ w ∈ e.words, w.Writable) → e.WellSpelled
  | .single p, h => by
    rw [Expr.WellSpelled]
    exact Primary.wellSpelled p h
  | .chain p _ e, h => by
    rw [Expr.words] at h
    rw [Expr.WellSpelled]
    refine ⟨Primary.wellSpelled p fun w hw => h w (List.mem_append_left _ hw),
      Expr.wellSpelled e fun w hw => h w ?_⟩
    exact List.mem_append_right _ (List.mem_append_right _ hw)

theorem Primary.wellSpelled : ∀ p : Primary, (∀ w ∈ p.words, w.Writable) → p.WellSpelled
  | .paren e, h => by
    rw [Primary.words] at h
    rw [Primary.WellSpelled]
    exact Expr.wellSpelled e fun w hw => h w (List.mem_cons_of_mem _ (List.mem_append_left _ hw))
  | .name x, h => by
    rw [Primary.WellSpelled]
    exact (h ⟨.id, x⟩ List.mem_cons_self).isIdentifier
  | .number digits, h => by
    rw [Primary.WellSpelled]
    exact ((h ⟨.intLiteral, digits⟩ List.mem_cons_self).lexeme rfl).isNumber

end

theorem Statement.wellSpelled (t : Statement) (h : ∀ w ∈ t.words, w.Writable) : t.WellSpelled := by
  cases t with
  | assign x e =>
    refine ⟨(h ⟨.id, x⟩ List.mem_cons_self).isIdentifier, e.wellSpelled fun w hw => h w ?_⟩
    exact List.mem_cons_of_mem _ (List.mem_cons_of_mem _ (List.mem_append_left _ hw))
  | read xs =>
    intro x hx
    refine (h ⟨.id, x⟩ ?_).isIdentifier
    exact List.mem_cons_of_mem _ (List.mem_cons_of_mem _ (List.mem_append_left _
      (Series.mem_words hx List.mem_cons_self)))
  | write es =>
    intro e he
    refine e.wellSpelled fun w hw => h w ?_
    exact List.mem_cons_of_mem _ (List.mem_cons_of_mem _ (List.mem_append_left _
      (Series.mem_words he hw)))

theorem Program.wellSpelled (p : Program) (h : ∀ w ∈ p.words, w.Writable) : p.WellSpelled := by
  intro t ht
  refine t.wellSpelled fun w hw => h w ?_
  exact List.mem_cons_of_mem _ (List.mem_append_left _ (Series.mem_words ht hw))

end MicroLang
