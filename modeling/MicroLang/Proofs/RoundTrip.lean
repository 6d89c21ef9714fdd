import MicroLang.Proofs.Readback

/-!
# The format of listings

Writing instructions to a listing and reading a listing back are inverse to each other.  What can be listed
is said apart from the reader, by the forms of names and values and by the operands of each opcode; the
reader accepts a line exactly if it is the text of something that can be listed.

So for any text there are two outcomes.  If the whole text is read, its lines are blank or the texts of
the instructions returned, which carry the numbers of their lines.  Otherwise the error names the first
line that is neither, and what was returned is what stands before it.
-/

namespace MicroLang

/-! ### Numerals without leading zeros -/

namespace Text

theorem ofNat_of_digit {b : UInt8} (h : isDigit b = true) : ofNat (b.toNat - 48) = [b] := by
  simp only [isDigit, Bool.and_eq_true, decide_eq_true_eq, UInt8.le_iff_toNat_le, UInt8.reduceToNat] at h
  have hlt : b.toNat - 48 < 10 := by omega
  have hchar : (b.toNat - 48).digitChar.toNat = b.toNat := by
    rw [Nat.toNat_digitChar_of_lt_ten hlt]
    omega
  rw [ofNat, Nat.toDigits_of_lt_base hlt, List.map_singleton, hchar, UInt8.ofNat_toNat]

/-- The numeral of a number with one more digit. -/
theorem ofNat_concat {n : Nat} (hn : 0 < n) {b : UInt8} (h : isDigit b = true) :
    ofNat (10 * n + (b.toNat - 48)) = ofNat n ++ [b] := by
  have hlast := ofNat_of_digit h
  simp only [isDigit, Bool.and_eq_true, decide_eq_true_eq, UInt8.le_iff_toNat_le, UInt8.reduceToNat] at h
  have hdiv : (10 * n + (b.toNat - 48)) / 10 = n := by omega
  have hmod : (10 * n + (b.toNat - 48)) % 10 = b.toNat - 48 := by omega
  have hlt : b.toNat - 48 < 10 := by omega
  rw [ofNat, Nat.toDigits_of_lt_base hlt] at hlast
  rw [ofNat, Nat.toDigits_of_base_le (by decide) (by omega), hdiv, hmod, List.map_append, hlast, ofNat]

/-- A run of digits that does not start with zero is the numeral of its number. -/
theorem ofNat_toNat {d : UInt8} {ds : Text} (hd : isDigit d = true) (hne : d ≠ 48)
    (hds : ds.all isDigit = true) : ofNat (toNat (d :: ds)) = d :: ds := by
  have hfold : ∀ (ds : Text) (n : Nat), 0 < n → ds.all isDigit = true →
      ofNat (ds.foldl (fun n b => 10 * n + (b.toNat - 48)) n) = ofNat n ++ ds := by
    intro ds
    induction ds with
    | nil => simp
    | cons b ds ih =>
      intro n hn hall
      rw [List.all_cons, Bool.and_eq_true] at hall
      rw [List.foldl_cons, ih _ (by omega) hall.2, ofNat_concat hn hall.1, List.append_assoc,
        List.singleton_append]
  have hpos : 0 < d.toNat - 48 := by
    have hval : d.toNat ≠ 48 := fun h => hne (UInt8.toNat_inj.1 h)
    simp only [isDigit, Bool.and_eq_true, decide_eq_true_eq, UInt8.le_iff_toNat_le,
      UInt8.reduceToNat] at hd
    omega
  rw [toNat, List.foldl_cons, Nat.mul_zero, Nat.zero_add, hfold ds _ hpos hds, ofNat_of_digit hd]
  rfl

end Text

/-! ### What can be listed -/

namespace OperandShape

/-- The name of a temporary, which is numbered from one, or of a variable: a letter and then letters,
digits and underscores. -/
inductive Name : Text → Prop
  | temporary {n : Nat} : 1 ≤ n → Name (Generator.temporaryName n)
  | variable {b : UInt8} {t : Text} : Text.isLetter b = true →
      (∀ c ∈ t, Text.isLetter c = true ∨ Text.isDigit c = true ∨ c = 95) → Name (b :: t)

/-- A name or a run of digits. -/
inductive Value : Text → Prop
  | name {t : Text} : Name t → Value t
  | number {t : Text} : t ≠ [] → (∀ b ∈ t, Text.isDigit b = true) → Value t

theorem isTemporary_iff (t : Text) :
    isTemporary t = true ↔ ∃ n, 1 ≤ n ∧ t = Generator.temporaryName n := by
  constructor
  · intro h
    unfold isTemporary at h
    split at h
    · next d ds hafter =>
      simp only [Bool.and_eq_true, decide_eq_true_eq] at h
      obtain ⟨⟨hd, hne⟩, hds⟩ := h
      have hnumeral := Text.ofNat_toNat hd hne hds
      refine ⟨Text.toNat (d :: ds), ?_, ?_⟩
      · -- zero has a numeral of its own, which starts with zero
        apply Nat.pos_of_ne_zero
        intro hzero
        rw [hzero] at hnumeral
        exact hne (List.cons.inj hnumeral).1.symm
      · rw [Generator.temporaryName, hnumeral]
        exact (Text.after?_eq_some_iff _ _ _).1 hafter
    · cases h
  · rintro ⟨n, hn, rfl⟩
    exact Generator.isTemporary_temporaryName hn

theorem isName_iff (t : Text) : isName t = true ↔ Name t := by
  constructor
  · intro h
    rcases Bool.or_eq_true_iff.1 h with h | h
    · obtain ⟨n, hn, rfl⟩ := (isTemporary_iff t).1 h
      exact .temporary hn
    · cases t with
      | nil => cases h
      | cons b t =>
        simp only [isIdentifier, Bool.and_eq_true, List.all_eq_true, Bool.or_eq_true,
          decide_eq_true_eq, or_assoc] at h
        exact .variable h.1 h.2
  · intro h
    cases h with
    | temporary hn => exact Bool.or_eq_true_iff.2 (.inl (Generator.isTemporary_temporaryName hn))
    | «variable» hb ht =>
      refine Bool.or_eq_true_iff.2 (.inr ?_)
      simp only [isIdentifier, Bool.and_eq_true, List.all_eq_true, Bool.or_eq_true,
        decide_eq_true_eq, or_assoc]
      exact ⟨hb, ht⟩

theorem isNumber_iff (t : Text) : isNumber t = true ↔ t ≠ [] ∧ ∀ b ∈ t, Text.isDigit b = true := by
  simp [isNumber]

theorem fits_name (t : Text) : name.fits t = true ↔ Name t := isName_iff t

theorem fits_value (t : Text) : value.fits t = true ↔ Value t := by
  simp only [fits, Bool.or_eq_true, isName_iff, isNumber_iff]
  constructor
  · rintro (h | h)
    · exact .name h
    · exact .number h.1 h.2
  · intro h
    cases h with
    | name h => exact .inl h
    | number hne hall => exact .inr ⟨hne, hall⟩

theorem fits_integerType (t : Text) : integerType.fits t = true ↔ t = Instruction.integerType :=
  decide_eq_true_iff

theorem fitAll_nil (ts : List Text) : fitAll [] ts = true ↔ ts = [] := by
  cases ts <;> simp [fitAll]

theorem fitAll_cons (s : OperandShape) (ss : List OperandShape) (ts : List Text) :
    fitAll (s :: ss) ts = true ↔
      ∃ t rest, ts = t :: rest ∧ s.fits t = true ∧ fitAll ss rest = true := by
  cases ts with
  | nil => simp [fitAll]
  | cons t rest =>
    constructor
    · intro h
      exact ⟨t, rest, rfl, Bool.and_eq_true_iff.1 h⟩
    · rintro ⟨_, _, ⟨rfl, rfl⟩, h⟩
      exact Bool.and_eq_true_iff.2 h

end OperandShape

open OperandShape

/-- The instructions that a listing can hold: the operands fit the opcode. -/
inductive Instruction.Listable : Instruction → Prop
  | declare {x : Text} : Name x → Listable ⟨.declare, [x, integerType]⟩
  | add {left right x : Text} : Value left → Value right → Name x → Listable ⟨.add, [left, right, x]⟩
  | sub {left right x : Text} : Value left → Value right → Name x → Listable ⟨.sub, [left, right, x]⟩
  | store {source x : Text} : Value source → Name x → Listable ⟨.store, [source, x]⟩
  | read {x : Text} : Name x → Listable ⟨.read, [x, integerType]⟩
  | write {source : Text} : Value source → Listable ⟨.write, [source, integerType]⟩
  | halt : Listable ⟨.halt, []⟩

/-- Being well-formed is checked shape by shape, being listable said opcode by opcode. -/
theorem Instruction.isWellFormed_iff (i : Instruction) : i.isWellFormed = true ↔ i.Listable := by
  constructor
  · obtain ⟨opcode, operands⟩ := i
    cases opcode <;>
      simp only [isWellFormed, Opcode.shapes?, fitAll_cons, fitAll_nil, fits_name, fits_value,
        fits_integerType, Bool.false_eq_true, false_imp_iff]
    · rintro ⟨x, _, rfl, hx, _, _, rfl, rfl, rfl⟩
      exact .declare hx
    · rintro ⟨left, _, rfl, hleft, right, _, rfl, hright, x, _, rfl, hx, rfl⟩
      exact .add hleft hright hx
    · rintro ⟨left, _, rfl, hleft, right, _, rfl, hright, x, _, rfl, hx, rfl⟩
      exact .sub hleft hright hx
    · rintro ⟨source, _, rfl, hsource, x, _, rfl, hx, rfl⟩
      exact .store hsource hx
    · rintro ⟨x, _, rfl, hx, _, _, rfl, rfl, rfl⟩
      exact .read hx
    · rintro ⟨source, _, rfl, hsource, _, _, rfl, rfl, rfl⟩
      exact .write hsource
    · rintro rfl
      exact .halt
  · intro h
    cases h <;> simp_all [isWellFormed, Opcode.shapes?, fitAll, fits_name, fits_value, fits_integerType]

/-! ### Lines -/

namespace Listing

theorem splitOperands_ne_nil (t : Text) : splitOperands t ≠ [] := by
  fun_cases splitOperands t <;> simp_all

/-- Operands that were cut apart and joined again give the text back. -/
theorem intercalate_splitOperands (t : Text) : (text ", ").intercalate (splitOperands t) = t := by
  fun_induction splitOperands t with
  | case1 => rfl
  | case2 t ih =>
    obtain ⟨piece, rest, hpieces⟩ := List.exists_cons_of_ne_nil (splitOperands_ne_nil t)
    rw [hpieces] at ih ⊢
    rw [List.intercalate_cons_cons, ih]
    rfl
  | case3 b t _ hnil ih => exact absurd hnil (splitOperands_ne_nil t)
  | case4 b t _ piece rest hpieces ih =>
    rw [hpieces] at ih
    cases rest with
    | nil =>
      rw [List.intercalate_singleton] at ih ⊢
      rw [ih]
    | cons next rest =>
      rw [List.intercalate_cons_cons] at ih ⊢
      rw [← ih]
      rfl

/-- Behind a mnemonic stand the operands that are read there. -/
theorem text_of_operands? {op : Opcode} {rest : Text} {operands : List Text}
    (h : operands? rest = some operands) :
    ({ opcode := op, operands } : Instruction).text = op.mnemonic ++ rest := by
  unfold operands? at h
  split at h
  · cases h
    exact (List.append_nil _).symm
  · next t =>
    cases h
    obtain ⟨piece, pieces, hpieces⟩ := List.exists_cons_of_ne_nil (splitOperands_ne_nil t)
    have hjoined := intercalate_splitOperands t
    rw [hpieces] at hjoined ⊢
    rw [Instruction.text, List.isEmpty_cons, if_neg Bool.false_ne_true, hjoined, List.append_assoc]
    rfl
  · cases h

/-- A line that is read is the text of the instruction, which can be listed. -/
theorem text_of_readLine {t : Text} {i : Instruction} (h : readLine t = .ok i) :
    i.Listable ∧ i.text = t := by
  simp only [readLine] at h
  split at h
  · cases h
  · split at h
    · cases h
    · next opcode hmnemonic =>
      split at h
      · cases h
      · next operands hoperands =>
        split at h
        · next hwell =>
          cases h
          have hword := List.find?_some hmnemonic
          refine ⟨(Instruction.isWellFormed_iff _).1 hwell, ?_⟩
          rw [text_of_operands? hoperands, of_decide_eq_true hword]
          exact List.prefix_iff_eq_append.1 (List.takeWhile_prefix _)
        · cases h

theorem readLine_of_listable {i : Instruction} (h : i.Listable) : readLine i.text = .ok i :=
  readLine_text ((Instruction.isWellFormed_iff i).2 h)

/-- A line that is not read is the text of nothing that can be listed. -/
theorem ne_text_of_readLine {t : Text} {problem : Problem} (h : readLine t = .error problem)
    {i : Instruction} (hi : i.Listable) : i.text ≠ t := by
  rintro rfl
  rw [readLine_of_listable hi] at h
  cases h

/-! ### Texts -/

/-- The lines of a text without the returns at their ends. -/
def rows (t : Text) : List Text := (t.split 10).map (Text.trimRight (· = 13))

/-- The instructions with their line numbers are all that stands in the rows, which are numbered from the
given number on: the numbers increase, each instruction has the row of its number as its text, and every
other row is blank. -/
structure Covers (start : Nat) (rows : List Text) (lines : List Line) : Prop where
  increasing : lines.Pairwise fun l l' => l.number < l'.number
  written : ∀ l ∈ lines, l.instruction.Listable ∧
    ∃ n : Nat, l.number = n + start ∧ rows[n]? = some l.instruction.text
  blank : ∀ (n : Nat) (row : Text), rows[n]? = some row → (∀ l ∈ lines, l.number ≠ n + start) →
    Text.isBlank row = true

namespace Covers

variable {start : Nat} {rows : List Text} {lines : List Line}

theorem nil (start : Nat) : Covers start [] [] where
  increasing := .nil
  written _ h := absurd h List.not_mem_nil
  blank _ _ h := by simp at h

theorem cons_blank (h : Covers (start + 1) rows lines) {row : Text} (hrow : Text.isBlank row = true) :
    Covers start (row :: rows) lines where
  increasing := h.increasing
  written l hl := by
    obtain ⟨hlistable, n, hnumber, htext⟩ := h.written l hl
    refine ⟨hlistable, n + 1, ?_, htext⟩
    omega
  blank n row' hrow' hno := by
    cases n with
    | zero =>
      cases hrow'
      exact hrow
    | succ n =>
      refine h.blank n row' hrow' fun l hl => ?_
      have := hno l hl
      omega

theorem cons_line (h : Covers (start + 1) rows lines) {i : Instruction} (hi : i.Listable) :
    Covers start (i.text :: rows) ({ number := start, instruction := i } :: lines) where
  increasing := by
    refine List.pairwise_cons.2 ⟨fun l hl => ?_, h.increasing⟩
    obtain ⟨_, n, hnumber, _⟩ := h.written l hl
    show (start : Int) < l.number
    omega
  written l hl := by
    rcases List.mem_cons.1 hl with rfl | hl
    · exact ⟨hi, 0, by simp, rfl⟩
    · obtain ⟨hlistable, n, hnumber, htext⟩ := h.written l hl
      refine ⟨hlistable, n + 1, ?_, htext⟩
      omega
  blank n row hrow hno := by
    cases n with
    | zero => exact absurd (by simp) (hno _ List.mem_cons_self)
    | succ n =>
      refine h.blank n row hrow fun l hl => ?_
      have := hno l (List.mem_cons_of_mem _ hl)
      omega

/-- A row is blank or the text of something that can be listed. -/
theorem blank_or_listable (h : Covers start rows lines) {n : Nat} {row : Text} (hrow : rows[n]? = some row) :
    Text.isBlank row = true ∨ ∃ i : Instruction, i.Listable ∧ i.text = row := by
  by_cases hno : ∀ l ∈ lines, l.number ≠ n + start
  · exact .inl (h.blank n row hrow hno)
  · simp only [Classical.not_forall, Classical.not_not] at hno
    obtain ⟨l, hl, hnumber⟩ := hno
    obtain ⟨hlistable, m, hnumber', htext⟩ := h.written l hl
    have hm : m = n := by omega
    rw [hm, hrow] at htext
    exact .inr ⟨l.instruction, hlistable, (Option.some.inj htext).symm⟩

end Covers

/-- Reading stopped at a row: it is not blank, nothing that can be listed has it as its text, and the
instructions returned cover the rows before it. -/
structure StopsAt (n start : Nat) (rows : List Text) (lines : List Line) (e : Error) : Prop where
  line : e.line = n + start
  row : rows[n]? = some e.text
  notBlank : Text.isBlank e.text = false
  notListable : ∀ i : Instruction, i.Listable → i.text ≠ e.text
  before : Covers start (rows.take n) lines

namespace StopsAt

variable {n start : Nat} {rows : List Text} {lines : List Line} {e : Error}

theorem cons_blank (h : StopsAt n (start + 1) rows lines e) {row : Text} (hrow : Text.isBlank row = true) :
    StopsAt (n + 1) start (row :: rows) lines e where
  line := by
    have := h.line
    omega
  row := h.row
  notBlank := h.notBlank
  notListable := h.notListable
  before := h.before.cons_blank hrow

theorem cons_line (h : StopsAt n (start + 1) rows lines e) {i : Instruction} (hi : i.Listable) :
    StopsAt (n + 1) start (i.text :: rows) ({ number := start, instruction := i } :: lines) e where
  line := by
    have := h.line
    omega
  row := h.row
  notBlank := h.notBlank
  notListable := h.notListable
  before := h.before.cons_line hi

end StopsAt

/-- What reading makes of some rows. -/
inductive Outcome (start : Nat) (rows : List Text) : List Line × Option Error → Prop
  | whole {lines : List Line} : Covers start rows lines → Outcome start rows (lines, none)
  | stopped {lines : List Line} {e : Error} (n : Nat) : StopsAt n start rows lines e →
      Outcome start rows (lines, some e)

/-- Rows are read one after the other, each under its number. -/
theorem outcome_readLines (start : Nat) (rows : List Text) :
    Outcome start rows (readLines (rows.mapIdx fun n row => (n + start, row))) := by
  induction rows generalizing start with
  | nil => exact .whole (.nil start)
  | cons row rows ih =>
    have hshift : (fun n (row : Text) => (n + 1 + start, row)) = fun n row => (n + (start + 1), row) := by
      funext n row
      rw [Nat.add_assoc, Nat.add_comm 1 start]
    have hrest := ih (start + 1)
    rw [List.mapIdx_cons, hshift, Nat.zero_add, readLines]
    generalize readLines (rows.mapIdx fun n row => (n + (start + 1), row)) = rest at hrest ⊢
    by_cases hblank : Text.isBlank row = true
    · rw [if_pos hblank]
      cases hrest with
      | whole hcovers => exact .whole (hcovers.cons_blank hblank)
      | stopped n hstops => exact .stopped (n + 1) (hstops.cons_blank hblank)
    · rw [if_neg hblank]
      cases hread : readLine row with
      | error problem =>
        refine .stopped 0 ⟨(Int.zero_add _).symm, rfl, Bool.not_eq_true _ ▸ hblank, ?_, .nil start⟩
        exact fun i hi => ne_text_of_readLine hread hi
      | ok i =>
        obtain ⟨hi, rfl⟩ := text_of_readLine hread
        cases hrest with
        | whole hcovers => exact .whole (hcovers.cons_line hi)
        | stopped n hstops => exact .stopped (n + 1) (hstops.cons_line hi)

theorem outcome_read (t : Text) : Outcome 1 (rows t) (read t) := by
  have hlines : numberedLines t = (rows t).mapIdx fun n row => (n + 1, row) := by
    rw [numberedLines, rows]
    simp only [List.mapIdx_eq_zipIdx_map, List.zipIdx_map, List.map_map]
    rfl
  rw [read, hlines]
  exact outcome_readLines 1 (rows t)

/-- The format of listings works in both directions.  The listing of instructions that can be listed is
read as these instructions, numbered from one.  If a text is read as a whole, the instructions returned
have increasing numbers, each has the line of its number as its text, and every other line is blank.
Otherwise the error names the first line that is neither blank nor the text of something that can be
listed, and the instructions returned are those of the lines before it. -/
theorem listing_round_trips :
    (∀ code : List Instruction, (∀ i ∈ code, i.Listable) →
      read (Instruction.listing code) = (numbered 1 code, none)) ∧
    ∀ (t : Text) (lines : List Line),
      (read t = (lines, none) → Covers 1 (rows t) lines) ∧
      ∀ e : Error, read t = (lines, some e) →
        ∃ n, StopsAt n 1 (rows t) lines e ∧
          ∀ m < n, ∀ row, (rows t)[m]? = some row →
            Text.isBlank row = true ∨ ∃ i : Instruction, i.Listable ∧ i.text = row := by
  refine ⟨fun code hcode => ?_, fun t lines => ⟨fun hread => ?_, fun e hread => ?_⟩⟩
  · exact read_listing fun i hi => (Instruction.isWellFormed_iff i).2 (hcode i hi)
  · have houtcome := outcome_read t
    rw [hread] at houtcome
    cases houtcome with
    | whole hcovers => exact hcovers
  · have houtcome := outcome_read t
    rw [hread] at houtcome
    cases houtcome with
    | stopped n hstops =>
      refine ⟨n, hstops, fun m hm row hrow => hstops.before.blank_or_listable (n := m) ?_⟩
      rw [List.getElem?_take, if_pos hm]
      exact hrow

/-- Names of opcodes and leading zeros are no obstacle in operands, nor are blank lines and returns at the
ends of lines; a temporary with a leading zero is one. -/
theorem listing_round_trips_corners :
    let code : List Instruction := [⟨.declare, [text "Temp&10", Instruction.integerType]⟩,
      ⟨.sub, [text "007", text "Integer", text "Temp&10"]⟩, ⟨.store, [text "Temp&10", text "Halt"]⟩]
    read (Instruction.listing code) = (numbered 1 code, none) ∧
      Covers 1 (rows (text " \t\nWrite Temp, Integer\r\r\n\r\nHalt"))
        [⟨2, ⟨.write, [text "Temp", Instruction.integerType]⟩⟩, ⟨4, ⟨.halt, []⟩⟩] ∧
      ∃ n, StopsAt n 1 (rows (text "Halt\n\nRead Temp&01, Integer\r\nHalt")) [⟨1, ⟨.halt, []⟩⟩]
        ⟨3, text "Read Temp&01, Integer", .malformed .read⟩ := by
  intro code
  have hwell : ∀ i ∈ code, i.isWellFormed = true := by decide +kernel
  have hcode : ∀ i ∈ code, i.Listable := fun i hi => (Instruction.isWellFormed_iff i).1 (hwell i hi)
  have hstopped : read (text "Halt\n\nRead Temp&01, Integer\r\nHalt") =
      ([⟨1, ⟨.halt, []⟩⟩], some ⟨3, text "Read Temp&01, Integer", .malformed .read⟩) := by
    decide +kernel
  obtain ⟨n, hstops, _⟩ := (listing_round_trips.2 _ _).2 _ hstopped
  refine ⟨listing_round_trips.1 code hcode, ?_, n, hstops⟩
  exact (listing_round_trips.2 _ _).1 (by decide +kernel)

end Listing

end MicroLang
