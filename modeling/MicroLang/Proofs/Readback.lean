import MicroLang.Compilation
import MicroLang.Proofs.Operands

/-!
# Reading a listing back

The text of a well-formed instruction is read as that instruction, because no operand contains what
separates operands, and no instruction contains what separates lines.  So a listing of well-formed
instructions is read as these instructions, with the lines numbered from one.
-/

namespace MicroLang

open OperandShape

/-! ### Cutting at separators -/

theorem not_mem_of_all {p : UInt8 → Bool} {t : Text} {b : UInt8} (h : t.all p = true)
    (hb : p b = false) : b ∉ t := by
  intro hmem
  have hp := List.all_eq_true.1 h b hmem
  rw [hb] at hp
  cases hp

theorem Text.split_append {sep : UInt8} {t : Text} (h : sep ∉ t) (u : Text) :
    split sep (t ++ sep :: u) = t :: split sep u := by
  induction t with
  | nil =>
    rw [List.nil_append, split, if_pos rfl]
  | cons b t ih =>
    rw [List.mem_cons, not_or] at h
    rw [List.cons_append, split, if_neg (fun hb => h.1 hb.symm), ih h.2]

/-- Lines that are each closed by a line feed are cut apart, and nothing is left behind the last. -/
theorem Text.split_lines {ts : List Text} (h : ∀ t ∈ ts, (10 : UInt8) ∉ t) :
    split 10 (ts.flatMap (· ++ [10])) = ts ++ [[]] := by
  induction ts with
  | nil => rfl
  | cons t ts ih =>
    rw [List.flatMap_cons, List.append_assoc, List.singleton_append,
      split_append (h t List.mem_cons_self), ih fun u hu => h u (List.mem_cons_of_mem _ hu)]
    rfl

theorem Text.intercalate_concat (sep : Text) (t : Text) (ts : List Text) :
    sep.intercalate (t :: ts) ++ sep = (t :: ts).flatMap (· ++ sep) := by
  induction ts generalizing t with
  | nil => rw [List.intercalate_singleton, List.flatMap_cons, List.flatMap_nil, List.append_nil]
  | cons u ts ih =>
    rw [List.intercalate_cons_cons, List.append_assoc, ih u]
    rfl

namespace Listing

theorem splitOperands_of_ne {b : UInt8} (h : b ≠ 44) (t : Text) :
    splitOperands (b :: t) = match splitOperands t with
      | [] => [[b]]
      | piece :: rest => (b :: piece) :: rest :=
  splitOperands.eq_3 b t fun _ hb _ => h hb

theorem splitOperands_append {t : Text} (h : (44 : UInt8) ∉ t) (u : Text) :
    splitOperands (t ++ 44 :: 32 :: u) = t :: splitOperands u := by
  induction t with
  | nil => rfl
  | cons b t ih =>
    rw [List.mem_cons, not_or] at h
    rw [List.cons_append, splitOperands_of_ne (fun hb => h.1 hb.symm), ih h.2]

theorem splitOperands_single {t : Text} (h : (44 : UInt8) ∉ t) : splitOperands t = [t] := by
  induction t with
  | nil => rfl
  | cons b t ih =>
    rw [List.mem_cons, not_or] at h
    rw [splitOperands_of_ne (fun hb => h.1 hb.symm), ih h.2]

/-- Operands without commas, joined and cut apart again. -/
theorem splitOperands_intercalate {t : Text} {ts : List Text} (h : ∀ u ∈ t :: ts, (44 : UInt8) ∉ u) :
    splitOperands ((text ", ").intercalate (t :: ts)) = t :: ts := by
  induction ts generalizing t with
  | nil =>
    rw [List.intercalate_singleton]
    exact splitOperands_single (h t List.mem_cons_self)
  | cons u ts ih =>
    rw [List.intercalate_cons_cons, List.append_assoc]
    show splitOperands (t ++ 44 :: 32 :: (text ", ").intercalate (u :: ts)) = _
    rw [splitOperands_append (h t List.mem_cons_self), ih fun v hv => h v (List.mem_cons_of_mem _ hv)]

end Listing

/-! ### The bytes of instructions -/

/-- The bytes that operands consist of. -/
def isOperandByte (b : UInt8) : Bool := isWordByte b || b == 38

namespace OperandShape

theorem isOperandByte_of_isWordByte {b : UInt8} (h : isWordByte b = true) : isOperandByte b = true := by
  rw [isOperandByte, h, Bool.true_or]

theorem all_of_isIdentifier {t : Text} (h : isIdentifier t = true) : t.all isOperandByte = true := by
  cases t with
  | nil => rfl
  | cons b t =>
    obtain ⟨hb, ht⟩ := Bool.and_eq_true_iff.1 h
    rw [List.all_cons, isOperandByte_of_isWordByte (isWordByte_of_isLetter hb), Bool.true_and,
      List.all_eq_true]
    exact fun c hc => isOperandByte_of_isWordByte (List.all_eq_true.1 ht c hc)

theorem all_of_isNumber {t : Text} (h : isNumber t = true) : t.all isOperandByte = true := by
  have hall := (Bool.and_eq_true_iff.1 h).2
  rw [List.all_eq_true] at *
  exact fun b hb => isOperandByte_of_isWordByte (isWordByte_of_isDigit (hall b hb))

theorem all_of_isTemporary {t : Text} (h : isTemporary t = true) : t.all isOperandByte = true := by
  unfold isTemporary at h
  split at h
  · next d ds hafter =>
    rw [Text.after?_eq_some_iff] at hafter
    rw [Bool.and_eq_true_iff, Bool.and_eq_true_iff] at h
    have hnumber : isNumber (d :: ds) = true := by
      rw [isNumber, List.all_cons, h.1.1, h.2]
      rfl
    rw [hafter, List.all_append, all_of_isNumber hnumber, Bool.and_true]
    rfl
  · cases h

/-- Operands of every shape consist of the bytes of operands. -/
theorem all_of_fits {shape : OperandShape} {t : Text} (h : shape.fits t = true) :
    t.all isOperandByte = true := by
  have hname : isName t = true → t.all isOperandByte = true := by
    intro hn
    rcases Bool.or_eq_true_iff.1 hn with hn | hn
    · exact all_of_isTemporary hn
    · exact all_of_isIdentifier hn
  cases shape with
  | name => exact hname h
  | value =>
    rcases Bool.or_eq_true_iff.1 h with h | h
    · exact hname h
    · exact all_of_isNumber h
  | integerType =>
    rw [of_decide_eq_true h]
    rfl

theorem all_of_fitAll : ∀ {shapes : List OperandShape} {ts : List Text}, fitAll shapes ts = true →
    ∀ t ∈ ts, t.all isOperandByte = true
  | [], [], _, t, ht => absurd ht List.not_mem_nil
  | [], _ :: _, h, _, _ => nomatch h
  | _ :: _, [], h, _, _ => nomatch h
  | s :: ss, t :: ts, h, u, hu => by
    have hboth := Bool.and_eq_true_iff.1 h
    rcases List.mem_cons.1 hu with rfl | hu
    · exact all_of_fits hboth.1
    · exact all_of_fitAll hboth.2 u hu

end OperandShape

/-! ### Instructions -/

namespace Instruction

/-- A well-formed instruction has a mnemonic, and its operands consist of the bytes of operands. -/
theorem operands_of_isWellFormed {i : Instruction} (h : i.isWellFormed = true) :
    i.opcode ∈ Opcode.named ∧ ∀ t ∈ i.operands, t.all isOperandByte = true := by
  obtain ⟨opcode, operands⟩ := i
  rw [isWellFormed] at h
  cases opcode with
  | unnamed code => cases h
  | _ => exact ⟨by simp [Opcode.named], OperandShape.all_of_fitAll h⟩

theorem mnemonic_of_named {op : Opcode} (h : op ∈ Opcode.named) :
    ∃ b t, op.mnemonic = b :: t ∧ (b :: t).all Text.isLetter = true := by
  cases op with
  | unnamed code => simp [Opcode.named] at h
  | _ => exact ⟨_, _, rfl, rfl⟩

/-- The text of an instruction: its mnemonic and then nothing or a blank and the operands. -/
theorem text_cases (i : Instruction) :
    (i.operands = [] ∧ i.text = i.opcode.mnemonic) ∨
      ∃ t ts, i.operands = t :: ts ∧
        i.text = i.opcode.mnemonic ++ 32 :: (MicroLang.text ", ").intercalate (t :: ts) := by
  obtain ⟨opcode, operands⟩ := i
  cases operands with
  | nil => exact .inl ⟨rfl, rfl⟩
  | cons t ts =>
    refine .inr ⟨t, ts, rfl, ?_⟩
    rw [text, List.isEmpty_cons, if_neg Bool.false_ne_true, List.append_assoc]
    rfl

/-- Every byte of a joined text is a byte of a part or of the separator. -/
theorem mem_intercalate {sep : Text} {ts : List Text} {b : UInt8} (h : b ∈ sep.intercalate ts) :
    b ∈ sep ∨ ∃ t ∈ ts, b ∈ t := by
  cases ts with
  | nil => cases h
  | cons t ts =>
    have hmem : b ∈ (t :: ts).flatMap (· ++ sep) := by
      rw [← Text.intercalate_concat]
      exact List.mem_append_left _ h
    obtain ⟨u, hu, hb⟩ := List.mem_flatMap.1 hmem
    rcases List.mem_append.1 hb with hb | hb
    · exact .inr ⟨u, hu, hb⟩
    · exact .inl hb

/-- An instruction fits on a line: no line feed and no return stands in its text. -/
theorem not_mem_text {i : Instruction} (h : i.isWellFormed = true) {b : UInt8} (hb : b = 10 ∨ b = 13) :
    b ∉ i.text := by
  obtain ⟨hnamed, hoperands⟩ := operands_of_isWellFormed h
  obtain ⟨c, t, hmnemonic, hletters⟩ := mnemonic_of_named hnamed
  have hword : b ∉ i.opcode.mnemonic := by
    rw [hmnemonic]
    rcases hb with rfl | rfl
    · exact not_mem_of_all hletters rfl
    · exact not_mem_of_all hletters rfl
  rcases text_cases i with ⟨_, htext⟩ | ⟨u, us, hus, htext⟩
  · rw [htext]
    exact hword
  · rw [htext, List.mem_append, List.mem_cons]
    rintro (hmem | hmem | hmem)
    · exact hword hmem
    · rcases hb with rfl | rfl <;> cases hmem
    · rcases mem_intercalate hmem with hmem | ⟨v, hv, hmem⟩
      · rcases hb with rfl | rfl <;> revert hmem <;> decide
      · rw [← hus] at hv
        rcases hb with rfl | rfl
        · exact not_mem_of_all (hoperands v hv) rfl hmem
        · exact not_mem_of_all (hoperands v hv) rfl hmem

end Instruction

namespace Listing

theorem readLine_text {i : Instruction} (h : i.isWellFormed = true) : readLine i.text = .ok i := by
  obtain ⟨hnamed, hoperands⟩ := Instruction.operands_of_isWellFormed h
  obtain ⟨b, t, hmnemonic, hletters⟩ := Instruction.mnemonic_of_named hnamed
  -- whatever follows the mnemonic is no letter, so the mnemonic is read as a whole
  have hread : ∀ {u : Text} {operands : List Text}, i.text = i.opcode.mnemonic ++ u →
      (∀ c ∈ u.head?, Text.isLetter c = false) → operands? u = some operands →
      i.operands = operands → readLine i.text = .ok i := by
    intro u operands htext hu hoperands? hsame
    have hword : i.text.takeWhile Text.isLetter = i.opcode.mnemonic := by
      rw [htext, hmnemonic]
      exact takeWhile_append_of_stop hletters hu
    have hdrop : i.text.drop i.opcode.mnemonic.length = u := by
      rw [htext, List.drop_left]
    have hne : i.opcode.mnemonic.isEmpty = false := by
      rw [hmnemonic]
      rfl
    simp only [readLine, hword, hne, Opcode.ofMnemonic?_mnemonic hnamed, hdrop, hoperands?,
      Bool.false_eq_true, if_false, ← hsame, h, if_true]
  rcases Instruction.text_cases i with ⟨hnil, htext⟩ | ⟨u, us, hus, htext⟩
  · refine hread (u := []) ?_ (fun c hc => nomatch hc) rfl hnil
    rw [htext, List.append_nil]
  · refine hread htext ?_ ?_ hus
    · intro c hc
      cases hc
      rfl
    · show some (splitOperands _) = _
      rw [splitOperands_intercalate]
      intro v hv
      rw [← hus] at hv
      exact not_mem_of_all (hoperands v hv) rfl

theorem isBlank_cons_of_isLetter {b : UInt8} (h : Text.isLetter b = true) (t : Text) :
    Text.isBlank (b :: t) = false := by
  simp only [Text.isLetter, Bool.or_eq_true, Bool.and_eq_true, decide_eq_true_eq,
    UInt8.le_iff_toNat_le, UInt8.reduceToNat] at h
  have hchar : (Char.ofNat b.toNat).toNat = b.toNat := by
    rw [Char.ofNat, dif_pos (.inl (by omega))]
    rfl
  have hblank : MicroLang.isBlank (Char.ofNat b.toNat) = false := by
    simp only [MicroLang.isBlank, hchar, Bool.or_eq_false_iff, Bool.and_eq_false_iff,
      decide_eq_false_iff_not, beq_eq_false_iff_ne]
    omega
  rw [Text.isBlank, Text.pieces_cons_ascii b t (by omega), List.all_cons]
  show (MicroLang.isBlank (Char.ofNat b.toNat) && _) = false
  rw [hblank, Bool.false_and]

theorem isBlank_text {i : Instruction} (h : i.isWellFormed = true) : Text.isBlank i.text = false := by
  obtain ⟨hnamed, _⟩ := Instruction.operands_of_isWellFormed h
  obtain ⟨b, t, hmnemonic, hletters⟩ := Instruction.mnemonic_of_named hnamed
  have hb : Text.isLetter b = true := List.all_eq_true.1 hletters b List.mem_cons_self
  rcases Instruction.text_cases i with ⟨_, htext⟩ | ⟨u, us, _, htext⟩
  · rw [htext, hmnemonic]
    exact isBlank_cons_of_isLetter hb t
  · rw [htext, hmnemonic, List.cons_append]
    exact isBlank_cons_of_isLetter hb _

/-- A text without returns keeps its end. -/
theorem trimRight_of_not_mem {t : Text} (h : (13 : UInt8) ∉ t) : Text.trimRight (· = 13) t = t := by
  have hdrop : t.reverse.dropWhile (· = 13) = t.reverse := by
    cases hr : t.reverse with
    | nil => rfl
    | cons b u =>
      rw [List.dropWhile_cons, if_neg]
      intro hb
      rw [← List.mem_reverse, hr, ← of_decide_eq_true hb] at h
      exact h List.mem_cons_self
  rw [Text.trimRight, hdrop, List.reverse_reverse]

/-! ### Whole listings -/

/-- The lines of instructions, numbered from the given number on. -/
def numbered : Nat → List Instruction → List Line
  | _, [] => []
  | n, i :: code => { number := n, instruction := i } :: numbered (n + 1) code

theorem instructions_numbered (n : Nat) (code : List Instruction) :
    (numbered n code).map Line.instruction = code := by
  induction code generalizing n with
  | nil => rfl
  | cons i code ih => rw [numbered, List.map_cons, ih]

theorem length_numbered (n : Nat) (code : List Instruction) : (numbered n code).length = code.length := by
  rw [← List.length_map, instructions_numbered]

/-- Lines of well-formed instructions, counted from any number on, are read one by one. -/
theorem readLines_texts {code : List Instruction} (h : ∀ i ∈ code, i.isWellFormed = true) (k : Nat) :
    readLines ((code.map Instruction.text ++ [[]]).mapIdx fun n line =>
      (n + k, Text.trimRight (· = 13) line)) = (numbered k code, none) := by
  induction code generalizing k with
  | nil => rfl
  | cons i code ih =>
    have hi := h i List.mem_cons_self
    have hrest := ih (fun j hj => h j (List.mem_cons_of_mem _ hj)) (k + 1)
    have hshift : (fun n line => (n + 1 + k, Text.trimRight (· = 13) line)) =
        fun n line => (n + (k + 1), Text.trimRight (· = 13) line) := by
      funext n line
      rw [Nat.add_assoc, Nat.add_comm 1 k]
    rw [List.map_cons, List.cons_append, List.mapIdx_cons, hshift, readLines,
      trimRight_of_not_mem (Instruction.not_mem_text hi (.inr rfl)), isBlank_text hi,
      if_neg Bool.false_ne_true, readLine_text hi, hrest, Nat.zero_add]
    rfl

end Listing

/-- The listing of well-formed instructions is read as these instructions, numbered from one. -/
theorem Listing.read_listing {code : List Instruction} (h : ∀ i ∈ code, i.isWellFormed = true) :
    read (Instruction.listing code) = (numbered 1 code, none) := by
  have hlines : Instruction.listing code = (code.map Instruction.text).flatMap (· ++ [10]) := by
    rw [List.flatMap_map]
    rfl
  rw [read, numberedLines, hlines, Text.split_lines]
  · exact readLines_texts h 1
  · intro t ht
    obtain ⟨i, hi, rfl⟩ := List.mem_map.1 ht
    exact Instruction.not_mem_text (h i hi) (.inl rfl)

theorem Output.read_listing {o : Output} {code : List Instruction}
    (hcode : o.code = code.map Instruction.text) (h : ∀ i ∈ code, i.isWellFormed = true) :
    Listing.read o.listing = (Listing.numbered 1 code, none) := by
  have hlisting : o.listing = Instruction.listing code := by
    rw [Output.listing, hcode]
    cases code with
    | nil => rfl
    | cons i code =>
      rw [List.map_cons, List.isEmpty_cons, if_neg Bool.false_ne_true]
      refine (Text.intercalate_concat [10] _ _).trans ?_
      rw [← List.map_cons, List.flatMap_map]
      rfl
  rw [hlisting]
  exact Listing.read_listing h

/-- The lines that are read back are as many as the instructions and have their texts. -/
theorem Output.exists_lines {o : Output} {code : List Instruction}
    (hcode : o.code = code.map Instruction.text) (h : ∀ i ∈ code, i.isWellFormed = true) :
    ∃ lines, Listing.read o.listing = (lines, none) ∧ lines.length = o.code.length ∧
      lines.map (fun l => l.instruction.text) = o.code := by
  have hlines := Listing.instructions_numbered 1 code
  refine ⟨Listing.numbered 1 code, read_listing hcode h, ?_, ?_⟩
  · rw [hcode, List.length_map, Listing.length_numbered]
  · rw [hcode, ← hlines, List.map_map, hlines]
    rfl

/-- The generated code as it is read back from the listing. -/
def Output.instructions (o : Output) : List Instruction :=
  (Listing.read o.listing).1.map Listing.Line.instruction

theorem Output.instructions_eq {o : Output} {code : List Instruction}
    (hcode : o.code = code.map Instruction.text) (h : ∀ i ∈ code, i.isWellFormed = true) :
    o.instructions = code := by
  rw [instructions, read_listing hcode h, Listing.instructions_numbered]

end MicroLang
