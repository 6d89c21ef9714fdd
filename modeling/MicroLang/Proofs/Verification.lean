import MicroLang.Proofs.Acceptance
import MicroLang.Proofs.Readback

/-!
# Verification of generated code

Generated code passes verification.  Along the code a list of declared names is kept, as verification
keeps it; an instruction is admitted if it declares a new name or uses declared names only.  The
generator admits its instructions one by one: the declared names are those of its symbol table, and every
operand that it hands out is a number or one of them.

Only the end of a clean parse emits `Halt`, so the code of any other source lacks it, and that is what
verification finds.
-/

namespace MicroLang

open Translation

/-! ### Admitted code -/

namespace Listing

/-- A new name may be declared. -/
theorem checkLine_of_new {declared : List Text} {x : Text} (h : x ∉ declared) (n : Int) (isLast : Bool) :
    checkLine declared isLast ⟨n, Generator.declaration x⟩ = .ok ([], x :: declared) := by
  show Except.ok (if declared.contains x = true then _ else [], x :: declared) = _
  rw [if_neg]
  rw [List.contains_iff_mem]
  exact h

/-- Numbers and declared names may be used. -/
theorem checkLine_of_used {declared used : List Text} {i : Instruction} (hdeclare : i.opcode ≠ .declare)
    (hhalt : i.opcode ≠ .halt) (hused : usedOperands? i = some used)
    (hknown : ∀ t ∈ used, OperandShape.isNumber t = true ∨ t ∈ declared) (n : Int) (isLast : Bool) :
    checkLine declared isLast ⟨n, i⟩ = .ok ([], declared) := by
  have hnone : used.filter (fun t => !(OperandShape.isNumber t || declared.contains t)) = [] := by
    rw [List.filter_eq_nil_iff]
    intro t ht
    rw [Bool.not_eq_true, Bool.not_eq_false', Bool.or_eq_true, List.contains_iff_mem]
    exact hknown t ht
  unfold checkLine
  split
  · next hop _ => exact absurd hop hdeclare
  · next hop _ => exact absurd hop hdeclare
  · next hop => exact absurd hop hhalt
  · rw [hused]
    dsimp only
    rw [hnone]
    rfl

/-- Code without `Halt` in which no instruction has a problem, and the names that it declares. -/
inductive Admitted : List Instruction → List Text → Prop
  | nil : Admitted [] []
  | snoc {code : List Instruction} {declared declared' : List Text} {i : Instruction} :
      Admitted code declared → i.isWellFormed = true → i.opcode ≠ .halt →
      (∀ n isLast, checkLine declared isLast ⟨n, i⟩ = .ok ([], declared')) →
      Admitted (code ++ [i]) declared'

theorem numbered_append (n : Nat) (code more : List Instruction) :
    numbered n (code ++ more) = numbered n code ++ numbered (n + code.length) more := by
  induction code generalizing n with
  | nil => rfl
  | cons i code ih =>
    rw [List.cons_append, numbered, numbered, ih, List.cons_append, List.length_cons, Nat.add_assoc,
      Nat.add_comm 1]

namespace Admitted

variable {code : List Instruction} {declared : List Text}

/-- Behind admitted code the checks go on with the names that it declared. -/
theorem checkLines_append (h : Admitted code declared) (n : Nat) (lines : List Line) :
    checkLines [] (numbered n code ++ lines) = checkLines declared lines := by
  induction h generalizing lines with
  | nil => rfl
  | snoc _ _ _ hcheck ih =>
    rw [numbered_append, List.append_assoc, ih, numbered, numbered, List.singleton_append, checkLines,
      hcheck]
    dsimp only
    cases checkLines _ lines <;> rfl

theorem plain (h : Admitted code declared) :
    ∀ i ∈ code, i.isWellFormed = true ∧ i.opcode ≠ .halt := by
  induction h with
  | nil => exact fun i hi => absurd hi List.not_mem_nil
  | snoc _ hwell hhalt _ ih =>
    intro j hj
    rcases List.mem_append.1 hj with hj | hj
    · exact ih j hj
    · rw [List.mem_singleton.1 hj]
      exact ⟨hwell, hhalt⟩

/-- A beginning of admitted code is admitted. -/
theorem of_prefix (h : Admitted code declared) {start : List Instruction} (hstart : start <+: code) :
    ∃ declared', Admitted start declared' := by
  induction h with
  | nil => exact ⟨[], List.prefix_nil.1 hstart ▸ .nil⟩
  | @snoc code _ declared' i hcode hwell hhalt hcheck ih =>
    rcases List.prefix_concat_iff.1 hstart with rfl | hstart
    · exact ⟨declared', hcode.snoc hwell hhalt hcheck⟩
    · exact ih hstart

end Admitted

end Listing

/-! ### Actions -/

/-- The code so far is admitted and declares the names of the symbol table. -/
structure Generator.Sound (g : Generator) : Prop where
  admitted : Listing.Admitted g.instructions g.symbols.names.reverse
  names : ∀ x ∈ g.symbols.names, OperandShape.isName x = true
  fresh : g.Fresh

/-- The operand is a number or a declared name. -/
def Generator.Knows (g : Generator) (v : Text) : Prop :=
  OperandShape.isNumber v = true ∨ v ∈ g.symbols.names

/-- The generator stays sound, the operand is known, and so is what was known before. -/
structure Generator.Delivers (g : Generator) (r : Operand × Generator) : Prop where
  sound : r.2.Sound
  knows : r.2.Knows r.1.value
  keeps : ∀ v, g.Knows v → r.2.Knows v

namespace Generator.Sound

variable {g : Generator}

theorem fits_value (h : g.Sound) {v : Text} (hv : g.Knows v) : OperandShape.value.fits v = true := by
  rcases hv with hv | hv
  · exact Bool.or_eq_true_iff.2 (.inr hv)
  · exact Bool.or_eq_true_iff.2 (.inl (h.names v hv))

/-- An instruction that uses what is known may be emitted. -/
theorem emit (h : g.Sound) {i : Instruction} (used : List Text) (hwell : i.isWellFormed = true)
    (hdeclare : i.opcode ≠ .declare) (hhalt : i.opcode ≠ .halt)
    (hused : Listing.usedOperands? i = some used) (hknown : ∀ t ∈ used, g.Knows t) :
    (Generator.emit false i g).generator.Sound where
  admitted := by
    rw [instructions_emit, symbols_emit]
    refine h.admitted.snoc hwell hhalt (Listing.checkLine_of_used hdeclare hhalt hused fun t ht => ?_)
    rw [List.mem_reverse]
    exact hknown t ht
  names := by
    rw [symbols_emit]
    exact h.names
  fresh := h.fresh.emit i

theorem declare (h : g.Sound) {x : Text} (kind : SymbolKind) (hx : OperandShape.isName x = true)
    (hfresh : ∀ n, x = temporaryName n → n ≤ g.temporaries) :
    (Generator.declare false x kind g).generator.Sound := by
  by_cases hmem : x ∈ g.symbols.names
  · rw [declare_of_known hmem]
    exact h
  · obtain ⟨hcode, hnames, _⟩ := declare_of_new hmem kind
    refine ⟨?_, ?_, h.fresh.declare kind hfresh⟩
    · rw [hcode, hnames, List.reverse_append]
      refine h.admitted.snoc ?_ ?_ (Listing.checkLine_of_new ?_)
      · show (OperandShape.isName x && _) = true
        rw [hx]
        rfl
      · exact fun hop => nomatch hop
      · rw [List.mem_reverse]
        exact hmem
    · intro y hy
      rw [hnames, List.mem_append, List.mem_singleton] at hy
      rcases hy with hy | rfl
      · exact h.names y hy
      · exact hx

theorem identifier (h : g.Sound) {x : Text} (hx : OperandShape.isIdentifier x = true) :
    g.Delivers (perform (Generator.identifier false x) g) where
  sound := h.declare .variable (Bool.or_eq_true_iff.2 (.inr hx))
    fun n hn => absurd hn (ne_temporaryName_of_isIdentifier hx n)
  knows := .inr (mem_names_declare x _ g)
  keeps := fun _ hv => hv.imp id fun hmem => mem_names_declare_of_mem hmem x _

theorem combine (h : g.Sound) {left right : Operand} (op : AddOp) (hleft : g.Knows left.value)
    (hright : g.Knows right.value) :
    g.Delivers (perform (Generator.combine false left op.opcode right) g) := by
  let temp := temporaryName (g.temporaries + 1)
  let g₀ : Generator := { g with temporaries := g.temporaries + 1 }
  let g₁ := (Generator.declare false temp .temporary g₀).generator
  have hname : OperandShape.isName temp = true :=
    Bool.or_eq_true_iff.2 (.inl (isTemporary_temporaryName (Nat.succ_pos _)))
  have h₀ : g₀.Sound := ⟨h.admitted, h.names, h.fresh.next⟩
  have h₁ : g₁.Sound :=
    h₀.declare .temporary hname fun n hn => Nat.le_of_eq (temporaryName_inj hn).symm
  have htemp : temp ∈ g₁.symbols.names := mem_names_declare temp .temporary g₀
  have hknows : ∀ v, g.Knows v → g₁.Knows v := fun v hv =>
    hv.imp id fun hmem => mem_names_declare_of_mem (g := g₀) hmem temp .temporary
  have hfits : OperandShape.fitAll [.value, .value, .name] [left.value, right.value, temp] = true := by
    show (OperandShape.value.fits left.value &&
      (OperandShape.value.fits right.value && (OperandShape.isName temp && true))) = true
    rw [h₁.fits_value (hknows _ hleft), h₁.fits_value (hknows _ hright), hname]
    rfl
  refine ⟨h₁.emit [left.value, right.value, temp] ?_ ?_ ?_ ?_ ?_, .inr htemp, hknows⟩
  · cases op <;> exact hfits
  · cases op <;> exact fun hop => nomatch hop
  · cases op <;> exact fun hop => nomatch hop
  · cases op <;> rfl
  · intro t ht
    simp only [List.mem_cons, List.not_mem_nil, or_false] at ht
    rcases ht with rfl | rfl | rfl
    · exact hknows _ hleft
    · exact hknows _ hright
    · exact .inr htemp

theorem assign (h : g.Sound) {source : Operand} {x : Text} (hsource : g.Knows source.value)
    (hx : x ∈ g.symbols.names) :
    (Generator.assign false source ⟨.identifier, x⟩ g).generator.Sound := by
  refine h.emit [source.value, x] ?_ (fun hop => nomatch hop) (fun hop => nomatch hop) rfl ?_
  · show (OperandShape.value.fits source.value && (OperandShape.isName x && true)) = true
    rw [h.fits_value hsource, h.names x hx]
    rfl
  · intro t ht
    simp only [List.mem_cons, List.not_mem_nil, or_false] at ht
    rcases ht with rfl | rfl
    · exact hsource
    · exact .inr hx

theorem readInto (h : g.Sound) {x : Text} (hx : x ∈ g.symbols.names) :
    (Generator.readInto false ⟨.identifier, x⟩ g).generator.Sound := by
  refine h.emit [x] ?_ (fun hop => nomatch hop) (fun hop => nomatch hop) rfl ?_
  · show (OperandShape.isName x && true) = true
    rw [h.names x hx]
    rfl
  · intro t ht
    rw [List.mem_singleton.1 ht]
    exact .inr hx

theorem writeExpression (h : g.Sound) {source : Operand} (hsource : g.Knows source.value) :
    (Generator.writeExpression false source g).generator.Sound := by
  refine h.emit [source.value] ?_ (fun hop => nomatch hop) (fun hop => nomatch hop) rfl ?_
  · show (OperandShape.value.fits source.value && true) = true
    rw [h.fits_value hsource]
    rfl
  · intro t ht
    rw [List.mem_singleton.1 ht]
    exact hsource

end Generator.Sound

/-! ### Phrases -/

mutual

theorem Expr.delivers : ∀ (e : Expr), e.WellSpelled → ∀ {g : Generator}, g.Sound →
    g.Delivers (e.translate g)
  | .single p, he, g, h => by
    rw [Expr.WellSpelled] at he
    rw [Expr.translate]
    exact Primary.delivers p he h
  | .chain p op e, he, g, h => by
    rw [Expr.WellSpelled] at he
    have hleft := Primary.delivers p he.1 h
    have hright := Expr.delivers e he.2 hleft.sound
    have hresult := hright.sound.combine op (hright.keeps _ hleft.knows) hright.knows
    rw [Expr.translate]
    exact ⟨hresult.sound, hresult.knows,
      fun v hv => hresult.keeps v (hright.keeps v (hleft.keeps v hv))⟩

theorem Primary.delivers : ∀ (p : Primary), p.WellSpelled → ∀ {g : Generator}, g.Sound →
    g.Delivers (p.translate g)
  | .paren e, hp, g, h => by
    rw [Primary.WellSpelled] at hp
    rw [Primary.translate]
    exact Expr.delivers e hp h
  | .name x, hp, g, h => by
    rw [Primary.WellSpelled] at hp
    rw [Primary.translate]
    exact h.identifier hp
  | .number digits, hp, g, h => by
    rw [Primary.WellSpelled] at hp
    rw [Primary.translate]
    exact ⟨h, .inl hp, fun _ hv => hv⟩

end

theorem sound_forEach {α : Type} {item : α → Translation Unit} {l : List α}
    (hitem : ∀ a ∈ l, ∀ {g : Generator}, g.Sound → (item a g).2.Sound) {g : Generator} (h : g.Sound) :
    (forEach item l g).2.Sound := by
  induction l generalizing g with
  | nil => exact h
  | cons a l ih =>
    exact ih (fun b hb => hitem b (List.mem_cons_of_mem _ hb)) (hitem a List.mem_cons_self h)

theorem sound_readName {x : Text} (hx : OperandShape.isIdentifier x = true) {g : Generator}
    (h : g.Sound) : (readName x g).2.Sound :=
  (h.identifier hx).sound.readInto (Generator.mem_names_declare x _ g)

theorem sound_writeValue {e : Expr} (he : e.WellSpelled) {g : Generator} (h : g.Sound) :
    (writeValue e g).2.Sound :=
  (e.delivers he h).sound.writeExpression (e.delivers he h).knows

theorem Statement.sound (t : Statement) (ht : t.WellSpelled) {g : Generator} (h : g.Sound) :
    (t.translate g).2.Sound := by
  cases t with
  | assign x e =>
    obtain ⟨hx, he⟩ := ht
    have hsource := e.delivers he h
    have htarget := hsource.sound.identifier hx
    exact htarget.sound.assign (htarget.keeps _ hsource.knows) (Generator.mem_names_declare x _ _)
  | read xs => exact sound_forEach (l := xs.first :: xs.rest) (fun x hx _ => sound_readName (ht x hx)) h
  | write es => exact sound_forEach (l := es.first :: es.rest) (fun e he _ => sound_writeValue (ht e he)) h

/-- The code of a well-spelled program is sound up to its end. -/
theorem Program.sound (p : Program) (hp : p.WellSpelled) : (p.translate {}).2.Sound := by
  have hstart : Generator.Sound {} :=
    ⟨.nil, fun x hx => absurd hx List.not_mem_nil, fun n hn => absurd hn List.not_mem_nil⟩
  exact sound_forEach (l := p.statements.first :: p.statements.rest)
    (fun t ht _ => t.sound (hp t ht)) hstart

/-! ### Listings -/

theorem Instruction.isWellFormed_halt : ({ opcode := .halt } : Instruction).isWellFormed = true := rfl

/-- No other instruction reads like `Halt`. -/
theorem Listing.Admitted.halt_not_mem {code : List Instruction} {declared : List Text}
    (h : Admitted code declared) : text "Halt" ∉ code.map Instruction.text := by
  intro hmem
  obtain ⟨i, hi, htext⟩ := List.mem_map.1 hmem
  obtain ⟨hwell, hhalt⟩ := h.plain i hi
  have hread := readLine_text hwell
  rw [htext, show text "Halt" = Instruction.text { opcode := .halt } from rfl,
    readLine_text Instruction.isWellFormed_halt] at hread
  cases hread
  exact hhalt rfl

/-- Code with `Halt` behind admitted code is well-formed. -/
theorem Listing.Admitted.isWellFormed_concat {code : List Instruction} {declared : List Text}
    (h : Admitted code declared) :
    ∀ i ∈ code ++ [({ opcode := .halt } : Instruction)], i.isWellFormed = true := by
  intro i hi
  rcases List.mem_append.1 hi with hi | hi
  · exact (h.plain i hi).1
  · rw [List.mem_singleton.1 hi]
    exact Instruction.isWellFormed_halt

namespace Output

variable {o : Output} {code : List Instruction} {declared : List Text}

/-- Admitted code without its end lacks nothing but `Halt`. -/
theorem verify_of_admitted (h : Listing.Admitted code declared)
    (hcode : o.code = code.map Instruction.text) :
    ∃ n, o.verify = .ok [{ line := n, text := [], problem := .noFinalHalt }] := by
  have hcheck := h.checkLines_append 1 []
  rw [List.append_nil] at hcheck
  rw [verify, Listing.verifyText, read_listing hcode fun i hi => (h.plain i hi).1]
  show ∃ n, Listing.verify _ = _
  rw [Listing.verify, hcheck]
  show ∃ n, Except.ok (Listing.checkEnd _) = _
  rw [Listing.checkEnd]
  cases hlast : (Listing.numbered 1 code).getLast? with
  | none => exact ⟨0, rfl⟩
  | some l =>
    have hmem : l.instruction ∈ code := by
      rw [← Listing.instructions_numbered 1 code]
      exact List.mem_map_of_mem (List.mem_of_getLast? hlast)
    refine ⟨l.number, ?_⟩
    dsimp only
    rw [if_neg (h.plain _ hmem).2]

/-- Admitted code with `Halt` at its end has no problem. -/
theorem verify_of_halted (h : Listing.Admitted code declared)
    (hcode : o.code = (code ++ [({ opcode := .halt } : Instruction)]).map Instruction.text) :
    o.verify = .ok [] := by
  rw [verify, Listing.verifyText, read_listing hcode h.isWellFormed_concat]
  show Listing.verify _ = _
  rw [Listing.verify, Listing.numbered_append, h.checkLines_append]
  show Except.ok (Listing.checkEnd _) = _
  rw [Listing.checkEnd, Listing.numbered, Listing.numbered, List.getLast?_concat]
  rfl

end Output

namespace Compilation

/-- Compilation is clean exactly if verification finds no problem in the listing, and exactly if the code
ends with `Halt`.  Clean or not, `Halt` stands nowhere else and the listing is read back as the code. -/
theorem clean_iff_verified (config : Config) (filename src : Text) :
    let c := ofSource config filename src
    (∃ problems, c.output.verify = .ok problems ∧ (c.error = none ↔ problems = [])) ∧
      (c.error = none ↔ c.output.code.getLast? = some (text "Halt")) ∧
      text "Halt" ∉ c.output.code.dropLast ∧
      ∃ lines, Listing.read c.output.listing = (lines, none) ∧
        lines.length = c.output.code.length ∧
        lines.map (fun l => l.instruction.text) = c.output.code := by
  intro c
  by_cases hclean : c.error = none
  · obtain ⟨p, hp⟩ := (error_eq_none_iff config filename src).1 hclean
    have hcode : c.output.code = p.code.map Instruction.text := code_of_spells config hp
    have hspelled := p.wellSpelled (hp.writable (Stream.scanned_ofSource filename src))
    have hadmitted := (p.sound hspelled).admitted
    have hlast : c.output.code = (p.translate {}).2.instructions.map Instruction.text ++ [text "Halt"] := by
      rw [hcode, Program.code, List.map_append]
      rfl
    refine ⟨⟨[], Output.verify_of_halted hadmitted hcode, iff_of_true hclean rfl⟩, ?_, ?_,
      Output.exists_lines hcode hadmitted.isWellFormed_concat⟩
    · rw [hlast, List.getLast?_concat]
      exact iff_of_true hclean rfl
    · rw [hlast, List.dropLast_concat]
      exact hadmitted.halt_not_mem
  · obtain ⟨p, code, hw, hstart, hcode⟩ := code_of_error config hclean
    obtain ⟨declared, hadmitted⟩ := (p.sound (p.wellSpelled hw)).admitted.of_prefix hstart
    obtain ⟨n, hverify⟩ := Output.verify_of_admitted hadmitted hcode
    have hno : text "Halt" ∉ c.output.code := by
      rw [hcode]
      exact hadmitted.halt_not_mem
    refine ⟨⟨_, hverify, iff_of_false hclean (List.cons_ne_nil _ _)⟩, ?_, ?_,
      Output.exists_lines hcode fun i hi => (hadmitted.plain i hi).1⟩
    · exact iff_of_false hclean fun hlast => hno (List.mem_of_getLast? hlast)
    · exact fun hmem => hno (List.dropLast_subset _ hmem)

end Compilation

end MicroLang
