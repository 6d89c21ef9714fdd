import MicroLang.Proofs.RoundTrip
import MicroLang.Proofs.Verification

/-!
# Temporaries

In generated code a temporary is declared, computed by the next instruction and used once.  It is computed
for an operator, whose result is an operand of what stands around it: of another operator, of an assignment
or of an output.

While code is generated some operands are in flight: handed up by the translation of a phrase and not yet
used.  A temporary is in flight until the instruction that uses it is emitted, so its uses in the code and
the times it is in flight add up to one all along.  At the end of a program nothing is in flight.
-/

namespace MicroLang

open Translation OperandShape

/-! ### What an instruction reads and writes -/

namespace Instruction

/-- The operands that are read. -/
def sources (i : Instruction) : List Text :=
  match i.opcode, i.operands with
  | .add, [left, right, _] | .sub, [left, right, _] => [left, right]
  | .store, [source, _] | .write, [source, _] => [source]
  | _, _ => []

/-- The operand that receives a value. -/
def target? (i : Instruction) : Option Text :=
  match i.opcode, i.operands with
  | .add, [_, _, x] | .sub, [_, _, x] | .store, [_, x] | .read, [x, _] => some x
  | _, _ => none

/-- The name that is declared. -/
def declared? (i : Instruction) : Option Text :=
  match i.opcode, i.operands with
  | .declare, x :: _ => some x
  | _, _ => none

/-- Whether the instruction is made for an operator of the source. -/
def IsOperation (i : Instruction) : Prop := i.opcode = .add ∨ i.opcode = .sub

theorem opcode_of_mem_sources {i : Instruction} {x : Text} (h : x ∈ i.sources) :
    i.IsOperation ∨ i.opcode = .store ∨ i.opcode = .write := by
  unfold sources at h
  unfold IsOperation
  split at h <;> simp_all

/-- The instruction is an operation on two operands with its result in the name. -/
structure Computes (i : Instruction) (left right x : Text) : Prop where
  operation : i.IsOperation
  sources : i.sources = [left, right]
  target : i.target? = some x
  undeclared : i.declared? = none

end Instruction

open Instruction

/-- A declaration writes no value. -/
theorem Generator.target?_declaration (x y : Text) : (declaration x).target? ≠ some y :=
  (Option.some_ne_none y).symm

theorem AddOp.computes (op : AddOp) (left right x : Text) :
    Instruction.Computes ⟨op.opcode, [left, right, x]⟩ left right x := by
  cases op with
  | plus => exact ⟨.inl rfl, rfl, rfl, rfl⟩
  | minus => exact ⟨.inr rfl, rfl, rfl, rfl⟩

/-- The code has one place where a name is computed, by an operation right behind its declaration, and the
name is not used up to there. -/
structure ComputedOnce (code : List Instruction) (x : Text) (before : List Instruction)
    (result : Instruction) (after : List Instruction) : Prop where
  split : code = before ++ Generator.declaration x :: result :: after
  operation : result.IsOperation
  target : result.target? = some x
  others : ∀ i ∈ before ++ after, i.target? ≠ some x
  unused : ∀ i ∈ before ++ [result], x ∉ i.sources

/-- Exactly one instruction has the name among its sources, and it has it there once. -/
def UsedOnce (code : List Instruction) (x : Text) : Prop :=
  ∃ before user after, code = before ++ user :: after ∧ user.sources.count x = 1 ∧
    (user.IsOperation ∨ user.opcode = .store ∨ user.opcode = .write) ∧
    ∀ i ∈ before ++ after, x ∉ i.sources

theorem usedOnce_of_count {code : List Instruction} {x : Text}
    (h : (code.flatMap sources).count x = 1) : UsedOnce code x := by
  induction code with
  | nil => cases h
  | cons i code ih =>
    rw [List.flatMap_cons, List.count_append] at h
    by_cases hi : x ∈ i.sources
    · have hpos := List.count_pos_iff.2 hi
      have hrest : (code.flatMap sources).count x = 0 := by omega
      refine ⟨[], i, code, rfl, by omega, opcode_of_mem_sources hi, fun j hj hx => ?_⟩
      exact List.count_eq_zero.1 hrest (List.mem_flatMap.2 ⟨j, hj, hx⟩)
    · rw [List.count_eq_zero.2 hi, Nat.zero_add] at h
      obtain ⟨before, user, after, rfl, hcount, hop, hothers⟩ := ih h
      refine ⟨i :: before, user, after, rfl, hcount, hop, fun j hj => ?_⟩
      rcases List.mem_cons.1 hj with rfl | hj
      · exact hi
      · exact hothers j hj

/-- The name is computed once, and with the given number of uses it will have been used once. -/
def Awaits (code : List Instruction) (x : Text) (due : Nat) : Prop :=
  ∃ before result after, ComputedOnce code x before result after ∧
    (after.flatMap sources).count x + due = 1

/-- An instruction that does not write the name takes some of the uses that are due. -/
theorem Awaits.concat {code : List Instruction} {i : Instruction} {x : Text} {due : Nat}
    (h : Awaits code x (i.sources.count x + due)) (hi : i.target? ≠ some x) :
    Awaits (code ++ [i]) x due := by
  obtain ⟨before, result, after, hcomputed, hcount⟩ := h
  refine ⟨before, result, after ++ [i], { hcomputed with split := ?_, others := ?_ }, ?_⟩
  · rw [hcomputed.split, List.append_assoc]
    rfl
  · intro j hj
    rw [← List.append_assoc] at hj
    rcases List.mem_append.1 hj with hj | hj
    · exact hcomputed.others j hj
    · rw [List.mem_singleton.1 hj]
      exact hi
  · rw [List.flatMap_append, List.flatMap_singleton, List.count_append]
    omega

/-- An operation on two operands takes the uses that were due to them. -/
theorem Awaits.concat_operation {code : List Instruction} {result : Instruction} {left right x y : Text}
    {held : List Text} (h : Awaits code x ((right :: left :: held).count x))
    (hresult : result.Computes left right y) (hne : y ≠ x) :
    Awaits (code ++ [Generator.declaration y, result]) x (held.count x) := by
  have hdue : (right :: left :: held).count x =
      (Generator.declaration y).sources.count x + (result.sources.count x + held.count x) := by
    rw [hresult.sources]
    show _ = 0 + _
    simp only [List.count_cons, List.count_nil]
    omega
  rw [hdue] at h
  rw [List.append_cons]
  refine (h.concat (Generator.target?_declaration y x)).concat ?_
  rw [hresult.target]
  exact fun heq => hne (Option.some.inj heq)

/-- A name that code does not mention is computed behind it and awaits its use. -/
theorem awaits_new {code : List Instruction} {result : Instruction} {left right x : Text}
    (hcode : ∀ i ∈ code, i.target? ≠ some x ∧ x ∉ i.sources) (hresult : result.Computes left right x)
    (hleft : left ≠ x) (hright : right ≠ x) :
    Awaits (code ++ [Generator.declaration x, result]) x 1 := by
  refine ⟨code, result, [], ⟨rfl, hresult.operation, hresult.target, ?_, ?_⟩, rfl⟩
  · rw [List.append_nil]
    exact fun i hi => (hcode i hi).1
  · intro i hi
    rcases List.mem_append.1 hi with hi | hi
    · exact (hcode i hi).2
    · rw [List.mem_singleton.1 hi, hresult.sources]
      simp [hleft.symm, hright.symm]

/-! ### Operands in flight -/

theorem isTemporary_of_isIdentifier {x : Text} (h : isIdentifier x = true) : isTemporary x = false := by
  rw [← Bool.not_eq_true, isTemporary_iff]
  rintro ⟨n, _, hn⟩
  exact ne_temporaryName_of_isIdentifier h n hn

theorem ne_temporaryName_of_isNumber {x : Text} (h : isNumber x = true) (n : Nat) :
    x ≠ Generator.temporaryName n := by
  rintro rfl
  rw [Generator.isNumber_temporaryName] at h
  cases h

namespace Generator

/-- The code so far with the operands in flight: the temporaries are declared in order, each is used once in
the code and in flight, the next ones occur nowhere, and operations write to temporaries only. -/
structure Threaded (g : Generator) (held : List Text) : Prop where
  fresh : g.Fresh
  declared : (g.instructions.filterMap declared?).filter isTemporary =
    (List.range' 1 g.temporaries).map temporaryName
  awaits : ∀ k, 1 ≤ k → k ≤ g.temporaries →
    Awaits g.instructions (temporaryName k) (held.count (temporaryName k))
  absent : ∀ k, g.temporaries < k → temporaryName k ∉ held ∧
    ∀ i ∈ g.instructions, i.target? ≠ some (temporaryName k) ∧ temporaryName k ∉ i.sources
  results : ∀ i ∈ g.instructions, i.IsOperation →
    ∃ k, 1 ≤ k ∧ k ≤ g.temporaries ∧ i.target? = some (temporaryName k)

namespace Threaded

variable {g : Generator} {held : List Text}

/-- Operands other than temporaries come and go. -/
theorem hold (h : g.Threaded held) {x : Text} (hx : ∀ k, x ≠ temporaryName k) :
    g.Threaded (x :: held) := by
  refine { h with awaits := fun k hk hk' => ?_, absent := fun k hk => ⟨fun hmem => ?_, ?_⟩ }
  · rw [List.count_cons_of_ne (hx k)]
    exact h.awaits k hk hk'
  · rcases List.mem_cons.1 hmem with heq | hmem
    · exact hx k heq.symm
    · exact (h.absent k hk).1 hmem
  · exact (h.absent k hk).2

/-- One more instruction, which is no operation and writes to no temporary, uses its sources up. -/
theorem extend {i : Instruction} (h : g.Threaded (i.sources ++ held)) {g' : Generator} (hfresh : g'.Fresh)
    (htemporaries : g'.temporaries = g.temporaries) (hcode : g'.instructions = g.instructions ++ [i])
    (hdeclared : ∀ x, i.declared? = some x → isTemporary x = false)
    (htarget : ∀ k, i.target? ≠ some (temporaryName k)) (hplain : ¬i.IsOperation) :
    g'.Threaded held where
  fresh := hfresh
  declared := by
    have hnone : ([i].filterMap declared?).filter isTemporary = [] := by
      rw [List.filter_eq_nil_iff]
      intro x hx
      simp only [List.mem_filterMap, List.mem_singleton, exists_eq_left] at hx
      rw [hdeclared x hx]
      exact Bool.false_ne_true
    rw [hcode, htemporaries, List.filterMap_append, List.filter_append, h.declared, hnone, List.append_nil]
  awaits k hk hk' := by
    rw [htemporaries] at hk'
    have hawaits := h.awaits k hk hk'
    rw [List.count_append] at hawaits
    rw [hcode]
    exact hawaits.concat (htarget k)
  absent k hk := by
    rw [htemporaries] at hk
    obtain ⟨hheld, hnone⟩ := h.absent k hk
    rw [List.mem_append, not_or] at hheld
    refine ⟨hheld.2, fun j hj => ?_⟩
    rw [hcode] at hj
    rcases List.mem_append.1 hj with hj | hj
    · exact hnone j hj
    · rw [List.mem_singleton.1 hj]
      exact ⟨htarget k, hheld.1⟩
  results j hj hop := by
    rw [hcode] at hj
    rw [htemporaries]
    rcases List.mem_append.1 hj with hj | hj
    · exact h.results j hj hop
    · rw [List.mem_singleton.1 hj] at hop
      exact absurd hop hplain

theorem emit {i : Instruction} (h : g.Threaded (i.sources ++ held)) (hdeclared : i.declared? = none)
    (htarget : ∀ k, i.target? ≠ some (temporaryName k)) (hplain : ¬i.IsOperation) :
    (Generator.emit false i g).generator.Threaded held := by
  refine h.extend (h.fresh.emit i) (temporaries_emit _ _ _) (instructions_emit _ _) ?_ htarget hplain
  intro x hx
  rw [hdeclared] at hx
  cases hx

theorem declare (h : g.Threaded held) {x : Text} (hx : isIdentifier x = true) (kind : SymbolKind) :
    (Generator.declare false x kind g).generator.Threaded held := by
  by_cases hmem : x ∈ g.symbols.names
  · rw [declare_of_known hmem]
    exact h
  · obtain ⟨hcode, _, htemporaries⟩ := declare_of_new hmem kind
    have hfresh : (Generator.declare false x kind g).generator.Fresh :=
      h.fresh.declare kind fun n hn => absurd hn (ne_temporaryName_of_isIdentifier hx n)
    refine extend (i := declaration x) h hfresh htemporaries hcode ?_ ?_ ?_
    · rintro y ⟨⟩
      exact isTemporary_of_isIdentifier hx
    · exact fun k => target?_declaration x (temporaryName k)
    · rintro (hop | hop) <;> cases hop

theorem assign {source : Operand} (h : g.Threaded (source.value :: held)) {x : Text}
    (hx : isIdentifier x = true) :
    (Generator.assign false source ⟨.identifier, x⟩ g).generator.Threaded held := by
  refine emit (i := ⟨.store, [source.value, x]⟩) h rfl (fun k htarget => ?_) ?_
  · exact ne_temporaryName_of_isIdentifier hx k (Option.some.inj htarget)
  · rintro (hop | hop) <;> cases hop

theorem readInto (h : g.Threaded held) {x : Text} (hx : isIdentifier x = true) :
    (Generator.readInto false ⟨.identifier, x⟩ g).generator.Threaded held := by
  refine emit (i := ⟨.read, [x, integerType]⟩) h rfl (fun k htarget => ?_) ?_
  · exact ne_temporaryName_of_isIdentifier hx k (Option.some.inj htarget)
  · rintro (hop | hop) <;> cases hop

theorem writeExpression {source : Operand} (h : g.Threaded (source.value :: held)) :
    (Generator.writeExpression false source g).generator.Threaded held := by
  refine emit (i := ⟨.write, [source.value, integerType]⟩) h rfl (fun _ => (Option.some_ne_none _).symm) ?_
  rintro (hop | hop) <;> cases hop

theorem finish (h : g.Threaded held) : (Generator.finish false g).generator.Threaded held := by
  refine emit (i := { opcode := .halt }) h rfl (fun _ => (Option.some_ne_none _).symm) ?_
  rintro (hop | hop) <;> cases hop

end Threaded

/-- An operation declares the next temporary and computes it. -/
theorem combine_of_fresh {g : Generator} (h : g.Fresh) (left : Operand) (op : Opcode) (right : Operand) :
    let g' := (combine false left op right g).generator
    let temp := temporaryName (g.temporaries + 1)
    g'.instructions = g.instructions ++ [declaration temp, ⟨op, [left.value, right.value, temp]⟩] ∧
      g'.temporaries = g.temporaries + 1 ∧ g'.Fresh := by
  intro g' temp
  let g₀ : Generator := { g with temporaries := g.temporaries + 1 }
  obtain ⟨hcode, _, htemporaries⟩ := declare_of_new (g := g₀) h.not_mem .temporary
  have hfresh : (declare false temp .temporary g₀).generator.Fresh :=
    h.next.declare .temporary fun n hn => Nat.le_of_eq (temporaryName_inj hn).symm
  refine ⟨?_, ?_, hfresh.emit _⟩
  · show (emit false _ _).generator.instructions = _
    rw [instructions_emit]
    show (declare false temp .temporary g₀).generator.instructions ++ _ = _
    rw [hcode, List.append_assoc]
    rfl
  · show (emit false _ _).generator.temporaries = _
    rw [temporaries_emit]
    exact htemporaries

/-- An operation uses two operands up and puts its result in flight. -/
theorem Threaded.combine {g : Generator} {held : List Text} {left right : Operand}
    (h : g.Threaded (right.value :: left.value :: held)) (op : AddOp) :
    (Generator.combine false left op.opcode right g).generator.Threaded
      (temporaryName (g.temporaries + 1) :: held) := by
  obtain ⟨hcode, htemporaries, hfresh⟩ := combine_of_fresh h.fresh left op.opcode right
  have hresult := op.computes left.value right.value (temporaryName (g.temporaries + 1))
  generalize (Generator.combine false left op.opcode right g).generator = g' at *
  generalize Instruction.mk op.opcode [_, _, _] = result at hcode hresult
  have hmem : ∀ i ∈ g'.instructions, i ∈ g.instructions ∨
      i = declaration (temporaryName (g.temporaries + 1)) ∨ i = result := by
    intro i hi
    rw [hcode] at hi
    simpa using hi
  have hne : ∀ k, k ≠ g.temporaries + 1 → temporaryName (g.temporaries + 1) ≠ temporaryName k :=
    fun k hk heq => hk (temporaryName_inj heq).symm
  have habsent : ∀ k, g.temporaries < k → right.value ≠ temporaryName k ∧ left.value ≠ temporaryName k ∧
      temporaryName k ∉ held := by
    intro k hk
    have hheld := (h.absent k hk).1
    simp only [List.mem_cons, not_or] at hheld
    exact ⟨Ne.symm hheld.1, Ne.symm hheld.2.1, hheld.2.2⟩
  refine ⟨hfresh, ?_, fun k hk hk' => ?_, fun k hk => ?_, fun i hi hop => ?_⟩
  · have hnew : isTemporary (temporaryName (g.temporaries + 1)) = true :=
      isTemporary_temporaryName (Nat.succ_pos _)
    have hdeclared : (declaration (temporaryName (g.temporaries + 1))).declared? =
        some (temporaryName (g.temporaries + 1)) := rfl
    rw [hcode, htemporaries, List.filterMap_append, List.filter_append, h.declared,
      List.range'_1_concat, List.map_append, Nat.add_comm 1]
    simp [hdeclared, hresult.undeclared, hnew]
  · rw [hcode]
    rw [htemporaries] at hk'
    by_cases hlast : k = g.temporaries + 1
    · -- the result is new to the code and in flight once
      obtain ⟨hright, hleft, hheld⟩ := habsent k (by omega)
      rw [← hlast] at hresult ⊢
      rw [List.count_cons_self, List.count_eq_zero.2 hheld]
      exact awaits_new (h.absent k (by omega)).2 hresult hleft hright
    · -- an older temporary is used by the operation as often as it was an operand
      rw [List.count_cons_of_ne (hne k hlast)]
      exact (h.awaits k hk (by omega)).concat_operation hresult (hne k hlast)
  · rw [htemporaries] at hk
    obtain ⟨hright, hleft, hheld⟩ := habsent k (by omega)
    have hother := hne k (by omega)
    refine ⟨?_, fun i hi => ?_⟩
    · simp [hother.symm, hheld]
    · rcases hmem i hi with hi | rfl | rfl
      · exact (h.absent k (by omega)).2 i hi
      · exact ⟨target?_declaration _ _, List.not_mem_nil⟩
      · rw [hresult.target, hresult.sources]
        simp [hother, hright.symm, hleft.symm]
  · rw [htemporaries]
    rcases hmem i hi with hi | rfl | rfl
    · obtain ⟨k, hk, hk', hname⟩ := h.results i hi hop
      exact ⟨k, hk, by omega, hname⟩
    · rcases hop with hop | hop <;> cases hop
    · exact ⟨_, by omega, Nat.le_refl _, hresult.target⟩

end Generator

/-! ### Phrases -/

mutual

/-- The value of an expression is in flight behind its code. -/
theorem Expr.threaded : ∀ (e : Expr), e.WellSpelled → ∀ {g : Generator} {held : List Text},
    g.Threaded held → (e.translate g).2.Threaded ((e.translate g).1.value :: held)
  | .single p, he, g, held, h => by
    rw [Expr.WellSpelled] at he
    rw [Expr.translate]
    exact Primary.threaded p he h
  | .chain p op e, he, g, held, h => by
    rw [Expr.WellSpelled] at he
    have hleft := Primary.threaded p he.1 h
    have hright := Expr.threaded e he.2 hleft
    rw [Expr.translate]
    exact hright.combine op

theorem Primary.threaded : ∀ (p : Primary), p.WellSpelled → ∀ {g : Generator} {held : List Text},
    g.Threaded held → (p.translate g).2.Threaded ((p.translate g).1.value :: held)
  | .paren e, hp, g, held, h => by
    rw [Primary.WellSpelled] at hp
    rw [Primary.translate]
    exact Expr.threaded e hp h
  | .name x, hp, g, held, h => by
    rw [Primary.WellSpelled] at hp
    rw [Primary.translate]
    exact (h.declare hp .variable).hold (ne_temporaryName_of_isIdentifier hp)
  | .number digits, hp, g, held, h => by
    rw [Primary.WellSpelled] at hp
    rw [Primary.translate]
    exact h.hold (ne_temporaryName_of_isNumber hp)

end

theorem threaded_forEach {α : Type} {item : α → Translation Unit} {l : List α} {held : List Text}
    (hitem : ∀ a ∈ l, ∀ {g : Generator}, g.Threaded held → (item a g).2.Threaded held) {g : Generator}
    (h : g.Threaded held) : (forEach item l g).2.Threaded held := by
  induction l generalizing g with
  | nil => exact h
  | cons a l ih =>
    exact ih (fun b hb => hitem b (List.mem_cons_of_mem _ hb)) (hitem a List.mem_cons_self h)

/-- A statement leaves nothing in flight. -/
theorem Statement.threaded (t : Statement) (ht : t.WellSpelled) {g : Generator} {held : List Text}
    (h : g.Threaded held) : (t.translate g).2.Threaded held := by
  cases t with
  | assign x e =>
    obtain ⟨hx, he⟩ := ht
    exact ((e.threaded he h).declare hx .variable).assign hx
  | read xs =>
    exact threaded_forEach (l := xs.first :: xs.rest)
      (fun x hx _ h => (h.declare (ht x hx) .variable).readInto (ht x hx)) h
  | write es =>
    exact threaded_forEach (l := es.first :: es.rest)
      (fun e he _ h => (e.threaded (ht e he) h).writeExpression) h

theorem Program.threaded (p : Program) (hp : p.WellSpelled) : (p.translate {}).2.Threaded [] := by
  have hstart : Generator.Threaded {} [] := by
    refine ⟨fun n hn => absurd hn List.not_mem_nil, rfl, fun k hk hk' => ?_, fun k _ => ?_, ?_⟩
    · exact absurd (Nat.le_trans hk hk') (by decide)
    · exact ⟨List.not_mem_nil, fun i hi => absurd hi List.not_mem_nil⟩
    · exact fun i hi => absurd hi List.not_mem_nil
  exact threaded_forEach (l := p.statements.first :: p.statements.rest)
    (fun t ht _ h => t.threaded (hp t ht) h) hstart

/-! ### Operators and temporaries -/

/-- The number of additive operators among words. -/
def operators (ws : List Word) : Nat := ws.countP fun w => w.kind.isAddOp

theorem operators_append (ws us : List Word) : operators (ws ++ us) = operators ws + operators us :=
  List.countP_append

theorem operators_cons (w : Word) (ws : List Word) :
    operators (w :: ws) = operators ws + if w.kind.isAddOp then 1 else 0 := List.countP_cons

theorem AddOp.operators_words (op : AddOp) : operators op.words = 1 := by
  cases op <;> rfl

namespace Generator

theorem temporaries_declare (muted : Bool) (name : Text) (kind : SymbolKind) (g : Generator) :
    (declare muted name kind g).generator.temporaries = g.temporaries := by
  unfold declare
  split
  · rfl
  · exact temporaries_emit _ _ _

theorem temporaries_combine (muted : Bool) (left : Operand) (op : Opcode) (right : Operand)
    (g : Generator) : (combine muted left op right g).generator.temporaries = g.temporaries + 1 :=
  (temporaries_emit _ _ _).trans (temporaries_declare _ _ _ _)

end Generator

/-- The translation takes as many temporaries as there are operators among the words. -/
def Translation.Takes {α : Type} (t : Translation α) (ws : List Word) : Prop :=
  ∀ g, (t g).2.temporaries = g.temporaries + operators ws

mutual

theorem Expr.takes : ∀ e : Expr, Takes e.translate e.words
  | .single p => by
    rw [Expr.translate, Expr.words]
    exact Primary.takes p
  | .chain p op e => by
    intro g
    have hleft := Primary.takes p g
    have hright := Expr.takes e (p.translate g).2
    rw [Expr.translate, Expr.words, operators_append, operators_append, op.operators_words]
    show (Generator.combine false _ _ _ _).generator.temporaries = _
    rw [Generator.temporaries_combine, hright, hleft]
    omega

theorem Primary.takes : ∀ p : Primary, Takes p.translate p.words
  | .paren e => by
    intro g
    rw [Primary.translate, Primary.words, operators_cons, operators_append]
    exact Expr.takes e g
  | .name x => by
    intro g
    rw [Primary.translate]
    exact Generator.temporaries_declare false x .variable g
  | .number digits => by
    intro g
    rw [Primary.translate]
    rfl

end

theorem Series.takes {α : Type} {item : α → Translation Unit} {words : α → List Word}
    (hitem : ∀ a, Takes (item a) (words a)) (separator : List Word) (hseparator : operators separator = 0)
    (s : Series α) : Takes (s.translate item) (s.words separator words) := by
  have hrest : ∀ l : List α, Takes (forEach item l) (l.flatMap fun a => separator ++ words a) := by
    intro l
    induction l with
    | nil => exact fun _ => rfl
    | cons a l ih =>
      intro g
      have hfirst := hitem a g
      have hrest := ih (item a g).2
      rw [List.flatMap_cons, operators_append, operators_append, hseparator]
      show (forEach item l (item a g).2).2.temporaries = _
      omega
  intro g
  have hfirst := hitem s.first g
  rw [Series.words, operators_append]
  show (forEach item s.rest (item s.first g).2).2.temporaries = _
  rw [hrest s.rest, hfirst]
  omega

theorem Statement.takes (t : Statement) : Takes t.translate t.words := by
  intro g
  cases t with
  | assign x e =>
    have hvalue := e.takes g
    have hdeclare := Generator.temporaries_declare false x .variable (e.translate g).2
    simp only [Statement.words, operators_cons, operators_append]
    show (Generator.emit false _ _).generator.temporaries = _
    rw [Generator.temporaries_emit]
    exact hdeclare.trans hvalue
  | read xs =>
    have hitem : ∀ x, Takes (readName x) (nameWords x) := by
      intro x g
      exact (Generator.temporaries_emit _ _ _).trans (Generator.temporaries_declare false x .variable g)
    have hseries := xs.takes hitem [{ kind := .comma }] rfl g
    simp only [Statement.words, operators_cons, operators_append]
    exact hseries
  | write es =>
    have hitem : ∀ e, Takes (writeValue e) e.words := by
      intro e g
      exact (Generator.temporaries_emit _ _ _).trans (e.takes g)
    have hseries := es.takes hitem [{ kind := .comma }] rfl g
    simp only [Statement.words, operators_cons, operators_append]
    exact hseries

theorem Program.takes (p : Program) : Takes p.translate p.words := by
  intro g
  have hstatements := p.statements.takes Statement.takes [] rfl g
  simp only [Program.words, operators_cons, operators_append]
  exact hstatements

/-! ### Programs -/

/-- Temporaries are computed once and used once.  In the code of an accepted source the temporaries that are
declared are numbered from one, without gaps and in order, one for each additive operator.  Each is computed by
the operation right behind its declaration, written by nothing else, and used by exactly one instruction,
which comes later.  No operation writes to a variable of the source. -/
theorem Compilation.temporaries_used_once (config : Config) (filename src : Text)
    (h : (ofSource config filename src).error = none) :
    let code := (ofSource config filename src).output.instructions
    let m := (Stream.ofSource filename src).tokens.countP fun tok => tok.kind.isAddOp
    code.map Instruction.text = (ofSource config filename src).output.code ∧
      (code.filterMap declared?).filter isTemporary = (List.range' 1 m).map Generator.temporaryName ∧
      (∀ k, 1 ≤ k → k ≤ m → ∃ before result after,
        ComputedOnce code (Generator.temporaryName k) before result after ∧
          UsedOnce after (Generator.temporaryName k)) ∧
      ∀ i ∈ code, i.IsOperation →
        (∃ k, 1 ≤ k ∧ k ≤ m ∧ i.target? = some (Generator.temporaryName k)) ∧
        ∀ x, isIdentifier x = true → i.target? ≠ some x := by
  intro code m
  obtain ⟨p, hp⟩ := (error_eq_none_iff config filename src).1 h
  have hspelled := p.wellSpelled (hp.writable (Stream.scanned_ofSource filename src))
  have htexts := code_of_spells config hp
  have hcode : code = p.code :=
    Output.instructions_eq htexts (p.sound hspelled).admitted.isWellFormed_concat
  have hm : (p.translate {}).2.temporaries = m := by
    rw [p.takes, operators, ← hp.words, List.countP_map]
    exact Nat.zero_add _
  have hthreaded := (p.threaded hspelled).finish
  have hinstructions : (Generator.finish false (p.translate {}).2).generator.instructions = code := by
    rw [hcode]
    exact Generator.instructions_emit _ _
  have htemporaries : (Generator.finish false (p.translate {}).2).generator.temporaries = m :=
    (Generator.temporaries_emit _ _ _).trans hm
  generalize (Generator.finish false (p.translate {}).2).generator = g at *
  obtain ⟨_, hdeclared, hawaits, _, hresults⟩ := hthreaded
  rw [hinstructions, htemporaries] at hdeclared hawaits hresults
  refine ⟨?_, hdeclared, fun k hk hk' => ?_, fun i hi hop => ?_⟩
  · rw [hcode, htexts]
  · obtain ⟨before, result, after, hcomputed, hcount⟩ := hawaits k hk hk'
    exact ⟨before, result, after, hcomputed, usedOnce_of_count hcount⟩
  · obtain ⟨k, hk, hk', htarget⟩ := hresults i hi hop
    refine ⟨⟨k, hk, hk', htarget⟩, fun x hx hsame => ?_⟩
    rw [htarget] at hsame
    exact ne_temporaryName_of_isIdentifier hx k (Option.some.inj hsame).symm

/-- Parentheses, a chain and an output that is no name: four operators, four temporaries. -/
theorem Compilation.temporaries_used_once_nested :
    let c := ofSource {} [] (text "begin a := 1 + (Temp - 2) - a; write(a, a + 3); end")
    c.error = none ∧
      (c.output.instructions.filterMap declared?).filter isTemporary =
        [text "Temp&1", text "Temp&2", text "Temp&3", text "Temp&4"] ∧
      (∃ before result after, ComputedOnce c.output.instructions (text "Temp&2") before result after ∧
        UsedOnce after (text "Temp&2")) ∧
      ∀ i ∈ c.output.instructions, i.IsOperation → i.target? ≠ some (text "a") := by
  intro c
  have hclean : c.error = none := by decide +kernel
  have hm : ((Stream.ofSource [] (text "begin a := 1 + (Temp - 2) - a; write(a, a + 3); end")).tokens.countP
      fun tok => tok.kind.isAddOp) = 4 := by decide +kernel
  obtain ⟨_, hdeclared, hlives, hresults⟩ := temporaries_used_once _ _ _ hclean
  rw [hm] at hdeclared hlives
  refine ⟨hclean, hdeclared, hlives 2 (by decide) (by decide), fun i hi hop => ?_⟩
  exact (hresults i hi hop).2 (text "a") rfl

end MicroLang
