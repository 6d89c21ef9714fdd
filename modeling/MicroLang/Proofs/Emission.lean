import MicroLang.Proofs.Phrase

/-!
# Emission

How the actions of the code generator move its state.  A muted action emits nothing; any other only
appends.  A name is declared by the first action that mentions it, and the table of symbols lists the
names in that order.  From the actions the same follows for the translation of every phrase: it only
appends to the code.
-/

namespace MicroLang

theorem SymbolTable.lookup?_eq_none_iff {t : SymbolTable} {name : Text} :
    t.lookup? name = none ↔ name ∉ t.names := by
  simp only [lookup?_eq_find?, Array.find?_eq_none, decide_eq_true_eq, names, List.mem_map,
    Array.mem_toList_iff, not_exists, not_and]

namespace Generator

@[simp] theorem instructions_emit (i : Instruction) (g : Generator) :
    (emit false i g).generator.instructions = g.instructions ++ [i] := by
  show (g.program.push i).toList = _
  rw [Array.toList_push]
  rfl

@[simp] theorem symbols_emit (muted : Bool) (i : Instruction) (g : Generator) :
    (emit muted i g).generator.symbols = g.symbols := by
  cases muted <;> rfl

@[simp] theorem temporaries_emit (muted : Bool) (i : Instruction) (g : Generator) :
    (emit muted i g).generator.temporaries = g.temporaries := by
  cases muted <;> rfl

/-- A name that is known is not declared again. -/
theorem declare_of_known {g : Generator} {name : Text} (h : name ∈ g.symbols.names) (muted : Bool)
    (kind : SymbolKind) : (declare muted name kind g).generator = g := by
  cases hs : g.symbols.lookup? name with
  | none => exact absurd h (SymbolTable.lookup?_eq_none_iff.1 hs)
  | some s => rw [declare, SymbolTable.enter_of_lookup? hs]

/-- The instruction that declares a name. -/
def declaration (name : Text) : Instruction :=
  { opcode := .declare, operands := [name, Instruction.integerType] }

/-- A new name is declared and entered behind all others. -/
theorem declare_of_new {g : Generator} {name : Text} (h : name ∉ g.symbols.names) (kind : SymbolKind) :
    (declare false name kind g).generator.instructions = g.instructions ++ [declaration name] ∧
      (declare false name kind g).generator.symbols.names = g.symbols.names ++ [name] ∧
      (declare false name kind g).generator.temporaries = g.temporaries := by
  have hnone : g.symbols.lookup? name = none := SymbolTable.lookup?_eq_none_iff.2 h
  have hnames := SymbolTable.names_enter_of_new hnone kind
  simp only [declare, SymbolTable.enter_of_new hnone] at *
  exact ⟨instructions_emit (declaration name) { g with symbols := _ }, hnames, rfl⟩

theorem mem_names_declare (name : Text) (kind : SymbolKind) (g : Generator) :
    name ∈ (declare false name kind g).generator.symbols.names := by
  by_cases h : name ∈ g.symbols.names
  · rw [declare_of_known h]
    exact h
  · rw [(declare_of_new h kind).2.1]
    exact List.mem_append_right _ List.mem_cons_self

/-- No name is forgotten. -/
theorem mem_names_declare_of_mem {g : Generator} {x : Text} (hx : x ∈ g.symbols.names) (name : Text)
    (kind : SymbolKind) : x ∈ (declare false name kind g).generator.symbols.names := by
  by_cases h : name ∈ g.symbols.names
  · rw [declare_of_known h]
    exact hx
  · rw [(declare_of_new h kind).2.1]
    exact List.mem_append_left _ hx

theorem program_declare_muted (name : Text) (kind : SymbolKind) (g : Generator) :
    (declare true name kind g).generator.program = g.program := by
  unfold declare
  split <;> rfl

/-! ### Muted actions -/

theorem program_identifier_muted (name : Text) (g : Generator) :
    (identifier true name g).generator.program = g.program := program_declare_muted name _ g

theorem program_combine_muted (left : Operand) (op : Opcode) (right : Operand) (g : Generator) :
    (combine true left op right g).generator.program = g.program :=
  program_declare_muted _ _ { g with temporaries := g.temporaries + 1 }

end Generator

/-! ### Translations only append -/

namespace Translation

variable {α β : Type}

/-- The translation keeps the code that is there and appends to it. -/
def Grows (t : Translation α) : Prop := ∀ g, g.instructions <+: (t g).2.instructions

theorem grows_yield (a : α) : Grows (yield a) := fun g => List.prefix_refl g.instructions

theorem grows_andThen {t : Translation α} {u : α → Translation β} (ht : Grows t)
    (hu : ∀ a, Grows (u a)) : Grows (andThen t u) :=
  fun g => (ht g).trans (hu _ _)

theorem grows_forEach {item : α → Translation Unit} (h : ∀ a, Grows (item a)) (l : List α) :
    Grows (forEach item l) := by
  induction l with
  | nil => exact grows_yield ()
  | cons a l ih => exact grows_andThen (h a) fun _ => ih

theorem prefix_emit (i : Instruction) (g : Generator) :
    g.instructions <+: (Generator.emit false i g).generator.instructions := by
  rw [Generator.instructions_emit]
  exact List.prefix_append _ _

theorem prefix_declare (name : Text) (kind : SymbolKind) (g : Generator) :
    g.instructions <+: (Generator.declare false name kind g).generator.instructions := by
  by_cases h : name ∈ g.symbols.names
  · simp only [Generator.declare_of_known h, List.prefix_refl]
  · rw [(Generator.declare_of_new h kind).1]
    exact List.prefix_append _ _

theorem grows_identifier (name : Text) : Grows (perform (Generator.identifier false name)) :=
  prefix_declare name _

theorem grows_literal (digits : Text) : Grows (perform (Generator.literal digits)) :=
  fun g => List.prefix_refl g.instructions

theorem grows_combine (left : Operand) (op : Opcode) (right : Operand) :
    Grows (perform (Generator.combine false left op right)) := by
  intro g
  have hdeclare := prefix_declare (Generator.temporaryName (g.temporaries + 1)) .temporary
    { g with temporaries := g.temporaries + 1 }
  exact hdeclare.trans (prefix_emit _ _)

theorem grows_assign (source destination : Operand) :
    Grows (perform (Generator.assign false source destination)) := prefix_emit _

theorem grows_readInto (operand : Operand) : Grows (perform (Generator.readInto false operand)) :=
  prefix_emit _

theorem grows_writeExpression (operand : Operand) :
    Grows (perform (Generator.writeExpression false operand)) := prefix_emit _

end Translation

open Translation

mutual

theorem Expr.grows_translate : ∀ e : Expr, Grows e.translate
  | .single p => by
    rw [Expr.translate]
    exact Primary.grows_translate p
  | .chain p op e => by
    rw [Expr.translate]
    exact grows_andThen (Primary.grows_translate p) fun left =>
      grows_andThen (Expr.grows_translate e) fun right => grows_combine left op.opcode right

theorem Primary.grows_translate : ∀ p : Primary, Grows p.translate
  | .paren e => by
    rw [Primary.translate]
    exact Expr.grows_translate e
  | .name x => by
    rw [Primary.translate]
    exact grows_identifier x
  | .number digits => by
    rw [Primary.translate]
    exact grows_literal digits

end

theorem Series.grows_translate {α : Type} {item : α → Translation Unit} (h : ∀ a, Grows (item a))
    (s : Series α) : Grows (s.translate item) :=
  grows_andThen (h s.first) fun _ => grows_forEach h s.rest

theorem grows_readName (x : Text) : Grows (readName x) :=
  grows_andThen (grows_identifier x) grows_readInto

theorem grows_writeValue (e : Expr) : Grows (writeValue e) :=
  grows_andThen e.grows_translate grows_writeExpression

theorem Statement.grows_translate (s : Statement) : Grows s.translate := by
  cases s with
  | assign x e =>
    exact grows_andThen e.grows_translate fun source =>
      grows_andThen (grows_identifier x) fun destination => grows_assign source destination
  | read xs => exact xs.grows_translate grows_readName
  | write es => exact es.grows_translate grows_writeValue

theorem Program.grows_translate (p : Program) : Grows p.translate :=
  p.statements.grows_translate Statement.grows_translate

end MicroLang
