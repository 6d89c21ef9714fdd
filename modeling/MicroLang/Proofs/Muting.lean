import MicroLang.Proofs.Emission

/-!
# Muted generators

Being muted keeps a generator from emitting and from nothing else.  An action is impartial if what it
returns and how it changes the symbols and the number of temporaries follow from these two alone, and
if it appends instructions that also follow from them, or none where it is muted.  All actions are
impartial, so two generators that perform the same actions under different histories of errors stay
alike in everything but their code, and each has the part of the code that it was not muted for.
-/

namespace MicroLang

/-! ### Impartial actions -/

/-- What an action does: its result, the symbols and the number of temporaries behind it, and the
instructions that it appends unless it is muted. -/
structure Effect (α : Type) where
  value : α
  symbols : SymbolTable
  temporaries : Nat
  code : List Instruction

/-- The outcome of an action on a generator shows the effect. -/
structure Effect.Shown {α : Type} (e : Effect α) (muted : Bool) (g : Generator) (out : Step α) : Prop where
  value : out.value = e.value
  symbols : out.generator.symbols = e.symbols
  temporaries : out.generator.temporaries = e.temporaries
  instructions : out.generator.instructions = g.instructions ++ if muted then [] else e.code

/-- A name is entered in the table and, if it is new there, declared. -/
def Effect.declaring (name : Text) (kind : SymbolKind) (symbols : SymbolTable) (temporaries : Nat) :
    Effect Unit :=
  { value := ()
    symbols := (symbols.enter name kind).1
    temporaries
    code := if (symbols.enter name kind).2.2 then [Generator.declaration name] else [] }

/-- The effect depends on the symbols and on the number of temporaries only. -/
def Impartial {α : Type} (action : Bool → Generator → Step α) : Prop :=
  ∃ effect : SymbolTable → Nat → Effect α,
    ∀ muted g, (effect g.symbols g.temporaries).Shown muted g (action muted g)

namespace Impartial

variable {α β : Type} {action : Bool → Generator → Step α}

/-- The same action with its result in another form and with other records. -/
theorem map (h : Impartial action) (f : α → β) {action' : Bool → Generator → Step β}
    (hvalue : ∀ muted g, (action' muted g).value = f (action muted g).value)
    (hgenerator : ∀ muted g, (action' muted g).generator = (action muted g).generator) :
    Impartial action' := by
  obtain ⟨effect, heffect⟩ := h
  refine ⟨fun symbols temporaries =>
    { effect symbols temporaries with value := f (effect symbols temporaries).value }, ?_⟩
  intro muted g
  have hshown := heffect muted g
  constructor
  · rw [hvalue, hshown.value]
  · rw [hgenerator, hshown.symbols]
  · rw [hgenerator, hshown.temporaries]
  · rw [hgenerator, hshown.instructions]

/-- An action that leaves the generator alone. -/
theorem idle (v : α) {action' : Bool → Generator → Step α} (hvalue : ∀ muted g, (action' muted g).value = v)
    (hgenerator : ∀ muted g, (action' muted g).generator = g) : Impartial action' := by
  refine ⟨fun symbols temporaries => ⟨v, symbols, temporaries, []⟩, ?_⟩
  intro muted g
  constructor
  · exact hvalue muted g
  · rw [hgenerator]
  · rw [hgenerator]
  · simp [hgenerator]

theorem emit (i : Instruction) : Impartial fun muted => Generator.emit muted i := by
  refine ⟨fun symbols temporaries => ⟨(), symbols, temporaries, [i]⟩, ?_⟩
  intro muted g
  constructor
  · rfl
  · simp
  · simp
  · cases muted with
    | false => simp
    | true => simp [Generator.emit]

/-- A name is declared if it is new to the table; whether it is does not depend on the code. -/
theorem shown_declaring (name : Text) (kind : SymbolKind) (muted : Bool) (g : Generator) :
    (Effect.declaring name kind g.symbols g.temporaries).Shown muted g
      (Generator.declare muted name kind g) := by
  cases hlookup : g.symbols.lookup? name with
  | some s =>
    have henter := SymbolTable.enter_of_lookup? hlookup kind
    constructor <;> simp [Generator.declare, Effect.declaring, henter]
  | none =>
    have hnew : (g.symbols.enter name kind).2.2 = true := by rw [SymbolTable.enter_of_new hlookup]
    have hdeclare : Generator.declare muted name kind g =
        Generator.emit muted (Generator.declaration name)
          { g with symbols := (g.symbols.enter name kind).1 } := by
      simp [Generator.declare, SymbolTable.enter_of_new hlookup, Generator.declaration]
    rw [hdeclare]
    constructor
    · rfl
    · simp [Effect.declaring]
    · simp [Effect.declaring]
    · cases muted with
      | false =>
        rw [Generator.instructions_emit]
        simp [Effect.declaring, hnew, Generator.instructions]
      | true => simp [Generator.emit, Generator.instructions]

theorem declare (name : Text) (kind : SymbolKind) :
    Impartial fun muted => Generator.declare muted name kind :=
  ⟨Effect.declaring name kind, shown_declaring name kind⟩

theorem start : Impartial fun _ => Generator.start := idle () (fun _ _ => rfl) fun _ _ => rfl

theorem finish : Impartial Generator.finish := (emit _).map id (fun _ _ => rfl) fun _ _ => rfl

theorem enterVariable (name : Text) : Impartial fun muted => Generator.enterVariable muted name :=
  (declare name .variable).map id (fun _ _ => rfl) fun _ _ => rfl

theorem identifier (name : Text) : Impartial fun muted => Generator.identifier muted name :=
  (declare name .variable).map (fun _ => { kind := .identifier, value := name }) (fun _ _ => rfl)
    fun _ _ => rfl

theorem literal (digits : Text) : Impartial fun _ => Generator.literal digits :=
  idle _ (fun _ _ => rfl) fun _ _ => rfl

theorem operation (operator : Text) : Impartial fun _ => Generator.operation operator :=
  idle _ (fun _ _ => rfl) fun _ _ => rfl

theorem assign (source destination : Operand) :
    Impartial fun muted => Generator.assign muted source destination :=
  (emit _).map id (fun _ _ => rfl) fun _ _ => rfl

theorem readInto (operand : Operand) : Impartial fun muted => Generator.readInto muted operand :=
  (emit _).map id (fun _ _ => rfl) fun _ _ => rfl

theorem writeExpression (operand : Operand) :
    Impartial fun muted => Generator.writeExpression muted operand :=
  (emit _).map id (fun _ _ => rfl) fun _ _ => rfl

/-- The name of a new temporary is the next number, and it is entered like any other name. -/
theorem newTemporary : Impartial Generator.newTemporary := by
  refine ⟨fun symbols temporaries =>
    { Effect.declaring (Generator.temporaryName (temporaries + 1)) .temporary symbols (temporaries + 1) with
      value := Generator.temporaryName (temporaries + 1) }, ?_⟩
  intro muted g
  have hshown := shown_declaring (Generator.temporaryName (g.temporaries + 1)) .temporary muted
    { g with temporaries := g.temporaries + 1 }
  exact ⟨rfl, hshown.symbols, hshown.temporaries, hshown.instructions⟩

/-- A new temporary and the operation that computes it are appended together or not at all. -/
theorem combine (left : Operand) (op : Opcode) (right : Operand) :
    Impartial fun muted => Generator.combine muted left op right := by
  obtain ⟨effect, heffect⟩ := newTemporary
  refine ⟨fun symbols temporaries =>
    { effect symbols temporaries with
      value := { kind := .temporary, value := (effect symbols temporaries).value }
      code := (effect symbols temporaries).code ++
        [{ opcode := op, operands := [left.value, right.value, (effect symbols temporaries).value] }] }, ?_⟩
  intro muted g
  have hshown := heffect muted g
  constructor
  · show ({ kind := .temporary, value := (Generator.newTemporary muted g).value } : Operand) = _
    rw [hshown.value]
  · show (Generator.emit muted _ (Generator.newTemporary muted g).generator).generator.symbols = _
    rw [Generator.symbols_emit, hshown.symbols]
  · show (Generator.emit muted _ (Generator.newTemporary muted g).generator).generator.temporaries = _
    rw [Generator.temporaries_emit, hshown.temporaries]
  · show (Generator.emit muted ⟨op, [left.value, right.value, (Generator.newTemporary muted g).value]⟩
      (Generator.newTemporary muted g).generator).generator.instructions = _
    have hcode := hshown.instructions
    rw [hshown.value]
    cases muted with
    | false =>
      rw [Generator.instructions_emit, hcode]
      simp
    | true => simpa [Generator.emit] using hcode

/-- On generators that are alike but for their code an action does the same. -/
theorem alike (h : Impartial action) {g g' : Generator} (hsymbols : g.symbols = g'.symbols)
    (htemporaries : g.temporaries = g'.temporaries) (muted muted' : Bool) :
    (action muted g).value = (action muted' g').value ∧
      (action muted g).generator.symbols = (action muted' g').generator.symbols ∧
      (action muted g).generator.temporaries = (action muted' g').generator.temporaries ∧
      ∃ code,
        (action muted g).generator.instructions = (g.instructions ++ if muted then [] else code) ∧
        (action muted' g').generator.instructions = g'.instructions ++ if muted' then [] else code := by
  obtain ⟨effect, heffect⟩ := h
  have hleft := heffect muted g
  have hright := heffect muted' g'
  rw [← hsymbols, ← htemporaries] at hright
  refine ⟨?_, ?_, ?_, _, hleft.instructions, hright.instructions⟩
  · rw [hleft.value, hright.value]
  · rw [hleft.symbols, hright.symbols]
  · rw [hleft.temporaries, hright.temporaries]

end Impartial

/-! ### Actions in a row -/

/-- An action of the code generator with its arguments. -/
inductive Action where
  | start
  | finish
  | enterVariable (name : Text)
  | identifier (name : Text)
  | literal (digits : Text)
  | newTemporary
  | operation (operator : Text)
  | combine (left : Operand) (op : Opcode) (right : Operand)
  | assign (source destination : Operand)
  | readInto (operand : Operand)
  | writeExpression (operand : Operand)
deriving DecidableEq, Repr

/-- What an action returns. -/
inductive Reply where
  | nothing
  | operand (o : Operand)
  | opcode (op : Opcode)
  | name (t : Text)
deriving DecidableEq, Repr

def Step.map {α β : Type} (f : α → β) (out : Step α) : Step β :=
  { value := f out.value, generator := out.generator, records := out.records }

def Action.perform (muted : Bool) (g : Generator) : Action → Step Reply
  | .start => g.start.map fun _ => .nothing
  | .finish => (g.finish muted).map fun _ => .nothing
  | .enterVariable name => (g.enterVariable muted name).map fun _ => .nothing
  | .identifier name => (g.identifier muted name).map .operand
  | .literal digits => (g.literal digits).map .operand
  | .newTemporary => (g.newTemporary muted).map .name
  | .operation operator => (g.operation operator).map .opcode
  | .combine left op right => (g.combine muted left op right).map .operand
  | .assign source destination => (g.assign muted source destination).map fun _ => .nothing
  | .readInto operand => (g.readInto muted operand).map fun _ => .nothing
  | .writeExpression operand => (g.writeExpression muted operand).map fun _ => .nothing

/-- An action is as impartial with its result given as a reply. -/
theorem Impartial.replied {α : Type} {action : Bool → Generator → Step α} (h : Impartial action)
    (f : α → Reply) : Impartial fun muted g => (action muted g).map f :=
  h.map f (fun _ _ => rfl) fun _ _ => rfl

theorem Action.impartial (a : Action) : Impartial fun muted g => a.perform muted g := by
  cases a with
  | start => exact Impartial.start.replied fun _ => .nothing
  | finish => exact Impartial.finish.replied fun _ => .nothing
  | enterVariable name => exact (Impartial.enterVariable name).replied fun _ => .nothing
  | identifier name => exact (Impartial.identifier name).replied .operand
  | literal digits => exact (Impartial.literal digits).replied .operand
  | newTemporary => exact Impartial.newTemporary.replied .name
  | operation operator => exact (Impartial.operation operator).replied .opcode
  | combine left op right => exact (Impartial.combine left op right).replied .operand
  | assign source destination => exact (Impartial.assign source destination).replied fun _ => .nothing
  | readInto operand => exact (Impartial.readInto operand).replied fun _ => .nothing
  | writeExpression operand => exact (Impartial.writeExpression operand).replied fun _ => .nothing

namespace Generator

/-- The outcomes of actions in a row.  The history says at which of them the generator is muted. -/
def steps (g : Generator) (history : Nat → Bool) : List Action → List (Step Reply)
  | [] => []
  | a :: actions =>
    let out := a.perform (history 0) g
    out :: out.generator.steps (fun i => history (i + 1)) actions

/-- The generator behind actions in a row. -/
def after (g : Generator) (history : Nat → Bool) : List Action → Generator
  | [] => g
  | a :: actions => (a.perform (history 0) g).generator.after (fun i => history (i + 1)) actions

/-- What each action of a row appends to the code if the generator is never muted. -/
def emissions (g : Generator) : List Action → List (List Instruction)
  | [] => []
  | a :: actions =>
    let out := a.perform false g
    out.generator.instructions.drop g.instructions.length :: out.generator.emissions actions

/-- The emissions of the steps at which the history is off. -/
def heard (history : Nat → Bool) : List (List Instruction) → List Instruction
  | [] => []
  | code :: later => (if history 0 then [] else code) ++ heard (fun i => history (i + 1)) later

theorem heard_never (emissions : List (List Instruction)) :
    heard (fun _ => false) emissions = emissions.flatten := by
  induction emissions with
  | nil => rfl
  | cons code later ih => simp [heard, ih]

/-- Once muted for good, a generator is heard no more. -/
theorem heard_of_muted {history : Nat → Bool} (h : ∀ i, history i = true)
    (emissions : List (List Instruction)) : heard history emissions = [] := by
  induction emissions generalizing history with
  | nil => rfl
  | cons code later ih => simp [heard, h 0, ih fun i => h (i + 1)]

theorem heard_prefix {history : Nat → Bool} (h : ∀ i, history i = true → history (i + 1) = true)
    (emissions : List (List Instruction)) : heard history emissions <+: emissions.flatten := by
  induction emissions generalizing history with
  | nil => exact List.prefix_refl _
  | cons code later ih =>
    cases hfirst : history 0 with
    | false =>
      have hlater := ih fun i => h (i + 1)
      simpa [heard, hfirst] using hlater
    | true =>
      have hall : ∀ i, history i = true := by
        intro i
        induction i with
        | zero => exact hfirst
        | succ i hi => exact h i hi
      rw [heard_of_muted hall]
      exact List.nil_prefix

/-- Generators that are alike but for their code stay so, whatever their histories are. -/
theorem steps_alike {g g' : Generator} (hsymbols : g.symbols = g'.symbols)
    (htemporaries : g.temporaries = g'.temporaries) (history history' : Nat → Bool)
    (actions : List Action) :
    (g.steps history actions).map (fun out => (out.value, out.generator.symbols)) =
      (g'.steps history' actions).map fun out => (out.value, out.generator.symbols) := by
  induction actions generalizing g g' history history' with
  | nil => rfl
  | cons a actions ih =>
    obtain ⟨hvalue, hsymbols', htemporaries', -⟩ :=
      a.impartial.alike hsymbols htemporaries (history 0) (history' 0)
    have hlater := ih hsymbols' htemporaries' (fun i => history (i + 1)) fun i => history' (i + 1)
    simp only [steps, List.map_cons, hlater, hvalue, hsymbols']

/-- A generator appends what it is heard with of the emissions of a generator that is never muted. -/
theorem instructions_after {g g' : Generator} (hsymbols : g.symbols = g'.symbols)
    (htemporaries : g.temporaries = g'.temporaries) (history : Nat → Bool) (actions : List Action) :
    (g.after history actions).instructions = g.instructions ++ heard history (g'.emissions actions) := by
  induction actions generalizing g g' history with
  | nil => simp [after, emissions, heard]
  | cons a actions ih =>
    obtain ⟨-, hsymbols', htemporaries', code, hcode, hcode'⟩ :=
      a.impartial.alike hsymbols htemporaries (history 0) false
    have hlater := ih hsymbols' htemporaries' fun i => history (i + 1)
    have hemitted : (a.perform false g').generator.instructions.drop g'.instructions.length = code := by
      rw [hcode']
      simp
    rw [after, hlater, hcode, emissions, hemitted, heard, List.append_assoc]

/-- Whether a generator is muted decides only what it emits.  Under any two histories the results of the
actions and the tables of symbols behind them are the same; the code is that of a run without errors less
the emissions of the steps at which the generator was muted, and so a beginning of it if the history
never goes off again. -/
theorem muting_only_drops_code (g : Generator) (actions : List Action) (history history' : Nat → Bool) :
    (g.steps history actions).map (fun out => (out.value, out.generator.symbols)) =
      (g.steps history' actions).map (fun out => (out.value, out.generator.symbols)) ∧
    (g.after (fun _ => false) actions).instructions = g.instructions ++ (g.emissions actions).flatten ∧
    (g.after history actions).instructions = g.instructions ++ heard history (g.emissions actions) ∧
    ((∀ i, history i = true → history (i + 1) = true) →
      (g.after history actions).instructions <+: (g.after (fun _ => false) actions).instructions) := by
  have hcode := instructions_after (rfl : g.symbols = g.symbols) rfl
  have hclean : (g.after (fun _ => false) actions).instructions =
      g.instructions ++ (g.emissions actions).flatten := by
    rw [hcode, heard_never]
  refine ⟨steps_alike rfl rfl history history' actions, hclean, hcode history actions, ?_⟩
  intro hsticky
  rw [hcode, hclean, List.prefix_append_right_inj]
  exact heard_prefix hsticky _

end Generator

end MicroLang
