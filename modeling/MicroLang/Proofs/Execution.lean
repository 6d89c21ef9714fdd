import MicroLang.Proofs.Machine
import MicroLang.Proofs.Verification

/-!
# Execution of the code

The code of a program does what the program says.  While code is generated, the machine that has run
all of it so far is in step with the evaluation of the source: the names of the symbol table are its
declared names, every variable has its value, and the input left and the output written are the same.
Each action of the generator keeps the two in step, and so does the translation of each phrase.

Between the computation of an operand and its use other code may run.  It declares new names and computes
into them, so an operand that has a value keeps it.
-/

namespace MicroLang

open Translation OperandShape

namespace Machine

theorem steps_concat {code : List Instruction} {i : Instruction} {m m' : Machine}
    (h : steps code m = .ok m') : steps (code ++ [i]) m = m'.step i := by
  rw [steps, List.foldlM_append, show code.foldlM step m = .ok m' from h]
  show (m'.step i >>= pure) = _
  rw [bind_pure]

/-- Nothing is executed behind the end of a run. -/
theorem steps_append_of_error {code more : List Instruction} {m : Machine} {ended : Stop × Machine}
    (h : steps code m = .error ended) : steps (code ++ more) m = .error ended := by
  rw [steps, List.foldlM_append, show code.foldlM step m = .error ended from h]
  rfl

/-- Every operand that has a value keeps it. -/
def Keeps (m m' : Machine) : Prop := ∀ t v, m.value? t = some v → m'.value? t = some v

theorem Keeps.refl (m : Machine) : m.Keeps m := fun _ _ h => h

theorem Keeps.trans {m m' m'' : Machine} (h : m.Keeps m') (h' : m'.Keeps m'') : m.Keeps m'' :=
  fun t v hv => h' t v (h t v hv)

theorem memory_set (m : Machine) (x : Text) (v : Int) : (m.set x v).memory x = some v := if_pos rfl

theorem memory_set_of_ne {x y : Text} (h : y ≠ x) (m : Machine) (v : Int) :
    (m.set x v).memory y = m.memory y := if_neg h

/-- A name that had no value may receive one. -/
theorem Keeps.set {m m' : Machine} {x : Text} (h : m.Keeps m') (hx : m.memory x = none) (v : Int) :
    m.Keeps (m'.set x v) := by
  intro t a ht
  have ht' := h t a ht
  by_cases hnumber : isNumber t = true
  · rw [value?, if_pos hnumber] at *
    exact ht'
  · rw [value?, if_neg hnumber] at *
    have hne : t ≠ x := by
      rintro rfl
      rw [hx] at ht
      cases ht
    rw [memory_set_of_ne hne]
    exact ht'

theorem put_of_declared {m : Machine} {x : Text} (h : (m.memory x).isSome = true) (v : Int) :
    m.put x (some v) = .ok (m.set x v) := if_pos h

end Machine

/-! ### Actions -/

/-- The machine that has run the code generated so far is in step with the evaluation. -/
structure Tracks (tape : List Int) (g : Generator) (s : Store) (m : Machine) : Prop where
  reached : Machine.steps g.instructions { input := tape } = .ok m
  declared : ∀ y, (m.memory y).isSome = true ↔ y ∈ g.symbols.names
  values : ∀ x, isIdentifier x = true → (m.memory x).getD 0 = s.values x
  input : m.input = s.input
  output : m.output = s.output
  fresh : g.Fresh

namespace Tracks

variable {tape : List Int} {g : Generator} {s : Store} {m : Machine}

/-- A declared variable has its value. -/
theorem value?_of_declared (h : Tracks tape g s m) {x : Text} (hx : isIdentifier x = true)
    (hdeclared : x ∈ g.symbols.names) : m.value? x = some (s.values x) := by
  obtain ⟨v, hv⟩ := Option.isSome_iff_exists.1 ((h.declared x).2 hdeclared)
  have hvalue := h.values x hx
  rw [hv] at hvalue
  rw [Machine.value?, if_neg (by rw [isNumber_of_isIdentifier hx]; exact Bool.false_ne_true), hv,
    ← hvalue]
  rfl

/-- An instruction that puts a value into a declared name. -/
theorem put (h : Tracks tape g s m) {i : Instruction} {x : Text} {v : Int} {m₁ : Machine} {s₁ : Store}
    (hx : x ∈ g.symbols.names) (hstep : m.step i = .ok (m₁.set x v)) (hmemory : m₁.memory = m.memory)
    (hinput : m₁.input = s₁.input) (houtput : m₁.output = s₁.output)
    (hvalues : ∀ y, isIdentifier y = true → s₁.values y = if y = x then v else s.values y) :
    Tracks tape (Generator.emit false i g).generator s₁ (m₁.set x v) where
  reached := by
    rw [Generator.instructions_emit, Machine.steps_concat h.reached, hstep]
  declared := by
    intro y
    rw [Generator.symbols_emit, ← h.declared y, ← hmemory]
    by_cases hy : y = x
    · rw [hy, Machine.memory_set, hmemory]
      exact iff_of_true rfl ((h.declared x).2 hx)
    · rw [Machine.memory_set_of_ne hy]
  values := by
    intro y hy
    rw [hvalues y hy]
    by_cases hyx : y = x
    · rw [hyx, Machine.memory_set, if_pos rfl]
      rfl
    · rw [Machine.memory_set_of_ne hyx, if_neg hyx, hmemory]
      exact h.values y hy
  input := hinput
  output := houtput
  fresh := h.fresh.emit i

/-- A name is declared on its first appearance. -/
theorem declare (h : Tracks tape g s m) (name : Text) (kind : SymbolKind)
    (hfresh : ∀ n, name = Generator.temporaryName n → n ≤ g.temporaries) :
    ∃ m', Tracks tape (Generator.declare false name kind g).generator s m' ∧ m.Keeps m' := by
  by_cases hname : name ∈ g.symbols.names
  · rw [Generator.declare_of_known hname]
    exact ⟨m, h, .refl m⟩
  · obtain ⟨hcode, hnames, _⟩ := Generator.declare_of_new hname kind
    have hnone : m.memory name = none := by
      rw [← Option.not_isSome_iff_eq_none, h.declared]
      exact hname
    refine ⟨m.set name 0, ⟨?_, ?_, ?_, h.input, h.output, h.fresh.declare kind hfresh⟩,
      (Machine.Keeps.refl m).set hnone 0⟩
    · rw [hcode, Machine.steps_concat h.reached]
      rfl
    · intro y
      rw [hnames, List.mem_append, List.mem_singleton, ← h.declared y]
      by_cases hy : y = name
      · rw [hy, Machine.memory_set]
        exact iff_of_true rfl (.inr rfl)
      · rw [Machine.memory_set_of_ne hy]
        exact ⟨.inl, fun hor => hor.resolve_right hy⟩
    · intro x hx
      have hvalue := h.values x hx
      by_cases hxn : x = name
      · rw [hxn, hnone] at hvalue
        rw [hxn, Machine.memory_set, ← hvalue]
        rfl
      · rw [Machine.memory_set_of_ne hxn]
        exact hvalue

theorem identifier (h : Tracks tape g s m) {x : Text} (hx : isIdentifier x = true) :
    ∃ m', Tracks tape (Generator.identifier false x g).generator s m' ∧ m.Keeps m' :=
  h.declare x .variable fun n hn => absurd hn (ne_temporaryName_of_isIdentifier hx n)

/-- The value of an operation goes to a new temporary. -/
theorem combine (h : Tracks tape g s m) {left right : Operand} {a b : Int} (op : AddOp)
    (hleft : m.value? left.value = some a) (hright : m.value? right.value = some b) :
    ∃ m', Tracks tape (Generator.combine false left op.opcode right g).generator s m' ∧
      m'.value? (Generator.combine false left op.opcode right g).value.value = some (op.apply a b) ∧
      m.Keeps m' := by
  let temp := Generator.temporaryName (g.temporaries + 1)
  -- the number of the temporary is taken first, so that its name counts as an old one
  have h₁ : Tracks tape { g with temporaries := g.temporaries + 1 } s m :=
    { h with fresh := h.fresh.next }
  have hnew : m.memory temp = none := by
    rw [← Option.not_isSome_iff_eq_none, h.declared]
    exact h.fresh.not_mem
  obtain ⟨m₁, htracks, hkeeps⟩ := h₁.declare temp .temporary fun n hn =>
    Nat.le_of_eq (Generator.temporaryName_inj hn).symm
  have hmem := Generator.mem_names_declare temp .temporary { g with temporaries := g.temporaries + 1 }
  have hstep : m₁.step { opcode := op.opcode, operands := [left.value, right.value, temp] } =
      .ok (m₁.set temp (op.apply a b)) := by
    have hput := Machine.put_of_declared ((htracks.declared temp).2 hmem) (op.apply a b)
    have hl := hkeeps _ _ hleft
    have hr := hkeeps _ _ hright
    cases op with
    | plus =>
      show m₁.put temp (m₁.value? left.value >>= fun x => m₁.value? right.value >>= fun y => pure (x + y)) = _
      rw [hl, hr]
      exact hput
    | minus =>
      show m₁.put temp (m₁.value? left.value >>= fun x => m₁.value? right.value >>= fun y => pure (x - y)) = _
      rw [hl, hr]
      exact hput
  refine ⟨m₁.set temp (op.apply a b), htracks.put hmem hstep rfl htracks.input htracks.output ?_, ?_,
    hkeeps.set hnew _⟩
  · intro y hy
    rw [if_neg (ne_temporaryName_of_isIdentifier hy _)]
  · show Machine.value? _ temp = _
    rw [Machine.value?, if_neg (by rw [Generator.isNumber_temporaryName]; exact Bool.false_ne_true)]
    exact Machine.memory_set _ _ _

theorem assign (h : Tracks tape g s m) {source : Operand} {x : Text} {v : Int}
    (hsource : m.value? source.value = some v) (hx : x ∈ g.symbols.names) :
    Tracks tape (Generator.assign false source ⟨.identifier, x⟩ g).generator (s.assign x v)
      (m.set x v) := by
  refine h.put hx ?_ rfl h.input h.output (fun _ _ => rfl)
  show m.put x (m.value? source.value) = _
  rw [hsource]
  exact Machine.put_of_declared ((h.declared x).2 hx) v

theorem readInto (h : Tracks tape g s m) {x : Text} {v : Int} {rest : List Int}
    (hinput : s.input = v :: rest) (hx : x ∈ g.symbols.names) :
    Tracks tape (Generator.readInto false ⟨.identifier, x⟩ g).generator
      ({ s with input := rest }.assign x v) ({ m with input := rest }.set x v) := by
  refine h.put hx ?_ rfl rfl h.output (fun _ _ => rfl)
  have htape : m.input = v :: rest := h.input.trans hinput
  rw [Machine.step_read_of_cons htape]
  exact Machine.put_of_declared (m := { m with input := rest }) ((h.declared x).2 hx) v

/-- Reading without input ends the run. -/
theorem starve (h : Tracks tape g s m) (hinput : s.input = []) (x : Text) :
    Machine.steps (Generator.readInto false ⟨.identifier, x⟩ g).generator.instructions { input := tape } =
      .error (.starved, m) := by
  show Machine.steps (Generator.emit false _ g).generator.instructions _ = _
  rw [Generator.instructions_emit, Machine.steps_concat h.reached]
  exact Machine.step_read_of_nil (h.input.trans hinput) x _

theorem writeExpression (h : Tracks tape g s m) {source : Operand} {v : Int}
    (hsource : m.value? source.value = some v) :
    Tracks tape (Generator.writeExpression false source g).generator (s.write v)
      { m with output := m.output ++ [v] } where
  reached := by
    show Machine.steps (Generator.emit false _ g).generator.instructions _ = _
    rw [Generator.instructions_emit, Machine.steps_concat h.reached]
    exact Machine.step_write hsource _
  declared := h.declared
  values := h.values
  input := h.input
  output := congrArg (· ++ [v]) h.output
  fresh := h.fresh

end Tracks

/-! ### Expressions -/

mutual

theorem Expr.tracks {tape : List Int} {s : Store} : ∀ (e : Expr), e.WellSpelled →
    ∀ {g : Generator} {m : Machine}, Tracks tape g s m →
      ∃ m', Tracks tape (e.translate g).2 s m' ∧
        m'.value? (e.translate g).1.value = some (e.eval s.values) ∧ m.Keeps m'
  | .single p, he, g, m, h => by
    rw [Expr.WellSpelled] at he
    rw [Expr.translate, Expr.eval]
    exact Primary.tracks p he h
  | .chain p op e, he, g, m, h => by
    rw [Expr.WellSpelled] at he
    obtain ⟨m₁, h₁, hleft, hkeeps₁⟩ := Primary.tracks p he.1 h
    obtain ⟨m₂, h₂, hright, hkeeps₂⟩ := Expr.tracks e he.2 h₁
    obtain ⟨m₃, h₃, hvalue, hkeeps₃⟩ := h₂.combine op (hkeeps₂ _ _ hleft) hright
    rw [Expr.translate, Expr.eval]
    exact ⟨m₃, h₃, hvalue, (hkeeps₁.trans hkeeps₂).trans hkeeps₃⟩

theorem Primary.tracks {tape : List Int} {s : Store} : ∀ (p : Primary), p.WellSpelled →
    ∀ {g : Generator} {m : Machine}, Tracks tape g s m →
      ∃ m', Tracks tape (p.translate g).2 s m' ∧
        m'.value? (p.translate g).1.value = some (p.eval s.values) ∧ m.Keeps m'
  | .paren e, hp, g, m, h => by
    rw [Primary.WellSpelled] at hp
    rw [Primary.translate, Primary.eval]
    exact Expr.tracks e hp h
  | .name x, hp, g, m, h => by
    rw [Primary.WellSpelled] at hp
    obtain ⟨m', h', hkeeps⟩ := h.identifier hp
    rw [Primary.translate, Primary.eval]
    exact ⟨m', h', h'.value?_of_declared hp (Generator.mem_names_declare x _ g), hkeeps⟩
  | .number digits, hp, g, m, h => by
    rw [Primary.WellSpelled] at hp
    rw [Primary.translate, Primary.eval]
    exact ⟨m, h, if_pos hp, .refl m⟩

end

/-! ### Statements -/

/-- The output and the values of the variables are the same. -/
structure Agrees (s : Store) (m : Machine) : Prop where
  output : m.output = s.output
  values : ∀ x, isIdentifier x = true → (m.memory x).getD 0 = s.values x

/-- The code generated so far does what an evaluation does that goes on or has ended for want of
input. -/
def Follows (tape : List Int) (g : Generator) : Except Store Store → Prop
  | .ok s => ∃ m, Tracks tape g s m
  | .error s => ∃ m, Machine.steps g.instructions { input := tape } = .error (.starved, m) ∧ Agrees s m

/-- The translation does what the evaluation does. -/
structure Implements (t : Translation Unit) (f : Store → Except Store Store) : Prop where
  grows : Grows t
  follows : ∀ {tape : List Int} {g : Generator} {s : Store} {m : Machine}, Tracks tape g s m →
    Follows tape (t g).2 (f s)

theorem Follows.bind {tape : List Int} {g : Generator} {r : Except Store Store} {t : Translation Unit}
    {f : Store → Except Store Store} (h : Follows tape g r) (ht : Implements t f) :
    Follows tape (t g).2 (r >>= f) := by
  cases r with
  | ok s =>
    obtain ⟨m, hm⟩ := h
    exact ht.follows hm
  | error s =>
    obtain ⟨m, hsteps, hagrees⟩ := h
    obtain ⟨more, hmore⟩ := ht.grows g
    refine ⟨m, ?_, hagrees⟩
    rw [← hmore]
    exact Machine.steps_append_of_error hsteps

/-- What holds for the items of a list holds for the list. -/
theorem Follows.forEach {α : Type} {tape : List Int} {item : α → Translation Unit}
    {f : Store → α → Except Store Store} (l : List α) (h : ∀ a ∈ l, Implements (item a) (f · a))
    {g : Generator} {r : Except Store Store} (hr : Follows tape g r) :
    Follows tape (Translation.forEach item l g).2 (r >>= fun s => l.foldlM f s) := by
  induction l generalizing g r with
  | nil =>
    show Follows tape g (r >>= pure)
    rw [bind_pure]
    exact hr
  | cons a l ih =>
    have hstep := hr.bind (h a List.mem_cons_self)
    have hrest := ih (fun b hb => h b (List.mem_cons_of_mem _ hb)) hstep
    rw [bind_assoc] at hrest
    exact hrest

theorem implements_series {α : Type} {item : α → Translation Unit} {f : Store → α → Except Store Store}
    (l : Series α) (hgrows : ∀ a, Grows (item a))
    (h : ∀ a ∈ l.first :: l.rest, Implements (item a) (f · a)) :
    Implements (l.translate item) (l.exec f) where
  grows := l.grows_translate hgrows
  follows := by
    intro tape g s m hm
    exact Follows.forEach (l.first :: l.rest) h (r := .ok s) ⟨m, hm⟩

theorem implements_readName {x : Text} (hx : isIdentifier x = true) :
    Implements (readName x) (Store.read · x) where
  grows := grows_readName x
  follows := by
    intro tape g s m hm
    obtain ⟨m', hm', _⟩ := hm.identifier hx
    rw [Store.read]
    cases hinput : s.input with
    | nil => exact ⟨m', hm'.starve hinput x, hm'.output, hm'.values⟩
    | cons v rest => exact ⟨_, hm'.readInto hinput (Generator.mem_names_declare x _ g)⟩

theorem implements_writeValue {e : Expr} (he : e.WellSpelled) :
    Implements (writeValue e) fun s => .ok (s.write (e.eval s.values)) where
  grows := grows_writeValue e
  follows := by
    intro tape g s m hm
    obtain ⟨m', hm', hvalue, _⟩ := e.tracks he hm
    exact ⟨_, hm'.writeExpression hvalue⟩

theorem Statement.implements (t : Statement) (ht : t.WellSpelled) :
    Implements t.translate (Statement.exec · t) := by
  cases t with
  | assign x e =>
    obtain ⟨hx, he⟩ := ht
    refine ⟨(Statement.assign x e).grows_translate, ?_⟩
    intro tape g s m hm
    obtain ⟨m₁, h₁, hvalue, _⟩ := e.tracks he hm
    obtain ⟨m₂, h₂, hkeeps⟩ := h₁.identifier hx
    exact ⟨_, h₂.assign (hkeeps _ _ hvalue) (Generator.mem_names_declare x _ _)⟩
  | read xs => exact implements_series xs grows_readName fun x hx => implements_readName (ht x hx)
  | write es => exact implements_series es grows_writeValue fun e he => implements_writeValue (ht e he)

/-! ### Programs -/

theorem Program.implements (p : Program) (hp : p.WellSpelled) :
    Implements p.translate (p.statements.exec Statement.exec) :=
  implements_series p.statements Statement.grows_translate fun t ht => t.implements (hp t ht)

/-- Before any code is generated, machine and evaluation start alike. -/
theorem tracks_start (tape : List Int) : Tracks tape {} { input := tape } { input := tape } where
  reached := rfl
  declared := fun _ => iff_of_false Bool.false_ne_true List.not_mem_nil
  values := fun _ _ => rfl
  input := rfl
  output := rfl
  fresh := fun _ h => absurd h List.not_mem_nil

/-- The code of a program ends as the program does, with the same output and the same values. -/
theorem Program.run_code (p : Program) (hp : p.WellSpelled) (input : List Int) :
    (Machine.run p.code input).1 = (p.run input).1 ∧
      Agrees (p.run input).2 (Machine.run p.code input).2 := by
  have hfollows := (p.implements hp).follows (tracks_start input)
  rw [Machine.run, Program.run, Program.code]
  cases hrun : p.statements.exec Statement.exec { input } with
  | ok s =>
    rw [hrun] at hfollows
    obtain ⟨m, hm⟩ := hfollows
    rw [Machine.steps_concat hm.reached]
    exact ⟨rfl, hm.output, hm.values⟩
  | error s =>
    rw [hrun] at hfollows
    obtain ⟨m, hsteps, hagrees⟩ := hfollows
    rw [Machine.steps_append_of_error hsteps]
    exact ⟨rfl, hagrees⟩

/-- Compilation preserves meaning.  An accepted source is the text of exactly one program, and on every
input its code ends as the program does, with the same output and the same values of all variables. -/
theorem Compilation.code_preserves_meaning (config : Config) (filename src : Text)
    (h : (ofSource config filename src).error = none) :
    let o := (ofSource config filename src).output
    ∃ p, (Stream.ofSource filename src).Spells p ∧
      (∀ q, (Stream.ofSource filename src).Spells q → q = p) ∧
      o.instructions.map Instruction.text = o.code ∧
      ∀ input,
        (Machine.run o.instructions input).1 = (p.run input).1 ∧
        (Machine.run o.instructions input).2.output = (p.run input).2.output ∧
        ∀ x, isIdentifier x = true →
          ((Machine.run o.instructions input).2.memory x).getD 0 = (p.run input).2.values x := by
  intro o
  obtain ⟨p, hp⟩ := (error_eq_none_iff config filename src).1 h
  have hspelled := p.wellSpelled (hp.writable (Stream.scanned_ofSource filename src))
  have hcode : o.code = p.code.map Instruction.text := code_of_spells config hp
  have hsame : o.instructions = p.code :=
    Output.instructions_eq hcode (p.sound hspelled).admitted.isWellFormed_concat
  refine ⟨p, hp, fun q hq => Program.eq_of_words (hq.words.symm.trans hp.words), ?_, ?_⟩
  · rw [hsame, hcode]
  · intro input
    rw [hsame]
    obtain ⟨hstop, hagrees⟩ := p.run_code hspelled input
    exact ⟨hstop, hagrees.output, hagrees.values⟩

/-- In a chain of differences the right one is taken first, so `5 - 1 - 2` is `6`. -/
theorem Compilation.code_preserves_meaning_chain :
    let c := ofSource {} [] (text "begin read(n); n := n - 1 - 2; write(n, n + (n - 4)); end")
    c.error = none ∧ (Machine.run c.output.instructions [5]).1 = .halted ∧
      (Machine.run c.output.instructions [5]).2.output = [6, 8] ∧
      ((Machine.run c.output.instructions [5]).2.memory (text "n")).getD 0 = 6 := by
  let n : Primary := .name (text "n")
  let p : Program := ⟨⟨.read ⟨text "n", []⟩,
    [.assign (text "n") (.chain n .minus (.chain (.number (text "1")) .minus (.single (.number (text "2"))))),
      .write ⟨.single n, [.chain n .plus (.single (.paren (.chain n .minus
        (.single (.number (text "4"))))))]⟩]⟩⟩
  intro c
  have hclean : c.error = none := by decide +kernel
  obtain ⟨q, hq, _, _, hmeaning⟩ := code_preserves_meaning _ _ _ hclean
  have hwords : q.words = p.words := hq.words.symm.trans (by decide +kernel)
  rw [Program.eq_of_words hwords] at hmeaning
  obtain ⟨hstop, houtput, hvalues⟩ := hmeaning [5]
  exact ⟨hclean, hstop, houtput, hvalues (text "n") rfl⟩

end MicroLang
