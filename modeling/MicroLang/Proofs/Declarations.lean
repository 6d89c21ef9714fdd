import MicroLang.Proofs.Invariance
import MicroLang.Proofs.Muting
import MicroLang.Proofs.Temporaries

/-!
# Declarations and symbols

The table of symbols lists each name once, in the order in which the names came up.  The code declares
the same names in the same order, as long as it is made: an action that enters a new name also declares
it, unless the generator is muted, and a muted generator stays so.  So the declared names are always a
beginning of the table, and all of it where there is no error.

In a program without errors the names that came up are its identifiers and the temporaries.
-/

namespace MicroLang

open Parse Translation Instruction OperandShape

/-! ### Actions -/

namespace Generator

/-- The names that the code declares, in order. -/
def declared (g : Generator) : List Text := g.instructions.filterMap declared?

/-- The second generator has at most one name more than the first.  The name was new, it stands behind all
others, and its declaration too, unless it was suppressed. -/
structure Enters (muted : Bool) (new : Option Text) (g g' : Generator) : Prop where
  names : g'.symbols.names = g.symbols.names ++ new.toList
  fresh : ∀ x ∈ new, x ∉ g.symbols.names
  declared : g'.declared = g.declared ++ if muted then [] else new.toList

variable {muted : Bool} {new : Option Text} {g g' : Generator}

theorem Enters.mem_iff (h : Enters muted new g g') {x : Text} :
    x ∈ g'.symbols.names ↔ x ∈ g.symbols.names ∨ x ∈ new := by
  rw [h.names, List.mem_append]
  exact or_congr_right Option.mem_toList

theorem Enters.subset (h : Enters muted new g g') : g.symbols.names ⊆ g'.symbols.names :=
  fun _ hx => h.mem_iff.2 (.inl hx)

theorem enters_none (muted : Bool) (hnames : g'.symbols = g.symbols)
    (hinstructions : g'.instructions = g.instructions) : Enters muted none g g' where
  names := by rw [hnames, Option.toList_none, List.append_nil]
  fresh := fun x hx => absurd hx (Option.not_mem_none x)
  declared := by
    rw [Generator.declared, hinstructions, Option.toList_none, ite_self, List.append_nil]
    rfl

/-- Behind a name an instruction may be emitted that declares nothing. -/
theorem Enters.emit (h : Enters muted new g g') {i : Instruction} (hi : i.declared? = none) :
    Enters muted new g (emit muted i g').generator where
  names := by rw [symbols_emit, h.names]
  fresh := h.fresh
  declared := by
    rw [← h.declared]
    cases muted with
    | true => rfl
    | false =>
      rw [Generator.declared, instructions_emit, List.filterMap_append, List.filterMap_cons, hi,
        List.filterMap_nil, List.append_nil]
      rfl

theorem enters_emit (muted : Bool) {i : Instruction} (hi : i.declared? = none) (g : Generator) :
    Enters muted none g (Generator.emit muted i g).generator :=
  (enters_none muted rfl rfl).emit hi

/-- A name is entered and declared if it is new. -/
theorem enters_declare (muted : Bool) (name : Text) (kind : SymbolKind) (g : Generator) :
    Enters muted (if name ∈ g.symbols.names then none else some name) g
      (declare muted name kind g).generator := by
  by_cases hknown : name ∈ g.symbols.names
  · rw [if_pos hknown, declare_of_known hknown]
    exact enters_none muted rfl rfl
  · have hnone := SymbolTable.lookup?_eq_none_iff.2 hknown
    have hnew : (g.symbols.enter name kind).2.2 = true := by rw [SymbolTable.enter_of_new hnone]
    have hshown := Impartial.shown_declaring name kind muted g
    rw [if_neg hknown]
    constructor
    · rw [hshown.symbols]
      exact SymbolTable.names_enter_of_new hnone kind
    · intro x hx
      cases hx
      exact hknown
    · rw [Generator.declared, hshown.instructions, List.filterMap_append]
      cases muted with
      | true => rfl
      | false =>
        simp only [Effect.declaring, hnew, if_true]
        rfl

theorem mem_names_identifier_iff (muted : Bool) (name : Text) (g : Generator) (x : Text) :
    x ∈ (identifier muted name g).generator.symbols.names ↔ x ∈ g.symbols.names ∨ x = name := by
  refine (enters_declare muted name .variable g).mem_iff.trans ?_
  split
  · next hknown =>
    refine ⟨fun hx => .inl (hx.resolve_right (Option.not_mem_none x)), fun hx => ?_⟩
    rcases hx with hx | rfl
    · exact .inl hx
    · exact .inl hknown
  · exact or_congr_right ⟨fun hx => (Option.some.inj hx).symm, fun hx => congrArg some hx.symm⟩

end Generator

/-- The only names that are entered apart from those of the source are temporaries. -/
theorem Routine.enters {α : Type} {action : Bool → Generator → Step α} (h : Routine action) (muted : Bool)
    (g : Generator) :
    ∃ new : Option Text, (∀ x ∈ new, isTemporary x = true) ∧
      Generator.Enters muted new g (action muted g).generator := by
  have hnone : ∀ x ∈ (none : Option Text), isTemporary x = true :=
    fun x hx => absurd hx (Option.not_mem_none x)
  cases h with
  | start => exact ⟨none, hnone, Generator.enters_none muted rfl rfl⟩
  | literal digits => exact ⟨none, hnone, Generator.enters_none muted rfl rfl⟩
  | operation operator => exact ⟨none, hnone, Generator.enters_none muted rfl rfl⟩
  | assign source destination => exact ⟨none, hnone, Generator.enters_emit muted rfl g⟩
  | readInto operand => exact ⟨none, hnone, Generator.enters_emit muted rfl g⟩
  | writeExpression operand => exact ⟨none, hnone, Generator.enters_emit muted rfl g⟩
  | @combine left right op hop =>
    have hundeclared : ∀ x, Instruction.declared? ⟨op, [left.value, right.value, x]⟩ = none := by
      intro x
      rcases hop with rfl | rfl <;> rfl
    have hdeclare := Generator.enters_declare muted (Generator.temporaryName (g.temporaries + 1)) .temporary
      { g with temporaries := g.temporaries + 1 }
    obtain ⟨hnames, hfresh, hdeclared⟩ := hdeclare.emit (hundeclared _)
    refine ⟨_, ?_, ⟨hnames, hfresh, hdeclared⟩⟩
    intro x hx
    split at hx
    · exact hnone x hx
    · cases hx
      exact Generator.isTemporary_temporaryName (Nat.succ_pos _)

/-! ### Steps of a parse -/

/-- The code declares a beginning of the table of symbols, and all of it if there is no error. -/
structure ParseState.Declares (s : ParseState) : Prop where
  nodup : s.generator.symbols.names.Nodup
  begins : s.generator.declared <+: s.generator.symbols.names
  all : s.tracker.hasError = false → s.generator.declared = s.generator.symbols.names

namespace ParseState.Declares

variable {s s' : ParseState}

theorem of_enters (h : s.Declares) {new : Option Text}
    (henters : Generator.Enters s.tracker.hasError new s.generator s'.generator)
    (htracker : s'.tracker = s.tracker) : s'.Declares := by
  have hall : s.tracker.hasError = false → s'.generator.declared = s'.generator.symbols.names := by
    intro hno
    rw [henters.declared, henters.names, hno, h.all hno]
    rfl
  refine ⟨?_, ?_, htracker ▸ hall⟩
  · rw [henters.names, List.nodup_append]
    refine ⟨h.nodup, ?_, ?_⟩
    · cases new with
      | none => exact List.nodup_nil
      | some x => exact List.nodup_cons.2 ⟨List.not_mem_nil, List.nodup_nil⟩
    · intro x hx y hy heq
      exact henters.fresh y (Option.mem_toList.1 hy) (heq ▸ hx)
  · cases hmuted : s.tracker.hasError with
    | false => simp only [hall hmuted, List.prefix_refl]
    | true =>
      rw [henters.declared, henters.names, hmuted, if_pos rfl, List.append_nil]
      exact h.begins.trans (List.prefix_append _ _)

/-- An error that comes up leaves less to show. -/
theorem of_generator (h : s.Declares) (hgenerator : s'.generator = s.generator)
    (herror : s.tracker.hasError = true → s'.tracker.hasError = true) : s'.Declares := by
  refine ⟨hgenerator ▸ h.nodup, hgenerator ▸ h.begins, fun hno => ?_⟩
  rw [hgenerator]
  refine h.all (Bool.eq_false_iff.2 fun hyes => ?_)
  rw [herror hyes] at hno
  cases hno

end ParseState.Declares

/-- A step that leaves the generator alone and loses no diagnostic. -/
theorem keeps_declares_of_steady {α : Type} {m : Production α} (hsteady : Steady m)
    (hgenerator : ∀ s, (stateOf (m.run s)).generator = s.generator) : Keeps ParseState.Declares m :=
  fun s hs => hs.of_generator (hgenerator s) (Tracker.hasError_of_prefix (hsteady s).diagnostics)

theorem keeps_declares_act {α : Type} {action : Bool → Generator → Step α}
    (h : ∀ muted g, ∃ new, Generator.Enters muted new g (action muted g).generator) :
    Keeps ParseState.Declares (act action) := by
  intro s hs
  obtain ⟨transcript, hrun⟩ := run_act action s
  obtain ⟨new, henters⟩ := h s.tracker.hasError s.generator
  rw [hrun]
  exact hs.of_enters henters rfl

theorem keeps_declares_accept (k : Kind) : Keeps ParseState.Declares (accept k) := by
  refine keeps_declares_of_steady (.accept k) fun s => ?_
  cases hpeek : s.stream.peek with
  | ok tok =>
    obtain ⟨_, _, _, hrun, _⟩ := run_accept_cases hpeek k
    rw [hrun]
    rfl
  | error e =>
    obtain ⟨_, hrun⟩ := run_accept_of_error hpeek k
    rw [hrun]
    rfl

theorem upkeep_declares : Upkeep ParseState.Declares := by
  refine upkeep_of_steps (fun n => ?_) (fun n => ?_) (fun parent content => ?_)
    (fun k _ => keeps_declares_accept k) (fun tok kinds => ?_) (fun name => ?_) fun hroutine => ?_
  · refine keeps_declares_of_steady (.enter _) fun s => ?_
    obtain ⟨_, hrun⟩ := run_enter n.name s
    rw [hrun]
    rfl
  · refine keeps_declares_of_steady (.derive n) fun s => ?_
    obtain ⟨_, hrun⟩ := run_derive n s
    rw [hrun]
    rfl
  · refine keeps_declares_of_steady (.add parent content) fun s => ?_
    rcases run_add_cases parent content s with ⟨_, hrun⟩ | ⟨e, hrun⟩
    · rw [hrun]
      rfl
    · rw [hrun]
      rfl
  · have hkeeps : Keeps ParseState.Declares (expected tok kinds) := by
      refine keeps_declares_of_steady (.expected tok kinds) fun s => ?_
      obtain ⟨_, _, hrun, _⟩ := run_expected_cases s tok kinds
      rw [hrun]
      rfl
    exact fun s hs _ => hkeeps s hs
  · exact keeps_declares_act fun muted g => ⟨_, Generator.enters_declare muted name .variable g⟩
  · refine keeps_declares_act fun muted g => ?_
    obtain ⟨new, _, henters⟩ := hroutine.enters muted g
    exact ⟨new, henters⟩

/-- The declarations of a whole parse. -/
theorem Parsed.declares_ofState {s : ParseState} (h : s.Declares) : (ofState s).state.Declares := by
  rw [state_ofState, systemGoal_eq]
  refine Keeps.bind (upkeep_declares.goalBody _) (fun _ => ?_) s h
  refine (keeps_declares_accept .eofSym).bind fun _ => ?_
  exact keeps_declares_act fun muted g => ⟨none, Generator.enters_emit muted rfl g⟩

/-! ### The names of a program -/

/-- Apart from temporaries, the translation enters the names among the words. -/
def Translation.Mentions {α : Type} (t : Translation α) (ws : List Word) : Prop :=
  ∀ g x, isTemporary x = false → (x ∈ (t g).2.symbols.names ↔ x ∈ g.symbols.names ∨ ⟨.id, x⟩ ∈ ws)

namespace Translation

variable {α β : Type} {t : Translation α} {ws ws' : List Word}

/-- Only the names among the words count, in whatever order they stand. -/
theorem Mentions.congr (h : Mentions t ws) (hsame : ∀ x, (⟨.id, x⟩ : Word) ∈ ws ↔ ⟨.id, x⟩ ∈ ws') :
    Mentions t ws' := by
  intro g x hx
  rw [h g x hx, hsame]

theorem Mentions.andThen {u : α → Translation β} (ht : Mentions t ws) (hu : ∀ a, Mentions (u a) ws') :
    Mentions (andThen t u) (ws ++ ws') := by
  intro g x hx
  show x ∈ (u (t g).1 (t g).2).2.symbols.names ↔ _
  rw [hu _ _ x hx, ht g x hx, List.mem_append, or_assoc]

theorem mentions_routine {action : Bool → Generator → Step α} (h : Routine action) :
    Mentions (perform (action false)) [] := by
  intro g x hx
  obtain ⟨new, htemporary, henters⟩ := h.enters false g
  show x ∈ (action false g).generator.symbols.names ↔ _
  rw [henters.mem_iff]
  refine or_congr_right (iff_of_false (fun hnew => ?_) List.not_mem_nil)
  rw [htemporary x hnew] at hx
  cases hx

theorem mentions_identifier (name : Text) :
    Mentions (perform (Generator.identifier false name)) (nameWords name) := by
  intro g x _
  refine (Generator.mem_names_identifier_iff false name g x).trans (or_congr_right ?_)
  rw [nameWords, List.mem_singleton, Word.mk.injEq]
  exact (and_iff_right rfl).symm

theorem mentions_forEach {item : α → Translation Unit} {words : α → List Word}
    (h : ∀ a, Mentions (item a) (words a)) (l : List α) : Mentions (forEach item l) (l.flatMap words) := by
  induction l with
  | nil => exact fun g x _ => by simp [forEach, yield]
  | cons a l ih =>
    rw [List.flatMap_cons]
    exact (h a).andThen fun _ => ih

end Translation

mutual

theorem Expr.mentions : ∀ e : Expr, Mentions e.translate e.words
  | .single p => by
    rw [Expr.translate, Expr.words]
    exact Primary.mentions p
  | .chain p op e => by
    have hop : op.opcode = .add ∨ op.opcode = .sub := (op.computes [] [] []).operation
    have hwords : ∀ x, (⟨.id, x⟩ : Word) ∉ op.words := by cases op <;> simp [AddOp.words, AddOp.kind]
    rw [Expr.translate, Expr.words]
    refine ((Primary.mentions p).andThen fun left => (Expr.mentions e).andThen fun right =>
      mentions_routine (.combine left right hop)).congr fun x => ?_
    simp [hwords x]

theorem Primary.mentions : ∀ p : Primary, Mentions p.translate p.words
  | .paren e => by
    rw [Primary.translate, Primary.words]
    exact (Expr.mentions e).congr fun x => by simp
  | .name x => by
    rw [Primary.translate, Primary.words]
    exact mentions_identifier x
  | .number digits => by
    rw [Primary.translate, Primary.words]
    exact (mentions_routine (.literal digits)).congr fun x => by simp

end

theorem Series.mentions {α : Type} {item : α → Translation Unit} {words : α → List Word}
    (hitem : ∀ a, Mentions (item a) (words a)) {separator : List Word}
    (hseparator : ∀ x, (⟨.id, x⟩ : Word) ∉ separator) (s : Series α) :
    Mentions (s.translate item) (s.words separator words) := by
  refine ((hitem s.first).andThen fun _ => mentions_forEach hitem s.rest).congr fun x => ?_
  simp [Series.words, hseparator x]

theorem mentions_readName (x : Text) : Mentions (readName x) (nameWords x) :=
  ((mentions_identifier x).andThen fun operand => mentions_routine (.readInto operand)).congr
    fun _ => by simp

theorem mentions_writeValue (e : Expr) : Mentions (writeValue e) e.words :=
  (e.mentions.andThen fun operand => mentions_routine (.writeExpression operand)).congr fun _ => by simp

theorem Statement.mentions (t : Statement) : Mentions t.translate t.words := by
  have hcomma : ∀ x, (⟨.id, x⟩ : Word) ∉ [({ kind := .comma } : Word)] := by simp
  cases t with
  | assign name e =>
    -- the target comes first among the words and last in the translation
    refine (e.mentions.andThen fun source => (mentions_identifier name).andThen fun destination =>
      mentions_routine (.assign source destination)).congr fun x => ?_
    simp [Statement.words, nameWords, or_comm]
  | read names =>
    refine (names.mentions mentions_readName hcomma).congr fun x => ?_
    simp [Statement.words, Series.listed]
  | write values =>
    refine (values.mentions mentions_writeValue hcomma).congr fun x => ?_
    simp [Statement.words, Series.listed]

theorem Program.mentions (p : Program) : Mentions p.translate p.words := by
  refine (p.statements.mentions Statement.mentions fun _ => List.not_mem_nil).congr fun x => ?_
  simp [Program.words]

/-- The names of an accepted text: its identifiers, apart from temporaries. -/
theorem Parsed.mem_names_of_spells {s : ParseState} (h : s.Ready (s.stream.tokens.length + 1) [Tree.root])
    (hgenerator : s.generator = {}) {p : Program} (hp : s.stream.Spells p) {x : Text}
    (hx : isTemporary x = false) :
    x ∈ (ofState s).symbols.names ↔ ∃ tok ∈ s.stream.tokens, tok.kind = .id ∧ tok.literal = x := by
  rw [symbols, generator_of_spells h hp, hgenerator]
  show x ∈ (Generator.emit false _ _).generator.symbols.names ↔ _
  rw [Generator.symbols_emit, p.mentions {} x hx, ← hp.words, List.mem_map]
  refine ⟨fun hmem => ?_, fun ⟨tok, htok, hkind, hliteral⟩ => .inr ⟨tok, htok, ?_⟩⟩
  · obtain ⟨tok, htok, hword⟩ := hmem.resolve_left List.not_mem_nil
    have hkind : tok.kind = .id := congrArg Word.kind hword
    rw [Token.word_of_open (by rw [hkind]; rfl)] at hword
    exact ⟨tok, htok, hkind, congrArg Word.value hword⟩
  · rw [Token.word_of_open (by rw [hkind]; rfl), hkind, hliteral]

namespace Compilation

/-- All code is well formed, that of a source with errors too. -/
theorem isWellFormed_instructions (config : Config) (filename src : Text) :
    ∀ i ∈ (Parsed.ofSource filename src { filename } config.trace).instructions, i.isWellFormed = true := by
  have hready := ParseState.ready_initial filename src config.trace (Tracker.hasError_fresh filename)
  by_cases hclean : (ofSource config filename src).error = none
  · obtain ⟨p, hp⟩ := (error_eq_none_iff config filename src).1 hclean
    have hspelled := p.wellSpelled (hp.writable (Stream.scanned_ofSource filename src))
    have hcode : (Parsed.ofSource filename src { filename } config.trace).instructions = p.code :=
      Parsed.instructions_of_spells hready rfl hp
    rw [hcode]
    exact (p.sound hspelled).admitted.isWellFormed_concat
  · obtain ⟨p, hwritable, hstart⟩ := instructions_of_error config hclean
    intro i hi
    exact ((p.sound (p.wellSpelled hwritable)).admitted.plain i (hstart.subset hi)).1

/-- The code as it is read back from the listing is the code that was generated. -/
theorem instructions_output (config : Config) (filename src : Text) :
    (ofSource config filename src).output.instructions =
      (Parsed.ofSource filename src { filename } config.trace).instructions :=
  Output.instructions_eq rfl (isWellFormed_instructions config filename src)

/-- The table of symbols lists no name twice.  The names that the code declares are a beginning of it, in
the same order, whatever the source is.  If there is no error, they are all of it, and then the names that
are no temporaries are the identifiers of the source. -/
theorem declarations_begin_symbols (config : Config) (filename src : Text) :
    let c := ofSource config filename src
    let declared := c.output.instructions.filterMap declared?
    c.output.instructions.map Instruction.text = c.output.code ∧ c.output.symbols.Nodup ∧
      declared <+: c.output.symbols ∧
      (c.error = none → declared = c.output.symbols ∧ ∀ x, isTemporary x = false →
        (x ∈ c.output.symbols ↔
          ∃ tok ∈ (Stream.ofSource filename src).tokens, tok.kind = .id ∧ tok.literal = x)) := by
  intro c declared
  have hinstructions : c.output.instructions = _ := instructions_output config filename src
  have hdeclares : (Parsed.ofSource filename src { filename } config.trace).state.Declares :=
    Parsed.declares_ofState ⟨List.nodup_nil, List.prefix_refl _, fun _ => rfl⟩
  have hdeclared : declared =
      (Parsed.ofSource filename src { filename } config.trace).state.generator.declared :=
    congrArg (List.filterMap declared?) hinstructions
  refine ⟨congrArg (List.map Instruction.text) hinstructions, hdeclares.nodup, ?_, fun hclean => ⟨?_, ?_⟩⟩
  · rw [hdeclared]
    exact hdeclares.begins
  · rw [hdeclared]
    refine hdeclares.all (Bool.eq_false_iff.2 fun herror => ?_)
    exact Parsed.error?_of_hasError herror ((errorOf_eq_none_iff _).1 hclean)
  · intro x hx
    obtain ⟨p, hp⟩ := (error_eq_none_iff config filename src).1 hclean
    exact Parsed.mem_names_of_spells
      (ParseState.ready_initial filename src config.trace (Tracker.hasError_fresh filename)) rfl hp hx

/-- An assignment whose target comes up behind two temporaries, and a list with a wrong parenthesis, so
that the name behind it is no longer declared. -/
theorem declarations_begin_symbols_until_error :
    let c := ofSource {} [] (text "begin a := 1 + (Temp - 2); write(a); end")
    let d := ofSource {} [] (text "begin read(x(; write(z); end")
    c.error = none ∧ c.output.symbols = [text "Temp", text "Temp&1", text "Temp&2", text "a"] ∧
      c.output.instructions.filterMap declared? = c.output.symbols ∧
      (text "a" ∈ c.output.symbols ↔ ∃ tok ∈
        (Stream.ofSource [] (text "begin a := 1 + (Temp - 2); write(a); end")).tokens,
          tok.kind = .id ∧ tok.literal = text "a") ∧
      d.output.symbols = [text "x", text "z"] ∧ d.output.symbols.Nodup ∧
      d.output.instructions.filterMap declared? <+: d.output.symbols ∧
      d.output.instructions.filterMap declared? ≠ d.output.symbols := by
  intro c d
  have hclean : c.error = none := by decide +kernel
  obtain ⟨_, _, _, hall⟩ :=
    declarations_begin_symbols {} [] (text "begin a := 1 + (Temp - 2); write(a); end")
  obtain ⟨_, hnodup, hbegins, _⟩ := declarations_begin_symbols {} [] (text "begin read(x(; write(z); end")
  refine ⟨hclean, by decide +kernel, (hall hclean).1, (hall hclean).2 (text "a") rfl, by decide +kernel,
    hnodup, hbegins, by decide +kernel⟩

end Compilation

end MicroLang
