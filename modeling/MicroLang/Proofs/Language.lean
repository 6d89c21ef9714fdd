import MicroLang.Proofs.Acceptance

/-!
# The language

The texts that are accepted are the sentences of the grammar.  Derivations speak of kinds only, phrases
also of the values of identifiers and numbers; since the grammar leaves the values open, a sequence of
words is a phrase of a grammar symbol exactly if its kinds are derived from that symbol.
-/

namespace MicroLang

/-- The words are a phrase of the grammar symbol. -/
def GrammarSymbol.Covers : GrammarSymbol → List Word → Prop
  | .terminal k, ws =>
    match k.isOpen with
    | true => ∃ value, ws = [⟨k, value⟩]
    | false => ws = [{ kind := k }]
  | .nonterminal .systemGoal, ws => ∃ p : Program, ws = p.sentence
  | .nonterminal .program, ws => ∃ p : Program, ws = p.words
  | .nonterminal .statementList, ws => ∃ s : Series Statement, ws = s.words [] Statement.words
  | .nonterminal .statement, ws => ∃ s : Statement, ws = s.words
  | .nonterminal .ident, ws => ∃ x, ws = nameWords x
  | .nonterminal .expression, ws => ∃ e : Expr, ws = e.words
  | .nonterminal .idList, ws => ∃ xs : Series Text, ws = xs.listed nameWords
  | .nonterminal .exprList, ws => ∃ es : Series Expr, ws = es.listed Expr.words
  | .nonterminal .primary, ws => ∃ p : Primary, ws = p.words
  | .nonterminal .addOp, ws => ∃ op : AddOp, ws = op.words

/-- The words are phrases of the grammar symbols, one after another. -/
def CoversAll : List GrammarSymbol → List Word → Prop
  | [], ws => ws = []
  | s :: rest, ws => ∃ u v, ws = u ++ v ∧ s.Covers u ∧ CoversAll rest v

/-! ### Phrases are derived -/

theorem DerivesAll.single {s : GrammarSymbol} {kinds : List Kind} (h : Derives s kinds) :
    DerivesAll [s] kinds := by
  have hcons := DerivesAll.cons h .nil
  rw [List.append_nil] at hcons
  exact hcons

theorem DerivesAll.terminal_cons (k : Kind) {rest : List GrammarSymbol} {kinds : List Kind}
    (h : DerivesAll rest kinds) : DerivesAll (.terminal k :: rest) (k :: kinds) :=
  .cons (.terminal k) h

theorem derives_name (x : Text) : Derives (.nonterminal .ident) ((nameWords x).map Word.kind) :=
  .nonterminal .ident List.mem_cons_self (.single (.terminal .id))

theorem AddOp.derives (op : AddOp) : Derives (.nonterminal .addOp) (op.words.map Word.kind) := by
  cases op with
  | plus => exact .nonterminal .addOp (by decide) (.single (.terminal .plusOp))
  | minus => exact .nonterminal .addOp (by decide) (.single (.terminal .minusOp))

mutual

theorem Expr.derives : ∀ e : Expr, Derives (.nonterminal .expression) (e.words.map Word.kind)
  | .single p => by
    rw [Expr.words]
    exact .nonterminal .expression (by decide) (.single (Primary.derives p))
  | .chain p op e => by
    rw [Expr.words, List.map_append, List.map_append]
    exact .nonterminal .expression (by decide)
      (.cons (Primary.derives p) (.cons op.derives (.single (Expr.derives e))))

theorem Primary.derives : ∀ p : Primary, Derives (.nonterminal .primary) (p.words.map Word.kind)
  | .paren e => by
    rw [Primary.words, List.map_cons, List.map_append]
    exact .nonterminal .primary (by decide)
      (.terminal_cons .lParen (.cons (Expr.derives e) (.single (.terminal .rParen))))
  | .name x => .nonterminal .primary (by decide) (.single (derives_name x))
  | .number _ => .nonterminal .primary (by decide) (.single (.terminal .intLiteral))

end

/-- A series is derived from a nonterminal that derives an item, alone or with the rest behind it. -/
theorem Series.derives {α : Type} {n : Nonterminal} {item : GrammarSymbol} {words : α → List Word}
    (separator : List Word) (between : List GrammarSymbol)
    (hbetween : ∀ {kinds : List Kind}, Derives (.nonterminal n) kinds →
      DerivesAll (between ++ [.nonterminal n]) (separator.map Word.kind ++ kinds))
    (hone : [item] ∈ n.alternatives) (hmore : item :: (between ++ [.nonterminal n]) ∈ n.alternatives)
    (hitem : ∀ a, Derives item ((words a).map Word.kind)) (s : Series α) :
    Derives (.nonterminal n) ((s.words separator words).map Word.kind) := by
  obtain ⟨a, rest⟩ := s
  rw [Series.words]
  induction rest generalizing a with
  | nil =>
    rw [List.flatMap_nil, List.append_nil]
    exact .nonterminal n hone (.single (hitem a))
  | cons b rest ih =>
    rw [List.flatMap_cons, List.append_assoc, List.map_append, List.map_append]
    exact .nonterminal n hmore (.cons (hitem a) (hbetween (ih b)))

theorem derives_names (xs : Series Text) :
    Derives (.nonterminal .idList) ((xs.listed nameWords).map Word.kind) :=
  xs.derives [{ kind := .comma }] [.terminal .comma] (fun h => .terminal_cons .comma (.single h))
    (by decide) (by decide) derives_name

theorem derives_expressions (es : Series Expr) :
    Derives (.nonterminal .exprList) ((es.listed Expr.words).map Word.kind) :=
  es.derives [{ kind := .comma }] [.terminal .comma] (fun h => .terminal_cons .comma (.single h))
    (by decide) (by decide) Expr.derives

theorem Statement.derives (s : Statement) : Derives (.nonterminal .statement) (s.words.map Word.kind) := by
  cases s with
  | assign x e =>
    rw [Statement.words, List.map_cons, List.map_cons, List.map_append]
    exact .nonterminal .statement (by decide) (.cons (derives_name x) (.terminal_cons .assignOp
      (.cons e.derives (.single (.terminal .semiColon)))))
  | read xs =>
    rw [Statement.words, List.map_cons, List.map_cons, List.map_append]
    exact .nonterminal .statement (by decide) (.terminal_cons .readSym (.terminal_cons .lParen
      (.cons (derives_names xs) (.terminal_cons .rParen (.single (.terminal .semiColon))))))
  | write es =>
    rw [Statement.words, List.map_cons, List.map_cons, List.map_append]
    exact .nonterminal .statement (by decide) (.terminal_cons .writeSym (.terminal_cons .lParen
      (.cons (derives_expressions es) (.terminal_cons .rParen (.single (.terminal .semiColon))))))

theorem derives_statements (s : Series Statement) :
    Derives (.nonterminal .statementList) ((s.words [] Statement.words).map Word.kind) :=
  s.derives [] [] .single (by decide) (by decide) Statement.derives

theorem Program.derives (p : Program) : Derives (.nonterminal .program) (p.words.map Word.kind) := by
  rw [Program.words, List.map_cons, List.map_append]
  exact .nonterminal .program (by decide) (.terminal_cons .beginSym
    (.cons (derives_statements p.statements) (.single (.terminal .endSym))))

theorem Program.derives_sentence (p : Program) :
    Derives (.nonterminal .systemGoal) (p.sentence.map Word.kind) := by
  rw [Program.sentence, List.map_append]
  exact .nonterminal .systemGoal (by decide) (.cons p.derives (.single (.terminal .eofSym)))

/-! ### What is derived is a phrase -/

/-- Behind an item and what separates it from the rest, a series goes on. -/
theorem Series.words_cons {α : Type} (separator : List Word) (words : α → List Word) (a : α)
    (s : Series α) : (Series.mk a (s.first :: s.rest)).words separator words =
      words a ++ (separator ++ s.words separator words) := by
  rw [Series.words, Series.words, List.flatMap_cons, List.append_assoc]

/-- Phrases of the symbols of an alternative make a phrase of the nonterminal. -/
theorem covers_of_alternative {n : Nonterminal} {alternative : List GrammarSymbol} {ws : List Word}
    (h : alternative ∈ n.alternatives) (hws : CoversAll alternative ws) :
    (GrammarSymbol.nonterminal n).Covers ws := by
  cases n with
  | systemGoal =>
    cases List.mem_singleton.1 h
    obtain ⟨_, _, rfl, ⟨p, rfl⟩, _, _, rfl, rfl, rfl⟩ := hws
    exact ⟨p, rfl⟩
  | program =>
    cases List.mem_singleton.1 h
    obtain ⟨_, _, rfl, rfl, _, _, rfl, ⟨s, rfl⟩, _, _, rfl, rfl, rfl⟩ := hws
    exact ⟨⟨s⟩, rfl⟩
  | statementList =>
    simp only [Nonterminal.alternatives, List.mem_cons, List.not_mem_nil, or_false] at h
    rcases h with rfl | rfl
    · obtain ⟨_, _, rfl, ⟨s, rfl⟩, rfl⟩ := hws
      exact ⟨⟨s, []⟩, rfl⟩
    · obtain ⟨_, _, rfl, ⟨s, rfl⟩, _, _, rfl, ⟨rest, rfl⟩, rfl⟩ := hws
      refine ⟨⟨s, rest.first :: rest.rest⟩, ?_⟩
      rw [Series.words_cons, List.append_nil, List.nil_append]
  | statement =>
    simp only [Nonterminal.alternatives, List.mem_cons, List.not_mem_nil, or_false] at h
    rcases h with rfl | rfl | rfl
    · obtain ⟨_, _, rfl, ⟨x, rfl⟩, _, _, rfl, rfl, _, _, rfl, ⟨e, rfl⟩, _, _, rfl, rfl, rfl⟩ := hws
      exact ⟨.assign x e, rfl⟩
    · obtain ⟨_, _, rfl, rfl, _, _, rfl, rfl, _, _, rfl, ⟨xs, rfl⟩, _, _, rfl, rfl, _, _, rfl, rfl,
        rfl⟩ := hws
      exact ⟨.read xs, rfl⟩
    · obtain ⟨_, _, rfl, rfl, _, _, rfl, rfl, _, _, rfl, ⟨es, rfl⟩, _, _, rfl, rfl, _, _, rfl, rfl,
        rfl⟩ := hws
      exact ⟨.write es, rfl⟩
  | ident =>
    cases List.mem_singleton.1 h
    obtain ⟨_, _, rfl, ⟨x, rfl⟩, rfl⟩ := hws
    exact ⟨x, rfl⟩
  | expression =>
    simp only [Nonterminal.alternatives, List.mem_cons, List.not_mem_nil, or_false] at h
    rcases h with rfl | rfl
    · obtain ⟨_, _, rfl, ⟨p, rfl⟩, rfl⟩ := hws
      exact ⟨.single p, List.append_nil _⟩
    · obtain ⟨_, _, rfl, ⟨p, rfl⟩, _, _, rfl, ⟨op, rfl⟩, _, _, rfl, ⟨e, rfl⟩, rfl⟩ := hws
      refine ⟨.chain p op e, ?_⟩
      rw [Expr.words, List.append_nil]
  | idList =>
    simp only [Nonterminal.alternatives, List.mem_cons, List.not_mem_nil, or_false] at h
    rcases h with rfl | rfl
    · obtain ⟨_, _, rfl, ⟨x, rfl⟩, rfl⟩ := hws
      exact ⟨⟨x, []⟩, rfl⟩
    · obtain ⟨_, _, rfl, ⟨x, rfl⟩, _, _, rfl, rfl, _, _, rfl, ⟨xs, rfl⟩, rfl⟩ := hws
      refine ⟨⟨x, xs.first :: xs.rest⟩, ?_⟩
      rw [Series.listed, Series.listed, Series.words_cons, List.append_nil]
  | exprList =>
    simp only [Nonterminal.alternatives, List.mem_cons, List.not_mem_nil, or_false] at h
    rcases h with rfl | rfl
    · obtain ⟨_, _, rfl, ⟨e, rfl⟩, rfl⟩ := hws
      exact ⟨⟨e, []⟩, rfl⟩
    · obtain ⟨_, _, rfl, ⟨e, rfl⟩, _, _, rfl, rfl, _, _, rfl, ⟨es, rfl⟩, rfl⟩ := hws
      refine ⟨⟨e, es.first :: es.rest⟩, ?_⟩
      rw [Series.listed, Series.listed, Series.words_cons, List.append_nil]
  | primary =>
    simp only [Nonterminal.alternatives, List.mem_cons, List.not_mem_nil, or_false] at h
    rcases h with rfl | rfl | rfl
    · obtain ⟨_, _, rfl, rfl, _, _, rfl, ⟨e, rfl⟩, _, _, rfl, rfl, rfl⟩ := hws
      exact ⟨.paren e, rfl⟩
    · obtain ⟨_, _, rfl, ⟨x, rfl⟩, rfl⟩ := hws
      exact ⟨.name x, rfl⟩
    · obtain ⟨_, _, rfl, ⟨digits, rfl⟩, rfl⟩ := hws
      exact ⟨.number digits, rfl⟩
  | addOp =>
    simp only [Nonterminal.alternatives, List.mem_cons, List.not_mem_nil, or_false] at h
    rcases h with rfl | rfl
    · obtain ⟨_, _, rfl, rfl, rfl⟩ := hws
      exact ⟨.plus, rfl⟩
    · obtain ⟨_, _, rfl, rfl, rfl⟩ := hws
      exact ⟨.minus, rfl⟩

/-- Words that have a value only where their kind leaves it open. -/
def Proper (ws : List Word) : Prop := ∀ w ∈ ws, w.kind.isOpen = false → w.value = []

theorem proper_words (tokens : List Token) : Proper (tokens.map Token.word) := by
  intro w hw hclosed
  obtain ⟨tok, _, rfl⟩ := List.mem_map.1 hw
  rw [Token.word_of_closed hclosed]

mutual

/-- Words whose kinds are derived from a grammar symbol are a phrase of it. -/
theorem Derives.covers : ∀ {s : GrammarSymbol} {kinds : List Kind}, Derives s kinds →
    ∀ {ws : List Word}, ws.map Word.kind = kinds → Proper ws → s.Covers ws
  | _, _, .terminal k, ws, h, hproper => by
    obtain ⟨w, rfl, rfl⟩ := List.map_eq_singleton_iff.1 h
    rw [GrammarSymbol.Covers]
    split
    · exact ⟨w.value, rfl⟩
    · next hclosed =>
      rw [← hproper w List.mem_cons_self hclosed]
  | _, _, .nonterminal n hmem hall, _, h, hproper => covers_of_alternative hmem (hall.covers h hproper)

theorem DerivesAll.covers : ∀ {l : List GrammarSymbol} {kinds : List Kind}, DerivesAll l kinds →
    ∀ {ws : List Word}, ws.map Word.kind = kinds → Proper ws → CoversAll l ws
  | _, _, .nil, ws, h, _ => List.map_eq_nil_iff.1 h
  | _, _, .cons hs hrest, ws, h, hproper => by
    obtain ⟨u, v, rfl, hu, hv⟩ := List.map_eq_append_iff.1 h
    exact ⟨u, v, rfl, hs.covers hu fun w hw => hproper w (List.mem_append_left _ hw),
      hrest.covers hv fun w hw => hproper w (List.mem_append_right _ hw)⟩

end

/-- Tokens spell a program exactly if their kinds and the end of the text are a sentence. -/
theorem Stream.exists_spells_iff (stream : Stream) :
    (∃ p, stream.Spells p) ↔
      ∃ tok, stream.ending = .eof tok ∧
        Derives (.nonterminal .systemGoal) (stream.tokens.map Token.kind ++ [.eofSym]) := by
  have hkinds : stream.tokens.map Token.kind ++ [.eofSym] =
      (stream.tokens.map Token.word ++ [Word.mk .eofSym []]).map Word.kind := by
    rw [List.map_append, List.map_map]
    rfl
  rw [hkinds]
  constructor
  · rintro ⟨p, hwords, tok, hending⟩
    refine ⟨tok, hending, ?_⟩
    rw [hwords]
    exact p.derives_sentence
  · rintro ⟨tok, hending, hderives⟩
    have hproper : Proper (stream.tokens.map Token.word ++ [{ kind := .eofSym }]) := by
      intro w hw
      rcases List.mem_append.1 hw with hw | hw
      · exact proper_words stream.tokens w hw
      · rw [List.mem_singleton.1 hw]
        exact fun _ => rfl
    obtain ⟨p, hp⟩ := hderives.covers rfl hproper
    exact ⟨p, List.append_cancel_right hp, tok, hending⟩

/-- A source compiles without an error, and is parsed without one by a tracker that holds nothing yet,
exactly if scanning it reaches the end and its token kinds are derived from the goal of the grammar. -/
theorem compiles_iff_derives (config : Config) (filename src : Text) :
    ((Compilation.ofSource config filename src).error = none ↔
      ∃ tok, (Stream.ofSource filename src).ending = .eof tok ∧
        Derives (.nonterminal .systemGoal)
          ((Stream.ofSource filename src).tokens.map Token.kind ++ [.eofSym])) ∧
    ∀ (name : Text) (tracing : Bool),
      (Parsed.ofSource filename src { filename := name } tracing).error? = none ↔
        ∃ tok, (Stream.ofSource filename src).ending = .eof tok ∧
          Derives (.nonterminal .systemGoal)
            ((Stream.ofSource filename src).tokens.map Token.kind ++ [.eofSym]) := by
  rw [← Stream.exists_spells_iff]
  refine ⟨Compilation.error_eq_none_iff config filename src, fun name tracing => ?_⟩
  exact Parsed.error?_ofSource_iff filename src tracing (Tracker.hasError_fresh name)

end MicroLang
