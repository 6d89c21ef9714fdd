import MicroLang.Proofs.Declarations
import MicroLang.Proofs.Frontier
import MicroLang.Proofs.Growth
import MicroLang.Proofs.Tokenization
import MicroLang.Proofs.Viability

/-!
# Where symbols come from

A symbol is a temporary or the text of a token that was accepted as an identifier.  The target of an
assignment and a name in an expression are looked at before they are accepted, so they are identifiers.  A
name in the list of a `read` statement is not: where the list holds something else, that token is reported,
or passed over while the parser is recovering, and its text is entered nevertheless.

The syntax tree remembers such tokens, each below a node for an identifier.  So the symbols are temporaries
and identifiers of the source exactly if no such node holds a token of another kind, and in particular if
nothing was reported.
-/

namespace MicroLang

open Parse OperandShape

/-! ### Tokens that pass for identifiers -/

namespace Tree

/-- The token is a child of a node for an identifier. -/
def Identifies (t : Tree) (tok : Token) : Prop :=
  ∃ i, t.Labelled i .ident ∧ ∃ c ∈ t.children i, ∃ node, t.nodes[c]? = some node ∧ node.content = .token tok

variable {t : Tree} {parent i : Nat} {content : Content} {tok : Token}

theorem mem_children_attach {c : Nat} (h : c ∈ t.children i) :
    c ∈ (t.attach parent content).children i := by
  have hi : i < t.size := by
    refine Nat.lt_of_not_le fun hle => ?_
    rw [children_of_size_le hle] at h
    cases h
  by_cases hparent : i = parent
  · subst hparent
    rw [children_attach_parent hi]
    exact List.mem_append_left _ h
  · rwa [children_attach_of_ne hi hparent]

theorem Identifies.attach (h : t.Identifies tok) : (t.attach parent content).Identifies tok := by
  obtain ⟨i, hlabel, c, hc, node, hnode, hcontent⟩ := h
  obtain ⟨node', hnode', hcontent'⟩ := retains_attach t parent content c node hnode
  exact ⟨i, hlabel.mono (retains_attach _ _ _), c, mem_children_attach hc, node', hnode',
    hcontent'.trans hcontent⟩

theorem identifies_attach_self (h : t.Labelled parent .ident) :
    (t.attach parent (.token tok)).Identifies tok := by
  refine ⟨parent, h.mono (retains_attach _ _ _), t.size, ?_, _, getElem?_attach_size, rfl⟩
  rw [children_attach_parent h.lt_size]
  exact List.mem_append_right _ List.mem_cons_self

/-- What an old node shows is what it showed. -/
theorem content_of_attach {node : Node} (hi : i < t.size)
    (h : (t.attach parent content).nodes[i]? = some node) :
    ∃ node', t.nodes[i]? = some node' ∧ node'.content = node.content := by
  obtain ⟨node', hnode'⟩ := exists_node hi
  obtain ⟨node'', hnode'', hcontent⟩ := retains_attach t parent content i node' hnode'
  cases h.symm.trans hnode''
  exact ⟨node', hnode', hcontent.symm⟩

theorem Labelled.of_attach {n : Nonterminal} (hi : i < t.size)
    (h : (t.attach parent content).Labelled i n) : t.Labelled i n := by
  obtain ⟨node, hnode, hlabel⟩ := h
  obtain ⟨node', hnode', hcontent⟩ := content_of_attach hi hnode
  exact ⟨node', hnode', hcontent.trans hlabel⟩

theorem mem_children_of_attach {c : Nat} (hparent : parent < t.size)
    (h : c ∈ (t.attach parent content).children i) : c ∈ t.children i ∨ i = parent ∧ c = t.size := by
  by_cases hi : i < t.size
  · by_cases hip : i = parent
    · subst hip
      rw [children_attach_parent hi, List.mem_append, List.mem_singleton] at h
      exact h.imp_right fun hc => ⟨rfl, hc⟩
    · rw [children_attach_of_ne hi hip] at h
      exact .inl h
  · by_cases hnew : i = t.size
    · subst hnew
      rw [children_attach_size] at h
      cases h
    · rw [children_of_size_le (by rw [size_attach]; omega)] at h
      cases h

/-- A new node makes a token pass for an identifier only if it holds that token itself. -/
theorem Ordered.identifies_attach (h : t.Ordered) (hparent : parent < t.size)
    (hidentifies : (t.attach parent content).Identifies tok) :
    t.Identifies tok ∨ content = .token tok ∧ t.Labelled parent .ident := by
  obtain ⟨i, hlabel, c, hc, node, hnode, hcontent⟩ := hidentifies
  rcases mem_children_of_attach hparent hc with hc | ⟨rfl, rfl⟩
  · obtain ⟨hic, hsize⟩ := h i c hc
    obtain ⟨node', hnode', hsame⟩ := content_of_attach hsize hnode
    exact .inl ⟨i, hlabel.of_attach (Nat.lt_trans hic hsize), c, hc, node', hnode', hsame.trans hcontent⟩
  · cases getElem?_attach_size.symm.trans hnode
    exact .inr ⟨hcontent, hlabel.of_attach hparent⟩

/-- In a partial parse tree of a text without faults only identifiers pass for identifiers. -/
theorem PartialParse.kind_of_identifies (h : t.PartialParse False) (hidentifies : t.Identifies tok) :
    tok.kind = .id := by
  obtain ⟨i, ⟨node, hnode, hlabel⟩, c, hc, leaf, hleaf, hcontent⟩ := hidentifies
  rw [children_of_getElem? hnode] at hc
  rcases (h.fits i node hnode).expanded .ident hlabel with hnil | ⟨alternative, halternative, hshows⟩
  · rw [hnil] at hc
    cases hc
  · cases List.mem_singleton.1 halternative
    obtain ⟨child, rest, ⟨node', hnode', hshown⟩, hrest, hchildren⟩ := List.forall₂_cons_left_iff.1 hshows
    cases List.forall₂_nil_left_iff.1 hrest
    rw [hchildren, List.mem_singleton] at hc
    subst hc
    cases hleaf.symm.trans hnode'
    rw [hcontent] at hshown
    cases hshown with
    | token _ hkind => exact hkind
    | mistaken _ hfaulty => exact hfaulty.elim

end Tree

/-! ### Steps of a parse -/

/-- The name of a temporary, or an identifier among the tokens. -/
def Justified (tokens : List Token) (x : Text) : Prop :=
  isTemporary x = true ∨ ∃ tok ∈ tokens, tok.kind = .id ∧ tok.literal = x

/-- The symbols are justified or come from tokens that passed for identifiers, and all such tokens were
delivered and have become symbols. -/
structure ParseState.Sourced (tokens : List Token) (s : ParseState) : Prop where
  ordered : s.tree.Ordered
  ahead : s.stream.delivered ⊆ tokens
  known : ∀ x ∈ s.generator.symbols.names, Justified tokens x ∨
    ∃ tok, s.tree.Identifies tok ∧ tok.kind ≠ .id ∧ tok.literal = x
  entered : ∀ tok, s.tree.Identifies tok → tok ∈ tokens ∧
    (tok.kind = .id ∨ tok.literal ∈ s.generator.symbols.names)

namespace ParseState.Sourced

variable {tokens : List Token} {s s' : ParseState}

/-- A step that adds no node. -/
theorem of_tree_eq (h : s.Sourced tokens) (htree : s'.tree = s.tree)
    (hstream : s'.stream.delivered ⊆ s.stream.delivered)
    (hkept : s.generator.symbols.names ⊆ s'.generator.symbols.names)
    (hnew : ∀ x ∈ s'.generator.symbols.names, x ∈ s.generator.symbols.names ∨ Justified tokens x) :
    s'.Sourced tokens where
  ordered := htree ▸ h.ordered
  ahead := fun tok htok => h.ahead (hstream htok)
  known := by
    rw [htree]
    exact fun x hx => (hnew x hx).elim (h.known x) .inl
  entered := by
    rw [htree]
    intro tok htok
    obtain ⟨hmem, hentered⟩ := h.entered tok htok
    exact ⟨hmem, hentered.imp_right fun hname => hkept hname⟩

/-- A step that adds no node and no name. -/
theorem of_eq (h : s.Sourced tokens) (htree : s'.tree = s.tree)
    (hstream : s'.stream.delivered ⊆ s.stream.delivered) (hgenerator : s'.generator = s.generator) :
    s'.Sourced tokens := by
  refine h.of_tree_eq htree hstream ?_ ?_
  · rw [hgenerator]
    exact List.Subset.refl _
  · rw [hgenerator]
    exact fun x hx => .inl hx

/-- A step that adds a node.  A token that passes for an identifier there is one, or it becomes a symbol. -/
theorem grow (h : s.Sourced tokens) {parent : Nat} {content : Content} (hparent : parent < s.tree.size)
    (htree : s'.tree = s.tree.attach parent content)
    (hstream : s'.stream.delivered ⊆ s.stream.delivered)
    (hkept : s.generator.symbols.names ⊆ s'.generator.symbols.names)
    (hnew : ∀ x ∈ s'.generator.symbols.names, x ∈ s.generator.symbols.names ∨ Justified tokens x ∨
      ∃ tok, s'.tree.Identifies tok ∧ tok.kind ≠ .id ∧ tok.literal = x)
    (hpassed : ∀ tok, content = .token tok → s.tree.Labelled parent .ident →
      tok ∈ tokens ∧ (tok.kind = .id ∨ tok.literal ∈ s'.generator.symbols.names)) : s'.Sourced tokens where
  ordered := htree ▸ h.ordered.attach hparent
  ahead := fun tok htok => h.ahead (hstream htok)
  known := by
    intro x hx
    rcases hnew x hx with hx | hx
    · refine (h.known x hx).imp_right ?_
      rintro ⟨tok, hidentifies, htok⟩
      exact ⟨tok, htree ▸ hidentifies.attach, htok⟩
    · exact hx
  entered := by
    intro tok htok
    rw [htree] at htok
    rcases h.ordered.identifies_attach hparent htok with hold | ⟨hcontent, hlabel⟩
    · obtain ⟨hmem, hentered⟩ := h.entered tok hold
      exact ⟨hmem, hentered.imp_right fun hname => hkept hname⟩
    · exact hpassed tok hcontent hlabel

/-- A new node that lets nothing pass for an identifier. -/
theorem attach (h : s.Sourced tokens) {parent : Nat} {content : Content} (hparent : parent < s.tree.size)
    (hcontent : ∀ tok, content = .token tok → ¬s.tree.Labelled parent .ident) :
    ParseState.Sourced tokens { s with tree := s.tree.attach parent content } :=
  h.grow hparent rfl (List.Subset.refl _) (List.Subset.refl _) (fun _ hx => .inl hx)
    fun tok htok hlabel => absurd hlabel (hcontent tok htok)

/-- The token ahead is attached as an identifier.  It becomes a symbol, or it is an identifier. -/
theorem identify (h : s.Sourced tokens) {node : Nat} {tok : Token} (hnode : s.tree.Labelled node .ident)
    (htok : tok ∈ tokens) (htree : s'.tree = s.tree.attach node (.token tok))
    (hstream : s'.stream.delivered ⊆ s.stream.delivered)
    (hkept : s.generator.symbols.names ⊆ s'.generator.symbols.names)
    (hnew : ∀ x ∈ s'.generator.symbols.names, x ∈ s.generator.symbols.names ∨ x = tok.literal)
    (hentered : tok.kind = .id ∨ tok.literal ∈ s'.generator.symbols.names) : s'.Sourced tokens := by
  refine h.grow hnode.lt_size htree hstream hkept (fun x hx => (hnew x hx).imp_right ?_) ?_
  · rintro rfl
    by_cases hkind : tok.kind = .id
    · exact .inl (.inr ⟨tok, htok, hkind, rfl⟩)
    · exact .inr ⟨tok, htree ▸ Tree.identifies_attach_self hnode, hkind, rfl⟩
  · intro tok' hcontent _
    cases hcontent
    exact ⟨htok, hentered⟩

theorem mem_of_peek (h : s.Sourced tokens) {tok : Token} (hpeek : s.stream.peek = .ok tok) :
    tok ∈ tokens := by
  obtain ⟨later, hdelivered⟩ := Stream.delivered_of_peek hpeek
  exact h.ahead (hdelivered ▸ List.mem_cons_self)

end ParseState.Sourced

namespace Parse

theorem run_leaf {s : ParseState} {node : Nat} (h : node < s.tree.size) (tok : Token) :
    (leaf node tok).run s = .ok () { s with tree := s.tree.attach node (.token tok) } :=
  run_bind_of_ok (run_add h _)

/-- Accepting an identifier takes the token ahead and attaches it, whatever its kind. -/
theorem run_acceptIdentifier {s : ParseState} {tok : Token} (hpeek : s.stream.peek = .ok tok) {node : Nat}
    (hnode : node < s.tree.size) :
    ∃ recovering tracker transcript, (acceptIdentifier node).run s =
      .ok tok { s with
        stream := s.stream.rest
        current := tok
        tree := s.tree.attach node (.token tok)
        recovering
        tracker
        transcript } := by
  obtain ⟨transcript, henter⟩ := run_enter Nonterminal.ident.name s
  obtain ⟨recovering, tracker, transcript', haccept, _⟩ :=
    run_accept_cases (s := { s with transcript }) hpeek .id
  obtain ⟨transcript'', hderive⟩ := run_derive .ident
    { s with
      stream := s.stream.rest
      current := tok
      tree := s.tree.attach node (.token tok)
      recovering
      tracker
      transcript := transcript' }
  refine ⟨recovering, tracker, transcript'', (run_bind_of_ok henter).trans ?_⟩
  refine (run_bind_of_ok haccept).trans ((run_bind_of_ok (run_leaf ?_ tok)).trans (run_bind_of_ok hderive))
  exact hnode

theorem run_acceptIdentifier_of_error {s : ParseState} {e : LexicalError}
    (hpeek : s.stream.peek = .error e) (node : Nat) :
    ∃ transcript, (acceptIdentifier node).run s = .error (.lexical e) { s with transcript } := by
  obtain ⟨transcript, henter⟩ := run_enter Nonterminal.ident.name s
  obtain ⟨transcript', haccept⟩ := run_accept_of_error (s := { s with transcript }) hpeek .id
  refine ⟨transcript', ?_⟩
  rw [acceptIdentifier, run_bind_of_ok henter, run_bind_of_error haccept]

end Parse

section

variable (tokens : List Token)

theorem keeps_sourced_accept (k : Kind) : Keeps (ParseState.Sourced tokens) (accept k) := by
  intro s hs
  cases hpeek : s.stream.peek with
  | ok tok =>
    obtain ⟨_, _, _, hrun, _⟩ := run_accept_cases hpeek k
    rw [hrun]
    exact hs.of_eq rfl s.stream.suffix_rest.subset rfl
  | error e =>
    obtain ⟨_, hrun⟩ := run_accept_of_error hpeek k
    rw [hrun]
    exact hs.of_eq rfl (List.Subset.refl _) rfl

theorem keeps_sourced_act {α : Type} {action : Bool → Generator → Step α}
    (h : ∀ muted g, g.symbols.names ⊆ (action muted g).generator.symbols.names ∧
      ∀ x ∈ (action muted g).generator.symbols.names, x ∈ g.symbols.names ∨ Justified tokens x) :
    Keeps (ParseState.Sourced tokens) (act action) := by
  intro s hs
  obtain ⟨transcript, hrun⟩ := run_act action s
  obtain ⟨hkept, hnew⟩ := h s.tracker.hasError s.generator
  rw [hrun]
  exact hs.of_tree_eq rfl (List.Subset.refl _) hkept hnew

theorem sourced_add {s : ParseState} (hs : s.Sourced tokens) {node : Nat} {content : Content}
    (hcontent : ∀ tok, content = .token tok → ¬s.tree.Labelled node .ident) :
    (stateOf ((add node content).run s)).Sourced tokens := by
  rcases run_add_cases node content s with ⟨hnode, hrun⟩ | ⟨e, hrun⟩
  · rw [hrun]
    exact hs.attach hnode hcontent
  · rw [hrun]
    exact hs

/-- Whatever is accepted as an identifier in a list is entered at once. -/
theorem sourced_ident {s : ParseState} (hs : s.Sourced tokens) {node : Nat}
    (hnode : s.tree.Labelled node .ident) : (stateOf ((ident node).run s)).Sourced tokens := by
  cases hpeek : s.stream.peek with
  | ok tok =>
    obtain ⟨_, _, _, hrun⟩ := run_acceptIdentifier hpeek hnode.lt_size
    rw [ident, run_bind_of_ok hrun]
    obtain ⟨transcript, hact⟩ := run_act (fun muted => Generator.identifier muted tok.literal) _
    rw [hact]
    have hnames := fun muted => Generator.mem_names_identifier_iff muted tok.literal s.generator
    exact hs.identify hnode (hs.mem_of_peek hpeek) rfl s.stream.suffix_rest.subset
      (fun x hx => (hnames _ x).2 (.inl hx)) (fun x => (hnames _ x).1) (.inr ((hnames _ _).2 (.inr rfl)))
  | error e =>
    obtain ⟨_, hrun⟩ := run_acceptIdentifier_of_error hpeek node
    rw [ident, run_bind_of_error hrun]
    exact hs.of_eq rfl (List.Subset.refl _) rfl

/-- The target of an assignment is an identifier, so it need not be a symbol yet. -/
theorem sourced_target {s : ParseState} (hs : s.Sourced tokens) {node : Nat}
    (hnode : s.tree.Labelled node .ident) {tok : Token} (hpeek : s.stream.peek = .ok tok)
    (hkind : tok.kind = .id) : (stateOf ((acceptIdentifier node).run s)).Sourced tokens := by
  obtain ⟨_, _, _, hrun⟩ := run_acceptIdentifier hpeek hnode.lt_size
  rw [hrun]
  exact hs.identify hnode (hs.mem_of_peek hpeek) rfl s.stream.suffix_rest.subset (List.Subset.refl _)
    (fun x hx => .inl hx) (.inl hkind)

theorem upkeep_sourced : Upkeep (ParseState.Sourced tokens) where
  enter n := by
    intro s hs
    obtain ⟨_, hrun⟩ := run_enter n.name s
    rw [hrun]
    exact hs.of_eq rfl (List.Subset.refl _) rfl
  derive n := by
    intro s hs
    obtain ⟨_, hrun⟩ := run_derive n s
    rw [hrun]
    exact hs.of_eq rfl (List.Subset.refl _) rfl
  symbol parent symbol := by
    intro s hs
    refine sourced_add tokens hs fun tok hcontent => ?_
    cases hcontent
  leaf := by
    intro o node n hmem hn tok s hs ho
    refine stateOf_bind (sourced_add tokens hs fun tok' _ hident => ?_) fun _ => .pure ()
    obtain ⟨label, hlabel, hcontent⟩ := ho.labels _ hmem
    obtain ⟨label', hlabel', hcontent'⟩ := hident
    cases hlabel.symm.trans hlabel'
    exact hn (Nonterminal.label_inj (Content.label.inj (hcontent.symm.trans hcontent')))
  accept := fun _ => keeps_sourced_accept tokens _
  expected := by
    intro o tok _ kinds s hs _
    obtain ⟨_, _, hrun, _⟩ := run_expected_cases s tok kinds
    rw [hrun]
    exact hs.of_eq rfl (List.Subset.refl _) rfl
  ident := fun hmem s hs ho => sourced_ident tokens hs (ho.labels _ hmem)
  target := fun hmem htok hkind s hs ho =>
    sourced_target tokens hs (ho.labels _ hmem) (ho.ahead _ htok) hkind
  declare := by
    intro s tok hs hpeek hkind
    have hjustified : Justified tokens tok.literal := .inr ⟨tok, hs.mem_of_peek hpeek, hkind, rfl⟩
    refine keeps_sourced_act tokens fun muted g => ?_
    have hnames := Generator.mem_names_identifier_iff muted tok.literal g
    refine ⟨fun x hx => (hnames x).2 (.inl hx), fun x hx => ((hnames x).1 hx).imp_right ?_⟩
    rintro rfl
    exact hjustified
  act hroutine := by
    refine keeps_sourced_act tokens fun muted g => ?_
    obtain ⟨new, htemporary, henters⟩ := hroutine.enters muted g
    refine ⟨henters.subset, fun x hx => (henters.mem_iff.1 hx).imp_right fun hnew => ?_⟩
    exact .inl (htemporary x hnew)

end

/-- The symbols of a whole parse. -/
theorem Parsed.sourced_ofState {tokens : List Token} {s : ParseState} (h : s.Sourced tokens) :
    (ofState s).state.Sourced tokens := by
  rw [state_ofState, systemGoal_eq]
  refine Keeps.bind ((upkeep_sourced tokens).goalBody _) (fun _ => ?_) s h
  refine (keeps_sourced_accept tokens .eofSym).bind fun _ => keeps_sourced_act tokens fun muted g => ?_
  have henters := Generator.enters_emit muted (i := { opcode := .halt }) rfl g
  exact ⟨henters.subset, fun x hx => .inl ((henters.mem_iff.1 hx).resolve_right (Option.not_mem_none x))⟩

/-! ### Spelling -/

/-- The text of a lexeme determines its kind. -/
theorem Lexeme.kind_unique {k k' : Kind} {literal : Text} (h : Lexeme k literal) (h' : Lexeme k' literal) :
    k = k' := by
  cases literal with
  | nil => exact absurd rfl h.ne_nil
  | cons b r =>
    have hends : ∀ kind : Kind, kind.Ends [] := fun kind b hb => absurd hb (Option.not_mem_none b)
    have hscan := (lexeme_append h (hends k)).symm.trans (lexeme_append h' (hends k'))
    exact congrArg Prod.fst (Except.ok.inj hscan)

/-- No token is spelled like a temporary. -/
theorem Lexeme.isTemporary_eq_false {k : Kind} {literal : Text} (h : Lexeme k literal) :
    isTemporary literal = false := by
  rw [← Bool.not_eq_true, isTemporary_iff]
  rintro ⟨n, -, hn⟩
  -- the ampersand is the fifth byte
  have hspelled : literal = 84 :: 101 :: 109 :: 112 :: 38 :: Text.ofNat n := hn
  clear hn
  cases h with
  | word hb ht hlen =>
    cases hspelled
    cases ht
  | number hb ht =>
    cases hspelled
    cases hb
  | mark hm =>
    subst hspelled
    simp [marks] at hm

namespace Stream

variable {filename src : Text}

/-- Identifiers are delivered before the end. -/
theorem justified_of_delivered {x : Text} (h : Justified (ofSource filename src).delivered x) :
    Justified (ofSource filename src).tokens x := by
  refine h.imp_right ?_
  rintro ⟨tok, htok, hkind, hliteral⟩
  refine ⟨tok, (mem_delivered_iff.1 htok).resolve_right fun hending => ?_, hkind, hliteral⟩
  rw [(scanned_ofSource filename src).eof tok hending] at hkind
  cases hkind

/-- The text of any other token that is delivered is not justified. -/
theorem not_justified {tok : Token} (htok : tok ∈ (ofSource filename src).delivered)
    (hkind : tok.kind ≠ .id) : ¬Justified (ofSource filename src).tokens tok.literal := by
  have hlexemes := (scanned_ofSource filename src).lexemes
  rcases mem_delivered_iff.1 htok with htok | hending
  · have hlexeme := hlexemes tok htok
    rintro (htemporary | ⟨tok', htok', hkind', hliteral⟩)
    · rw [hlexeme.isTemporary_eq_false] at htemporary
      cases htemporary
    · rw [← hliteral] at hlexeme
      exact hkind ((hlexeme.kind_unique (hlexemes tok' htok')).trans hkind')
  · -- the end of the source has no text
    rw [(tokenizes_ofSource filename src).eof tok hending]
    rintro (htemporary | ⟨tok', htok', -, hliteral⟩)
    · cases htemporary
    · exact (hlexemes tok' htok').ne_nil hliteral

end Stream

/-- At the start nothing passes for an identifier. -/
theorem ParseState.sourced_initial (filename src : Text) (tracker : Tracker) (tracing : Bool) :
    (initial filename src tracker tracing).Sourced (Stream.ofSource filename src).delivered where
  ordered := Tree.ordered_ofRoot _
  ahead := List.Subset.refl _
  known := List.forall_mem_nil _
  entered := by
    rintro tok ⟨i, -, c, hc, -⟩
    have horder : i < c ∧ c < 1 := Tree.ordered_ofRoot _ i c hc
    omega

namespace Compilation

/-- A symbol is a temporary, an identifier of the source, or the text of another token that the tree holds
as an identifier.  So all symbols are temporaries and identifiers exactly if the tree holds no such token,
and they are if nothing was reported. -/
theorem symbols_justified_iff (config : Config) (filename src : Text) :
    let c := ofSource config filename src
    let tokens := (Stream.ofSource filename src).tokens
    (∀ x ∈ c.output.symbols, Justified tokens x ∨
      ∃ tok, c.output.tree.Identifies tok ∧ tok.kind ≠ .id ∧ tok.literal = x) ∧
    ((∀ x ∈ c.output.symbols, Justified tokens x) ↔ ∀ tok, c.output.tree.Identifies tok → tok.kind = .id) ∧
    (c.output.findings = [] → ∀ x ∈ c.output.symbols, Justified tokens x) := by
  intro c tokens
  have hsourced := Parsed.sourced_ofState
    (ParseState.sourced_initial filename src { filename } config.trace)
  have hknown : ∀ x ∈ c.output.symbols, Justified tokens x ∨
      ∃ tok, c.output.tree.Identifies tok ∧ tok.kind ≠ .id ∧ tok.literal = x :=
    fun x hx => (hsourced.known x hx).imp_left Stream.justified_of_delivered
  have hiff : (∀ x ∈ c.output.symbols, Justified tokens x) ↔
      ∀ tok, c.output.tree.Identifies tok → tok.kind = .id := by
    refine ⟨fun h tok htok => ?_, fun h x hx => (hknown x hx).resolve_right ?_⟩
    · obtain ⟨hdelivered, hentered⟩ := hsourced.entered tok htok
      refine Decidable.byContradiction fun hkind => ?_
      exact Stream.not_justified hdelivered hkind (h _ (hentered.resolve_left hkind))
    · rintro ⟨tok, htok, hkind, -⟩
      exact hkind (h tok htok)
  refine ⟨hknown, hiff, fun hnone => hiff.2 fun tok htok => ?_⟩
  obtain ⟨hpartial, -⟩ := Parsed.partialParse_ofState (Stream.scanned_ofSource filename src)
    (ParseState.growing_initial filename src { filename } config.trace) rfl
  refine (hpartial.mono fun hreported => ?_).kind_of_identifies htok
  exact List.ne_nil_of_length_pos hreported (List.map_eq_nil_iff.1 hnone)

/-- A list with a name, and an expression: all symbols are justified, a temporary among them. -/
theorem symbols_justified_iff_reading :
    let src := text "begin read(a); write(a - 1); end"
    (ofSource {} [] src).output.findings = [] ∧
      (ofSource {} [] src).output.symbols = [text "a", text "Temp&1"] ∧
      ∀ x ∈ (ofSource {} [] src).output.symbols, Justified (Stream.ofSource [] src).tokens x := by
  intro src
  have hnone : (ofSource {} [] src).output.findings = [] := by decide +kernel
  exact ⟨hnone, by decide +kernel, (symbols_justified_iff {} [] src).2.2 hnone⟩

/-- A number in the list of a `read` statement is reported, and it becomes a symbol nevertheless. -/
theorem symbols_hold_number :
    let src := text "begin read(1); end"
    (ofSource {} [] src).output.symbols = [text "1"] ∧
      ¬∀ x ∈ (ofSource {} [] src).output.symbols, Justified (Stream.ofSource [] src).tokens x := by
  intro src
  have hsymbols : (ofSource {} [] src).output.symbols = [text "1"] := by decide +kernel
  refine ⟨hsymbols, fun hall => ?_⟩
  rcases hall (text "1") (by rw [hsymbols]; exact List.mem_cons_self) with htemporary | hidentifier
  · cases htemporary
  · revert hidentifier
    decide +kernel

end Compilation

end MicroLang
