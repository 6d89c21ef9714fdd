import Mathlib.Data.List.Forall2
import MicroLang.Grammar
import MicroLang.Tree

/-!
# Partial parse trees

A parse tree of the grammar has the start symbol at its root, and the children of a node show one
alternative of its nonterminal.  In a partial parse tree a node may also have no children yet.  A tree
shows a nonterminal and a terminal with a fixed text by a label, and any other terminal by the token
that was read for it.

While a tree is built there are nodes that have some of their children and not yet all of them.  Such a
node is a site: it is known which symbols its children show so far, and that no other part of the work
gives it children.  A tree is growing at some sites if it is a partial parse tree everywhere else, and a
site at which the symbols are a whole alternative, or none, can be left as it is.
-/

namespace MicroLang

/-! ### Symbols and what shows them -/

/-- Whether a terminal is shown by the token that was read for it; the others have a fixed text. -/
def Kind.isShownByToken : Kind → Bool
  | .id | .intLiteral | .plusOp | .minusOp => true
  | _ => false

/-- What may stand in a node for a grammar symbol.  In a faulty text any token may have been taken for an
identifier. -/
inductive GrammarSymbol.ShownBy (faulty : Prop) : GrammarSymbol → Content → Prop
  | nonterminal (n : Nonterminal) : ShownBy faulty (.nonterminal n) (.label n.label)
  | mark {k : Kind} : k.isShownByToken = false → ShownBy faulty (.terminal k) (.label k.display)
  | token {k : Kind} {tok : Token} : k.isShownByToken = true → tok.kind = k →
      ShownBy faulty (.terminal k) (.token tok)
  | mistaken (tok : Token) : faulty → ShownBy faulty (.terminal .id) (.token tok)

theorem GrammarSymbol.ShownBy.mono {faulty faulty' : Prop} {symbol : GrammarSymbol} {content : Content}
    (h : symbol.ShownBy faulty content) (hfaulty : faulty → faulty') : symbol.ShownBy faulty' content := by
  cases h with
  | nonterminal n => exact .nonterminal n
  | mark hk => exact .mark hk
  | token hk htok => exact .token hk htok
  | mistaken tok hf => exact .mistaken tok (hfaulty hf)

def Nonterminal.all : List Nonterminal :=
  [.systemGoal, .program, .statementList, .statement, .ident, .expression, .idList, .exprList, .primary,
    .addOp]

/-- A nonterminal is found by its label. -/
theorem Nonterminal.find?_label (n : Nonterminal) : all.find? (fun N => N.label = n.label) = some n := by
  cases n <;> decide

theorem Nonterminal.label_inj {n n' : Nonterminal} (h : n.label = n'.label) : n = n' := by
  have hn := n.find?_label
  rw [h, n'.find?_label] at hn
  exact (Option.some.inj hn).symm

/-- No text of a terminal begins as the labels of nonterminals do. -/
theorem Kind.display_ne_label (k : Kind) (n : Nonterminal) : k.display ≠ n.label := by
  have hn : n.label.head? = some 60 := by cases n <;> rfl
  have hk : k.display.head? ≠ some 60 := by
    cases k with
    | unnamed code => exact fun h => nomatch h
    | _ => decide
  intro h
  rw [h] at hk
  exact hk hn

theorem GrammarSymbol.ShownBy.ne_label {faulty : Prop} {k : Kind} {content : Content}
    (h : (GrammarSymbol.terminal k).ShownBy faulty content) (n : Nonterminal) :
    content ≠ .label n.label := by
  cases h with
  | mark hk => exact fun heq => k.display_ne_label n (Content.label.inj heq)
  | token => exact nofun
  | mistaken => exact nofun

/-- No alternative is empty. -/
theorem Nonterminal.ne_nil_of_mem_alternatives {n : Nonterminal} {alternative : List GrammarSymbol}
    (h : alternative ∈ n.alternatives) : alternative ≠ [] := by
  rintro rfl
  revert h
  cases n <;> decide

/-! ### Partial parse trees -/

namespace Tree

/-- The node at an index shows a symbol. -/
def Shows (t : Tree) (faulty : Prop) (symbol : GrammarSymbol) (i : Nat) : Prop :=
  ∃ n, t.nodes[i]? = some n ∧ symbol.ShownBy faulty n.content

/-- A node of a partial parse tree: if it is labelled with a nonterminal, it has no children or its
children show one of the nonterminal's alternatives, symbol by symbol; otherwise it is a terminal and
has no children. -/
structure Fits (t : Tree) (faulty : Prop) (n : Node) : Prop where
  shows : ∃ symbol : GrammarSymbol, symbol.ShownBy faulty n.content
  expanded : ∀ N : Nonterminal, n.content = .label N.label → n.children = [] ∨
    ∃ alternative ∈ N.alternatives, List.Forall₂ (t.Shows faulty) alternative n.children
  closed : (∀ N : Nonterminal, n.content ≠ .label N.label) → n.children = []

/-- The root is labelled with the start symbol. -/
def Rooted (t : Tree) : Prop :=
  ∃ n, t.nodes[root]? = some n ∧ n.content = .label Nonterminal.systemGoal.label

/-- A partial parse tree of the grammar. -/
structure PartialParse (t : Tree) (faulty : Prop) : Prop where
  rooted : t.Rooted
  fits : ∀ (i : Nat) (n : Node), t.nodes[i]? = some n → t.Fits faulty n

/-- Every node that is labelled with a nonterminal has children. -/
def Expanded (t : Tree) : Prop :=
  ∀ (i : Nat) (n : Node) (N : Nonterminal), t.nodes[i]? = some n → n.content = .label N.label →
    n.children ≠ []

/-! ### Trees with new nodes -/

/-- The nodes of the first tree are in the second and show the same there. -/
def Retains (t t' : Tree) : Prop :=
  ∀ (i : Nat) (n : Node), t.nodes[i]? = some n →
    ∃ n' : Node, t'.nodes[i]? = some n' ∧ n'.content = n.content

variable {t t' t'' : Tree} {faulty faulty' : Prop}

theorem Retains.refl (t : Tree) : t.Retains t := fun _ n h => ⟨n, h, rfl⟩

theorem Retains.trans (h : t.Retains t') (h' : t'.Retains t'') : t.Retains t'' := by
  intro i n hn
  obtain ⟨n', hn', hcontent'⟩ := h i n hn
  obtain ⟨n'', hn'', hcontent''⟩ := h' i n' hn'
  exact ⟨n'', hn'', hcontent''.trans hcontent'⟩

theorem lt_size {i : Nat} {n : Node} (h : t.nodes[i]? = some n) : i < t.size :=
  (Array.getElem?_eq_some_iff.1 h).1

theorem exists_node {i : Nat} (h : i < t.size) : ∃ n, t.nodes[i]? = some n :=
  ⟨_, Array.getElem?_eq_getElem h⟩

theorem Retains.size_le (h : t.Retains t') : t.size ≤ t'.size := by
  refine Nat.not_lt.1 fun hlt => ?_
  obtain ⟨n, hn⟩ := exists_node hlt
  obtain ⟨n', hn', _⟩ := h _ n hn
  exact Nat.lt_irrefl _ (lt_size hn')

theorem Retains.rooted (h : t.Retains t') (hroot : t.Rooted) : t'.Rooted := by
  obtain ⟨n, hn, hlabel⟩ := hroot
  obtain ⟨n', hn', hcontent⟩ := h _ n hn
  exact ⟨n', hn', hcontent.trans hlabel⟩

theorem Shows.mono {symbol : GrammarSymbol} {i : Nat} (h : t.Shows faulty symbol i)
    (hretains : t.Retains t') (hfaulty : faulty → faulty') : t'.Shows faulty' symbol i := by
  obtain ⟨n, hn, hshown⟩ := h
  obtain ⟨n', hn', hcontent⟩ := hretains i n hn
  refine ⟨n', hn', ?_⟩
  rw [hcontent]
  exact hshown.mono hfaulty

theorem Fits.of_terminal {k : Kind} {n : Node}
    (h : (GrammarSymbol.terminal k).ShownBy faulty n.content) (hleaf : n.children = []) :
    t.Fits faulty n where
  shows := ⟨_, h⟩
  expanded := fun N hN => absurd hN (h.ne_label N)
  closed := fun _ => hleaf

theorem Fits.mono {n : Node} (h : t.Fits faulty n) (hretains : t.Retains t')
    (hfaulty : faulty → faulty') : t'.Fits faulty' n where
  shows := by
    obtain ⟨symbol, hshown⟩ := h.shows
    exact ⟨symbol, hshown.mono hfaulty⟩
  expanded := by
    intro N hN
    rcases h.expanded N hN with hnil | ⟨alternative, hmem, hall⟩
    · exact .inl hnil
    · exact .inr ⟨alternative, hmem, hall.imp fun _ _ hshows => hshows.mono hretains hfaulty⟩
  closed := h.closed

theorem PartialParse.mono (h : t.PartialParse faulty) (hfaulty : faulty → faulty') :
    t.PartialParse faulty' :=
  ⟨h.rooted, fun i n hn => (h.fits i n hn).mono (.refl t) hfaulty⟩

section

variable {parent i : Nat} {content : Content} {n : Node}

theorem getElem?_attach_size :
    (t.attach parent content).nodes[t.size]? = some { content, parent := some parent } := by
  simp only [attach, size, Array.getElem?_push, Array.size_modify, if_true]

/-- The parent of a new node has one more child. -/
theorem getElem?_attach_parent (h : t.nodes[parent]? = some n) :
    (t.attach parent content).nodes[parent]? = some { n with children := n.children ++ [t.size] } := by
  have hne : parent ≠ t.nodes.size := Nat.ne_of_lt (lt_size h)
  simp only [attach, Array.getElem?_push, Array.getElem?_modify, Array.size_modify, if_neg hne, h]
  rfl

/-- The other nodes stay as they are. -/
theorem getElem?_attach_of_ne (hi : i < t.size) (hne : i ≠ parent) :
    (t.attach parent content).nodes[i]? = t.nodes[i]? := by
  have hi' : i ≠ t.nodes.size := Nat.ne_of_lt hi
  simp only [attach, Array.getElem?_push, Array.getElem?_modify, Array.size_modify, if_neg hi',
    if_neg hne.symm]

/-- A node of a tree to which a node was attached is that node, its parent or one of the others. -/
theorem attach_cases (h : (t.attach parent content).nodes[i]? = some n) :
    i = t.size ∧ n = { content, parent := some parent } ∨
      i < t.size ∧ (i = parent ∨ t.nodes[i]? = some n) := by
  have hlt : i < t.size + 1 := by
    rw [← size_attach t parent content]
    exact lt_size h
  rcases Nat.lt_succ_iff_lt_or_eq.1 hlt with hlt | rfl
  · refine .inr ⟨hlt, ?_⟩
    by_cases hi : i = parent
    · exact .inl hi
    · rw [getElem?_attach_of_ne hlt hi] at h
      exact .inr h
  · rw [getElem?_attach_size] at h
    exact .inl ⟨rfl, (Option.some.inj h).symm⟩

theorem retains_attach (t : Tree) (parent : Nat) (content : Content) :
    t.Retains (t.attach parent content) := by
  intro i n h
  by_cases hi : i = parent
  · rw [hi] at h ⊢
    exact ⟨_, getElem?_attach_parent h, rfl⟩
  · rw [getElem?_attach_of_ne (lt_size h) hi]
    exact ⟨n, h, rfl⟩

end

end Tree

/-! ### Sites -/

/-- A node at which work goes on: its nonterminal, and the symbols that its children show so far. -/
structure Site where
  node : Nat
  nonterminal : Nonterminal
  shown : List GrammarSymbol

namespace Site

/-- The symbols are a whole alternative. -/
def isComplete (site : Site) : Bool := site.nonterminal.alternatives.contains site.shown

/-- The site can be left as it is. -/
def isSettled (site : Site) : Bool := site.shown.isEmpty || site.isComplete

/-- The site with one more child. -/
def extend (site : Site) (symbol : GrammarSymbol) : Site :=
  { site with shown := site.shown ++ [symbol] }

/-- The tree has the site as described. -/
def Held (site : Site) (t : Tree) (faulty : Prop) : Prop :=
  ∃ n, t.nodes[site.node]? = some n ∧ n.content = .label site.nonterminal.label ∧
    List.Forall₂ (t.Shows faulty) site.shown n.children

variable {site : Site} {t t' : Tree} {faulty faulty' : Prop} {n : Node}

theorem Held.lt_size (h : site.Held t faulty) : site.node < t.size := by
  obtain ⟨n, hn, _⟩ := h
  exact Tree.lt_size hn

/-- A site stays as it is where nothing is attached to it. -/
theorem Held.mono (h : site.Held t faulty) (hretains : t.Retains t') (hfaulty : faulty → faulty')
    (hkept : ∀ n, t.nodes[site.node]? = some n → t'.nodes[site.node]? = some n) :
    site.Held t' faulty' := by
  obtain ⟨n, hn, hlabel, hall⟩ := h
  exact ⟨n, hkept n hn, hlabel, hall.imp fun _ _ hshows => hshows.mono hretains hfaulty⟩

theorem Held.fits (h : site.Held t faulty) (hsettled : site.isSettled = true)
    (hn : t.nodes[site.node]? = some n) : t.Fits faulty n := by
  obtain ⟨n', hn', hlabel, hall⟩ := h
  cases Option.some.inj (hn.symm.trans hn')
  refine ⟨⟨.nonterminal site.nonterminal, ?_⟩, ?_, fun hno => absurd hlabel (hno _)⟩
  · rw [hlabel]
    exact .nonterminal _
  · intro N hN
    cases Nonterminal.label_inj (Content.label.inj (hlabel.symm.trans hN))
    rw [isSettled, Bool.or_eq_true, List.isEmpty_iff, isComplete, List.contains_iff_mem] at hsettled
    rcases hsettled with hnil | hmem
    · rw [hnil] at hall
      exact .inl (List.forall₂_nil_left_iff.1 hall)
    · exact .inr ⟨site.shown, hmem, hall⟩

/-- A complete site has children. -/
theorem Held.children_ne_nil (h : site.Held t faulty) (hcomplete : site.isComplete = true)
    (hn : t.nodes[site.node]? = some n) : n.children ≠ [] := by
  obtain ⟨n', hn', _, hall⟩ := h
  cases Option.some.inj (hn.symm.trans hn')
  intro hnil
  rw [hnil] at hall
  exact Nonterminal.ne_nil_of_mem_alternatives (List.contains_iff_mem.1 hcomplete)
    (List.forall₂_nil_right_iff.1 hall)

section

variable {symbol : GrammarSymbol} {content : Content}

/-- A site gets a child that shows a symbol. -/
theorem Held.extend (h : site.Held t faulty) (hshown : symbol.ShownBy faulty content) :
    (site.extend symbol).Held (t.attach site.node content) faulty := by
  obtain ⟨n, hn, hlabel, hall⟩ := h
  have hretains := t.retains_attach site.node content
  exact ⟨_, Tree.getElem?_attach_parent hn, hlabel,
    List.rel_append (hall.imp fun _ _ hshows => hshows.mono hretains id)
      (.cons ⟨_, Tree.getElem?_attach_size, hshown⟩ .nil)⟩

theorem Held.attach {parent : Nat} (h : site.Held t faulty) (hne : site.node ≠ parent) :
    site.Held (t.attach parent content) faulty := by
  refine h.mono (t.retains_attach parent content) id fun n hn => ?_
  rw [Tree.getElem?_attach_of_ne h.lt_size hne]
  exact hn

end

end Site

/-- The site that a new node opens, if it is a nonterminal's. -/
def GrammarSymbol.opens : GrammarSymbol → Nat → List Site
  | .nonterminal n, child => [⟨child, n, []⟩]
  | .terminal _, _ => []

theorem GrammarSymbol.node_of_mem_opens {symbol : GrammarSymbol} {child : Nat} {site : Site}
    (h : site ∈ symbol.opens child) : site.node = child := by
  cases symbol with
  | nonterminal n => rw [List.mem_singleton.1 h]
  | terminal k => exact absurd h List.not_mem_nil

theorem GrammarSymbol.ShownBy.held_opens {t : Tree} {faulty : Prop} {symbol : GrammarSymbol}
    {content : Content} (h : symbol.ShownBy faulty content) (parent : Nat) {site : Site}
    (hsite : site ∈ symbol.opens t.size) : site.Held (t.attach parent content) faulty := by
  cases h with
  | nonterminal n =>
    rw [List.mem_singleton.1 hsite]
    exact ⟨_, Tree.getElem?_attach_size, rfl, .nil⟩
  | mark => exact absurd hsite List.not_mem_nil
  | token => exact absurd hsite List.not_mem_nil
  | mistaken => exact absurd hsite List.not_mem_nil

namespace Tree

/-- A partial parse tree but for the sites. -/
structure Growing (t : Tree) (faulty : Prop) (sites : List Site) : Prop where
  rooted : t.Rooted
  apart : (sites.map Site.node).Nodup
  held : ∀ site ∈ sites, site.Held t faulty
  fits : ∀ (i : Nat) (n : Node), t.nodes[i]? = some n → i ∉ sites.map Site.node → t.Fits faulty n

variable {t t' t'' : Tree} {faulty faulty' : Prop} {sites sites' sites'' : List Site}

theorem Growing.mono (h : t.Growing faulty sites) (hfaulty : faulty → faulty') :
    t.Growing faulty' sites where
  rooted := h.rooted
  apart := h.apart
  held := fun site hsite => (h.held site hsite).mono (.refl t) hfaulty fun _ hn => hn
  fits := fun i n hn hi => (h.fits i n hn hi).mono (.refl t) hfaulty

/-- Sites that are settled can be left. -/
theorem Growing.leave (h : t.Growing faulty sites) (hsub : sites'.Sublist sites)
    (hsettled : ∀ site ∈ sites, site ∈ sites' ∨ site.isSettled = true) : t.Growing faulty sites' where
  rooted := h.rooted
  apart := h.apart.sublist (hsub.map _)
  held := fun site hsite => h.held site (hsub.subset hsite)
  fits := by
    intro i n hn hi
    by_cases hmem : i ∈ sites.map Site.node
    · obtain ⟨site, hsite, rfl⟩ := List.mem_map.1 hmem
      rcases hsettled site hsite with hsite' | hsettled
      · exact absurd (List.mem_map_of_mem hsite') hi
      · exact (h.held site hsite).fits hsettled hn
    · exact h.fits i n hn hmem

/-- A new child at a site that shows a symbol there. -/
theorem Growing.attach {site : Site} {symbol : GrammarSymbol} {content : Content}
    (h : t.Growing faulty (site :: sites)) (hshown : symbol.ShownBy faulty content) :
    (t.attach site.node content).Growing faulty
      (site.extend symbol :: (sites ++ symbol.opens t.size)) := by
  have hretains := t.retains_attach site.node content
  have hlt : ∀ node ∈ (site :: sites).map Site.node, node < t.size := by
    intro node hnode
    obtain ⟨site', hsite', rfl⟩ := List.mem_map.1 hnode
    exact (h.held site' hsite').lt_size
  have hnodes : (site.extend symbol :: (sites ++ symbol.opens t.size)).map Site.node =
      (site :: sites).map Site.node ++ (symbol.opens t.size).map Site.node := by
    rw [← List.map_append]
    rfl
  refine ⟨hretains.rooted h.rooted, ?_, ?_, ?_⟩
  · rw [hnodes, List.nodup_append]
    refine ⟨h.apart, ?_, ?_⟩
    · cases symbol with
      | terminal k => exact List.nodup_nil
      | nonterminal n => exact List.nodup_cons.2 ⟨List.not_mem_nil, List.nodup_nil⟩
    · intro node hnode node' hnode'
      obtain ⟨site', hsite', rfl⟩ := List.mem_map.1 hnode'
      rw [GrammarSymbol.node_of_mem_opens hsite']
      exact Nat.ne_of_lt (hlt node hnode)
  · intro site' hsite'
    rcases List.mem_cons.1 hsite' with rfl | hsite'
    · exact (h.held site List.mem_cons_self).extend hshown
    rcases List.mem_append.1 hsite' with hsite' | hsite'
    · refine (h.held site' (List.mem_cons_of_mem _ hsite')).attach fun heq => ?_
      exact (List.nodup_cons.1 h.apart).1 (heq ▸ List.mem_map_of_mem hsite')
    · exact hshown.held_opens _ hsite'
  · intro i n hn hi
    rw [hnodes, List.mem_append, not_or] at hi
    rcases attach_cases hn with ⟨rfl, rfl⟩ | ⟨_, rfl | hn⟩
    · cases symbol with
      | nonterminal n => exact absurd (List.mem_singleton.2 rfl) hi.2
      | terminal k => exact .of_terminal hshown rfl
    · exact absurd List.mem_cons_self hi.1
    · exact (h.fits i n hn hi.1).mono hretains id

/-! ### Progress at the sites -/

/-- How a tree changes while work goes on at some sites until others are left: children are added only
there and at new nodes, and if the work is clean, whatever is left behind of them has children. -/
structure Advances (t : Tree) (sites sites' : List Site) (clean : Prop) (t' : Tree) : Prop where
  retains : t.Retains t'
  kept : ∀ (i : Nat) (n : Node), t.nodes[i]? = some n → i ∉ sites.map Site.node → t'.nodes[i]? = some n
  origin : ∀ i ∈ sites'.map Site.node, i ∈ sites.map Site.node ∨ t.size ≤ i
  filled : clean → ∀ (i : Nat) (n : Node) (N : Nonterminal), t'.nodes[i]? = some n →
    n.content = .label N.label → i ∈ sites.map Site.node ∨ t.size ≤ i →
    i ∈ sites'.map Site.node ∨ n.children ≠ []

variable {clean clean' : Prop}

theorem Advances.refl (t : Tree) (sites : List Site) (clean : Prop) : t.Advances sites sites clean t where
  retains := .refl t
  kept := fun _ _ hn _ => hn
  origin := fun _ hi => .inl hi
  filled := by
    rintro _ i n N hn _ (hi | hi)
    · exact .inl hi
    · exact absurd (lt_size hn) (Nat.not_lt.2 hi)

theorem Advances.trans (h : t.Advances sites sites' clean t') (h' : t'.Advances sites' sites'' clean' t'')
    (hclean : clean' → clean) : t.Advances sites sites'' clean' t'' where
  retains := h.retains.trans h'.retains
  kept := by
    intro i n hn hi
    refine h'.kept i n (h.kept i n hn hi) fun hi' => ?_
    rcases h.origin i hi' with hi' | hi'
    · exact hi hi'
    · exact Nat.not_lt.2 hi' (lt_size hn)
  origin := by
    intro i hi
    rcases h'.origin i hi with hi | hi
    · exact h.origin i hi
    · exact .inr (Nat.le_trans h.retains.size_le hi)
  filled := by
    intro hc i n N hn hN hi
    by_cases hlater : i ∈ sites'.map Site.node ∨ t'.size ≤ i
    · exact h'.filled hc i n N hn hN hlater
    · -- What the first part left behind is not touched by the second.
      rw [not_or, Nat.not_le] at hlater
      obtain ⟨n', hn'⟩ := exists_node hlater.2
      cases Option.some.inj (hn.symm.trans (h'.kept i n' hn' hlater.1))
      rcases h.filled (hclean hc) i n N hn' hN hi with hi' | hne
      · exact absurd hi' hlater.1
      · exact .inr hne

/-- Attaching a child that shows a symbol. -/
theorem advances_attach {site : Site} {symbol : GrammarSymbol} {content : Content}
    (hshown : symbol.ShownBy faulty content) :
    t.Advances (site :: sites) (site.extend symbol :: (sites ++ symbol.opens t.size)) clean
      (t.attach site.node content) where
  retains := t.retains_attach site.node content
  kept := by
    intro i n hn hi
    rw [getElem?_attach_of_ne (lt_size hn) fun heq => hi (List.mem_cons.2 (.inl heq))]
    exact hn
  origin := by
    intro i hi
    rw [List.map_cons, List.map_append, List.mem_cons, List.mem_append] at hi
    rcases hi with rfl | hi | hi
    · exact .inl List.mem_cons_self
    · exact .inl (List.mem_cons_of_mem _ hi)
    · obtain ⟨site', hsite', rfl⟩ := List.mem_map.1 hi
      exact .inr (Nat.le_of_eq (GrammarSymbol.node_of_mem_opens hsite').symm)
  filled := by
    intro _ i n N hn hN hi
    rw [List.map_cons, List.map_append, List.mem_cons, List.mem_append]
    rcases hi with hi | hi
    · rcases List.mem_cons.1 hi with rfl | hi
      · exact .inl (.inl rfl)
      · exact .inl (.inr (.inl hi))
    · rcases attach_cases hn with ⟨rfl, rfl⟩ | ⟨hlt, _⟩
      · cases symbol with
        | nonterminal n => exact .inl (.inr (.inr (List.mem_singleton.2 rfl)))
        | terminal k => exact absurd hN (hshown.ne_label N)
      · exact absurd hlt (Nat.not_lt.2 hi)

/-- Leaving a complete site. -/
theorem Growing.advances_leave {site : Site} (h : t.Growing faulty (site :: sites))
    (hcomplete : site.isComplete = true) : t.Advances (site :: sites) sites clean t where
  retains := .refl t
  kept := fun _ _ hn _ => hn
  origin := fun _ hi => .inl (List.mem_cons_of_mem _ hi)
  filled := by
    rintro _ i n N hn _ (hi | hi)
    · rcases List.mem_cons.1 hi with rfl | hi
      · exact .inr ((h.held site List.mem_cons_self).children_ne_nil hcomplete hn)
      · exact .inl hi
    · exact absurd (lt_size hn) (Nat.not_lt.2 hi)

section

variable {outer site : Site}

/-- Work at one site leaves the other sites alone. -/
theorem Advances.frame (h : t.Advances [site] [] clean t') :
    t.Advances (outer :: site :: sites) (outer :: sites) clean t' where
  retains := h.retains
  kept := by
    intro i n hn hi
    refine h.kept i n hn fun hi' => hi ?_
    rw [List.mem_singleton.1 hi']
    exact List.mem_cons_of_mem _ List.mem_cons_self
  origin := by
    intro i hi
    rcases List.mem_cons.1 hi with rfl | hi
    · exact .inl List.mem_cons_self
    · exact .inl (List.mem_cons_of_mem _ (List.mem_cons_of_mem _ hi))
  filled := by
    intro hc i n N hn hN hi
    by_cases hother : i ∈ (outer :: sites).map Site.node
    · exact .inl hother
    · rw [List.map_cons, List.mem_cons, not_or] at hother
      have hmine : i ∈ [site].map Site.node ∨ t.size ≤ i := by
        rcases hi with hi | hi
        · rw [List.map_cons, List.map_cons, List.mem_cons, List.mem_cons] at hi
          rcases hi with hi | hi | hi
          · exact absurd hi hother.1
          · exact .inl (List.mem_singleton.2 hi)
          · exact absurd hi hother.2
        · exact .inr hi
      exact .inr ((h.filled hc i n N hn hN hmine).resolve_left List.not_mem_nil)

/-- When the work at one site is done, the others are found as they were. -/
theorem Growing.resume (h : t.Growing faulty (outer :: site :: sites)) (h' : t'.Growing faulty' [])
    (hadvances : t.Advances [site] [] clean t') (hfaulty : faulty → faulty') :
    t'.Growing faulty' (outer :: sites) := by
  have hapart := h.apart
  rw [List.map_cons, List.map_cons, List.nodup_cons, List.nodup_cons, List.mem_cons, not_or] at hapart
  refine ⟨h'.rooted, List.nodup_cons.2 ⟨hapart.1.2, hapart.2.2⟩, ?_,
    fun i n hn _ => h'.fits i n hn List.not_mem_nil⟩
  intro site' hsite'
  have hboth : site' ∈ outer :: site :: sites ∧ site'.node ≠ site.node := by
    rcases List.mem_cons.1 hsite' with rfl | hsite'
    · exact ⟨List.mem_cons_self, hapart.1.1⟩
    · refine ⟨List.mem_cons_of_mem _ (List.mem_cons_of_mem _ hsite'), fun heq => hapart.2.1 ?_⟩
      rw [← heq]
      exact List.mem_map_of_mem hsite'
  refine (h.held site' hboth.1).mono hadvances.retains hfaulty fun n hn => ?_
  exact hadvances.kept _ n hn fun hi => hboth.2 (List.mem_singleton.1 hi)

end

end Tree

end MicroLang
