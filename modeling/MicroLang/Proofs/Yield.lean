import MicroLang.Proofs.Frontier
import MicroLang.Proofs.Growth
import MicroLang.Proofs.Viability

/-!
# What the leaves of a growing tree spell

A production works below one node.  At any time the leaves there are first the ones that are done and then
the ones that wait: marks whose tokens are still to be taken and sites that other productions are
going to expand.  The tokens among the leaves that are done are some of the tokens that were taken, in
their order; while nothing has been reported, the leaves that are done spell exactly what was taken.

The end of a text can be taken again and again, and it can become a leaf where an identifier is missing.
It becomes one only once, because a list of identifiers goes on behind a comma only.  So the tokens on
offer are counted as spent when the end has become a leaf, and what is known about this is part of
the description of a stage.
-/

namespace MicroLang

open Parse

/-! ### Contents of nodes -/

namespace Tree

variable {t t' : Tree} {i : Nat} {ids : List Nat}

def content? (t : Tree) (i : Nat) : Option Content := t.nodes[i]?.map Node.content

/-- The token at an index. -/
def token? (t : Tree) (i : Nat) : Option Token := (t.content? i).bind Content.token?

/-- What a derivation shows for the node at an index. -/
def shown (t : Tree) (i : Nat) : Text :=
  match t.content? i with
  | some content => content.display
  | none => []

theorem content?_attach_size (t : Tree) (parent : Nat) (content : Content) :
    (t.attach parent content).content? t.size = some content := by
  rw [content?, getElem?_attach_size]
  rfl

theorem Retains.content?_eq (h : t.Retains t') (hi : i < t.size) : t'.content? i = t.content? i := by
  obtain ⟨n, hn⟩ := exists_node hi
  obtain ⟨n', hn', hcontent⟩ := h i n hn
  rw [content?, content?, hn, hn', Option.map_some, Option.map_some, hcontent]

theorem Retains.filterMap_token? (h : t.Retains t') (hids : ∀ k ∈ ids, k < t.size) :
    ids.filterMap t'.token? = ids.filterMap t.token? := by
  apply List.filterMap_congr
  intro k hk
  rw [token?, token?, h.content?_eq (hids k hk)]

theorem Retains.map_shown (h : t.Retains t') (hids : ∀ k ∈ ids, k < t.size) :
    ids.map t'.shown = ids.map t.shown := by
  apply List.map_congr_left
  intro k hk
  rw [shown, shown, h.content?_eq (hids k hk)]

theorem token?_of_label {label : Text} (h : t.content? i = some (.label label)) : t.token? i = none := by
  rw [token?, h]
  rfl

theorem shown_of_content? {content : Content} (h : t.content? i = some content) :
    t.shown i = content.display := by
  rw [shown, h]

end Tree

/-! ### Tokens on offer -/

/-- The tokens that can still become leaves: those that are still to be delivered, or none once the
end has become one. -/
def ParseState.Offers (s : ParseState) (rest : List Token) : Prop :=
  rest = s.stream.delivered ∨
    rest = [] ∧ s.stream.tokens = [] ∧ s.stream.ending = .eof s.current

/-- What is known about the stream ahead. -/
inductive Known where
  | nothing
  /-- The end has not become a leaf. -/
  | unspent
  /-- This token is ahead. -/
  | facing (tok : Token)

namespace Known

def Holds (known : Known) (stream : Stream) (rest : List Token) : Prop :=
  match known with
  | .nothing => True
  | .unspent => rest = stream.delivered
  | .facing tok => stream.peek = .ok tok

/-- What is still known when a token was taken. -/
def behind : Known → Known
  | .unspent => .unspent
  | _ => .nothing

end Known

/-- Taking a token that is not the end uses it up; the end stays on offer as it was. -/
theorem ParseState.Offers.take {s s' : ParseState} {rest : List Token} {tok : Token} (h : s.Offers rest)
    (hscanned : s.stream.Scanned) (hpeek : s.stream.peek = .ok tok) (hstream : s'.stream = s.stream.rest)
    (hcurrent : s'.current = tok) :
    tok.kind ≠ .eofSym ∧ rest = tok :: s'.stream.delivered ∨
      tok.kind = .eofSym ∧ s'.stream = s.stream ∧ s'.Offers rest := by
  by_cases heof : tok.kind = .eofSym
  · obtain ⟨htokens, hending⟩ := hscanned.ending_of_peek hpeek heof
    have hsame : s'.stream = s.stream := by
      rw [hstream, Stream.rest, htokens, List.tail_nil, ← htokens]
    refine .inr ⟨heof, hsame, ?_⟩
    rcases h with hrest | ⟨hrest, _, _⟩
    · exact .inl (by rw [hsame]; exact hrest)
    · exact .inr ⟨hrest, by rw [hsame]; exact htokens, by rw [hsame, hcurrent]; exact hending⟩
  · have htokens := hscanned.tokens_of_peek hpeek heof
    have hdelivered : s.stream.delivered = [tok] ++ s.stream.rest.delivered :=
      Stream.delivered_of_append htokens rfl
    refine .inl ⟨heof, ?_⟩
    rcases h with hrest | ⟨_, hnil, _⟩
    · rw [hrest, hdelivered, hstream]
      rfl
    · rw [hnil] at htokens
      cases htokens

/-- A token ahead that is not the end shows that nothing is spent. -/
theorem ParseState.Offers.unspent_of_facing {s : ParseState} {rest : List Token} {tok : Token}
    (h : s.Offers rest) (hscanned : s.stream.Scanned) (hpeek : s.stream.peek = .ok tok)
    (hno : tok.kind ≠ .eofSym) : rest = s.stream.delivered := by
  rcases h with hrest | ⟨_, hnil, _⟩
  · exact hrest
  · have htokens := hscanned.tokens_of_peek hpeek hno
    rw [hnil] at htokens
    cases htokens

/-! ### Stages -/

/-- A leaf that waits: a mark for a token, or a site to be expanded. -/
inductive Awaited where
  | mark (k : Kind)
  | site (node : Nat) (n : Nonterminal)

def Awaited.label : Awaited → Text
  | .mark k => k.display
  | .site _ n => n.label

/-- How far the work below a node has come: whether children were added, the leaves that wait, and
what is known about the stream. -/
structure Stage where
  begun : Bool
  awaited : List Awaited
  known : Known

/-- The stage before the first child. -/
def Stage.start (known : Known) : Stage := { begun := false, awaited := [], known }

/-- The stage of a production that has ended. -/
def Stage.finished : Stage := { begun := true, awaited := [], known := .nothing }

/-- The node at an index is a leaf that waits as described. -/
structure Tree.Awaits (t : Tree) (awaited : Awaited) (i : Nat) : Prop where
  content : t.content? i = some (.label awaited.label)
  children : t.children i = []
  named : ∀ node n, awaited = .site node n → i = node

theorem Tree.Awaits.of_retains {t t' : Tree} {awaited : Awaited} {i : Nat} (h : t.Awaits awaited i)
    (hretains : t.Retains t') (hi : i < t.size) (hchildren : t'.children i = t.children i) :
    t'.Awaits awaited i where
  content := by rw [hretains.content?_eq hi, h.content]
  children := by rw [hchildren, h.children]
  named := h.named

theorem Tree.forall₂_awaits_of_retains {t t' : Tree} {awaited : List Awaited} {waiting : List Nat}
    (h : List.Forall₂ t.Awaits awaited waiting) (hretains : t.Retains t')
    (hwaiting : ∀ i ∈ waiting, i < t.size ∧ t'.children i = t.children i) :
    List.Forall₂ t'.Awaits awaited waiting := by
  induction h with
  | nil => exact .nil
  | cons hfirst _ ih =>
    rw [List.forall_mem_cons] at hwaiting
    obtain ⟨⟨hi, hchildren⟩, hwaiting⟩ := hwaiting
    exact .cons (hfirst.of_retains hretains hi hchildren) (ih hwaiting)

/-- Leaves that wait show no tokens. -/
theorem Tree.filterMap_token?_of_awaits {t : Tree} {awaited : List Awaited} {waiting : List Nat}
    (h : List.Forall₂ t.Awaits awaited waiting) : waiting.filterMap t.token? = [] := by
  induction h with
  | nil => rfl
  | cons hfirst _ ih => rw [List.filterMap_cons, Tree.token?_of_label hfirst.content, ih]

/-- A state that is consistent with itself: a scanned stream, and a report behind every recovery. -/
structure ParseState.Sound (base : Nat) (s : ParseState) : Prop where
  scanned : s.stream.Scanned
  since : base ≤ s.tracker.diagnostics.size
  recovery : s.recovering = true → s.Reported base

/-- Where the work below a node began. -/
structure Origin where
  tree : Tree
  node : Nat
  /-- The tokens on offer. -/
  offered : List Token
  /-- The number of diagnostics. -/
  reports : Nat

/-- The leaves below a node are `done` and `waiting`, and of the tokens on offer some are `taken`. -/
structure Yielded (base : Nat) (o : Origin) (stage : Stage) (s : ParseState) (done waiting : List Nat)
    (taken rest : List Token) : Prop where
  sound : s.Sound base
  reports : o.reports ≤ s.tracker.diagnostics.size
  tree : o.tree.Unfolds o.node s.tree (done ++ waiting)
  awaits : List.Forall₂ s.tree.Awaits stage.awaited waiting
  begun : stage.begun = true → s.Reported base ∨ done ++ waiting ≠ []
  offered : o.offered = taken ++ rest
  offers : s.Offers rest
  known : stage.known.Holds s.stream rest
  tokens : (done.filterMap s.tree.token?).Sublist taken
  clean : ¬s.Reported base →
    done.map s.tree.shown = taken.map (fun tok => tok.kind.display) ∧ rest = s.stream.delivered

def Yields (base : Nat) (o : Origin) (stage : Stage) (s : ParseState) : Prop :=
  ∃ done waiting taken rest, Yielded base o stage s done waiting taken rest

/-- What is true wherever the work ends: the tokens among the leaves were taken, in this order. -/
structure Left (o : Origin) (s : ParseState) (ids : List Nat) (taken rest : List Token) : Prop where
  scanned : s.stream.Scanned
  tree : o.tree.Unfolds o.node s.tree ids
  offered : o.offered = taken ++ rest
  offers : s.Offers rest
  tokens : (ids.filterMap s.tree.token?).Sublist taken

/-- The result of work below a node. -/
inductive Worked {α : Type} (base : Nat) (o : Origin) (after : α → Stage) :
    EStateM.Result Abort ParseState α → Prop
  | ok {v : α} {s : ParseState} : Yields base o (after v) s → Worked base o after (.ok v s)
  | abort {e : Abort} {s : ParseState} {ids : List Nat} {taken rest : List Token} :
      Left o s ids taken rest → Worked base o after (.error e s)

/-- The production takes the work below a node from one stage to another. -/
def Works {α : Type} (base node : Nat) (before : Stage) (m : Production α) (after : α → Stage) : Prop :=
  ∀ (o : Origin) (s : ParseState), o.node = node → Yields base o before s → Worked base o after (m.run s)

section

variable {base : Nat} {o : Origin} {stage stage' : Stage} {s s' : ParseState} {done waiting : List Nat}
  {taken rest : List Token} {known : Known} {begun : Bool} {awaited : List Awaited}

namespace Yielded

theorem done_lt (h : Yielded base o stage s done waiting taken rest) : ∀ k ∈ done, k < s.tree.size :=
  fun k hk => h.tree.lt_size k (List.mem_append_left _ hk)

/-- The tokens among all leaves are those among the leaves that are done. -/
theorem tokens_all (h : Yielded base o stage s done waiting taken rest) :
    ((done ++ waiting).filterMap s.tree.token?).Sublist taken := by
  rw [List.filterMap_append, Tree.filterMap_token?_of_awaits h.awaits, List.append_nil]
  exact h.tokens

theorem left (h : Yielded base o stage s done waiting taken rest) :
    Left o s (done ++ waiting) taken rest :=
  ⟨h.sound.scanned, h.tree, h.offered, h.offers, h.tokens_all⟩

/-- Generator and transcript have no influence. -/
theorem aside (h : Yielded base o stage s done waiting taken rest) (generator : Generator)
    (transcript : Array Event) :
    Yielded base o stage { s with generator, transcript } done waiting taken rest :=
  ⟨⟨h.sound.scanned, h.sound.since, h.sound.recovery⟩, h.reports, h.tree, h.awaits, h.begun, h.offered,
    h.offers, h.known, h.tokens, h.clean⟩

/-- A new last child that waits. -/
theorem attach (h : Yielded base o stage s done waiting taken rest) (a : Awaited)
    (hnamed : ∀ node n, a = .site node n → s.tree.size = node) :
    Yielded base o { begun := true, awaited := stage.awaited ++ [a], known := stage.known }
      { s with tree := s.tree.attach o.node (.label a.label) } done (waiting ++ [s.tree.size]) taken rest := by
  have hretains := Tree.retains_attach s.tree o.node (.label a.label)
  have hlt := h.tree.lt_size
  have hnew : (s.tree.attach o.node (.label a.label)).Awaits a s.tree.size :=
    ⟨Tree.content?_attach_size _ _ _, Tree.children_attach_size, hnamed⟩
  refine ⟨⟨h.sound.scanned, h.sound.since, h.sound.recovery⟩, h.reports, ?_, ?_, ?_, h.offered, h.offers,
    h.known, ?_, ?_⟩
  · rw [← List.append_assoc]
    exact h.tree.attach _
  · refine List.rel_append (Tree.forall₂_awaits_of_retains h.awaits hretains fun i hi => ?_)
      (.cons hnew .nil)
    have hmem := List.mem_append_right done hi
    have hfresh := h.tree.fresh i hmem
    have hnode := h.tree.node
    exact ⟨hlt i hmem, Tree.children_attach_of_ne (hlt i hmem) (by omega)⟩
  · intro _
    exact .inr (by simp)
  · rw [hretains.filterMap_token? h.done_lt]
    exact h.tokens
  · rw [hretains.map_shown h.done_lt]
    exact h.clean

end Yielded

/-! ### Rules -/

/-- Accepting a token moves the stream and leaves the tree alone; a wrong one is reported. -/
theorem ParseState.Sound.run_accept (h : s.Sound base) {tok : Token} (hpeek : s.stream.peek = .ok tok)
    (k : Kind) : ∃ s', (accept k).run s = .ok tok s' ∧ s'.tree = s.tree ∧ s'.stream = s.stream.rest ∧
      s'.current = tok ∧ s'.Sound base ∧ s.tracker.diagnostics.size ≤ s'.tracker.diagnostics.size ∧
      (¬s'.Reported base → tok.kind = k) := by
  obtain ⟨recovering, tracker, transcript, hrun, hcases⟩ := run_accept_cases hpeek k
  have hscanned : s.stream.rest.Scanned := (Stream.shrinks_rest s.stream).scanned h.scanned
  refine ⟨_, hrun, rfl, rfl, rfl, ?_⟩
  rcases hcases with ⟨hk, rfl, rfl⟩ | ⟨rfl, hcases⟩
  · exact ⟨⟨hscanned, h.since, nofun⟩, Nat.le_refl _, fun _ => hk⟩
  · obtain ⟨hsize, hreported⟩ := ParseState.reported_of_cases h.since h.recovery hcases
    exact ⟨⟨hscanned, Nat.le_of_lt hreported, fun _ => hreported⟩, hsize,
      fun hclean => absurd hreported hclean⟩

namespace Yielded

/-- A token is taken for the first mark that waits. -/
theorem take {k : Kind} {i : Nat} {tok : Token} {more : List Awaited} {later : List Nat}
    (h : Yielded base o ⟨begun, .mark k :: more, known⟩ s done (i :: later) taken rest)
    (hk : k ≠ .eofSym) (hpeek : s.stream.peek = .ok tok) (htree : s'.tree = s.tree)
    (hstream : s'.stream = s.stream.rest) (hcurrent : s'.current = tok) (hsound : s'.Sound base)
    (hsize : s.tracker.diagnostics.size ≤ s'.tracker.diagnostics.size)
    (hkind : ¬s'.Reported base → tok.kind = k) : Yields base o ⟨true, more, known.behind⟩ s' := by
  obtain ⟨hfirst, hmore⟩ := List.forall₂_cons.1 h.awaits
  have hreports : o.reports ≤ s'.tracker.diagnostics.size := Nat.le_trans h.reports hsize
  have hids : done ++ i :: later = (done ++ [i]) ++ later := by simp
  have htree' : o.tree.Unfolds o.node s'.tree ((done ++ [i]) ++ later) := by
    rw [htree, ← hids]
    exact h.tree
  have htokens : ((done ++ [i]).filterMap s'.tree.token?).Sublist taken := by
    rw [htree, List.filterMap_append, List.filterMap_cons, Tree.token?_of_label hfirst.content]
    simpa using h.tokens
  have hbegun : s'.Reported base ∨ (done ++ [i]) ++ later ≠ [] := .inr (by simp)
  have hwaits : List.Forall₂ s'.tree.Awaits more later := by
    rw [htree]
    exact hmore
  have hclean : ¬s'.Reported base → ¬s.Reported base := fun hclean hreported => hclean (hreported.mono hsize)
  rcases h.offers.take h.sound.scanned hpeek hstream hcurrent with ⟨_, hrest⟩ | ⟨heof, hsame, hoffers⟩
  · -- the token is used up, whatever its kind
    refine ⟨done ++ [i], later, taken ++ [tok], s'.stream.delivered, hsound, hreports, htree', hwaits,
      fun _ => hbegun, ?_, .inl rfl, ?_, htokens.trans (List.sublist_append_left _ _), ?_⟩
    · rw [h.offered, hrest, List.append_assoc]
      rfl
    · cases known with
      | unspent => rfl
      | nothing | facing => trivial
    · intro hno
      refine ⟨?_, rfl⟩
      rw [List.map_append, List.map_append, htree, (h.clean (hclean hno)).1]
      simp only [List.map_cons, List.map_nil, Tree.shown_of_content? hfirst.content, hkind hno]
      rfl
  · -- the end stands where another token is due, which is a report
    refine ⟨done ++ [i], later, taken, rest, hsound, hreports, htree', hwaits, fun _ => hbegun, h.offered,
      hoffers, ?_, htokens, ?_⟩
    · have hknown := h.known
      cases known with
      | unspent =>
        show rest = s'.stream.delivered
        rw [hsame]
        exact hknown
      | nothing | facing => trivial
    · intro hno
      exact absurd ((hkind hno).symm.trans heof) hk

/-- A report ends the work: no leaf is waited for any more. -/
theorem give_up (h : Yielded base o stage s done waiting taken rest) (htree : s'.tree = s.tree)
    (hstream : s'.stream = s.stream) (hcurrent : s'.current = s.current) (hsound : s'.Sound base)
    (hsize : s.tracker.diagnostics.size ≤ s'.tracker.diagnostics.size) (hreported : s'.Reported base) :
    Yields base o .finished s' := by
  refine ⟨done ++ waiting, [], taken, rest, hsound, Nat.le_trans h.reports hsize, ?_, .nil,
    fun _ => .inl hreported, h.offered, ?_, trivial, ?_, fun hno => absurd hreported hno⟩
  · rw [List.append_nil, htree]
    exact h.tree
  · unfold ParseState.Offers
    rw [hstream, hcurrent]
    exact h.offers
  · rw [htree]
    exact h.tokens_all

/-- A token that was taken becomes a leaf. -/
theorem take_leaf {tok : Token} {later : List Token}
    (h : Yielded base o ⟨begun, [], known⟩ s done waiting taken (tok :: later))
    (htree : s'.tree = s.tree.attach o.node (.token tok)) (hoffers : s'.Offers later)
    (hsound : s'.Sound base) (hsize : s.tracker.diagnostics.size ≤ s'.tracker.diagnostics.size)
    (hclean : ¬s'.Reported base → tok.kind.name = tok.kind.display ∧ later = s'.stream.delivered) :
    Yields base o .finished s' := by
  have hretains := Tree.retains_attach s.tree o.node (.token tok)
  obtain rfl := List.forall₂_nil_left_iff.1 h.awaits
  have hcontent := Tree.content?_attach_size s.tree o.node (.token tok)
  have htree' := h.tree.attach (.token tok)
  rw [List.append_nil] at htree'
  refine ⟨done ++ [s.tree.size], [], taken ++ [tok], later, hsound, Nat.le_trans h.reports hsize, ?_, .nil,
    fun _ => .inr (by simp), ?_, hoffers, trivial, ?_, ?_⟩
  · rw [List.append_nil, htree]
    exact htree'
  · rw [h.offered, List.append_assoc]
    rfl
  · have hnew : [s.tree.size].filterMap s'.tree.token? = [tok] := by
      rw [List.filterMap_cons, Tree.token?, htree, hcontent]
      rfl
    rw [List.filterMap_append, hnew, htree, hretains.filterMap_token? h.done_lt]
    exact h.tokens.append (List.Sublist.refl _)
  · intro hno
    have hold := (h.clean fun hreported => hno (hreported.mono hsize)).1
    have hnew : s'.tree.shown s.tree.size = tok.kind.display := by
      rw [htree, Tree.shown_of_content? hcontent]
      exact (hclean hno).1
    refine ⟨?_, (hclean hno).2⟩
    rw [List.map_append, List.map_append, htree, hretains.map_shown h.done_lt, hold, ← htree]
    simp only [List.map_cons, List.map_nil, hnew]

/-- The tokens among the leaves that are done when a site was expanded. -/
theorem tokens_step {c : Nat} {n : Nonterminal} {more : List Awaited} {later ids : List Nat}
    {taken' : List Token}
    (h : Yielded base o ⟨begun, .site c n :: more, known⟩ s done (c :: later) taken rest)
    (hunfolds : s.tree.Unfolds c s'.tree ids) (htokens : (ids.filterMap s'.tree.token?).Sublist taken') :
    ((done ++ s'.tree.leaves c).filterMap s'.tree.token?).Sublist (taken ++ taken') := by
  obtain ⟨hfirst, _⟩ := List.forall₂_cons.1 h.awaits
  have hretains := hunfolds.retains
  rw [List.filterMap_append, hretains.filterMap_token? h.done_lt]
  apply h.tokens.append
  rw [hunfolds.leaves_eq]
  split
  · have hcontent : s'.tree.content? c = some (.label n.label) := by
      rw [hretains.content?_eq hunfolds.node]
      exact hfirst.content
    rw [List.filterMap_cons, Tree.token?_of_label hcontent]
    exact List.nil_sublist _
  · exact htokens

/-- The leaves that still wait when a site was expanded. -/
theorem awaits_step {c : Nat} {n : Nonterminal} {more : List Awaited} {later ids : List Nat}
    (h : Yielded base o ⟨begun, .site c n :: more, known⟩ s done (c :: later) taken rest)
    (hunfolds : s.tree.Unfolds c s'.tree ids) : List.Forall₂ s'.tree.Awaits more later := by
  obtain ⟨_, hmore⟩ := List.forall₂_cons.1 h.awaits
  apply Tree.forall₂_awaits_of_retains hmore hunfolds.retains
  intro i hi
  have hlt := h.tree.lt_size i (List.mem_append_right _ (List.mem_cons_of_mem _ hi))
  have hnodup := h.tree.nodup
  rw [List.nodup_append, List.nodup_cons] at hnodup
  obtain ⟨_, ⟨hc, _⟩, _⟩ := hnodup
  refine ⟨hlt, hunfolds.others i hlt ?_⟩
  rintro rfl
  exact hc hi

end Yielded

/-- The origin of the work at a site. -/
def ParseState.originAt (s : ParseState) (node : Nat) (offered : List Token) : Origin :=
  { tree := s.tree, node, offered, reports := s.tracker.diagnostics.size }

namespace Yielded

variable {c : Nat} {n : Nonterminal} {more : List Awaited} {later : List Nat}

/-- Work at the first site that waits begins. -/
theorem enter (h : Yielded base o ⟨begun, .site c n :: more, known⟩ s done (c :: later) taken rest) :
    Yielded base (s.originAt c rest) (.start known) s [] [] [] rest := by
  obtain ⟨hfirst, _⟩ := List.forall₂_cons.1 h.awaits
  have hc : c < s.tree.size := h.tree.lt_size c (List.mem_append_right _ List.mem_cons_self)
  exact ⟨h.sound, Nat.le_refl _, .refl h.tree.ordered hc hfirst.children, .nil, nofun, rfl, h.offers, h.known,
    List.nil_sublist _, fun hno => ⟨rfl, (h.clean hno).2⟩⟩

/-- Work at the first site that waits has ended. -/
theorem resume (h : Yielded base o ⟨begun, .site c n :: more, known⟩ s done (c :: later) taken rest)
    (h' : Yields base (s.originAt c rest) .finished s') : Yields base o ⟨true, more, .nothing⟩ s' := by
  obtain ⟨done', waiting', taken', rest', h'⟩ := h'
  obtain rfl := List.forall₂_nil_left_iff.1 h'.awaits
  have hunfolds : s.tree.Unfolds c s'.tree done' := by
    have htree := h'.tree
    rw [List.append_nil] at htree
    exact htree
  obtain ⟨hfirst, _⟩ := List.forall₂_cons.1 h.awaits
  have hsize : s.tracker.diagnostics.size ≤ s'.tracker.diagnostics.size := h'.reports
  have hne : s'.tree.leaves c ≠ [] := hunfolds.ordered.leaves_ne_nil hunfolds.node_lt
  refine ⟨done ++ s'.tree.leaves c, later, taken ++ taken', rest', h'.sound, Nat.le_trans h.reports hsize,
    ?_, h.awaits_step hunfolds, fun _ => .inr ?_, ?_, h'.offers, trivial, h.tokens_step hunfolds h'.tokens, ?_⟩
  · rw [List.append_assoc]
    exact h.tree.step hfirst.children hunfolds
  · simp [hne]
  · rw [h.offered, show rest = taken' ++ rest' from h'.offered, List.append_assoc]
  · intro hno
    obtain ⟨hspelled, _⟩ := h.clean fun hreported => hno (hreported.mono hsize)
    obtain ⟨hspelled', hrest'⟩ := h'.clean hno
    have hdone' : done' ≠ [] := by
      have hbegun := (h'.begun rfl).resolve_left hno
      rwa [List.append_nil] at hbegun
    refine ⟨?_, hrest'⟩
    rw [List.map_append, List.map_append, hunfolds.retains.map_shown h.done_lt, hspelled,
      hunfolds.leaves_of_ne_nil hdone', hspelled']

/-- Work at the first site that waits was given up. -/
theorem abandon {ids : List Nat} {taken' rest' : List Token}
    (h : Yielded base o ⟨begun, .site c n :: more, known⟩ s done (c :: later) taken rest)
    (h' : Left (s.originAt c rest) s' ids taken' rest') :
    Left o s' (done ++ (s'.tree.leaves c ++ later)) (taken ++ taken') rest' := by
  obtain ⟨hfirst, _⟩ := List.forall₂_cons.1 h.awaits
  refine ⟨h'.scanned, h.tree.step hfirst.children h'.tree, ?_, h'.offers, ?_⟩
  · rw [h.offered, show rest = taken' ++ rest' from h'.offered, List.append_assoc]
  · rw [← List.append_assoc, List.filterMap_append,
      Tree.filterMap_token?_of_awaits (h.awaits_step h'.tree), List.append_nil]
    exact h.tokens_step h'.tree h'.tokens

end Yielded

namespace Works

variable {α β : Type} {node : Nat} {m : Production α} {f : α → Production β}

theorem bind {between : α → Stage} {after : β → Stage} (hm : Works base node stage m between)
    (hf : ∀ v, Works base node (between v) (f v) after) : Works base node stage (m >>= f) after := by
  intro o s hnode hs
  have h := hm o s hnode hs
  cases hrun : m.run s with
  | ok v s' =>
    rw [hrun] at h
    obtain ⟨hyields⟩ | _ := h
    rw [run_bind_of_ok hrun]
    exact hf v o s' hnode hyields
  | error e s' =>
    rw [hrun] at h
    obtain _ | ⟨hleft⟩ := h
    rw [run_bind_of_error hrun]
    exact .abort hleft

theorem idle (hm : Idle m) : Works base node stage m fun _ => stage := by
  rintro o s hnode ⟨done, waiting, taken, rest, h⟩
  obtain ⟨v, generator, transcript, hrun⟩ := hm s
  rw [hrun]
  exact .ok ⟨done, waiting, taken, rest, h.aside generator transcript⟩

theorem throw_tooDeep (after : α → Stage) : Works base node stage (throw .tooDeep) after := by
  rintro o s hnode ⟨done, waiting, taken, rest, h⟩
  exact .abort h.left

theorem peek : Works base node ⟨begun, awaited, known⟩ peek fun tok => ⟨begun, awaited, .facing tok⟩ := by
  rintro o s hnode ⟨done, waiting, taken, rest, h⟩
  cases hpeek : s.stream.peek with
  | ok tok =>
    rw [run_peek_of_ok hpeek]
    exact .ok ⟨done, waiting, taken, rest, { h with known := hpeek }⟩
  | error e =>
    rw [run_peek_of_error hpeek]
    exact .abort h.left

/-- Where a token other than the end is ahead, the end has not become a leaf. -/
theorem of_unspent {tok : Token} {k : Kind} {after : α → Stage} (htok : tok.kind = k) (hno : k ≠ .eofSym)
    (hm : Works base node ⟨begun, awaited, .unspent⟩ m after) :
    Works base node ⟨begun, awaited, .facing tok⟩ m after := by
  rintro o s hnode ⟨done, waiting, taken, rest, h⟩
  have hunspent := h.offers.unspent_of_facing h.sound.scanned h.known (by rw [htok]; exact hno)
  exact hm o s hnode ⟨done, waiting, taken, rest, { h with known := hunspent }⟩

/-- What is known need not be used. -/
theorem of_nothing {after : α → Stage} (hm : Works base node ⟨begun, awaited, .nothing⟩ m after) :
    Works base node ⟨begun, awaited, known⟩ m after := by
  rintro o s hnode ⟨done, waiting, taken, rest, h⟩
  exact hm o s hnode ⟨done, waiting, taken, rest, { h with known := trivial }⟩

theorem branch (n : Nonterminal) : Works base node ⟨begun, awaited, known⟩ (branch node n)
    fun child => ⟨true, awaited ++ [.site child n], known⟩ := by
  rintro o s rfl ⟨done, waiting, taken, rest, h⟩
  rw [show (Parse.branch o.node n).run s = _ from run_add h.tree.node_lt _]
  refine .ok ⟨done, _, taken, rest, h.attach (.site s.tree.size n) ?_⟩
  intro node n hsame
  cases hsame
  rfl

theorem mark (k : Kind) : Works base node ⟨begun, awaited, known⟩ (mark node k)
    fun _ => ⟨true, awaited ++ [.mark k], known⟩ := by
  rintro o s rfl ⟨done, waiting, taken, rest, h⟩
  rw [show (Parse.mark o.node k).run s = _ from run_bind_of_ok (run_add h.tree.node_lt _)]
  exact .ok ⟨done, _, taken, rest, h.attach (.mark k) nofun⟩

theorem accept {k : Kind} (hk : k ≠ .eofSym) : Works base node ⟨begun, .mark k :: awaited, known⟩ (accept k)
    fun _ => ⟨true, awaited, known.behind⟩ := by
  rintro o s hnode ⟨done, waiting, taken, rest, h⟩
  obtain ⟨i, later, _, _, rfl⟩ := List.forall₂_cons_left_iff.1 h.awaits
  cases hpeek : s.stream.peek with
  | ok tok =>
    obtain ⟨s', hrun, htree, hstream, hcurrent, hsound, hsize, hkind⟩ := h.sound.run_accept hpeek k
    rw [hrun]
    exact .ok (h.take hk hpeek htree hstream hcurrent hsound hsize hkind)
  | error e =>
    obtain ⟨transcript, hrun⟩ := run_accept_of_error hpeek k
    rw [hrun]
    exact .abort (h.aside s.generator transcript).left

/-- The first site that waits is expanded. -/
theorem call {c : Nat} {n : Nonterminal} (hm : Works base c (.start known) m fun _ => .finished) :
    Works base node ⟨begun, .site c n :: awaited, known⟩ m fun _ => ⟨true, awaited, .nothing⟩ := by
  rintro o s hnode ⟨done, waiting, taken, rest, h⟩
  obtain ⟨i, later, hfirst, _, rfl⟩ := List.forall₂_cons_left_iff.1 h.awaits
  obtain rfl := hfirst.named c n rfl
  have hworked := hm (s.originAt _ rest) s rfl ⟨_, _, _, _, h.enter⟩
  cases hrun : m.run s with
  | ok v s' =>
    rw [hrun] at hworked
    obtain ⟨hyields⟩ | _ := hworked
    exact .ok (h.resume hyields)
  | error e s' =>
    rw [hrun] at hworked
    obtain _ | ⟨hleft⟩ := hworked
    exact .abort (h.abandon hleft)

/-- Behind a report nothing is waited for. -/
theorem expected (tok : Token) (kinds : List Kind) :
    Works base node stage (expected tok kinds) fun _ => .finished := by
  rintro o s hnode ⟨done, waiting, taken, rest, h⟩
  obtain ⟨tracker, transcript, hrun, hcases⟩ := run_expected_cases s tok kinds
  obtain ⟨hsize, hreported⟩ := ParseState.reported_of_cases h.sound.since h.sound.recovery hcases
  have hsound : ParseState.Sound base { s with recovering := true, tracker, transcript } :=
    ⟨h.sound.scanned, Nat.le_of_lt hreported, fun _ => hreported⟩
  rw [hrun]
  exact .ok (h.give_up rfl rfl rfl hsound hsize hreported)

/-- The token ahead becomes a leaf and is then taken. -/
theorem leaf_accept {tok : Token} {k : Kind} {n : Nonterminal} {f : Token → Production β}
    {after : β → Stage} (htok : tok.kind = k) (hno : k ≠ .eofSym) (hname : k.name = k.display)
    (hf : ∀ tok, Works base node .finished (f tok) after) :
    Works base node ⟨begun, [], .facing tok⟩
      (leaf node tok >>= fun _ => derive n >>= fun _ => Parse.accept k >>= f) after := by
  subst htok
  rintro o s rfl ⟨done, waiting, taken, rest, h⟩
  have hpeek : s.stream.peek = .ok tok := h.known
  have hleaf : (leaf o.node tok).run s = .ok () { s with tree := s.tree.attach o.node (.token tok) } :=
    run_bind_of_ok (run_add h.tree.node_lt _)
  obtain ⟨transcript, hderive⟩ := run_derive n { s with tree := s.tree.attach o.node (.token tok) }
  have hsound : ParseState.Sound base { s with tree := s.tree.attach o.node (.token tok), transcript } :=
    ⟨h.sound.scanned, h.sound.since, h.sound.recovery⟩
  obtain ⟨s', haccept, htree, hstream, hcurrent, hsound', hsize, _⟩ := hsound.run_accept hpeek tok.kind
  rw [run_bind_of_ok hleaf, run_bind_of_ok hderive, run_bind_of_ok haccept]
  apply hf tok o s' rfl
  obtain ⟨_, rfl⟩ | ⟨heof, _⟩ := h.offers.take h.sound.scanned hpeek hstream hcurrent
  · exact h.take_leaf htree (.inl rfl) hsound' hsize fun _ => ⟨hname, rfl⟩
  · exact absurd heof hno

/-- Whatever is taken for an identifier becomes a leaf. -/
theorem accept_leaf {f : Token → Production β} {after : β → Stage}
    (hf : ∀ tok, Works base node .finished (f tok) after) :
    Works base node ⟨begun, [], .unspent⟩
      (Parse.accept .id >>= fun tok => leaf node tok >>= fun _ => f tok) after := by
  rintro o s rfl ⟨done, waiting, taken, rest, h⟩
  cases hpeek : s.stream.peek with
  | error e =>
    obtain ⟨transcript, hrun⟩ := run_accept_of_error hpeek .id
    rw [run_bind_of_error hrun]
    exact .abort (h.aside s.generator transcript).left
  | ok tok =>
    obtain ⟨s', hrun, htree, hstream, hcurrent, hsound, hsize, hkind⟩ := h.sound.run_accept hpeek .id
    have hnode : o.node < s'.tree.size := by
      rw [htree]
      exact h.tree.node_lt
    have hleaf : (leaf o.node tok).run s' = .ok () { s' with tree := s'.tree.attach o.node (.token tok) } :=
      run_bind_of_ok (run_add hnode _)
    rw [run_bind_of_ok hrun, run_bind_of_ok hleaf]
    apply hf tok o _ rfl
    have hsound' : ParseState.Sound base { s' with tree := s'.tree.attach o.node (.token tok) } :=
      ⟨hsound.scanned, hsound.since, hsound.recovery⟩
    have htree' : s'.tree.attach o.node (.token tok) = s.tree.attach o.node (.token tok) := by rw [htree]
    rcases h.offers.take h.sound.scanned hpeek hstream hcurrent with ⟨_, rfl⟩ | ⟨heof, hsame, _⟩
    · refine h.take_leaf htree' (.inl rfl) hsound' hsize fun hno => ⟨?_, rfl⟩
      have hid : tok.kind = .id := hkind hno
      rw [hid]
      rfl
    · -- the end becomes a leaf, and nothing is on offer behind it
      obtain ⟨htokens, hending⟩ := h.sound.scanned.ending_of_peek hpeek heof
      have hlast : rest = [tok] := by
        have hrest : rest = s.stream.delivered := h.known
        rw [hrest, Stream.delivered, hending, htokens]
        rfl
      subst hlast
      refine h.take_leaf htree' (.inr ⟨rfl, ?_, ?_⟩) hsound' hsize fun hno => ?_
      · show s'.stream.tokens = []
        rw [hsame, htokens]
      · show s'.stream.ending = .eof s'.current
        rw [hsame, hending, hcurrent]
      · exact absurd ((hkind hno).symm.trans heof) (by decide)

end Works

end

end MicroLang
