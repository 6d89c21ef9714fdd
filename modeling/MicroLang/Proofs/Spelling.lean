import MicroLang.Proofs.Tokenization
import MicroLang.Proofs.Yield

/-!
# Leaves spell the source

Every production keeps to the rules of stages, and so does a whole parse.  From this it follows what the
leaves of a syntax tree say about the source.  Of a source without errors they are its tokens, one
leaf for one token.  Of any source, the tokens that a walk of the tree meets are some of the tokens that
the parser took, in the order of the source, and none of them is met twice.
-/

namespace MicroLang

open Parse

/-! ### The productions -/

variable {base node : Nat}

theorem works_acceptIdentifier :
    Works base node (.start .unspent) (acceptIdentifier node) fun _ => .finished :=
  .bind (.idle (idle_enter _)) fun _ => .accept_leaf fun tok =>
    .bind (.idle (idle_derive _)) fun _ => .idle (idle_pure tok)

theorem works_ident : Works base node (.start .unspent) (ident node) fun _ => .finished :=
  .bind works_acceptIdentifier fun _ => .idle (idle_act _)

theorem works_addOp : Works base node (.start .nothing) (addOp node) fun _ => .finished := by
  refine .bind (.idle (idle_enter _)) fun _ => .bind .peek fun tok => ?_
  split
  · next hop =>
    have hkind : tok.kind = .plusOp ∨ tok.kind = .minusOp := by
      cases hk : tok.kind with
      | plusOp => exact .inl rfl
      | minusOp => exact .inr rfl
      | _ => rw [hk] at hop; cases hop
    refine .leaf_accept rfl ?_ ?_ fun op => .idle (idle_act _)
    · rcases hkind with hk | hk <;> rw [hk] <;> decide
    · rcases hkind with hk | hk <;> rw [hk] <;> rfl
  · exact .bind (.expected _ _) fun _ => .idle (idle_pure _)

theorem works_primary {e : Nat → Production Operand}
    (he : ∀ inner, Works base inner (.start .nothing) (e inner) fun _ => .finished) :
    Works base node (.start .nothing) (primary e node) fun _ => .finished := by
  refine .bind (.idle (idle_enter _)) fun _ => .bind .peek fun tok => ?_
  split
  · refine .of_nothing (.bind (.mark _) fun _ => .bind (.branch _) fun inner => .bind (.mark _) fun _ =>
      .bind (.idle (idle_derive _)) fun _ => ?_)
    exact .bind (.accept (by decide)) fun _ => .bind (.call (he inner)) fun value =>
      .bind (.accept (by decide)) fun _ => .idle (idle_pure value)
  · next hk =>
    exact .of_unspent hk (by decide) (.bind (.branch _) fun name => .bind (.idle (idle_derive _)) fun _ =>
      .call works_ident)
  · next hk => exact .leaf_accept hk (by decide) rfl fun number => .idle (idle_act _)
  · exact .bind (.expected _ _) fun _ => .idle (idle_pure _)

theorem works_expression (bound node : Nat) :
    Works base node (.start .nothing) (expression bound node) fun _ => .finished := by
  induction bound generalizing node with
  | zero => exact .throw_tooDeep _
  | succ bound ih =>
    refine .bind (.idle (idle_enter _)) fun _ => .bind (.branch _) fun first =>
      .bind (.idle (idle_derive _)) fun _ => .bind (.call (works_primary ih)) fun left =>
        .bind .peek fun tok => ?_
    split
    · exact .of_nothing (.bind (.branch _) fun operator => .bind (.branch _) fun rest =>
        .bind (.idle (idle_derive _)) fun _ => .bind (.call works_addOp) fun op =>
          .bind (.call (ih rest)) fun right => .idle (idle_act _))
    · exact .of_nothing (.idle (idle_pure left))

theorem works_commaTail {n : Nonterminal} {known : Known} {list : Nat → Production Unit}
    (hlist : ∀ rest, Works base rest (.start .unspent) (list rest) fun _ => .finished) :
    Works base node ⟨true, [], known⟩ (commaTail node n list) fun _ => .finished := by
  refine .bind .peek fun tok => ?_
  split
  · next hk =>
    exact .of_unspent hk (by decide) (.bind (.mark _) fun _ => .bind (.branch _) fun rest =>
      .bind (.idle (idle_derive _)) fun _ => .bind (.accept (by decide)) fun _ => .call (hlist rest))
  · exact .of_nothing (.idle (idle_pure ()))

theorem works_idList (bound node : Nat) :
    Works base node (.start .unspent) (idList bound node) fun _ => .finished := by
  induction bound generalizing node with
  | zero => exact .throw_tooDeep _
  | succ bound ih =>
    refine .bind (.idle (idle_enter _)) fun _ => .bind (.branch _) fun name =>
      .bind (.idle (idle_derive _)) fun _ => .bind (.call works_ident) fun operand => ?_
    exact .bind (.idle (idle_act _)) fun _ => works_commaTail ih

theorem works_exprList (bound node : Nat) :
    Works base node (.start .nothing) (exprList bound node) fun _ => .finished := by
  induction bound generalizing node with
  | zero => exact .throw_tooDeep _
  | succ bound ih =>
    refine .bind (.idle (idle_enter _)) fun _ => .bind (.branch _) fun value =>
      .bind (.idle (idle_derive _)) fun _ => .bind (.call (works_expression (bound + 1) value)) fun _ => ?_
    exact .bind (.idle (idle_act _)) fun _ => works_commaTail fun rest => .of_nothing (ih rest)

theorem works_enclosed {k : Kind} {n : Nonterminal} {tok : Token} {list : Nat → Production Unit}
    (htok : tok.kind = k) (hk : k ≠ .eofSym)
    (hlist : ∀ l, Works base l (.start .unspent) (list l) fun _ => .finished) :
    Works base node ⟨false, [], .facing tok⟩ (enclosed node k n list) fun _ => .finished := by
  refine .of_unspent htok hk (.bind (.mark _) fun _ => .bind (.mark _) fun _ => .bind (.branch _) fun l =>
    .bind (.mark _) fun _ => .bind (.mark _) fun _ => .bind (.idle (idle_derive _)) fun _ => ?_)
  exact .bind (.accept hk) fun _ => .bind (.accept (by decide)) fun _ => .bind (.call (hlist l)) fun _ =>
    .bind (.accept (by decide)) fun _ => .bind (.accept (by decide)) fun _ => .idle (idle_pure ())

theorem works_statement (bound : Nat) :
    Works base node (.start .nothing) (statement bound node) fun _ => .finished := by
  refine .bind (.idle (idle_enter _)) fun _ => .bind .peek fun tok => ?_
  split
  · next hk =>
    refine .of_unspent hk (by decide) (.bind (.branch _) fun name => .bind (.mark _) fun _ =>
      .bind (.branch _) fun value => .bind (.mark _) fun _ => .bind (.idle (idle_derive _)) fun _ => ?_)
    exact .bind (.call works_acceptIdentifier) fun target => .bind (.accept (by decide)) fun _ =>
      .bind (.call (works_expression bound value)) fun source => .bind (.idle (idle_act _)) fun destination =>
        .bind (.idle (idle_act _)) fun _ => .bind (.accept (by decide)) fun _ => .idle (idle_pure ())
  · next hk => exact works_enclosed hk (by decide) (works_idList bound)
  · next hk => exact works_enclosed hk (by decide) fun l => .of_nothing (works_exprList bound l)
  · exact .expected _ _

theorem works_statementList (bound node : Nat) :
    Works base node (.start .nothing) (statementList bound node) fun _ => .finished := by
  induction bound generalizing node with
  | zero => exact .throw_tooDeep _
  | succ bound ih =>
    refine .bind (.idle (idle_enter _)) fun _ => .bind (.branch _) fun first =>
      .bind (.idle (idle_derive _)) fun _ => .bind (.call (works_statement (bound + 1))) fun _ =>
        .bind .peek fun tok => ?_
    split
    · exact .of_nothing (.bind (.branch _) fun rest => .bind (.idle (idle_derive _)) fun _ => .call (ih rest))
    · exact .of_nothing (.idle (idle_pure ()))

theorem works_program (bound : Nat) :
    Works base node (.start .nothing) (program bound node) fun _ => .finished := by
  refine .bind (.idle (idle_enter _)) fun _ => .bind (.mark _) fun _ => .bind (.branch _) fun list =>
    .bind (.mark _) fun _ => .bind (.idle (idle_derive _)) fun _ => .bind (.idle (idle_act _)) fun _ => ?_
  exact .bind (.accept (by decide)) fun _ => .bind (.call (works_statementList bound list)) fun _ =>
    .bind (.accept (by decide)) fun _ => .idle (idle_pure ())

theorem works_goalBody (bound : Nat) :
    Works base Tree.root (.start .nothing) (goalBody bound) fun _ => ⟨true, [.mark .eofSym], .nothing⟩ := by
  refine .bind (.idle (idle_enter _)) fun _ => .bind (.branch _) fun body => .bind (.mark _) fun _ => ?_
  exact .bind (.idle (idle_derive _)) fun _ => .call (works_program bound)

/-! ### The end of the text -/

/-- The result of a whole parse.  If it ran to its end without a report, the leaves spell everything that
was on offer. -/
inductive Spelt (base : Nat) (o : Origin) : EStateM.Result Abort ParseState Unit → Prop
  | ok {s : ParseState} {ids : List Nat} {taken rest : List Token} : Left o s ids taken rest →
      (¬s.Reported base → ids ≠ [] ∧ ids.map s.tree.shown = o.offered.map fun tok => tok.kind.display) →
      Spelt base o (.ok () s)
  | abort {e : Abort} {s : ParseState} {ids : List Nat} {taken rest : List Token} :
      Left o s ids taken rest → Spelt base o (.error e s)

theorem Spelt.exists_left {o : Origin} {r : EStateM.Result Abort ParseState Unit} (h : Spelt base o r) :
    ∃ ids taken rest, Left o (stateOf r) ids taken rest := by
  cases h with
  | ok hleft _ => exact ⟨_, _, _, hleft⟩
  | abort hleft => exact ⟨_, _, _, hleft⟩

section

variable {o : Origin} {s s' : ParseState} {begun : Bool} {known : Known}

/-- The last token is taken for the end.  The end itself stays on offer, and a clean parse has come to it
when nothing else is. -/
theorem Yielded.take_end {done : List Nat} {i : Nat} {tok : Token} {taken rest : List Token}
    (h : Yielded base o ⟨begun, [.mark .eofSym], known⟩ s done [i] taken rest)
    (hpeek : s.stream.peek = .ok tok) (htree : s'.tree = s.tree) (hstream : s'.stream = s.stream.rest)
    (hcurrent : s'.current = tok) (hsound : s'.Sound base)
    (hsize : s.tracker.diagnostics.size ≤ s'.tracker.diagnostics.size)
    (hkind : ¬s'.Reported base → tok.kind = .eofSym) :
    (∃ taken' rest', Left o s' (done ++ [i]) taken' rest') ∧
      (¬s'.Reported base →
        (done ++ [i]).map s'.tree.shown = o.offered.map fun tok => tok.kind.display) := by
  obtain ⟨hfirst, _⟩ := List.forall₂_cons.1 h.awaits
  have htokens : ((done ++ [i]).filterMap s'.tree.token?).Sublist taken := by
    rw [htree]
    exact h.tokens_all
  have htree' : o.tree.Unfolds o.node s'.tree (done ++ [i]) := by
    rw [htree]
    exact h.tree
  rcases h.offers.take h.sound.scanned hpeek hstream hcurrent with ⟨hno, hrest⟩ | ⟨heof, hsame, hoffers⟩
  · refine ⟨⟨taken ++ [tok], s'.stream.delivered, hsound.scanned, htree', ?_, .inl rfl,
      htokens.trans (List.sublist_append_left _ _)⟩, fun hclean => absurd (hkind hclean) hno⟩
    rw [h.offered, hrest, List.append_assoc]
    rfl
  · refine ⟨⟨taken, rest, hsound.scanned, htree', h.offered, hoffers, htokens⟩, fun hclean => ?_⟩
    obtain ⟨hspelled, hrest⟩ := h.clean fun hreported => hclean (hreported.mono hsize)
    obtain ⟨hnil, hending⟩ := h.sound.scanned.ending_of_peek hpeek heof
    have hlast : rest = [tok] := by
      rw [hrest, Stream.delivered, hending, hnil]
      rfl
    rw [h.offered, hlast, List.map_append, List.map_append, htree, hspelled]
    simp only [List.map_cons, List.map_nil, Tree.shown_of_content? hfirst.content, heof]
    rfl

theorem spelt_end (h : Yields base o ⟨begun, [.mark .eofSym], known⟩ s) :
    Spelt base o ((accept .eofSym >>= fun _ => act fun muted => Generator.finish muted).run s) := by
  obtain ⟨done, waiting, taken, rest, h⟩ := h
  cases hpeek : s.stream.peek with
  | error e =>
    obtain ⟨transcript, hrun⟩ := run_accept_of_error hpeek .eofSym
    rw [run_bind_of_error hrun]
    exact .abort (h.aside s.generator transcript).left
  | ok tok =>
    obtain ⟨s', hrun, htree, hstream, hcurrent, hsound, hsize, hkind⟩ := h.sound.run_accept hpeek .eofSym
    obtain ⟨_, generator, transcript, hfinish⟩ := idle_act (fun muted => Generator.finish muted) s'
    obtain ⟨i, later, _, hnone, rfl⟩ := List.forall₂_cons_left_iff.1 h.awaits
    obtain rfl := List.forall₂_nil_left_iff.1 hnone
    obtain ⟨⟨taken', rest', hleft⟩, hspelled⟩ := h.take_end hpeek htree hstream hcurrent hsound hsize hkind
    rw [run_bind_of_ok hrun, hfinish]
    exact .ok ⟨hleft.scanned, hleft.tree, hleft.offered, hleft.offers, hleft.tokens⟩ fun hclean =>
      ⟨by simp, hspelled hclean⟩

theorem spelt_systemGoal (bound : Nat) (hnode : o.node = Tree.root) (h : Yields base o (.start .nothing) s) :
    Spelt base o ((systemGoal bound).run s) := by
  have hbody := works_goalBody bound o s hnode h
  rw [systemGoal_eq]
  cases hrun : (goalBody bound).run s with
  | ok v s' =>
    rw [hrun] at hbody
    obtain ⟨hyields⟩ | _ := hbody
    rw [run_bind_of_ok hrun]
    exact spelt_end hyields
  | error e s' =>
    rw [hrun] at hbody
    obtain _ | ⟨hleft⟩ := hbody
    rw [run_bind_of_error hrun]
    exact .abort hleft

end

/-! ### Whole parses -/

section

variable (filename src : Text) (tracker : Tracker) (tracing : Bool)

/-- The origin of a whole parse: the root alone, and everything that is delivered of the source. -/
def ParseState.origin : Origin :=
  (initial filename src tracker tracing).originAt Tree.root (Stream.ofSource filename src).delivered

theorem ParseState.yields_initial :
    Yields tracker.diagnostics.size (origin filename src tracker tracing) (.start .nothing)
      (initial filename src tracker tracing) := by
  refine ⟨[], [], [], (Stream.ofSource filename src).delivered,
    ⟨Stream.scanned_ofSource filename src, Nat.le_refl _, nofun⟩, Nat.le_refl _, ?_, .nil, nofun, rfl, .inl rfl,
    trivial, List.nil_sublist _, fun _ => ⟨rfl, rfl⟩⟩
  exact .refl (Tree.ordered_ofRoot _) (Nat.lt_succ_self 0) rfl

theorem ParseState.spelt_initial :
    Spelt tracker.diagnostics.size (origin filename src tracker tracing)
      ((systemGoal ((Stream.ofSource filename src).tokens.length + 1)).run
        (initial filename src tracker tracing)) :=
  spelt_systemGoal _ rfl (yields_initial filename src tracker tracing)

theorem Parsed.exists_left : ∃ ids taken rest, Left (ParseState.origin filename src tracker tracing)
    (ofSource filename src tracker tracing).state ids taken rest := by
  show ∃ ids taken rest, Left _ (ofState (ParseState.initial filename src tracker tracing)).state ids taken rest
  rw [state_ofState]
  exact (ParseState.spelt_initial filename src tracker tracing).exists_left

end

namespace Tree

variable {t : Tree}

/-- The tokens that a walk of a tree meets. -/
def tokens (t : Tree) : List Token := t.allNodes.filterMap fun visit => visit.1.content.token?

/-- In a partial parse tree they are all leaves. -/
theorem PartialParse.tokens_eq {faulty : Prop} (h : t.PartialParse faulty) :
    t.tokens = (t.leaves root).filterMap t.token? := by
  have hleaf : ∀ (i : Nat) (n : Node), t.nodes[i]? = some n → n.children ≠ [] → n.content.token? = none := by
    intro i n hn hchildren
    cases hcontent : n.content with
    | label name => rfl
    | token tok =>
      -- only a node that is labelled with a nonterminal has children
      refine absurd ((h.fits i n hn).closed fun N => ?_) hchildren
      rw [hcontent]
      exact nofun
  rw [tokens, filterMap_allNodes (fun n => n.content.token?) hleaf]
  apply List.filterMap_congr
  intro i _
  rw [token?, content?]
  cases t.nodes[i]? <;> rfl

theorem PartialParse.token?_root {faulty : Prop} (h : t.PartialParse faulty) : t.token? root = none := by
  obtain ⟨n, hn, hlabel⟩ := h.rooted
  apply token?_of_label
  rw [content?, hn, Option.map_some, hlabel]

/-- A derivation shows the leaves one by one. -/
theorem Ordered.derivation_eq (h : t.Ordered) (hroot : root < t.size) :
    t.derivation = (t.leaves root).flatMap fun i => t.shown i ++ text " " := by
  have hinner : ∀ (i : Nat) (n : Node), t.nodes[i]? = some n → n.children ≠ [] →
      (if n.children.isEmpty then some (n.content.display ++ text " ") else none) = none := by
    intro i n _ hchildren
    rw [if_neg (by rw [List.isEmpty_iff]; exact hchildren)]
  have hleaf : ∀ i ∈ t.leaves root, (t.nodes[i]?.bind fun n =>
      if n.children.isEmpty then some (n.content.display ++ text " ") else none) =
        some (t.shown i ++ text " ") := by
    intro i hi
    obtain ⟨n, hn⟩ := exists_node (h.lt_size_of_mem_leaves hroot i hi)
    have hchildren := h.children_of_mem_leaves hroot i hi
    rw [children_of_getElem? hn] at hchildren
    rw [shown, content?, hn]
    simp only [Option.bind_some, Option.map_some, hchildren, List.isEmpty_nil, if_true]
  rw [derivation, List.flatMap_def]
  congr 1
  refine (filterMap_allNodes _ hinner).trans ?_
  rw [List.filterMap_congr hleaf]
  exact congrFun List.filterMap_eq_map _

end Tree

/-- The tokens that a parse has not taken.  The end of a text can be taken again and again; nothing is left
when it was taken once. -/
def Parsed.untaken (p : Parsed) : List Token :=
  if p.state.current.kind = .eofSym then [] else p.state.stream.delivered

/-- The tokens among the leaves were taken; a node without leaves below it is one itself. -/
theorem Left.tokens_leaves {o : Origin} {s : ParseState} {ids : List Nat} {taken rest : List Token}
    (h : Left o s ids taken rest) (hnode : s.tree.token? o.node = none) :
    ((s.tree.leaves o.node).filterMap s.tree.token?).Sublist taken := by
  rw [h.tree.leaves_eq]
  split
  · rw [List.filterMap_cons, hnode]
    exact List.nil_sublist _
  · exact h.tokens

theorem Left.exists_consumed {o : Origin} {p : Parsed} {ids : List Nat} {taken rest : List Token}
    (h : Left o p.state ids taken rest) :
    ∃ consumed, o.offered = consumed ++ p.untaken ∧ taken.Sublist consumed := by
  rw [h.offered, Parsed.untaken]
  by_cases heof : p.state.current.kind = .eofSym
  · refine ⟨taken ++ rest, ?_, List.sublist_append_left _ _⟩
    rw [if_pos heof, List.append_nil]
  · rcases h.offers with hrest | ⟨_, _, hending⟩
    · refine ⟨taken, ?_, List.Sublist.refl _⟩
      rw [if_neg heof, hrest]
    · exact absurd (h.scanned.eof _ hending) heof

/-- Tokens come in the order of their places. -/
theorem Stream.pairwise_delivered (filename src : Text) :
    (ofSource filename src).delivered.Pairwise fun tok tok' => tok.pos.offset < tok'.pos.offset := by
  have hsublist : ((ofSource filename src).delivered.map Token.pos).Sublist (ofSource filename src).places := by
    rw [delivered, places]
    cases (ofSource filename src).ending with
    | eof tok =>
      rw [List.map_append]
      exact List.Sublist.refl _
    | fault e => exact List.sublist_append_left _ _
  have hpairs := (pairwise_places filename { rest := src }).sublist hsublist
  rw [List.pairwise_map] at hpairs
  refine hpairs.imp_of_mem fun htok htok' hbefore => ?_
  exact (before_iff_of_mem (hsublist.subset (List.mem_map_of_mem htok))
    (hsublist.subset (List.mem_map_of_mem htok'))).1 hbefore

namespace Parsed

/-- The tokens that a walk of the tree meets are among those that were taken. -/
theorem exists_consumed (filename src : Text) (tracker : Tracker) (tracing : Bool) :
    ∃ consumed, (Stream.ofSource filename src).delivered =
        consumed ++ (ofSource filename src tracker tracing).untaken ∧
      (ofSource filename src tracker tracing).tree.tokens.Sublist consumed := by
  obtain ⟨ids, taken, rest, hleft⟩ := exists_left filename src tracker tracing
  obtain ⟨hparse, _⟩ := partialParse_ofState (Stream.scanned_ofSource filename src)
    (ParseState.growing_initial filename src tracker tracing) rfl
  obtain ⟨consumed, hconsumed, hsublist⟩ := hleft.exists_consumed
  refine ⟨consumed, hconsumed, ?_⟩
  have htokens : (ofSource filename src tracker tracing).tree.tokens = _ := hparse.tokens_eq
  rw [htokens]
  exact (hleft.tokens_leaves hparse.token?_root).trans hsublist

/-- The derivation of a parse without errors shows all tokens of its source. -/
theorem derivation_of_clean {filename src : Text} {tracing : Bool}
    (h : (ofSource filename src { filename } tracing).error? = none) :
    (ofSource filename src { filename } tracing).tree.derivation =
      (Stream.ofSource filename src).delivered.flatMap fun tok => tok.kind.display ++ text " " := by
  have hready := ParseState.ready_initial filename src tracing (Tracker.hasError_fresh filename)
  have hspelt := ParseState.spelt_initial filename src { filename } tracing
  cases verdict_systemGoal hready with
  | rejected f read hshown => exact absurd h (error?_of_shown hshown)
  | @accepted p tok s' hrun _ _ htracker _ =>
    have htree : (ofSource filename src { filename } tracing).tree = s'.tree := by
      show (ofState (ParseState.initial filename src { filename } tracing)).state.tree = s'.tree
      rw [state_ofState]
      exact congrArg (fun r => (stateOf r).tree) hrun
    rw [hrun] at hspelt
    obtain ⟨hleft, hclean⟩ | _ := hspelt
    obtain ⟨hne, hspelled⟩ := hclean (by rw [ParseState.Reported, htracker]; exact Nat.lt_irrefl _)
    have hleaves : s'.tree.leaves Tree.root = _ := hleft.tree.leaves_of_ne_nil hne
    rw [htree, hleft.tree.ordered.derivation_eq hleft.tree.node_lt, hleaves, List.flatMap_def,
      List.flatMap_def]
    congr 1
    have hblanks := congrArg (List.map fun shown => shown ++ text " ") hspelled
    rw [List.map_map, List.map_map] at hblanks
    exact hblanks

end Parsed

/-! ### The texts of terminals -/

namespace Kind

/-- The terminals of the grammar and the texts that stand for them. -/
def displays : List (Kind × Text) :=
  [(.beginSym, text "begin"), (.endSym, text "end"), (.readSym, text "Read"), (.writeSym, text "Write"),
    (.id, text "Id"), (.intLiteral, text "IntLiteral"), (.plusOp, text "PlusOp"), (.minusOp, text "MinusOp"),
    (.lParen, text "("), (.rParen, text ")"), (.semiColon, text ";"), (.comma, text ","),
    (.assignOp, text ":="), (.eofSym, text "$")]

/-- The kind is a terminal of the grammar and shown by its text. -/
def Displayed (k : Kind) : Prop := (k, k.display) ∈ displays

instance : DecidablePred Displayed := fun k => inferInstanceAs (Decidable ((k, k.display) ∈ displays))

theorem displayed_id : Displayed .id := by
  decide

theorem displayed_intLiteral : Displayed .intLiteral := by
  decide

end Kind

theorem AddOp.displayed (op : AddOp) : op.kind.Displayed := by
  cases op <;> decide

mutual

theorem Expr.displayed : ∀ e : Expr, ∀ w ∈ e.words, w.kind.Displayed
  | .single p => by
    rw [Expr.words]
    exact Primary.displayed p
  | .chain p op e => by
    rw [Expr.words, List.forall_mem_append, List.forall_mem_append, AddOp.words, List.forall_mem_singleton]
    exact ⟨Primary.displayed p, op.displayed, Expr.displayed e⟩

theorem Primary.displayed : ∀ p : Primary, ∀ w ∈ p.words, w.kind.Displayed
  | .paren e => by
    rw [Primary.words, List.forall_mem_cons, List.forall_mem_append, List.forall_mem_singleton]
    exact ⟨by decide, Expr.displayed e, by decide⟩
  | .name x => by
    rw [Primary.words, List.forall_mem_singleton]
    exact Kind.displayed_id
  | .number digits => by
    rw [Primary.words, List.forall_mem_singleton]
    exact Kind.displayed_intLiteral

end

theorem Series.displayed {α : Type} {separator : List Word} {item : α → List Word} (l : Series α)
    (hseparator : ∀ w ∈ separator, w.kind.Displayed) (hitem : ∀ a, ∀ w ∈ item a, w.kind.Displayed) :
    ∀ w ∈ l.words separator item, w.kind.Displayed := by
  rw [Series.words, List.forall_mem_append]
  refine ⟨hitem _, ?_⟩
  intro w hw
  obtain ⟨a, _, hw⟩ := List.mem_flatMap.1 hw
  rcases List.mem_append.1 hw with hw | hw
  · exact hseparator w hw
  · exact hitem a w hw

theorem Statement.displayed (t : Statement) : ∀ w ∈ t.words, w.kind.Displayed := by
  have hcomma : ∀ w ∈ [({ kind := .comma } : Word)], w.kind.Displayed := by
    rw [List.forall_mem_singleton]
    decide
  have hname : ∀ x, ∀ w ∈ nameWords x, w.kind.Displayed := by
    intro x
    rw [nameWords, List.forall_mem_singleton]
    exact Kind.displayed_id
  cases t with
  | assign x e =>
    rw [Statement.words, List.forall_mem_cons, List.forall_mem_cons, List.forall_mem_append,
      List.forall_mem_singleton]
    exact ⟨Kind.displayed_id, by decide, e.displayed, by decide⟩
  | read xs =>
    rw [Statement.words, List.forall_mem_cons, List.forall_mem_cons, List.forall_mem_append,
      List.forall_mem_cons, List.forall_mem_singleton]
    exact ⟨by decide, by decide, xs.displayed hcomma hname, by decide, by decide⟩
  | write es =>
    rw [Statement.words, List.forall_mem_cons, List.forall_mem_cons, List.forall_mem_append,
      List.forall_mem_cons, List.forall_mem_singleton]
    exact ⟨by decide, by decide, es.displayed hcomma Expr.displayed, by decide, by decide⟩

/-- A sentence consists of terminals of the grammar. -/
theorem Program.displayed (p : Program) : ∀ w ∈ p.sentence, w.kind.Displayed := by
  rw [Program.sentence, Program.words, List.forall_mem_append, List.forall_mem_cons, List.forall_mem_append,
    List.forall_mem_singleton, List.forall_mem_singleton]
  have hbetween : ∀ w ∈ ([] : List Word), w.kind.Displayed := List.forall_mem_nil _
  exact ⟨⟨by decide, p.statements.displayed hbetween Statement.displayed, by decide⟩, by decide⟩

theorem Stream.Spells.displayed {s : Stream} {p : Program} (h : s.Spells p) (hs : s.Scanned) :
    ∀ tok ∈ s.delivered, tok.kind.Displayed := by
  intro tok htok
  have hkind : tok.kind ∈ p.sentence.map Word.kind := by
    rw [← h.kinds_delivered hs]
    exact List.mem_map_of_mem htok
  obtain ⟨w, hw, hsame⟩ := List.mem_map.1 hkind
  rw [← hsame]
  exact p.displayed w hw

/-- The leaves of the syntax tree spell the source.  The derivation of a source that compiles cleanly shows
all its tokens, each as the table of terminals says.  For any source, the tokens that a walk of the tree
meets are some of the tokens that the parser took, in their order, and these lie at increasing places. -/
theorem Compilation.leaves_spell_source (filename src : Text) :
    (∀ config : Config,
      (ofSource config filename src).output.tree =
          (Parsed.ofSource filename src { filename } config.trace).tree ∧
      ((ofSource config filename src).error = none →
        (ofSource config filename src).output.derivation =
            (Stream.ofSource filename src).delivered.flatMap (fun tok => tok.kind.display ++ text " ") ∧
          ∀ tok ∈ (Stream.ofSource filename src).delivered, (tok.kind, tok.kind.display) ∈ Kind.displays)) ∧
    ∀ (tracker : Tracker) (tracing : Bool), ∃ consumed : List Token,
      (Stream.ofSource filename src).delivered =
          consumed ++ (Parsed.ofSource filename src tracker tracing).untaken ∧
        (Parsed.ofSource filename src tracker tracing).tree.tokens.Sublist consumed ∧
        consumed.Pairwise fun tok tok' => tok.pos.offset < tok'.pos.offset := by
  refine ⟨fun config => ⟨rfl, fun hclean => ?_⟩, fun tracker tracing => ?_⟩
  · obtain ⟨p, hp⟩ := (error_eq_none_iff config filename src).1 hclean
    exact ⟨Parsed.derivation_of_clean ((errorOf_eq_none_iff _).1 hclean),
      hp.displayed (Stream.scanned_ofSource filename src)⟩
  · obtain ⟨consumed, hdelivered, hsublist⟩ := Parsed.exists_consumed filename src tracker tracing
    refine ⟨consumed, hdelivered, hsublist, ?_⟩
    have hpairs := Stream.pairwise_delivered filename src
    rw [hdelivered] at hpairs
    exact hpairs.sublist (List.sublist_append_left _ _)

end MicroLang
