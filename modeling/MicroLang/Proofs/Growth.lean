import MicroLang.Proofs.Acceptance
import MicroLang.Proofs.Depth
import MicroLang.Proofs.PartialTree

/-!
# The growth of syntax trees

The tree of a parse is a partial parse tree of the grammar wherever the parse ends: at the end of the
text, or at a lexical error in the middle of any production.  If nothing was wrong, no nonterminal is left
without children.

A production works at one site, the node that it is given.  It adds some children, opens a new site for
every nonterminal among them and hands these sites on to the productions that expand them; only in a list
and in an expression does it come back to its own site, to add the children of the longer alternative.
Wherever it can end early, that is wherever it looks at a token or hands a site on, each site has all its
children or none of them.  `Builds base before m after` says so, site by site.
-/

namespace MicroLang

open Parse

/-! ### The judgement -/

/-- More diagnostics were reported than the given number. -/
def ParseState.Reported (base : Nat) (s : ParseState) : Prop := base < s.tracker.diagnostics.size

/-- The tree is a partial parse tree but for the sites, and a parser that is recovering has reported why. -/
structure ParseState.Growing (base : Nat) (sites : List Site) (s : ParseState) : Prop where
  since : base ≤ s.tracker.diagnostics.size
  recovery : s.recovering = true → s.Reported base
  tree : s.tree.Growing (s.Reported base) sites

/-- The result of work at some sites.  At the end other sites are left; a run that aborts leaves none. -/
inductive Grown {α : Type} (base : Nat) (before : List Site) (after : α → List Site) (s : ParseState) :
    EStateM.Result Abort ParseState α → Prop
  | ok {v : α} {s' : ParseState} : s'.Growing base (after v) →
      s.tracker.diagnostics.size ≤ s'.tracker.diagnostics.size →
      s.tree.Advances before (after v) (¬s'.Reported base) s'.tree → Grown base before after s (.ok v s')
  | abort {e : Abort} {s' : ParseState} : (∀ stray, e ≠ .stray stray) → s'.Growing base [] →
      Grown base before after s (.error e s')

/-- The production works at the sites `before` and leaves the sites `after`. -/
def Builds {α : Type} (base : Nat) (before : List Site) (m : Production α) (after : α → List Site) :
    Prop :=
  ∀ s : ParseState, s.Growing base before → Grown base before after s (m.run s)

/-- All sites can be left as they are. -/
def allSettled (sites : List Site) : Bool := sites.all Site.isSettled

section

variable {α β : Type} {base : Nat} {sites sites' : List Site} {site outer : Site} {s s' : ParseState}

theorem ParseState.Reported.mono (h : s.Reported base)
    (hsize : s.tracker.diagnostics.size ≤ s'.tracker.diagnostics.size) : s'.Reported base :=
  Nat.lt_of_lt_of_le h hsize

/-- A recovery that starts or goes on has a report. -/
theorem ParseState.reported_of_cases (hsince : base ≤ s.tracker.diagnostics.size)
    (hrecovery : s.recovering = true → s.Reported base) {tracker : Tracker} {d : Diagnostic}
    (hcases : s.recovering = true ∧ tracker = s.tracker ∨ tracker = s.tracker.report d) :
    s.tracker.diagnostics.size ≤ tracker.diagnostics.size ∧ base < tracker.diagnostics.size := by
  rcases hcases with ⟨hrecovering, rfl⟩ | rfl
  · exact ⟨Nat.le_refl _, hrecovery hrecovering⟩
  · have hsize : (s.tracker.report d).diagnostics.size = s.tracker.diagnostics.size + 1 :=
      Array.size_push _
    rw [hsize]
    exact ⟨Nat.le_succ _, Nat.lt_succ_of_le hsince⟩

namespace ParseState.Growing

theorem leave (h : s.Growing base sites) (hsub : sites'.Sublist sites)
    (hsettled : ∀ site ∈ sites, site ∈ sites' ∨ site.isSettled = true) : s.Growing base sites' :=
  ⟨h.since, h.recovery, h.tree.leave hsub hsettled⟩

theorem leave_all (h : s.Growing base sites) (hsettled : allSettled sites = true) : s.Growing base [] :=
  h.leave (List.nil_sublist _) fun site hsite => .inr (List.all_eq_true.1 hsettled site hsite)

/-- Nothing happens to the sites while the tree stays as it is. -/
theorem of_tree_eq (h : s.Growing base sites) (htree : s'.tree = s.tree)
    (hsize : s.tracker.diagnostics.size ≤ s'.tracker.diagnostics.size)
    (hrecovery : s'.recovering = true → s'.Reported base) : s'.Growing base sites where
  since := Nat.le_trans h.since hsize
  recovery := hrecovery
  tree := by
    rw [htree]
    exact h.tree.mono fun hreported => hreported.mono hsize

/-- Accepting a token leaves the tree alone, and a wrong token is reported. -/
theorem run_accept (h : s.Growing base sites) {tok : Token} (hpeek : s.stream.peek = .ok tok) (k : Kind) :
    ∃ s', (accept k).run s = .ok tok s' ∧ s'.tree = s.tree ∧
      s.tracker.diagnostics.size ≤ s'.tracker.diagnostics.size ∧ s'.Growing base sites ∧
      (tok.kind = k ∨ s'.Reported base) := by
  obtain ⟨recovering, tracker, transcript, hrun, hcases⟩ := run_accept_cases hpeek k
  refine ⟨_, hrun, rfl, ?_⟩
  rcases hcases with ⟨hk, rfl, rfl⟩ | ⟨rfl, hcases⟩
  · exact ⟨Nat.le_refl _, h.of_tree_eq rfl (Nat.le_refl _) nofun, .inl hk⟩
  · obtain ⟨hsize, hreported⟩ := reported_of_cases h.since h.recovery hcases
    exact ⟨hsize, h.of_tree_eq rfl hsize fun _ => hreported, .inr hreported⟩

end ParseState.Growing

/-- Work that leaves the tree as it is. -/
theorem Grown.of_tree_eq {v : α} (hs' : s'.Growing base sites) (htree : s'.tree = s.tree)
    (hsize : s.tracker.diagnostics.size ≤ s'.tracker.diagnostics.size) :
    Grown base sites (fun _ => sites) s (.ok v s') := by
  refine .ok hs' hsize ?_
  rw [htree]
  exact .refl _ _ _

/-- Seeing the same work as work at other sites. -/
theorem Grown.map {before before' : List Site} {after after' : α → List Site}
    {r : EStateM.Result Abort ParseState α} (h : Grown base before after s r)
    (hok : ∀ v (s' : ParseState), s'.Growing base (after v) →
      s.tracker.diagnostics.size ≤ s'.tracker.diagnostics.size →
      s.tree.Advances before (after v) (¬s'.Reported base) s'.tree →
      s'.Growing base (after' v) ∧ s.tree.Advances before' (after' v) (¬s'.Reported base) s'.tree) :
    Grown base before' after' s r := by
  cases h with
  | ok hgrowing hsize hadvances =>
    obtain ⟨hgrowing', hadvances'⟩ := hok _ _ hgrowing hsize hadvances
    exact .ok hgrowing' hsize hadvances'
  | abort hstray hgrowing => exact .abort hstray hgrowing

theorem Grown.bind {m : Production α} {f : α → Production β} {before : List Site}
    {between : α → List Site} {after : β → List Site} (h : Grown base before between s (m.run s))
    (hf : ∀ v (s' : ParseState), m.run s = .ok v s' → s'.Growing base (between v) →
      Grown base (between v) after s' ((f v).run s')) : Grown base before after s ((m >>= f).run s) := by
  cases hrun : m.run s with
  | error e s₁ =>
    rw [hrun] at h
    obtain _ | ⟨hstray, hgrowing⟩ := h
    rw [run_bind_of_error hrun]
    exact .abort hstray hgrowing
  | ok v s₁ =>
    rw [hrun] at h
    obtain ⟨hgrowing, hsize, hadvances⟩ | _ := h
    have hrest := hf v s₁ hrun hgrowing
    rw [run_bind_of_ok hrun]
    cases hrun' : (f v).run s₁ with
    | error e s₂ =>
      rw [hrun'] at hrest
      obtain _ | ⟨hstray, hgrowing'⟩ := hrest
      exact .abort hstray hgrowing'
    | ok w s₂ =>
      rw [hrun'] at hrest
      obtain ⟨hgrowing', hsize', hadvances'⟩ | _ := hrest
      exact .ok hgrowing' (Nat.le_trans hsize hsize')
        (hadvances.trans hadvances' fun hclean hreported => hclean (hreported.mono hsize'))

/-- Attaching a child that shows a symbol. -/
theorem Grown.attach {symbol : GrammarSymbol} {content : Content} {v : α} {after : α → List Site}
    (hs : s.Growing base (site :: sites)) (hshown : symbol.ShownBy (s.Reported base) content)
    (hafter : after v = site.extend symbol :: (sites ++ symbol.opens s.tree.size)) :
    Grown base (site :: sites) after s (.ok v { s with tree := s.tree.attach site.node content }) := by
  refine .ok ⟨hs.since, hs.recovery, ?_⟩ (Nat.le_refl _) ?_
  · rw [hafter]
    exact hs.tree.attach hshown
  · rw [hafter]
    exact Tree.advances_attach hshown

/-- A token that stands for a terminal, or that was taken for an identifier. -/
theorem Grown.leaf {k : Kind} {tok : Token} (hs : s.Growing base (site :: sites))
    (hshown : (GrammarSymbol.terminal k).ShownBy (s.Reported base) (.token tok)) :
    Grown base (site :: sites) (fun _ => site.extend (.terminal k) :: sites) s
      ((leaf site.node tok).run s) := by
  have hnode := (hs.tree.held site List.mem_cons_self).lt_size
  rw [show (Parse.leaf site.node tok).run s = _ from run_bind_of_ok (run_add hnode _)]
  exact .attach hs hshown (congrArg (_ :: ·) (List.append_nil sites).symm)

/-! ### Rules -/

namespace Builds

variable {m : Production α} {f : α → Production β}

theorem bind {between : α → List Site} {after : β → List Site} (hm : Builds base sites m between)
    (hf : ∀ v, Builds base (between v) (f v) after) : Builds base sites (m >>= f) after :=
  fun s hs => (hm s hs).bind fun v s' _ hgrowing => hf v s' hgrowing

theorem idle (hm : Idle m) : Builds base sites m fun _ => sites := by
  intro s hs
  obtain ⟨v, generator, transcript, hrun⟩ := hm s
  rw [hrun]
  exact .of_tree_eq (hs.of_tree_eq rfl (Nat.le_refl _) hs.recovery) rfl (Nat.le_refl _)

/-- A complete site needs no more work. -/
theorem leave {after : α → List Site} (hcomplete : site.isComplete = true)
    (hm : Builds base sites m after) : Builds base (site :: sites) m after := by
  intro s hs
  have hgrowing : s.Growing base sites := by
    refine hs.leave (List.sublist_cons_self _ _) fun site' hsite' => ?_
    rcases List.mem_cons.1 hsite' with rfl | hsite'
    · exact .inr (by rw [Site.isSettled, hcomplete, Bool.or_true])
    · exact .inl hsite'
  refine (hm s hgrowing).map fun v s' hgrowing' _ hadvances => ⟨hgrowing', ?_⟩
  exact (hs.tree.advances_leave hcomplete).trans hadvances id

/-- Handing on a site while the others wait. -/
theorem call (hsettled : allSettled (outer :: sites) = true) (hm : Builds base [site] m fun _ => []) :
    Builds base (outer :: site :: sites) m fun _ => outer :: sites := by
  intro s hs
  have hgrowing : s.Growing base [site] := by
    refine hs.leave (((List.nil_sublist sites).cons_cons site).cons outer) fun site' hsite' => ?_
    rcases List.mem_cons.1 hsite' with rfl | hsite'
    · exact .inr (List.all_eq_true.1 hsettled _ List.mem_cons_self)
    rcases List.mem_cons.1 hsite' with rfl | hsite'
    · exact .inl List.mem_cons_self
    · exact .inr (List.all_eq_true.1 hsettled _ (List.mem_cons_of_mem _ hsite'))
  refine (hm s hgrowing).map fun v s' hgrowing' hsize hadvances => ⟨?_, hadvances.frame⟩
  exact ⟨hgrowing'.since, hgrowing'.recovery,
    hs.tree.resume hgrowing'.tree hadvances fun hreported => hreported.mono hsize⟩

theorem peek (hsettled : allSettled sites = true) : Builds base sites peek fun _ => sites := by
  intro s hs
  cases hpeek : s.stream.peek with
  | ok tok =>
    rw [run_peek_of_ok hpeek]
    exact .of_tree_eq hs rfl (Nat.le_refl _)
  | error e =>
    rw [run_peek_of_error hpeek]
    exact .abort nofun (hs.leave_all hsettled)

theorem accept (hsettled : allSettled sites = true) (k : Kind) :
    Builds base sites (accept k) fun _ => sites := by
  intro s hs
  cases hpeek : s.stream.peek with
  | ok tok =>
    obtain ⟨s', hrun, htree, hsize, hgrowing, _⟩ := hs.run_accept hpeek k
    rw [hrun]
    exact .of_tree_eq hgrowing htree hsize
  | error e =>
    obtain ⟨transcript, hrun⟩ := run_accept_of_error hpeek k
    rw [hrun]
    exact .abort nofun ((hs.leave_all hsettled).of_tree_eq rfl (Nat.le_refl _) hs.recovery)

/-- Behind a report nothing more needs to be done. -/
theorem expected (hsettled : allSettled sites = true) (tok : Token) (kinds : List Kind) :
    Builds base sites (expected tok kinds) fun _ => [] := by
  intro s hs
  obtain ⟨tracker, transcript, hrun, hcases⟩ := run_expected_cases s tok kinds
  obtain ⟨hsize, hreported⟩ := ParseState.reported_of_cases hs.since hs.recovery hcases
  rw [hrun]
  refine .ok ((hs.leave_all hsettled).of_tree_eq rfl hsize fun _ => hreported) hsize ?_
  exact ⟨.refl _, fun _ _ hn _ => hn, fun _ hi => absurd hi List.not_mem_nil,
    fun hclean => absurd hreported hclean⟩

theorem throw_tooDeep (hsettled : allSettled sites = true) (after : α → List Site) :
    Builds base sites (throw .tooDeep) after :=
  fun _ hs => .abort nofun (hs.leave_all hsettled)

theorem branch (n : Nonterminal) : Builds base (site :: sites) (branch site.node n)
    fun child => site.extend (.nonterminal n) :: (sites ++ [⟨child, n, []⟩]) := by
  intro s hs
  have hnode := (hs.tree.held site List.mem_cons_self).lt_size
  rw [show (Parse.branch site.node n).run s = _ from run_add hnode _]
  exact .attach hs (.nonterminal n) rfl

theorem mark {k : Kind} (hk : k.isShownByToken = false) : Builds base (site :: sites) (mark site.node k)
    fun _ => site.extend (.terminal k) :: sites := by
  intro s hs
  have hnode := (hs.tree.held site List.mem_cons_self).lt_size
  rw [show (Parse.mark site.node k).run s = _ from run_bind_of_ok (run_add hnode _)]
  exact .attach hs (.mark hk) (congrArg (_ :: ·) (List.append_nil sites).symm)

theorem leaf {tok : Token} (hk : tok.kind.isShownByToken = true) :
    Builds base (site :: sites) (leaf site.node tok) fun _ => site.extend (.terminal tok.kind) :: sites :=
  fun _ hs => .leaf hs (.token hk rfl)

/-- Whatever is accepted as an identifier becomes a child; a token of another kind has been reported. -/
theorem accept_leaf {f : Token → Production β} {after : β → List Site}
    (hsettled : allSettled (site :: sites) = true)
    (hf : ∀ tok, Builds base (site.extend (.terminal .id) :: sites) (f tok) after) :
    Builds base (site :: sites)
      (Parse.accept .id >>= fun tok => Parse.leaf site.node tok >>= fun _ => f tok) after := by
  intro s hs
  refine (accept hsettled .id s hs).bind fun tok s' hrun hgrowing => ?_
  have hkind : tok.kind = .id ∨ s'.Reported base := by
    cases hpeek : s.stream.peek with
    | ok tok' =>
      obtain ⟨s'', hrun', _, _, _, hkind⟩ := hs.run_accept hpeek .id
      cases hrun.symm.trans hrun'
      exact hkind
    | error e =>
      obtain ⟨transcript, hrun'⟩ := run_accept_of_error hpeek .id
      cases hrun.symm.trans hrun'
  exact (Grown.leaf hgrowing (hkind.elim (.token rfl) (.mistaken tok))).bind
    fun _ s'' _ hgrowing' => hf tok s'' hgrowing'

end Builds

end

/-! ### The productions -/

variable {base node : Nat}

theorem builds_acceptIdentifier : Builds base [⟨node, .ident, []⟩] (acceptIdentifier node) fun _ => [] :=
  .bind (.idle (idle_enter _)) fun _ => .accept_leaf rfl fun tok =>
    .leave rfl (.bind (.idle (idle_derive _)) fun _ => .idle (idle_pure tok))

theorem builds_ident : Builds base [⟨node, .ident, []⟩] (ident node) fun _ => [] :=
  .bind builds_acceptIdentifier fun _ => .idle (idle_act _)

theorem builds_addOp : Builds base [⟨node, .addOp, []⟩] (addOp node) fun _ => [] := by
  refine .bind (.idle (idle_enter _)) fun _ => .bind (.peek rfl) fun tok => ?_
  split
  · next hop =>
    have hkind : tok.kind = .plusOp ∨ tok.kind = .minusOp := by
      cases hk : tok.kind with
      | plusOp => exact .inl rfl
      | minusOp => exact .inr rfl
      | _ => rw [hk] at hop; cases hop
    have hshown : tok.kind.isShownByToken = true := by rcases hkind with hk | hk <;> rw [hk] <;> rfl
    have hcomplete : Site.isComplete ⟨node, .addOp, [.terminal tok.kind]⟩ = true := by
      rcases hkind with hk | hk <;> rw [hk] <;> rfl
    exact .bind (.leaf hshown) fun _ => .leave hcomplete (.bind (.idle (idle_derive _)) fun _ =>
      .bind (.accept rfl _) fun _ => .idle (idle_act _))
  · exact .bind (.expected rfl _ _) fun _ => .idle (idle_pure _)

theorem builds_primary {e : Nat → Production Operand}
    (he : ∀ inner, Builds base [⟨inner, .expression, []⟩] (e inner) fun _ => []) :
    Builds base [⟨node, .primary, []⟩] (primary e node) fun _ => [] := by
  refine .bind (.idle (idle_enter _)) fun _ => .bind (.peek rfl) fun tok => ?_
  split
  · exact .bind (.mark rfl) fun _ => .bind (.branch _) fun inner => .bind (.mark rfl) fun _ =>
      .leave rfl (.bind (.idle (idle_derive _)) fun _ => .bind (.accept rfl _) fun _ =>
        .bind (he inner) fun value => .bind (.accept rfl _) fun _ => .idle (idle_pure value))
  · exact .bind (.branch _) fun name => .leave rfl (.bind (.idle (idle_derive _)) fun _ => builds_ident)
  · next hk =>
    refine .bind (.leaf ?_) fun _ => .leave ?_ (.bind (.idle (idle_derive _)) fun _ =>
      .bind (.accept rfl _) fun _ => .idle (idle_act _))
    · rw [hk]
      rfl
    · rw [hk]
      rfl
  · exact .bind (.expected rfl _ _) fun _ => .idle (idle_pure _)

theorem builds_expression : ∀ (bound : Nat) {node : Nat},
    Builds base [⟨node, .expression, []⟩] (expression bound node) fun _ => []
  | 0, _ => .throw_tooDeep rfl _
  | bound + 1, _ => by
    -- The node remains a site while its first child is expanded, since more children may follow.
    refine .bind (.idle (idle_enter _)) fun _ => .bind (.branch _) fun first =>
      .bind (.idle (idle_derive _)) fun _ =>
        .bind (.call rfl (builds_primary fun _ => builds_expression bound)) fun left =>
          .bind (.peek rfl) fun tok => ?_
    split
    · exact .bind (.branch _) fun operator => .bind (.branch _) fun rest =>
        .bind (.idle (idle_derive _)) fun _ => .bind (.call rfl builds_addOp) fun op =>
          .leave rfl (.bind (builds_expression bound) fun right => .idle (idle_act _))
    · exact .leave rfl (.idle (idle_pure left))

/-- A list that is complete may go on behind a comma. -/
theorem builds_commaTail {n first : Nonterminal} {list : Nat → Production Unit}
    (hshort : Site.isComplete ⟨node, n, [.nonterminal first]⟩ = true)
    (hlong : Site.isComplete ⟨node, n, [.nonterminal first, .terminal .comma, .nonterminal n]⟩ = true)
    (hlist : ∀ rest, Builds base [⟨rest, n, []⟩] (list rest) fun _ => []) :
    Builds base [⟨node, n, [.nonterminal first]⟩] (commaTail node n list) fun _ => [] := by
  have hsettled : allSettled [⟨node, n, [.nonterminal first]⟩] = true := by
    rw [allSettled, List.all_cons, Site.isSettled, hshort]
    rfl
  refine .bind (.peek hsettled) fun tok => ?_
  split
  · exact .bind (.mark rfl) fun _ => .bind (.branch _) fun rest => .leave hlong
      (.bind (.idle (idle_derive _)) fun _ => .bind (.accept rfl _) fun _ => hlist rest)
  · exact .leave hshort (.idle (idle_pure ()))

theorem builds_idList : ∀ (bound : Nat) {node : Nat},
    Builds base [⟨node, .idList, []⟩] (idList bound node) fun _ => []
  | 0, _ => .throw_tooDeep rfl _
  | bound + 1, _ =>
    .bind (.idle (idle_enter _)) fun _ => .bind (.branch _) fun _ => .bind (.idle (idle_derive _)) fun _ =>
      .bind (.call rfl builds_ident) fun _ => .bind (.idle (idle_act _)) fun _ =>
        builds_commaTail rfl rfl fun _ => builds_idList bound

theorem builds_exprList : ∀ (bound : Nat) {node : Nat},
    Builds base [⟨node, .exprList, []⟩] (exprList bound node) fun _ => []
  | 0, _ => .throw_tooDeep rfl _
  | bound + 1, _ =>
    .bind (.idle (idle_enter _)) fun _ => .bind (.branch _) fun _ => .bind (.idle (idle_derive _)) fun _ =>
      .bind (.call rfl (builds_expression (bound + 1))) fun _ => .bind (.idle (idle_act _)) fun _ =>
        builds_commaTail rfl rfl fun _ => builds_exprList bound

theorem builds_enclosed {k : Kind} {n : Nonterminal} {list : Nat → Production Unit}
    (hk : k.isShownByToken = false)
    (hcomplete : Site.isComplete ⟨node, .statement, [.terminal k, .terminal .lParen, .nonterminal n,
      .terminal .rParen, .terminal .semiColon]⟩ = true)
    (hlist : ∀ l, Builds base [⟨l, n, []⟩] (list l) fun _ => []) :
    Builds base [⟨node, .statement, []⟩] (enclosed node k n list) fun _ => [] := by
  refine .bind (.mark hk) fun _ => .bind (.mark rfl) fun _ => .bind (.branch _) fun l =>
    .bind (.mark rfl) fun _ => .bind (.mark rfl) fun _ => .leave hcomplete ?_
  exact .bind (.idle (idle_derive _)) fun _ => .bind (.accept rfl _) fun _ => .bind (.accept rfl _) fun _ =>
    .bind (hlist l) fun _ => .bind (.accept rfl _) fun _ => .bind (.accept rfl _) fun _ =>
      .idle (idle_pure ())

theorem builds_statement (bound : Nat) :
    Builds base [⟨node, .statement, []⟩] (statement bound node) fun _ => [] := by
  refine .bind (.idle (idle_enter _)) fun _ => .bind (.peek rfl) fun tok => ?_
  split
  · refine .bind (.branch _) fun name => .bind (.mark rfl) fun _ => .bind (.branch _) fun value =>
      .bind (.mark rfl) fun _ => .bind (.idle (idle_derive _)) fun _ => ?_
    exact .bind (.call rfl builds_acceptIdentifier) fun target => .leave rfl
      (.bind (.accept rfl _) fun _ => .bind (builds_expression bound) fun source =>
        .bind (.idle (idle_act _)) fun destination => .bind (.idle (idle_act _)) fun _ =>
          .bind (.accept rfl _) fun _ => .idle (idle_pure ()))
  · exact builds_enclosed rfl rfl fun _ => builds_idList bound
  · exact builds_enclosed rfl rfl fun _ => builds_exprList bound
  · exact .expected rfl _ _

theorem builds_statementList : ∀ (bound : Nat) {node : Nat},
    Builds base [⟨node, .statementList, []⟩] (statementList bound node) fun _ => []
  | 0, _ => .throw_tooDeep rfl _
  | bound + 1, _ => by
    refine .bind (.idle (idle_enter _)) fun _ => .bind (.branch _) fun first =>
      .bind (.idle (idle_derive _)) fun _ => .bind (.call rfl (builds_statement (bound + 1))) fun _ =>
        .bind (.peek rfl) fun tok => ?_
    split
    · exact .bind (.branch _) fun rest => .leave rfl
        (.bind (.idle (idle_derive _)) fun _ => builds_statementList bound)
    · exact .leave rfl (.idle (idle_pure ()))

theorem builds_program (bound : Nat) :
    Builds base [⟨node, .program, []⟩] (program bound node) fun _ => [] := by
  refine .bind (.idle (idle_enter _)) fun _ => .bind (.mark rfl) fun _ => .bind (.branch _) fun list =>
    .bind (.mark rfl) fun _ => .leave rfl ?_
  exact .bind (.idle (idle_derive _)) fun _ => .bind (.idle (idle_act _)) fun _ =>
    .bind (.accept rfl _) fun _ => .bind (builds_statementList bound) fun _ =>
      .bind (.accept rfl _) fun _ => .idle (idle_pure ())

theorem builds_systemGoal (bound : Nat) :
    Builds base [⟨Tree.root, .systemGoal, []⟩] (systemGoal bound) fun _ => [] := by
  refine .bind (.idle (idle_enter _)) fun _ => .bind (.branch _) fun body => .bind (.mark rfl) fun _ =>
    .leave rfl ?_
  exact .bind (.idle (idle_derive _)) fun _ => .bind (builds_program bound) fun _ =>
    .bind (.accept rfl _) fun _ => .idle (idle_act _)

/-! ### Whole parses -/

/-- A tree that has only the root is a site for everything. -/
theorem ParseState.growing_initial (filename src : Text) (tracker : Tracker) (tracing : Bool) :
    (initial filename src tracker tracing).Growing tracker.diagnostics.size
      [⟨Tree.root, .systemGoal, []⟩] where
  since := Nat.le_refl _
  recovery := nofun
  tree := {
    rooted := ⟨_, rfl, rfl⟩
    apart := List.nodup_cons.2 ⟨List.not_mem_nil, List.nodup_nil⟩
    held := by
      intro site hsite
      rw [List.mem_singleton.1 hsite]
      exact ⟨_, rfl, rfl, .nil⟩
    fits := by
      intro i n hn hi
      have hlt : i < 1 := Tree.lt_size hn
      exact absurd (List.mem_singleton.2 (Nat.lt_one_iff.1 hlt)) hi }

theorem Tree.Growing.partialParse {t : Tree} {faulty : Prop} (h : t.Growing faulty []) :
    t.PartialParse faulty :=
  ⟨h.rooted, fun i n hn => h.fits i n hn List.not_mem_nil⟩

/-- The tree of a parse that starts with the root alone: a partial parse tree, and a nonterminal is
without children only if something was reported or a lexical error ended the parse. -/
theorem Parsed.partialParse_ofState {s : ParseState} (hscanned : s.stream.Scanned)
    (hs : s.Growing base [⟨Tree.root, .systemGoal, []⟩]) (hsize : s.tree.size = 1) :
    (ofState s).tree.PartialParse ((ofState s).state.Reported base) ∧
      ((ofState s).tree.Expanded ∨ (ofState s).state.Reported base ∨ (ofState s).lexicalError? ≠ none) := by
  have hgrown := builds_systemGoal (s.stream.tokens.length + 1) s hs
  cases hrun : (systemGoal (s.stream.tokens.length + 1)).run s with
  | ok v s' =>
    rw [hrun] at hgrown
    obtain ⟨hgrowing, _, hadvances⟩ | _ := hgrown
    rw [ofState, hrun]
    refine ⟨hgrowing.tree.partialParse, ?_⟩
    by_cases hreported : s'.Reported base
    · exact .inr (.inl hreported)
    · refine .inl fun i n N hn hN => ?_
      have hi : i ∈ [Tree.root] ∨ s.tree.size ≤ i := by
        rw [List.mem_singleton, hsize]
        exact Nat.eq_zero_or_pos i
      exact (hadvances.filled hreported i n N hn hN hi).resolve_left List.not_mem_nil
  | error e s' =>
    rw [hrun] at hgrown
    obtain _ | ⟨hstray, hgrowing⟩ := hgrown
    rw [ofState, hrun]
    refine ⟨hgrowing.tree.partialParse, .inr (.inr ?_)⟩
    cases e with
    | lexical e => exact Option.some_ne_none e
    | stray e => exact absurd rfl (hstray e)
    | tooDeep => exact absurd hrun (run_systemGoal_ne_tooDeep hscanned)

/-- A parse runs to its end, or it aborts with the lexical error in which its stream ends. -/
theorem Parsed.ofState_cases {s : ParseState} (hscanned : s.stream.Scanned)
    (hs : s.Growing base [⟨Tree.root, .systemGoal, []⟩]) :
    (∃ s', (systemGoal (s.stream.tokens.length + 1)).run s = .ok () s' ∧ ofState s = ⟨s', none⟩) ∨
    ∃ e s', (systemGoal (s.stream.tokens.length + 1)).run s = .error (.lexical e) s' ∧
      ofState s = ⟨s', some (.lexical e)⟩ ∧ s.stream.ending = .fault e := by
  have hgrown := builds_systemGoal (s.stream.tokens.length + 1) s hs
  cases hrun : (systemGoal (s.stream.tokens.length + 1)).run s with
  | ok v s' =>
    rw [ofState, hrun]
    exact .inl ⟨s', rfl, rfl⟩
  | error e s' =>
    rw [hrun] at hgrown
    obtain _ | ⟨hstray, -⟩ := hgrown
    rw [ofState, hrun]
    cases dueTo_of_run_systemGoal hscanned hrun with
    | lexical hfault => exact .inr ⟨_, s', rfl, rfl, hfault⟩
    | stray e => exact absurd rfl (hstray e)

/-- The parse reported something that its tracker did not hold before. -/
def Parsed.ReportedSince (tracker : Tracker) (p : Parsed) : Prop :=
  tracker.diagnostics.size < p.diagnostics.length

/-- The syntax tree of any source is a partial parse tree: at its root is the start symbol, a node that is
labelled with a nonterminal has no children or those of one of its alternatives, and the others have
none.  An identifier is a token of another kind only if something was reported, and a nonterminal is
without children only if something was reported or a lexical error ended the parse. -/
theorem syntaxTree_partialParse (filename src : Text) :
    (∀ (tracker : Tracker) (tracing : Bool),
      (Parsed.ofSource filename src tracker tracing).tree.PartialParse
          ((Parsed.ofSource filename src tracker tracing).ReportedSince tracker) ∧
        ((Parsed.ofSource filename src tracker tracing).tree.Expanded ∨
          (Parsed.ofSource filename src tracker tracing).ReportedSince tracker ∨
          (Parsed.ofSource filename src tracker tracing).lexicalError? ≠ none)) ∧
    ∀ config : Config,
      (Compilation.ofSource config filename src).output.tree.PartialParse
          ((Compilation.ofSource config filename src).output.findings ≠ []) ∧
        ((Compilation.ofSource config filename src).output.tree.Expanded ∨
          (Compilation.ofSource config filename src).error ≠ none) := by
  have hparsed := fun tracker tracing => Parsed.partialParse_ofState
    (Stream.scanned_ofSource filename src) (ParseState.growing_initial filename src tracker tracing) rfl
  refine ⟨hparsed, fun config => ?_⟩
  obtain ⟨htree, hexpanded⟩ := hparsed { filename } config.trace
  have hfindings : (Parsed.ofSource filename src { filename } config.trace).ReportedSince { filename } →
      (Compilation.ofSource config filename src).output.findings ≠ [] := by
    intro hreported hnil
    exact List.ne_nil_of_length_pos hreported (List.map_eq_nil_iff.1 hnil)
  refine ⟨htree.mono hfindings, ?_⟩
  rcases hexpanded with hexpanded | hreported | hlexical
  · exact .inl hexpanded
  · exact .inr fun herror => hfindings hreported (Compilation.findings_of_clean config herror)
  · exact .inr fun herror =>
      Parsed.error?_of_lexicalError? hlexical ((Compilation.errorOf_eq_none_iff _).1 herror)

end MicroLang
