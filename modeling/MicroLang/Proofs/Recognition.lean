import MicroLang.Proofs.Category
import MicroLang.Proofs.Emission
import MicroLang.Proofs.Run
import MicroLang.Proofs.Scanning

/-!
# Recognition

A logic for productions.  `Parses room nodes C G m` says what the production `m` does from every state
without errors that has fewer than `room` tokens ahead and a tree with the given nodes.  Either it takes
the words of one phrase of the category `C` and leaves the generator as the translation `G` of that
phrase does; or it fails, and then four things are known about the failure:

* it shows in the result, as the first new diagnostic or as the lexical error that ends the run;
* the words taken before it are the beginning of a phrase, which goes on with any of the kinds that
  were required there;
* the code emitted before it is a beginning of the code of that phrase;
* no phrase starts with the words taken and the word at which it failed.

The rules below put such statements together along the steps of a production, as the phrases of the
categories are put together.
-/

namespace MicroLang

open Translation Parse

/-! ### Failures -/

/-- The first error of a parse. -/
structure FirstError where
  /-- What was still to be read when it came up. -/
  ahead : Stream
  /-- The kinds of which one was required there; none if no token could be scanned. -/
  expected : List Kind
  /-- The code emitted before. -/
  code : List Instruction

namespace FirstError

/-- How a failure shows in the result of a run that started with the tracker `t`. -/
inductive ShownBy {α : Type} (f : FirstError) (t : Tracker) : EStateM.Result Abort ParseState α → Prop
  | fault {e : LexicalError} {s : ParseState} : f.expected = [] → f.ahead.peek = .error e →
      s.tracker = t → s.generator.instructions = f.code → ShownBy f t (.error (.lexical e) s)
  | mismatch {r : EStateM.Result Abort ParseState α} {tok : Token} : f.expected ≠ [] →
      f.ahead.peek = .ok tok → tok.kind ∉ f.expected →
      t.diagnostics.toList ++ [complaint t tok f.expected] <+: (stateOf r).tracker.diagnostics.toList →
      (stateOf r).generator.instructions = f.code → ShownBy f t r

/-- The ways to go on that a failure asks for: any way, or with one of the kinds required. -/
def Wants (f : FirstError) : Option Kind → Prop
  | none => f.expected = []
  | some k => k ∈ f.expected

theorem exists_wants (f : FirstError) : ∃ next, f.Wants next := by
  cases h : f.expected with
  | nil => exact ⟨none, h⟩
  | cons k kinds =>
    refine ⟨some k, ?_⟩
    show k ∈ f.expected
    rw [h]
    exact List.mem_cons_self

variable {α β : Type} {f : FirstError} {t : Tracker}

/-- A tracker with the complaint of a failure has an error. -/
theorem hasError_of_complaint {t' : Tracker} {tok : Token} {kinds : List Kind}
    (h : t.diagnostics.toList ++ [complaint t tok kinds] <+: t'.diagnostics.toList) :
    t'.hasError = true := by
  rw [Tracker.hasError_eq_any, List.any_eq_true]
  exact ⟨complaint t tok kinds, h.subset (List.mem_append_right _ List.mem_cons_self), rfl⟩

theorem ShownBy.code {r : EStateM.Result Abort ParseState α} (h : f.ShownBy t r) :
    (stateOf r).generator.instructions = f.code := by
  cases h with
  | fault _ _ _ hcode => exact hcode
  | mismatch _ _ _ _ hcode => exact hcode

/-- A complaint about the token ahead shows the failure. -/
theorem ShownBy.of_report {s s' : ParseState} {v : α} {tok : Token} {kinds : List Kind}
    (hpeek : s.stream.peek = .ok tok) (hkinds : kinds ≠ []) (hkind : tok.kind ∉ kinds)
    (htracker : s'.tracker = s.tracker.report (complaint s.tracker tok kinds))
    (hgenerator : s'.generator = s.generator) :
    ShownBy ⟨s.stream, kinds, s.generator.instructions⟩ s.tracker (.ok v s') := by
  refine .mismatch hkinds hpeek hkind ?_ (congrArg Generator.instructions hgenerator)
  show _ <+: s'.tracker.diagnostics.toList
  rw [htracker]
  show _ <+: (s.tracker.diagnostics.push _).toList
  simp only [Array.toList_push, List.prefix_refl]

/-- What runs after a failure does not hide it. -/
theorem ShownBy.bind {m : Production α} {k : α → Production β} {s : ParseState}
    (h : f.ShownBy t (m.run s)) (hk : ∀ v, Steady (k v)) : f.ShownBy t ((m >>= k).run s) := by
  cases hrun : m.run s with
  | error e s' =>
    rw [hrun] at h
    rw [run_bind_of_error hrun]
    cases h with
    | fault hnone hpeek ht hcode => exact .fault hnone hpeek ht hcode
    | mismatch hsome hpeek hkind hdiag hcode => exact .mismatch hsome hpeek hkind hdiag hcode
  | ok v s' =>
    rw [hrun] at h
    rw [run_bind_of_ok hrun]
    cases h with
    | mismatch hsome hpeek hkind hdiag hcode =>
      have hext := hk v s'
      have herror : s'.tracker.hasError = true := hasError_of_complaint hdiag
      refine .mismatch hsome hpeek hkind (hdiag.trans hext.diagnostics) ?_
      rw [← hcode]
      exact congrArg Array.toList (hext.program herror)

end FirstError

/-- Some phrase goes on from the words read in the given way, and its code from the code emitted. -/
def Completes {α β : Type} (C : Category α) (G : α → Translation β) (g : Generator) (read : List Word)
    (code : List Instruction) (next : Option Kind) : Prop :=
  ∃ a missing, C.words a = read ++ missing ∧ (∀ w ∈ missing, w.Writable) ∧
    (∀ k ∈ next, missing.head?.map Word.kind = some k) ∧ code <+: (G a g).2.instructions

/-! ### States without errors -/

/-- No error so far, scanned tokens ahead, fewer of them than `room`, and the nodes are there. -/
structure ParseState.Ready (room : Nat) (nodes : List Nat) (s : ParseState) : Prop where
  noError : s.tracker.hasError = false
  calm : s.recovering = false
  scanned : s.stream.Scanned
  room : s.stream.tokens.length < room
  nodes : ∀ n ∈ nodes, n < s.tree.size

/-- From the first state to the second these tokens are taken and nothing is reported. -/
structure ParseState.Reads (s : ParseState) (read : List Token) (s' : ParseState) : Prop where
  tokens : s.stream.tokens = read ++ s'.stream.tokens
  ending : s'.stream.ending = s.stream.ending
  tracker : s'.tracker = s.tracker
  calm : s'.recovering = false
  nodes : s.tree.size ≤ s'.tree.size

namespace ParseState

variable {s s' s'' : ParseState} {read read' : List Token}

theorem Reads.refl (h : s.recovering = false) : s.Reads [] s :=
  ⟨rfl, rfl, rfl, h, Nat.le_refl _⟩

theorem Reads.trans (h : s.Reads read s') (h' : s'.Reads read' s'') :
    s.Reads (read ++ read') s'' where
  tokens := by rw [h.tokens, h'.tokens, List.append_assoc]
  ending := h'.ending.trans h.ending
  tracker := h'.tracker.trans h.tracker
  calm := h'.calm
  nodes := Nat.le_trans h.nodes h'.nodes

theorem Ready.of_reads {room room' : Nat} {nodes : List Nat} (h : s.Ready room nodes)
    (hread : s.Reads read s') (hroom : room ≤ room' + read.length) : s'.Ready room' nodes where
  noError := by rw [hread.tracker]; exact h.noError
  calm := hread.calm
  scanned := by
    refine ⟨fun tok htok => h.scanned.lexemes tok ?_, fun tok htok => h.scanned.eof tok ?_⟩
    · rw [hread.tokens]
      exact List.mem_append_right _ htok
    · rw [← hread.ending]
      exact htok
  room := by
    have hlen := h.room
    rw [hread.tokens, List.length_append] at hlen
    omega
  nodes := fun n hn => Nat.lt_of_lt_of_le (h.nodes n hn) hread.nodes

end ParseState

/-- Looking ahead from the start of a text: the first of the words read, or the word at which the
reading ended. -/
theorem Stream.peek_of_append {stream ahead : Stream} {read : List Token} {tok : Token}
    (htokens : stream.tokens = read ++ ahead.tokens) (hending : ahead.ending = stream.ending)
    (hpeek : ahead.peek = .ok tok) :
    ∃ first, stream.peek = .ok first ∧
      (read.map Token.word ++ [tok.word]).head? = some first.word := by
  obtain ⟨tokens, ending⟩ := stream
  cases read with
  | nil =>
    refine ⟨tok, ?_, rfl⟩
    rw [← hpeek]
    dsimp only [List.nil_append] at htokens hending
    rw [htokens, ← hending]
  | cons t read =>
    refine ⟨t, ?_, rfl⟩
    dsimp only at htokens
    rw [htokens]
    rfl

/-- A token ahead that is not the end is the first of the tokens. -/
theorem Stream.Scanned.tokens_of_peek {stream : Stream} (h : stream.Scanned) {tok : Token}
    (hpeek : stream.peek = .ok tok) (hno : tok.kind ≠ .eofSym) :
    stream.tokens = tok :: stream.rest.tokens := by
  rw [Stream.rest]
  unfold Stream.peek at hpeek
  split at hpeek
  · next first tokens _ hcons =>
    cases hpeek
    rw [hcons]
    rfl
  · next _ hend =>
    cases hpeek
    exact absurd (h.eof tok hend) hno
  · cases hpeek

/-- The end of a text is ahead only where no token is left. -/
theorem Stream.Scanned.ending_of_peek {stream : Stream} (h : stream.Scanned) {tok : Token}
    (hpeek : stream.peek = .ok tok) (heof : tok.kind = .eofSym) :
    stream.tokens = [] ∧ stream.ending = .eof tok := by
  unfold Stream.peek at hpeek
  split at hpeek
  · next first tokens _ hcons =>
    cases hpeek
    refine absurd heof (h.lexemes tok ?_).ne_eofSym
    rw [hcons]
    exact List.mem_cons_self
  · next hnil hend =>
    cases hpeek
    exact ⟨hnil, hend⟩
  · cases hpeek

/-! ### What a production does -/

section

variable {α β γ : Type}

/-- The outcome of a production in a state without errors. -/
inductive Outcome (C : Category α) (G : α → Translation β) (m : Production β) (s : ParseState) : Prop
  | recognised (a : α) (read : List Token) {v : β} {s' : ParseState} :
      m.run s = .ok v s' → s.Reads read s' → read.map Token.word = C.words a →
      G a s.generator = (v, s'.generator) →
      (∀ tok, s'.stream.peek = .ok tok → C.continues tok.kind = false) → Outcome C G m s
  | failed (f : FirstError) (read : List Token) :
      f.ShownBy s.tracker (m.run s) → s.stream.tokens = read ++ f.ahead.tokens →
      f.ahead.ending = s.stream.ending →
      (∀ next, f.Wants next → Completes C G s.generator (read.map Token.word) f.code next) →
      (∀ tok, f.ahead.peek = .ok tok → C.Excludes (read.map Token.word ++ [tok.word])) →
      Outcome C G m s

/-- What a production does behind tokens that were taken, in terms of the phrases that go on from
them. -/
theorem Outcome.behind {δ ε : Type} {D : Category δ} {H : δ → Translation β} {E : Category ε}
    {K : ε → Translation β} {m m' : Production β} {s s₁ : ParseState} {read : List Token} (ι : δ → ε)
    (hread : s.Reads read s₁) (hrun : m.run s = m'.run s₁)
    (hwords : ∀ b, E.words (ι b) = read.map Token.word ++ D.words b)
    (hK : ∀ b, K (ι b) s.generator = H b s₁.generator)
    (hcontinues : ∀ k, E.continues k = D.continues k)
    (hexcludes : ∀ tok l, s₁.stream.peek = .ok tok → D.Excludes (tok.word :: l) →
      E.Excludes (read.map Token.word ++ tok.word :: l))
    (h : Outcome D H m' s₁) : Outcome E K m s := by
  cases h with
  | recognised b read' hrun' hread' hwords' hH hstops =>
    refine .recognised (ι b) (read ++ read') (hrun.trans hrun') (hread.trans hread') ?_ ?_ ?_
    · rw [List.map_append, hwords', hwords]
    · rw [hK]
      exact hH
    · intro tok htok
      rw [hcontinues]
      exact hstops tok htok
  | failed failure read' hshown htokens hending hcompletes hexcludes' =>
    refine .failed failure (read ++ read') ?_ ?_ (hending.trans hread.ending) ?_ ?_
    · rw [hrun, ← hread.tracker]
      exact hshown
    · rw [hread.tokens, htokens, List.append_assoc]
    · intro next hnext
      obtain ⟨b, missing, hb, hwritable, hhead, hcode⟩ := hcompletes next hnext
      refine ⟨ι b, missing, ?_, hwritable, hhead, ?_⟩
      · rw [hwords, hb, List.map_append, List.append_assoc]
      · rw [hK]
        exact hcode
    · intro tok htok
      obtain ⟨first, hfirst, hhead⟩ := Stream.peek_of_append htokens hending htok
      obtain ⟨l, hl⟩ := List.head?_eq_some_iff.1 hhead
      have hno := hexcludes' tok htok
      rw [hl] at hno
      rw [List.map_append, List.append_assoc, hl]
      exact hexcludes first l hfirst hno

/-- A text that cannot be scanned any further is the beginning of any phrase that goes on from it. -/
theorem Outcome.of_fault {C : Category α} {G : α → Translation β} {m : Production β}
    {s s₁ : ParseState} (read : List Token) {e : LexicalError} (hrun : m.run s = .error (.lexical e) s₁)
    (hread : s.Reads read s₁) (hpeek : s₁.stream.peek = .error e)
    (hcompletes : Completes C G s.generator (read.map Token.word) s₁.generator.instructions none) :
    Outcome C G m s := by
  refine .failed ⟨s₁.stream, [], s₁.generator.instructions⟩ read ?_ hread.tokens hread.ending ?_ ?_
  · rw [hrun]
    exact .fault rfl hpeek hread.tracker rfl
  · intro next hnext
    cases next with
    | none => exact hcompletes
    | some k => exact absurd hnext List.not_mem_nil
  · intro tok htok
    rw [hpeek] at htok
    cases htok

/-- A step that takes no token and cannot fail; it has the effect of a translation. -/
structure Quiet (nodes : List Nat) (m : Production β) (t : Translation β) : Prop where
  steady : Steady m
  grows : Grows t
  run : ∀ {room : Nat} {s : ParseState}, s.Ready room nodes →
    ∃ s', m.run s = .ok (t s.generator).1 s' ∧ s'.generator = (t s.generator).2 ∧
      s'.stream = s.stream ∧ s.Reads [] s'

/-- The production recognises the phrases of the category with their translations. -/
structure Parses (room : Nat) (nodes : List Nat) (C : Category α) (G : α → Translation β)
    (m : Production β) : Prop where
  steady : Steady m
  grows : ∀ a, Grows (G a)
  outcome : ∀ {s : ParseState}, s.Ready room nodes → Outcome C G m s

variable {room room' : Nat} {nodes : List Nat}

/-! ### Quiet steps -/

namespace Quiet

theorem pure (v : β) : Quiet nodes (pure v) (yield v) where
  steady := Steady.pure v
  grows := grows_yield v
  run := fun {_ s} h => ⟨s, rfl, rfl, rfl, .refl h.calm⟩

theorem bind {m : Production α} {f : α → Production β} {t : Translation α} {u : α → Translation β}
    (hm : Quiet nodes m t) (hf : ∀ v, Quiet nodes (f v) (u v)) :
    Quiet nodes (m >>= f) (andThen t u) where
  steady := hm.steady.bind fun v => (hf v).steady
  grows := grows_andThen hm.grows fun v => (hf v).grows
  run := by
    intro room s h
    obtain ⟨s₁, hrun₁, hgen₁, hstream₁, hread₁⟩ := hm.run h
    obtain ⟨s₂, hrun₂, hgen₂, hstream₂, hread₂⟩ :=
      (hf (t s.generator).1).run (h.of_reads hread₁ (Nat.le_refl room))
    rw [hgen₁] at hrun₂ hgen₂
    refine ⟨s₂, ?_, hgen₂, hstream₂.trans hstream₁, hread₁.trans hread₂⟩
    rw [run_bind_of_ok hrun₁]
    exact hrun₂

theorem enter (production : Text) : Quiet nodes (enter production) (yield ()) where
  steady := Steady.enter production
  grows := grows_yield ()
  run := by
    intro room s h
    obtain ⟨transcript, hrun⟩ := run_enter production s
    exact ⟨_, hrun, rfl, rfl, ⟨rfl, rfl, rfl, h.calm, Nat.le_refl _⟩⟩

theorem derive (n : Nonterminal) : Quiet nodes (derive n) (yield ()) where
  steady := Steady.derive n
  grows := grows_yield ()
  run := by
    intro room s h
    obtain ⟨transcript, hrun⟩ := run_derive n s
    exact ⟨_, hrun, rfl, rfl, ⟨rfl, rfl, rfl, h.calm, Nat.le_refl _⟩⟩

/-- Adding a node lets the tree grow. -/
theorem reads_attach {s : ParseState} (h : s.recovering = false) (parent : Nat) (content : Content) :
    s.Reads [] { s with tree := s.tree.attach parent content } where
  tokens := rfl
  ending := rfl
  tracker := rfl
  calm := h
  nodes := by rw [Tree.size_attach]; exact Nat.le_succ _

theorem mark {node : Nat} (hnode : node ∈ nodes) (kind : Kind) :
    Quiet nodes (mark node kind) (yield ()) where
  steady := Steady.mark node kind
  grows := grows_yield ()
  run := by
    intro room s h
    exact ⟨_, run_bind_of_ok (run_add (h.nodes node hnode) _), rfl, rfl, reads_attach h.calm _ _⟩

theorem leaf {node : Nat} (hnode : node ∈ nodes) (tok : Token) :
    Quiet nodes (leaf node tok) (yield ()) where
  steady := Steady.leaf node tok
  grows := grows_yield ()
  run := by
    intro room s h
    exact ⟨_, run_bind_of_ok (run_add (h.nodes node hnode) _), rfl, rfl, reads_attach h.calm _ _⟩

/-- An action that emits nothing while muted. -/
theorem act {action : Bool → Generator → Step β}
    (hmuted : ∀ g, (action true g).generator.program = g.program)
    (hgrows : Grows (perform (action false))) : Quiet nodes (act action) (perform (action false)) where
  steady := Steady.act hmuted
  grows := hgrows
  run := by
    intro room s h
    obtain ⟨transcript, hrun⟩ := run_act action s
    rw [h.noError] at hrun
    exact ⟨_, hrun, rfl, rfl, ⟨rfl, rfl, rfl, h.calm, Nat.le_refl _⟩⟩

end Quiet

/-! ### Quiet steps around a phrase -/

namespace Parses

variable {δ : Type} {C : Category α} {D : Category δ}

theorem quiet_bind {m : Production β} {f : β → Production γ} {t : Translation β}
    {G : β → α → Translation γ} (hm : Quiet nodes m t)
    (hf : ∀ v, Parses room nodes C (G v) (f v)) :
    Parses room nodes C (fun a => andThen t fun v => G v a) (m >>= f) where
  steady := hm.steady.bind fun v => (hf v).steady
  grows := fun a => grows_andThen hm.grows fun v => (hf v).grows a
  outcome := by
    intro s h
    obtain ⟨s₁, hrun₁, hgen₁, _, hread₁⟩ := hm.run h
    have hready := h.of_reads hread₁ (Nat.le_refl room)
    refine Outcome.behind id hread₁ (run_bind_of_ok hrun₁) (fun _ => rfl) ?_ (fun _ => rfl)
      (fun _ _ _ hno => hno) ((hf _).outcome hready)
    intro a
    rw [hgen₁]
    rfl

theorem enter {production : Text} {f : Unit → Production β} {G : α → Translation β}
    (hf : Parses room nodes C G (f ())) : Parses room nodes C G (enter production >>= f) :=
  quiet_bind (Quiet.enter production) fun _ => hf

theorem derive {n : Nonterminal} {f : Unit → Production β} {G : α → Translation β}
    (hf : Parses room nodes C G (f ())) : Parses room nodes C G (derive n >>= f) :=
  quiet_bind (Quiet.derive n) fun _ => hf

theorem mark {node : Nat} {kind : Kind} {f : Unit → Production β} {G : α → Translation β}
    (hnode : node ∈ nodes) (hf : Parses room nodes C G (f ())) :
    Parses room nodes C G (mark node kind >>= f) :=
  quiet_bind (Quiet.mark hnode kind) fun _ => hf

theorem leaf {node : Nat} {tok : Token} {f : Unit → Production β} {G : α → Translation β}
    (hnode : node ∈ nodes) (hf : Parses room nodes C G (f ())) :
    Parses room nodes C G (leaf node tok >>= f) :=
  quiet_bind (Quiet.leaf hnode tok) fun _ => hf

/-- A new node may be used from then on. -/
theorem branch {node : Nat} {n : Nonterminal} {f : Nat → Production β} {G : α → Translation β}
    (hnode : node ∈ nodes) (hf : ∀ child, Parses room (child :: nodes) C G (f child)) :
    Parses room nodes C G (branch node n >>= f) where
  steady := (Steady.branch node n).bind fun child => (hf child).steady
  grows := (hf 0).grows
  outcome := by
    intro s h
    have hrun₁ : (Parse.branch node n).run s = .ok s.tree.size
        { s with tree := s.tree.attach node (.label (GrammarSymbol.nonterminal n).label) } :=
      run_add (h.nodes node hnode) _
    have hread₁ := Quiet.reads_attach h.calm node (.label (GrammarSymbol.nonterminal n).label)
    have hold := h.of_reads hread₁ (Nat.le_refl room)
    have hready : ParseState.Ready room (s.tree.size :: nodes)
        { s with tree := s.tree.attach node (.label (GrammarSymbol.nonterminal n).label) } := by
      refine { hold with nodes := ?_ }
      intro k hk
      rcases List.mem_cons.1 hk with rfl | hk
      · show s.tree.size < (s.tree.attach node _).size
        rw [Tree.size_attach]
        exact Nat.lt_succ_self _
      · exact hold.nodes k hk
    exact Outcome.behind id hread₁ (run_bind_of_ok hrun₁) (fun _ => rfl) (fun _ => rfl) (fun _ => rfl)
      (fun _ _ _ hno => hno) ((hf _).outcome hready)

theorem bind_quiet {m : Production β} {f : β → Production γ} {G : α → Translation β}
    {t : β → Translation γ} (hm : Parses room nodes C G m) (hf : ∀ v, Quiet nodes (f v) (t v)) :
    Parses room nodes C (fun a => andThen (G a) t) (m >>= f) where
  steady := hm.steady.bind fun v => (hf v).steady
  grows := fun a => grows_andThen (hm.grows a) fun v => (hf v).grows
  outcome := by
    intro s h
    cases hm.outcome h with
    | @recognised a read v s₁ hrun hread hwords hG hstops =>
      obtain ⟨s₂, hrun₂, hgen₂, hstream₂, hread₂⟩ :=
        (hf v).run (h.of_reads hread (Nat.le_add_right room _))
      refine .recognised a (read ++ []) ((run_bind_of_ok hrun).trans hrun₂) (hread.trans hread₂) ?_ ?_ ?_
      · rw [List.append_nil]
        exact hwords
      · rw [andThen, hG, hgen₂]
      · rw [hstream₂]
        exact hstops
    | failed failure read hshown htokens hending hcompletes hexcludes =>
      refine .failed failure read (hshown.bind fun v => (hf v).steady) htokens hending ?_ hexcludes
      intro next hnext
      obtain ⟨a, missing, hwords, hwritable, hhead, hcode⟩ := hcompletes next hnext
      exact ⟨a, missing, hwords, hwritable, hhead, hcode.trans ((hf _).grows _)⟩

/-! ### Terminals -/

theorem terminal {k : Kind} (hk : k.isScanned = true) :
    Parses room nodes (Category.terminal k hk) (fun t => yield t.1) (accept k) where
  steady := Steady.accept k
  grows := fun t => grows_yield t.1
  outcome := by
    intro s h
    have hsample : Completes (Category.terminal k hk) (fun t => yield t.1) s.generator []
        s.generator.instructions (some k) := by
      refine ⟨(Category.terminal k hk).sample, _, rfl, (Category.terminal k hk).writable_sample, ?_,
        List.prefix_refl _⟩
      intro k' hk'
      rw [← Option.mem_some_iff.1 hk']
      rfl
    cases hpeek : s.stream.peek with
    | error e =>
      obtain ⟨transcript, hrun⟩ := run_accept_of_error hpeek k
      obtain ⟨a, missing, hwords, hwritable, _, hcode⟩ := hsample
      refine .of_fault [] hrun ⟨rfl, rfl, rfl, h.calm, Nat.le_refl _⟩ hpeek
        ⟨a, missing, hwords, hwritable, fun k' hk' => ?_, hcode⟩
      cases hk'
    | ok tok =>
      by_cases hkind : tok.kind = k
      · obtain ⟨transcript, hrun⟩ := run_accept hpeek hkind
        have hno : tok.kind ≠ .eofSym := by
          intro heof
          rw [← hkind, heof] at hk
          cases hk
        have htokens := h.scanned.tokens_of_peek hpeek hno
        have hlexeme : Lexeme k tok.literal := by
          rw [← hkind]
          refine h.scanned.lexemes tok ?_
          rw [htokens]
          exact List.mem_cons_self
        refine .recognised ⟨tok, hkind, fun _ => hlexeme⟩ [tok] hrun
          ⟨htokens, rfl, rfl, rfl, Nat.le_refl _⟩ rfl rfl ?_
        exact fun _ _ => rfl
      · obtain ⟨transcript, hrun⟩ := run_accept_of_ne hpeek hkind h.calm
        refine .failed ⟨s.stream, [k], s.generator.instructions⟩ [] ?_ rfl rfl ?_ ?_
        · rw [hrun]
          exact .of_report hpeek (List.cons_ne_nil _ _) (by rw [List.mem_singleton]; exact hkind) rfl rfl
        · intro next hnext
          cases next with
          | none => cases hnext
          | some k' =>
            rw [List.mem_singleton.1 hnext]
            exact hsample
        · intro tok' htok' t u _ hprefix
          rw [hpeek] at htok'
          cases htok'
          have hword := (List.cons_prefix_cons.1 hprefix).1
          exact hkind ((congrArg Word.kind hword).trans t.2.kind)

/-! ### Phrases put together -/

/-- One phrase behind another. -/
theorem seq {m : Production β} {f : β → Production γ} {G : α → Translation β}
    {H : β → δ → Translation γ} (apart : ∀ k, C.continues k = true → D.starts k = false)
    (hroom : room ≤ room' + 1) (hm : Parses room nodes C G m)
    (hf : ∀ v, Parses room' nodes D (H v) (f v)) :
    Parses room nodes (C.seq D apart) (fun p => andThen (G p.1) fun v => H v p.2) (m >>= f) where
  steady := hm.steady.bind fun v => (hf v).steady
  grows := fun p => grows_andThen (hm.grows p.1) fun v => (hf v).grows p.2
  outcome := by
    intro s h
    cases hm.outcome h with
    | @recognised a read v s₁ hrun hread hwords hG hstops =>
      have hlen := C.length_words_pos a
      rw [← hwords, List.length_map] at hlen
      have hready : s₁.Ready room' nodes := h.of_reads hread (by omega)
      refine Outcome.behind (fun b => (a, b)) hread (run_bind_of_ok hrun) ?_ ?_ (fun _ => rfl) ?_
        ((hf v).outcome hready)
      · intro b
        rw [hwords]
        rfl
      · intro b
        rw [andThen, hG]
      · intro tok l htok hno
        rw [hwords]
        exact hno.seq_right apart (hstops tok htok)
    | failed failure read hshown htokens hending hcompletes hexcludes =>
      refine .failed failure read (hshown.bind fun v => (hf v).steady) htokens hending ?_
        (fun tok htok => (hexcludes tok htok).seq_left apart)
      intro next hnext
      obtain ⟨a, missing, hwords, hwritable, hhead, hcode⟩ := hcompletes next hnext
      refine ⟨(a, D.sample), missing ++ D.words D.sample, ?_, ?_, ?_, hcode.trans ((hf _).grows _ _)⟩
      · show C.words a ++ D.words D.sample = _
        rw [hwords, List.append_assoc]
      · intro w hw
        rcases List.mem_append.1 hw with hw | hw
        · exact hwritable w hw
        · exact D.writable_sample w hw
      · intro k hk
        obtain ⟨w, hw, hkind⟩ := Option.map_eq_some_iff.1 (hhead k hk)
        rw [List.head?_append, hw]
        exact congrArg some hkind

/-- A phrase and perhaps another behind it, as the token ahead says. -/
theorem withTail {m : Production β} {tail : β → Production γ} {h : β → γ} {G : α → Translation β}
    {H : β → δ → Translation γ} {P : Kind → Prop} [DecidablePred P]
    (apart : ∀ k, C.continues k = true → D.starts k = false)
    (joined : ∀ k, D.continues k = (D.starts k || C.continues k)) (hP : ∀ k, P k ↔ D.starts k = true)
    (hroom : room ≤ room' + 1) (hm : Parses room nodes C G m)
    (htail : ∀ v, Parses room' nodes D (H v) (tail v)) :
    Parses room nodes (C.withTail D apart joined)
      (fun p => andThen (G p.1) fun v => p.2.elim (yield (h v)) (H v))
      (m >>= fun v => peek >>= fun tok => if P tok.kind then tail v else Pure.pure (h v)) where
  steady := hm.steady.bind fun v => Steady.choose (htail v).steady (Steady.pure (h v))
  grows := by
    rintro ⟨a, o⟩
    refine grows_andThen (hm.grows a) fun v => ?_
    cases o with
    | none => exact grows_yield (h v)
    | some b => exact (htail v).grows b
  outcome := by
    intro s hs
    cases hm.outcome hs with
    | @recognised a read v s₁ hrun hread hwords hG hstops =>
      have hlen := C.length_words_pos a
      rw [← hwords, List.length_map] at hlen
      have hnone : ∀ f : β → Translation γ, andThen (G a) f s.generator = f v s₁.generator := by
        intro f
        rw [andThen, hG]
      cases hpeek : s₁.stream.peek with
      | error e =>
        refine .of_fault read ?_ hread hpeek ⟨(a, none), [], ?_, fun w hw => ?_, fun k hk => ?_, ?_⟩
        · rw [run_bind_of_ok hrun, run_bind_of_error (run_peek_of_error hpeek)]
        · rw [hwords]
          rfl
        · cases hw
        · cases hk
        · show _ <+: (andThen (G a) _ s.generator).2.instructions
          rw [hnone]
          exact List.prefix_refl _
      | ok tok =>
        have hstep : (m >>= fun v => peek >>= fun tok =>
            if P tok.kind then tail v else Pure.pure (h v)).run s =
            (if P tok.kind then tail v else Pure.pure (h v)).run s₁ := by
          rw [run_bind_of_ok hrun, run_bind_of_ok (run_peek_of_ok hpeek)]
        by_cases hcond : P tok.kind
        · rw [if_pos hcond] at hstep
          have hready : s₁.Ready room' nodes := hs.of_reads hread (by omega)
          refine Outcome.behind (fun b => (a, some b)) hread hstep ?_ (fun b => hnone _) (fun _ => rfl) ?_
            ((htail v).outcome hready)
          · intro b
            rw [hwords]
            rfl
          · intro tok' l htok' hno
            rw [hpeek] at htok'
            cases htok'
            rw [hwords]
            exact hno.withTail_right apart joined (hstops tok hpeek) ((hP _).1 hcond)
        · rw [if_neg hcond] at hstep
          refine .recognised (a, none) read hstep hread ?_ (hnone _) ?_
          · rw [hwords]
            exact (List.append_nil _).symm
          · intro tok' htok'
            rw [hpeek] at htok'
            cases htok'
            show D.continues tok.kind = false
            rw [joined, hstops tok hpeek, Bool.or_false, ← Bool.not_eq_true, ← hP]
            exact hcond
    | failed failure read hshown htokens hending hcompletes hexcludes =>
      have hsteady := fun v => Steady.choose (P := P) (htail v).steady (Steady.pure (h v))
      refine .failed failure read (hshown.bind hsteady) htokens hending ?_
        (fun tok htok => (hexcludes tok htok).withTail_left apart joined)
      intro next hnext
      obtain ⟨a, missing, hwords, hwritable, hhead, hcode⟩ := hcompletes next hnext
      refine ⟨(a, none), missing, ?_, hwritable, hhead, hcode.trans (grows_yield _ _)⟩
      rw [← hwords]
      exact List.append_nil _

end Parses

/-! ### Choices by the token ahead -/

/-- What a production does once it has seen the token ahead. -/
structure ParsesOn (tok : Token) (room : Nat) (nodes : List Nat) (C : Category α)
    (G : α → Translation β) (m : Production β) : Prop where
  steady : Steady m
  outcome : ∀ {s : ParseState}, s.Ready room nodes → s.stream.peek = .ok tok → Outcome C G m s

section

variable {δ : Type} {C : Category α} {D : Category δ} {G : α → Translation β} {H : δ → Translation β}
  {m : Production β} {tok : Token}

/-- The phrases of one category are phrases of another, and all of those that start as the text ahead
does. -/
theorem Outcome.embed {s : ParseState} (φ : δ → α) (hwords : ∀ b, C.words (φ b) = D.words b)
    (hG : ∀ b, G (φ b) = H b) (hcontinues : ∀ k, C.continues k = D.continues k)
    (hcover : ∀ tok a rest, s.stream.peek = .ok tok → C.words a = tok.word :: rest →
      ∃ b, D.words b = C.words a)
    (hcalm : s.recovering = false) (h : Outcome D H m s) : Outcome C G m s := by
  refine Outcome.behind φ (.refl hcalm) rfl hwords (fun b => congrFun (hG b) _) hcontinues ?_ h
  intro tok l htok hno a u hu hl
  obtain ⟨w, rest, hw, _⟩ := C.starts_words a
  have hfirst : tok.word = w := by
    rw [hw, List.cons_append] at hl
    exact (List.cons_prefix_cons.1 hl).1
  rw [← hfirst] at hw
  obtain ⟨b, hb⟩ := hcover tok a rest htok hw
  refine hno b u (fun v hv => ?_) ?_
  · rw [← hcontinues]
    exact hu v hv
  · rw [hb]
    exact hl

/-- The same phrases in another form. -/
theorem Parses.map (h : Parses room nodes D H m) (φ : δ → α)
    (hwords : ∀ b, C.words (φ b) = D.words b) (hG : ∀ b, G (φ b) = H b)
    (hcontinues : ∀ k, C.continues k = D.continues k) (honto : ∀ a, ∃ b, D.words b = C.words a)
    (hgrows : ∀ a, Grows (G a)) : Parses room nodes C G m where
  steady := h.steady
  grows := hgrows
  outcome := fun hs =>
    (h.outcome hs).embed φ hwords hG hcontinues (fun _ a _ _ _ => honto a) hs.calm

/-- A word of a fixed kind in front of a phrase. -/
theorem Parses.accept {k : Kind} {f : Token → Production β} (hk : k.isFixed = true)
    (hroom : room ≤ room' + 1) (hf : ∀ tok, Parses room' nodes D H (f tok)) :
    Parses room nodes (Category.after k hk D) H (Parse.accept k >>= f) := by
  have hopen := Kind.isOpen_of_isFixed hk
  refine (Parses.seq (Category.apart_never fun _ => rfl) hroom
    (Parses.terminal (Kind.isScanned_of_isFixed hk)) hf).map Prod.snd ?_ (fun _ => rfl) (fun _ => rfl)
    ?_ (hf {}).grows
  · rintro ⟨t, b⟩
    show { kind := k } :: D.words b = [t.1.word] ++ D.words b
    rw [t.2.word_of_closed hopen]
    rfl
  · intro b
    refine ⟨((Category.terminal k (Kind.isScanned_of_isFixed hk)).sample, b), ?_⟩
    show [Token.word _] ++ D.words b = { kind := k } :: D.words b
    rw [Token.word_of_closed hopen]
    rfl

/-- A word of a fixed kind by itself. -/
theorem Parses.symbol {k : Kind} (hk : k.isFixed = true) (v : β) :
    Parses room nodes (Category.symbol k hk) (fun _ => yield v)
      (Parse.accept k >>= fun _ => Pure.pure v) := by
  have hopen := Kind.isOpen_of_isFixed hk
  refine (Parses.bind_quiet (Parses.terminal (Kind.isScanned_of_isFixed hk)) fun _ =>
    Quiet.pure v).map (fun _ => ()) ?_ (fun _ => rfl) (fun _ => rfl) ?_ (fun _ => grows_yield v)
  · intro t
    show [{ kind := k }] = [t.1.word]
    rw [t.2.word_of_closed hopen]
  · intro _
    refine ⟨(Category.terminal k (Kind.isScanned_of_isFixed hk)).sample, ?_⟩
    show [Token.word _] = [{ kind := k }]
    rw [Token.word_of_closed hopen]
    rfl

/-- Steps may be grouped. -/
theorem Parses.assoc {β' γ' : Type} {m : Production β'} {f : β' → Production γ'} {k : γ' → Production β}
    (h : Parses room nodes C G ((m >>= f) >>= k)) : Parses room nodes C G (m >>= fun v => f v >>= k) := by
  rw [bind_assoc] at h
  exact h

/-- A series: an item and, as the token ahead says, the rest behind a separator. -/
theorem Parses.series {S T : Category (Series α)} {item : α → Translation Unit} {m tail : Production Unit}
    {P : Kind → Prop} [DecidablePred P] (separator : List Word)
    (hS : ∀ s, S.words s = s.words separator C.words) (hT : ∀ s, T.words s = separator ++ S.words s)
    (hcontinues : ∀ k, S.continues k = T.continues k)
    (apart : ∀ k, C.continues k = true → T.starts k = false)
    (joined : ∀ k, T.continues k = (T.starts k || C.continues k)) (hP : ∀ k, P k ↔ T.starts k = true)
    (hroom : room ≤ room' + 1) (hm : Parses room nodes C item m)
    (htail : Parses room' nodes T (Series.translate item) tail) :
    Parses room nodes S (Series.translate item)
      (m >>= fun _ => Parse.peek >>= fun tok => if P tok.kind then tail else Pure.pure ()) := by
  have hone : ∀ a, C.words a ++ [] = S.words ⟨a, []⟩ := fun a => (hS ⟨a, []⟩).symm
  have hmore : ∀ a s, C.words a ++ T.words s = S.words ⟨a, s.first :: s.rest⟩ := by
    intro a s
    rw [hT, hS, hS, Series.words, Series.words, List.flatMap_cons, List.append_assoc]
  refine (Parses.withTail apart joined hP hroom hm fun _ => htail).map
    (fun p => ⟨p.1, p.2.elim [] fun s => s.first :: s.rest⟩) ?_ ?_ hcontinues ?_
    (Series.grows_translate hm.grows)
  · rintro ⟨a, _ | s⟩
    · exact (hone a).symm
    · exact (hmore a s).symm
  · rintro ⟨a, _ | s⟩ <;> rfl
  · rintro ⟨a, _ | ⟨b, rest⟩⟩
    · exact ⟨(a, none), hone a⟩
    · exact ⟨(a, some ⟨b, rest⟩), hmore a ⟨b, rest⟩⟩

/-- One of several forms, which the token ahead selects. -/
theorem Parses.alternative {k : Kind} (hk : tok.kind = k) (h : Parses room nodes D H m) (φ : δ → α)
    (hwords : ∀ b, C.words (φ b) = D.words b) (hG : ∀ b, G (φ b) = H b)
    (hcontinues : ∀ k, C.continues k = D.continues k)
    (hcover : ∀ a w rest, C.words a = w :: rest → w.kind = k → ∃ b, D.words b = C.words a) :
    ParsesOn tok room nodes C G m where
  steady := h.steady
  outcome := by
    intro s hs htok
    refine (h.outcome hs).embed φ hwords hG hcontinues ?_ hs.calm
    intro tok' a rest htok' hw
    rw [htok] at htok'
    cases htok'
    exact hcover a _ rest hw hk

/-- No phrase starts as the text ahead does, and some do with each of the kinds required. -/
theorem ParsesOn.expected {kinds : List Kind} {f : Unit → Production β} (hkinds : kinds ≠ [])
    (hno : C.starts tok.kind = false)
    (hsamples : ∀ k ∈ kinds, C.Offers k) (hgrows : ∀ a, Grows (G a)) (hf : ∀ v, Steady (f v)) :
    ParsesOn tok room nodes C G (Parse.expected tok kinds >>= f) where
  steady := (Steady.expected tok kinds).bind hf
  outcome := by
    intro s h htok
    have hkind : tok.kind ∉ kinds := by
      intro hmem
      obtain ⟨a, w, rest, hw, hkind, _⟩ := hsamples tok.kind hmem
      obtain ⟨w', rest', hw', hstart⟩ := C.starts_words a
      rw [hw] at hw'
      rw [← (List.cons.inj hw').1, hkind, hno] at hstart
      cases hstart
    refine .failed ⟨s.stream, kinds, s.generator.instructions⟩ [] ?_ rfl rfl ?_ ?_
    · obtain ⟨transcript, hrun⟩ := run_expected h.calm tok kinds
      refine FirstError.ShownBy.bind ?_ hf
      rw [hrun]
      exact .of_report htok hkinds hkind rfl rfl
    · intro next hnext
      cases next with
      | none => exact absurd hnext hkinds
      | some k =>
        obtain ⟨a, w, rest, hw, hk, hwritable⟩ := hsamples k hnext
        refine ⟨a, C.words a, rfl, hwritable, fun k' hk' => ?_, hgrows a _⟩
        rw [← Option.mem_some_iff.1 hk', hw, ← hk]
        rfl
    · intro tok' htok' a u _ hl
      rw [htok] at htok'
      cases htok'
      obtain ⟨w, rest, hw, hstart⟩ := C.starts_words a
      rw [hw] at hl
      rw [← (List.cons_prefix_cons.1 hl).1, Token.kind_word, hno] at hstart
      cases hstart

/-- Looking ahead and then going on as the token says. -/
theorem Parses.peek {f : Token → Production β} (hgrows : ∀ a, Grows (G a))
    (hf : ∀ tok, ParsesOn tok room nodes C G (f tok)) :
    Parses room nodes C G (Parse.peek >>= f) where
  steady := Steady.peek.bind fun tok => (hf tok).steady
  grows := hgrows
  outcome := by
    intro s h
    have hself : s.Reads [] s := .refl h.calm
    cases hpeek : s.stream.peek with
    | error e =>
      refine .of_fault [] (run_bind_of_error (run_peek_of_error hpeek)) hself hpeek
        ⟨C.sample, C.words C.sample, rfl, C.writable_sample, fun k hk => ?_, hgrows _ _⟩
      cases hk
    | ok tok =>
      exact Outcome.behind id hself (run_bind_of_ok (run_peek_of_ok hpeek)) (fun _ => rfl)
        (fun _ => rfl) (fun _ => rfl) (fun _ _ _ hno => hno) ((hf tok).outcome h hpeek)

end

end

end MicroLang
