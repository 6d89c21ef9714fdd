import MicroLang.Compilation
import MicroLang.Proofs.Likeness

/-!
# Parses at other places

Whatever a parse handles has a place: its tokens, the lexical error that may end it, the nodes that show
tokens and the diagnostics.  A relocation moves all of them at once.

Two streams that become the same when they are moved are parsed alike: the trees, the diagnostics and
the reasons to stop become the same as well, and the generators are the same without being moved.  So
a relocation that forgets something says that a parse does not depend on it, and the one that leaves
everything in place says that only the stream matters, and not whether the run is traced.
-/

namespace MicroLang

open Parse

/-- A map of positions that can be exchanged with a change of the file's name. -/
structure Relocation where
  place : Position → Position
  rename : ∀ p filename, place { p with filename } = { place p with filename }

namespace Relocation

/-- Everything stays where it is. -/
def stay : Relocation where
  place p := p
  rename _ _ := rfl

/-- Lines, columns and offsets are forgotten. -/
def forget : Relocation where
  place p := { filename := p.filename }
  rename _ _ := rfl

end Relocation

/-! ### What has a place -/

def Token.moved (move : Relocation) (tok : Token) : Token := { tok with pos := move.place tok.pos }

def LexicalError.moved (move : Relocation) (e : LexicalError) : LexicalError :=
  { e with pos := move.place e.pos }

def Ending.moved (move : Relocation) : Ending → Ending
  | .eof tok => .eof (tok.moved move)
  | .fault e => .fault (e.moved move)

def Stream.moved (move : Relocation) (s : Stream) : Stream :=
  { tokens := s.tokens.map (Token.moved move), ending := s.ending.moved move }

def Content.moved (move : Relocation) : Content → Content
  | .label name => .label name
  | .token tok => .token (tok.moved move)

def Node.moved (move : Relocation) (n : Node) : Node := { n with content := n.content.moved move }

def Tree.moved (move : Relocation) (t : Tree) : Tree := ⟨t.nodes.map (Node.moved move)⟩

def Diagnostic.moved (move : Relocation) (d : Diagnostic) : Diagnostic :=
  { d with pos := move.place d.pos }

/-- Diagnostics are counted by their severity, which does not move. -/
theorem Severity.tally_moved (s : Severity) (move : Relocation) (ds : Array Diagnostic) :
    s.tally (ds.map (Diagnostic.moved move)) = s.tally ds := by
  rw [tally, Array.toList_map, List.countP_map]
  rfl

def Tracker.moved (move : Relocation) (t : Tracker) : Tracker where
  filename := t.filename
  diagnostics := t.diagnostics.map (Diagnostic.moved move)
  errorCount := t.errorCount
  warningCount := t.warningCount
  errors_counted := by rw [Severity.tally_moved, t.errors_counted]
  warnings_counted := by rw [Severity.tally_moved, t.warnings_counted]

variable {move : Relocation}

namespace Stream

theorem peek_moved (s : Stream) : (s.moved move).peek =
    (s.peek.map (Token.moved move)).mapError (LexicalError.moved move) := by
  obtain ⟨tokens, ending⟩ := s
  cases tokens with
  | cons tok tokens => rfl
  | nil => cases ending <;> rfl

theorem moved_cons (tok : Token) (s : Stream) :
    (s.cons tok).moved move = (s.moved move).cons (tok.moved move) := rfl

theorem rest_moved (s : Stream) : (s.moved move).rest = s.rest.moved move := by
  simp only [rest, moved, List.map_tail]

/-- Streams that become the same when moved show tokens that do, or errors that do. -/
theorem peek_cases {s s' : Stream} (h : s.moved move = s'.moved move) :
    (∃ tok tok', s.peek = .ok tok ∧ s'.peek = .ok tok' ∧ tok.moved move = tok'.moved move) ∨
      ∃ e e', s.peek = .error e ∧ s'.peek = .error e' ∧ e.moved move = e'.moved move := by
  have hpeek := congrArg Stream.peek h
  rw [peek_moved, peek_moved] at hpeek
  cases hs : s.peek with
  | ok tok =>
    cases hs' : s'.peek with
    | ok tok' =>
      rw [hs, hs'] at hpeek
      exact .inl ⟨tok, tok', rfl, rfl, Except.ok.inj hpeek⟩
    | error e' =>
      rw [hs, hs'] at hpeek
      cases hpeek
  | error e =>
    cases hs' : s'.peek with
    | ok tok' =>
      rw [hs, hs'] at hpeek
      cases hpeek
    | error e' =>
      rw [hs, hs'] at hpeek
      exact .inr ⟨e, e', rfl, rfl, Except.error.inj hpeek⟩

theorem length_of_moved {s s' : Stream} (h : s.moved move = s'.moved move) :
    s.tokens.length = s'.tokens.length := by
  have htokens := congrArg (fun s => s.tokens.length) h
  simpa only [moved, List.length_map] using htokens

end Stream

namespace Tree

theorem size_moved (t : Tree) : (t.moved move).size = t.size := Array.size_map

theorem moved_attach (t : Tree) (parent : Nat) (content : Content) :
    (t.attach parent content).moved move = (t.moved move).attach parent (content.moved move) := by
  unfold moved attach
  congr 1
  apply Array.ext_getElem?
  intro i
  simp only [Array.getElem?_map, Array.getElem?_push, Array.getElem?_modify, Array.size_map,
    Array.size_modify]
  split
  · rfl
  · split
    · cases t.nodes[i]? <;> rfl
    · rfl

theorem add_moved (t : Tree) (parent : Int) (content : Content) :
    (t.moved move).add parent (content.moved move) =
      (t.add parent content).map fun added => (added.1.moved move, added.2) := by
  unfold add index
  rw [size_moved]
  by_cases h : 0 ≤ parent ∧ parent.toNat < t.size
  · rw [if_pos h]
    simp only [Except.map, moved_attach]
  · rw [if_neg h]
    rfl

theorem children_moved (move : Relocation) (t : Tree) (i : Nat) :
    (t.moved move).children i = t.children i := by
  unfold children moved
  rw [Array.getElem?_map]
  cases t.nodes[i]? <;> rfl

theorem visitsFrom_moved (move : Relocation) (t : Tree) (descend : Nat → Bool) (height depth i : Nat) :
    (t.moved move).visitsFrom descend height depth i = t.visitsFrom descend height depth i := by
  induction height generalizing depth i with
  | zero => rfl
  | succ height ih =>
    have hbelow : (t.moved move).visitsFrom descend height (depth + 1) =
        t.visitsFrom descend height (depth + 1) := by
      funext j
      exact ih (depth + 1) j
    rw [visitsFrom, visitsFrom, children_moved, hbelow]

theorem allNodes_moved (move : Relocation) (t : Tree) :
    (t.moved move).allNodes = t.allNodes.map fun visit => (visit.1.moved move, visit.2) := by
  unfold allNodes visits
  rw [visitsFrom_moved, size_moved, List.map_filterMap]
  congr 1
  funext visit
  obtain ⟨i, depth⟩ := visit
  unfold moved
  dsimp only
  rw [Array.getElem?_map]
  cases t.nodes[i]? <;> rfl

/-- A derivation shows no places. -/
theorem derivation_moved (move : Relocation) (t : Tree) : (t.moved move).derivation = t.derivation := by
  unfold derivation derivationPieces
  rw [allNodes_moved, List.filterMap_map]
  congr 2
  funext visit
  obtain ⟨⟨content, parent, children⟩, depth⟩ := visit
  cases content <;> rfl

end Tree

namespace Tracker

theorem hasError_moved (t : Tracker) : (t.moved move).hasError = t.hasError := rfl

theorem moved_report (d : Diagnostic) (t : Tracker) :
    (t.report d).moved move = (t.moved move).report (d.moved move) :=
  eq_of_diagnostics rfl Array.map_push

/-- A diagnostic is placed by its token and named by its tracker. -/
theorem moved_errorAt (t : Tracker) (tok : Token) (message : Text) :
    (t.errorAt tok message).moved move = (t.moved move).errorAt (tok.moved move) message := by
  unfold errorAt Diagnostic.moved
  congr 1
  exact move.rename tok.pos t.filename

end Tracker

/-! ### Parses -/

/-- States that become the same when they are moved. -/
structure ParseState.SameUpTo (move : Relocation) (s s' : ParseState) : Prop where
  stream : s.stream.moved move = s'.stream.moved move
  tree : s.tree.moved move = s'.tree.moved move
  generator : s.generator = s'.generator
  tracker : s.tracker.moved move = s'.tracker.moved move
  recovering : s.recovering = s'.recovering

/-- Parses are compared after moving. -/
def Likeness.upTo (move : Relocation) : Likeness where
  state := ParseState.SameUpTo move
  token tok tok' := tok.moved move = tok'.moved move
  error e e' := e.moved move = e'.moved move

namespace Likeness

variable {s s' : ParseState}

theorem kind_eq_of_moved {tok tok' : Token} (h : tok.moved move = tok'.moved move) :
    tok.kind = tok'.kind := by
  have hkind : (tok.moved move).kind = (tok'.moved move).kind := by rw [h]
  exact hkind

theorem literal_eq_of_moved {tok tok' : Token} (h : tok.moved move = tok'.moved move) :
    tok.literal = tok'.literal := by
  have hliteral : (tok.moved move).literal = (tok'.moved move).literal := by rw [h]
  exact hliteral

theorem peek_upTo : (upTo move).Parallel (upTo move).token peek peek := by
  intro s s' hs
  rcases Stream.peek_cases hs.stream with ⟨tok, tok', hpeek, hpeek', htok⟩ | ⟨e, e', hpeek, hpeek', he⟩
  · rw [run_peek_of_ok hpeek, run_peek_of_ok hpeek']
    exact .ok htok hs
  · rw [run_peek_of_error hpeek, run_peek_of_error hpeek']
    exact .abort (.lexical he) hs

theorem take_upTo : (upTo move).Parallel (upTo move).token take take := by
  intro s s' hs
  rcases Stream.peek_cases hs.stream with ⟨tok, tok', hpeek, hpeek', htok⟩ | ⟨e, e', hpeek, hpeek', he⟩
  · rw [run_take_of_ok hpeek, run_take_of_ok hpeek']
    have hrest : s.stream.rest.moved move = s'.stream.rest.moved move := by
      rw [← Stream.rest_moved, ← Stream.rest_moved, hs.stream]
    exact .ok htok ⟨hrest, hs.tree, hs.generator, hs.tracker, hs.recovering⟩
  · rw [run_take_of_error hpeek, run_take_of_error hpeek']
    exact .abort (.lexical he) hs

theorem add_upTo (parent : Nat) {content content' : Content}
    (hcontent : content.moved move = content'.moved move) :
    (upTo move).Parallel Eq (add parent content) (add parent content') := by
  intro s s' hs
  have hadd : (s.tree.moved move).add parent (content.moved move) =
      (s'.tree.moved move).add parent (content'.moved move) := by
    rw [hs.tree, hcontent]
  rw [Tree.add_moved, Tree.add_moved] at hadd
  show (upTo move).Alike Eq (add parent content s) (add parent content' s')
  unfold add
  cases htree : s.tree.add parent content with
  | ok added =>
    cases htree' : s'.tree.add parent content' with
    | ok added' =>
      rw [htree, htree'] at hadd
      obtain ⟨tree, id⟩ := added
      obtain ⟨tree', id'⟩ := added'
      obtain ⟨hmoved, rfl⟩ := Prod.mk.inj (Except.ok.inj hadd)
      exact .ok rfl ⟨hs.stream, hmoved, hs.generator, hs.tracker, hs.recovering⟩
    | error e' =>
      rw [htree, htree'] at hadd
      cases hadd
  | error e =>
    cases htree' : s'.tree.add parent content' with
    | ok added' =>
      rw [htree, htree'] at hadd
      cases hadd
    | error e' =>
      rw [htree, htree'] at hadd
      obtain rfl := Except.error.inj hadd
      exact .abort (.stray e) hs

theorem expected_upTo {tok tok' : Token} (htok : tok.moved move = tok'.moved move) (kinds : List Kind) :
    (upTo move).Parallel Eq (expected tok kinds) (expected tok' kinds) := by
  intro s s' hs
  cases hrecovering : s.recovering with
  | true =>
    have hrecovering' : s'.recovering = true := by rw [← hs.recovering, hrecovering]
    rw [run_expected_of_recovering hrecovering, run_expected_of_recovering hrecovering']
    exact .ok rfl hs
  | false =>
    have hrecovering' : s'.recovering = false := by rw [← hs.recovering, hrecovering]
    obtain ⟨transcript, hrun⟩ := run_expected hrecovering tok kinds
    obtain ⟨transcript', hrun'⟩ := run_expected hrecovering' tok' kinds
    rw [hrun, hrun']
    have htracker : (s.tracker.report (complaint s.tracker tok kinds)).moved move =
        (s'.tracker.report (complaint s'.tracker tok' kinds)).moved move := by
      rw [Tracker.moved_report, Tracker.moved_report, complaint, complaint, Tracker.moved_errorAt,
        Tracker.moved_errorAt, hs.tracker, htok, kind_eq_of_moved htok]
    exact .ok rfl ⟨hs.stream, hs.tree, hs.generator, htracker, rfl⟩

/-- The actions see the same error state and the same generator. -/
theorem act_upTo {α : Type} (action : Bool → Generator → Step α) :
    (upTo move).Parallel Eq (act action) (act action) := by
  intro s s' hs
  obtain ⟨transcript, hrun⟩ := run_act action s
  obtain ⟨transcript', hrun'⟩ := run_act action s'
  have hmuted : s.tracker.hasError = s'.tracker.hasError := by
    rw [← Tracker.hasError_moved (t := s.tracker), hs.tracker, Tracker.hasError_moved]
  rw [hrun, hrun', hmuted, hs.generator]
  exact .ok rfl ⟨hs.stream, hs.tree, rfl, hs.tracker, hs.recovering⟩

/-- No step of a parse tells states apart that become the same when they are moved. -/
theorem kept_upTo (move : Relocation) : (upTo move).Kept where
  kind := kind_eq_of_moved
  literal := literal_eq_of_moved
  silent _ _ hs := ⟨hs.stream, hs.tree, hs.generator, hs.tracker, hs.recovering⟩
  calm hs := ⟨hs.stream, hs.tree, hs.generator, hs.tracker, rfl⟩
  peek := peek_upTo
  take := take_upTo
  expected kinds htok := expected_upTo htok kinds
  label parent _ := add_upTo parent rfl
  token parent htok := add_upTo parent (congrArg Content.token htok)
  act _ := act_upTo _

end Likeness

/-! ### Whole parses -/

/-- Results that become the same when they are moved. -/
structure Parsed.SameUpTo (move : Relocation) (p p' : Parsed) : Prop where
  tree : p.tree.moved move = p'.tree.moved move
  generator : p.state.generator = p'.state.generator
  tracker : p.state.tracker.moved move = p'.state.tracker.moved move
  lexicalError : p.lexicalError?.map (LexicalError.moved move) =
    p'.lexicalError?.map (LexicalError.moved move)

theorem Likeness.lexicalError_eq_of_ended {p p' : Parsed}
    (h : Option.Rel (upTo move).Ended p.abort p'.abort) :
    p.lexicalError?.map (LexicalError.moved move) = p'.lexicalError?.map (LexicalError.moved move) := by
  obtain ⟨_, abort⟩ := p
  obtain ⟨_, abort'⟩ := p'
  cases h with
  | none => rfl
  | some hended =>
    cases hended with
    | lexical he => exact congrArg some he
    | stray e => rfl
    | tooDeep => rfl

namespace Parsed

/-- Streams that become the same when moved have parses that do, traced or not. -/
theorem sameUpTo_ofSource {filename src src' : Text}
    (h : (Stream.ofSource filename src).moved move = (Stream.ofSource filename src').moved move)
    (tracker : Tracker) (tracing tracing' : Bool) :
    SameUpTo move (ofSource filename src tracker tracing) (ofSource filename src' tracker tracing') := by
  have hinitial : ParseState.SameUpTo move
      { stream := Stream.ofSource filename src, tracker, tracing, tracingActions := tracing }
      { stream := Stream.ofSource filename src', tracker, tracing := tracing', tracingActions := tracing' } :=
    ⟨h, rfl, rfl, rfl, rfl⟩
  obtain ⟨hstate, hended⟩ := (Likeness.kept_upTo move).ofState hinitial (Stream.length_of_moved h)
  exact ⟨hstate.tree, hstate.generator, hstate.tracker, Likeness.lexicalError_eq_of_ended hended⟩

end Parsed

/-! ### Errors of compilations -/

theorem Finding.isError_ofDiagnostic (d : Diagnostic) :
    (ofDiagnostic d).isError = decide (d.severity = .error) := by
  show decide (d.severity.name = Severity.error.name) = _
  cases d.severity <;> decide

namespace Compilation

/-- The error that a lexical error amounts to, or the diagnostics of a tracker. -/
def errorFrom (fault : Option LexicalError) (t : Tracker) : Option CompileError :=
  match fault with
  | some e => some (.ofLexical e)
  | none => if t.hasError then some (.syntactic (t.errors.map Finding.ofDiagnostic)) else none

theorem errorOf_eq_errorFrom (p : Parsed) :
    errorOf p = errorFrom p.lexicalError? p.state.tracker := by
  have herrors : (Output.ofParsed p).errors = p.state.tracker.errors.map Finding.ofDiagnostic := by
    unfold Output.errors Output.ofParsed Tracker.errors Parsed.diagnostics
    rw [List.filter_map]
    congr 1
    apply List.filter_congr
    intro d _
    exact Finding.isError_ofDiagnostic d
  unfold errorOf errorFrom Parsed.error?
  rw [herrors]
  cases p.lexicalError? with
  | some e => rfl
  | none =>
    dsimp only
    by_cases h : p.state.tracker.hasError = true
    · rw [if_pos h, if_pos h]
    · rw [if_neg h, if_neg h]

end Compilation

end MicroLang
