import MicroLang.Proofs.Depth
import MicroLang.Proofs.Arena
import MicroLang.Proofs.Invariance
import MicroLang.Proofs.Spelling

/-!
# Descending without a bound

The productions call each other without an end in sight: behind the last token the end of the source is
delivered for ever, and a production that finds nothing it knows takes nothing.  Here they are written
without the bound on their depth.  A call is only named, and what it does is said by the rules of evaluation,
so a descent has an outcome exactly if finitely many rules lead to one.  The same holds for the walks of the
tree that a trace shows.  A walk that meets a number that names no node leads nowhere.

What a descent reads is only named too.  It looks at tokens, takes them and asks for the text ahead, and a source
of tokens answers.  Streams are such a source.

A production with a bound that is not exceeded has the outcome of the descent, and it leaves a tree that can
be walked.  No parse of a scanned source exceeds the bound that it is given, so the descent of a parse always
has an outcome.
-/

namespace MicroLang

open Parse

/-! ### Walks -/

namespace Tree

/-- A walk that has these nodes still to visit ends, and this is what it shows of the leaves it meets. -/
inductive Walks (t : Tree) : List Nat → Text → Prop where
  | done : Walks t [] []
  | leaf {i : Nat} {n : Node} {rest : List Nat} {shown : Text} (node : t.nodes[i]? = some n)
      (children : n.children = []) (walks : Walks t rest shown) :
      Walks t (i :: rest) (n.content.display ++ text " " ++ shown)
  | inner {i : Nat} {n : Node} {rest : List Nat} {shown : Text} (node : t.nodes[i]? = some n)
      (children : n.children ≠ []) (walks : Walks t (n.children ++ rest) shown) : Walks t (i :: rest) shown

theorem Walks.unique {t : Tree} {is : List Nat} {shown shown' : Text} (h : t.Walks is shown)
    (h' : t.Walks is shown') : shown = shown' := by
  induction h generalizing shown' with
  | done =>
    cases h'
    rfl
  | leaf node children _ ih =>
    cases h' with
    | leaf node' _ walks =>
      cases node.symm.trans node'
      rw [ih walks]
    | inner node' children' =>
      cases node.symm.trans node'
      exact absurd children children'
  | inner node children _ ih =>
    cases h' with
    | leaf node' children' =>
      cases node.symm.trans node'
      exact absurd children' children
    | inner node' _ walks =>
      cases node.symm.trans node'
      exact ih walks

/-- Walks from the root end, and all numbers that they meet are those of nodes. -/
structure Walkable (t : Tree) : Prop where
  ordered : t.Ordered
  root_lt : root < t.size

variable {t : Tree}

theorem Walkable.attach (h : t.Walkable) {parent : Nat} (hparent : parent < t.size) (content : Content) :
    (t.attach parent content).Walkable where
  ordered := h.ordered.attach hparent
  root_lt := by
    rw [size_attach]
    exact Nat.lt_succ_of_lt h.root_lt

/-- What a derivation shows of the leaves below a node. -/
def derivationAt (t : Tree) (i : Nat) : Text := (t.leaves i).flatMap fun k => t.shown k ++ text " "

/-- A walk visits the subtree of a node before it goes on. -/
theorem Ordered.walks_cons (h : t.Ordered) : ∀ i < t.size, ∀ rest shown, t.Walks rest shown →
    t.Walks (i :: rest) (t.derivationAt i ++ shown) := by
  refine h.induction fun i hi ih rest shown hwalks => ?_
  obtain ⟨n, hn⟩ := exists_node hi
  have hchildren := children_of_getElem? hn
  by_cases hnil : n.children = []
  · have hleaf : t.derivationAt i = n.content.display ++ text " " := by
      rw [derivationAt, h.leaves_of_nil hi (hchildren.trans hnil)]
      simp [Tree.shown, content?, hn]
    rw [hleaf]
    exact .leaf hn hnil hwalks
  · have hinner : t.derivationAt i = n.children.flatMap t.derivationAt := by
      rw [derivationAt, h.leaves_of_ne_nil hi (by rwa [hchildren]), below, hchildren, List.flatMap_assoc]
      rfl
    rw [hinner]
    refine .inner hn hnil ?_
    rw [hchildren] at ih
    -- the children are visited one after the other
    generalize n.children = cs at ih
    induction cs with
    | nil => exact hwalks
    | cons c cs ihcs =>
      rw [List.flatMap_cons, List.append_assoc]
      exact ih c List.mem_cons_self _ _ (ihcs fun d hd => ih d (List.mem_cons_of_mem _ hd))

theorem Walkable.walks_root (h : t.Walkable) : t.Walks [root] t.derivation := by
  have hwalks := h.ordered.walks_cons root h.root_lt [] [] .done
  rwa [List.append_nil, derivationAt, ← h.ordered.derivation_eq h.root_lt] at hwalks

end Tree

/-! ### Descents -/

/-- The productions that can be met again below themselves, each with the node that it expands. -/
inductive Recursion : Type → Type where
  | expression (node : Nat) : Recursion Operand
  | idList (node : Nat) : Recursion Unit
  | exprList (node : Nat) : Recursion Unit
  | statementList (node : Nat) : Recursion Unit

/-- A step without calls. -/
inductive Operation : Type → Type 1 where
  | pure {α : Type} (v : α) : Operation α
  | enter (production : Text) : Operation Unit
  | peek : Operation Token
  | take : Operation Token
  | expected (tok : Token) (kinds : List Kind) : Operation Unit
  /-- A token of the right kind ends the recovery. -/
  | recovered : Operation Unit
  | add (parent : Nat) (content : Content) : Operation Nat
  | act {α : Type} (action : Bool → Generator → Step α) : Operation α

/-- A part of a parse in which steps are named and productions are called by name. -/
inductive Descent : Type → Type 1 where
  | once {α : Type} (op : Operation α) : Descent α
  /-- One part behind the other. -/
  | chain {α β : Type} (d : Descent α) (g : α → Descent β) : Descent β
  /-- Notes how far the derivation has come. -/
  | derive (n : Nonterminal) : Descent Unit
  | call {α : Type} (c : Recursion α) : Descent α

namespace Descent

instance : Monad Descent where
  pure v := .once (.pure v)
  bind := .chain

instance : MonadLift Operation Descent := ⟨.once⟩

open Operation

/-- Takes the token ahead, which should be of the given kind. -/
def accept (kind : Kind) : Descent Token := do
  enter (text "match(" ++ kind.name ++ text ")")
  let tok ← take
  if tok.kind = kind then recovered else expected tok [kind]
  return tok

/-- Appends a node for a nonterminal that will be expanded there. -/
def branch (parent : Nat) (n : Nonterminal) : Descent Nat :=
  add parent (.label (GrammarSymbol.nonterminal n).label)

/-- Appends a node for a terminal with a fixed text. -/
def mark (parent : Nat) (kind : Kind) : Descent Unit := do
  let _ ← add parent (.label (GrammarSymbol.terminal kind).label)

/-- Appends a node for a token. -/
def leaf (parent : Nat) (tok : Token) : Descent Unit := do
  let _ ← add parent (.token tok)

/-! ### The productions -/

/-- An identifier, attached to the tree without any action. -/
def acceptIdentifier (node : Nat) : Descent Token := do
  enter Nonterminal.ident.name
  let tok ← accept .id
  leaf node tok
  derive .ident
  return tok

/-- An identifier, declared on its first appearance. -/
def ident (node : Nat) : Descent Operand := do
  let tok ← acceptIdentifier node
  act fun muted => Generator.identifier muted tok.literal

/-- An additive operator. -/
def addOp (node : Nat) : Descent Opcode := do
  enter Nonterminal.addOp.name
  let tok ← peek
  if tok.kind.isAddOp then
    leaf node tok
    derive .addOp
    let op ← accept tok.kind
    act fun _ => Generator.operation op.literal
  else
    expected tok [.plusOp, .minusOp]
    return .add

/-- A parenthesised expression, an identifier or a number. -/
def primary (node : Nat) : Descent Operand := do
  enter Nonterminal.primary.name
  let tok ← peek
  match tok.kind with
  | .lParen =>
    mark node .lParen
    let inner ← branch node .expression
    mark node .rParen
    derive .primary
    let _ ← accept .lParen
    let value ← call (.expression inner)
    let _ ← accept .rParen
    return value
  | .id =>
    let name ← branch node .ident
    derive .primary
    ident name
  | .intLiteral =>
    leaf node tok
    derive .primary
    let number ← accept .intLiteral
    act fun _ => Generator.literal number.literal
  | _ =>
    expected tok [.lParen, .id, .intLiteral]
    return {}

/-- A primary, or a primary, an operator and an expression. -/
def expression (node : Nat) : Descent Operand := do
  enter Nonterminal.expression.name
  let first ← branch node .primary
  derive .expression
  let left ← primary first
  if (← peek).kind.isAddOp then
    let operator ← branch node .addOp
    let rest ← branch node .expression
    derive .expression
    let op ← addOp operator
    let right ← call (.expression rest)
    act fun muted => Generator.combine muted left op right
  else return left

/-- Identifiers with commas between them. -/
def idList (node : Nat) : Descent Unit := do
  enter Nonterminal.idList.name
  let name ← branch node .ident
  derive .idList
  let operand ← ident name
  act fun muted => Generator.readInto muted operand
  if (← peek).kind = .comma then
    mark node .comma
    let rest ← branch node .idList
    derive .idList
    let _ ← accept .comma
    call (.idList rest)

/-- Expressions with commas between them. -/
def exprList (node : Nat) : Descent Unit := do
  enter Nonterminal.exprList.name
  let value ← branch node .expression
  derive .exprList
  let operand ← call (.expression value)
  act fun muted => Generator.writeExpression muted operand
  if (← peek).kind = .comma then
    mark node .comma
    let rest ← branch node .exprList
    derive .exprList
    let _ ← accept .comma
    call (.exprList rest)

/-- A keyword and a list in parentheses. -/
def enclosed (node : Nat) (k : Kind) (n : Nonterminal) (list : Nat → Recursion Unit) : Descent Unit := do
  mark node k
  mark node .lParen
  let inner ← branch node n
  mark node .rParen
  mark node .semiColon
  derive .statement
  let _ ← accept k
  let _ ← accept .lParen
  call (list inner)
  let _ ← accept .rParen
  let _ ← accept .semiColon

/-- An assignment, a read statement or a write statement. -/
def statement (node : Nat) : Descent Unit := do
  enter Nonterminal.statement.name
  let tok ← peek
  match tok.kind with
  | .id =>
    let name ← branch node .ident
    mark node .assignOp
    let value ← branch node .expression
    mark node .semiColon
    derive .statement
    let target ← acceptIdentifier name
    let _ ← accept .assignOp
    let source ← call (.expression value)
    let destination ← act fun muted => Generator.identifier muted target.literal
    act fun muted => Generator.assign muted source destination
    let _ ← accept .semiColon
  | .readSym => enclosed node .readSym .idList .idList
  | .writeSym => enclosed node .writeSym .exprList .exprList
  | _ => expected tok [.id, .readSym, .writeSym]

/-- One statement or more. -/
def statementList (node : Nat) : Descent Unit := do
  enter Nonterminal.statementList.name
  let first ← branch node .statement
  derive .statementList
  statement first
  if (← peek).kind.isStatementStart then
    let rest ← branch node .statementList
    derive .statementList
    call (.statementList rest)

/-- Statements between `begin` and `end`. -/
def program (node : Nat) : Descent Unit := do
  enter Nonterminal.program.name
  mark node .beginSym
  let list ← branch node .statementList
  mark node .endSym
  derive .program
  act fun _ => Generator.start
  let _ ← accept .beginSym
  call (.statementList list)
  let _ ← accept .endSym

/-- A program and the end of the source. -/
def systemGoal : Descent Unit := do
  enter Nonterminal.systemGoal.name
  let body ← branch Tree.root .program
  mark Tree.root .eofSym
  derive .systemGoal
  program body
  let _ ← accept .eofSym
  act fun muted => Generator.finish muted

end Descent

/-- What is called. -/
def Recursion.body {α : Type} : Recursion α → Descent α
  | .expression node => Descent.expression node
  | .idList node => Descent.idList node
  | .exprList node => Descent.exprList node
  | .statementList node => Descent.statementList node

/-- What answers a descent.  It need not have an answer. -/
structure TokenSource (Source : Type) where
  peek? : Source → Option (Except LexicalError Token × Source)
  next? : Source → Option (Except LexicalError Token × Source)
  remaining? : Source → Option Text

/-- A stream always answers.  An error is not passed. -/
def Stream.source : TokenSource Stream where
  peek? s := some (s.peek, s)
  next? s := some (s.peek, if s.peek.isOk then s.rest else s)
  remaining? s := some s.remaining

theorem Stream.peek?_source (s : Stream) : source.peek? s = some (s.peek, s) := rfl

theorem Stream.next?_source_of_ok {s : Stream} {tok : Token} (h : s.peek = .ok tok) :
    source.next? s = some (.ok tok, s.rest) := by
  show some (s.peek, if s.peek.isOk then s.rest else s) = _
  rw [h]
  rfl

theorem Stream.next?_source_of_error {s : Stream} {e : LexicalError} (h : s.peek = .error e) :
    source.next? s = some (.error e, s) := by
  show some (s.peek, if s.peek.isOk then s.rest else s) = _
  rw [h]
  rfl

variable {α β Source : Type}

/-- The value or the abort of a run, with the state that it ended in. -/
def Descent.ofResult : EStateM.Result Abort (Parsing Source) α → Except Abort α × Parsing Source
  | .ok v s => (.ok v, s)
  | .error e s => (.error e, s)

open Descent (ofResult)

/-- What a step does with a source that has an answer if it is asked for one. -/
def Operation.outcome? (source : TokenSource Source) (s : Parsing Source) :
    Operation α → Option (Except Abort α × Parsing Source)
  | .pure v => some (.ok v, s)
  | .enter production =>
    if s.tracing then
      (source.remaining? s.stream).map fun shown => ofResult ((record [.enter production shown]).run s)
    else some (.ok (), s)
  | .peek =>
    (source.peek? s.stream).map fun
      | (.ok tok, stream) => (.ok tok, { s with stream })
      | (.error e, stream) => (.error (.lexical e), { s with stream })
  | .take =>
    (source.next? s.stream).map fun
      | (.ok tok, stream) => (.ok tok, { s with stream, current := tok })
      | (.error e, stream) => (.error (.lexical e), { s with stream })
  | .expected tok kinds => some (ofResult ((Parse.expected tok kinds).run s))
  | .recovered => some (.ok (), { s with recovering := false })
  | .add parent content => some (ofResult ((Parse.add parent content).run s))
  | .act action => some (ofResult ((Parse.act action).run s))

namespace Descent

/-! ### Evaluation -/

/-- The descent ends from a state, with this outcome. -/
inductive Ends (source : TokenSource Source) :
    {α : Type} → Descent α → Parsing Source → Except Abort α × Parsing Source → Prop where
  | once {α : Type} {op : Operation α} {s : Parsing Source} {r : Except Abort α × Parsing Source}
      (outcome : op.outcome? source s = some r) : Ends source (.once op) s r
  | go {α β : Type} {d : Descent α} {g : α → Descent β} {s s' : Parsing Source} {v : α}
      {r : Except Abort β × Parsing Source} (first : Ends source d s (.ok v, s'))
      (rest : Ends source (g v) s' r) : Ends source (.chain d g) s r
  | stop {α β : Type} {d : Descent α} {g : α → Descent β} {s s' : Parsing Source} {e : Abort}
      (first : Ends source d s (.error e, s')) : Ends source (.chain d g) s (.error e, s')
  | silent {n : Nonterminal} {s : Parsing Source} (tracing : s.tracing = false) :
      Ends source (.derive n) s (.ok (), s)
  | traced {n : Nonterminal} {s : Parsing Source} {leaves : Text} (tracing : s.tracing = true)
      (walks : s.tree.Walks [Tree.root] leaves) :
      Ends source (.derive n) s (ofResult ((record [.derive n.name leaves]).run s))
  | call {α : Type} {c : Recursion α} {s : Parsing Source} {r : Except Abort α × Parsing Source}
      (body : Ends source c.body s r) : Ends source (.call c) s r

/-- Every outcome is the only one. -/
theorem Ends.unique {source : TokenSource Source} {d : Descent α} {s : Parsing Source}
    {r r' : Except Abort α × Parsing Source} (h : d.Ends source s r) (h' : d.Ends source s r') : r = r' := by
  induction h with
  | once outcome =>
    cases h' with
    | once outcome' => exact Option.some.inj (outcome.symm.trans outcome')
  | go _ _ ihfirst ihrest =>
    cases h' with
    | go first rest =>
      cases ihfirst first
      exact ihrest rest
    | stop first => cases ihfirst first
  | stop _ ih =>
    cases h' with
    | go first rest => cases ih first
    | stop first =>
      cases ih first
      rfl
  | silent tracing =>
    cases h' with
    | silent => rfl
    | traced tracing' => cases tracing.symm.trans tracing'
  | traced tracing walks =>
    cases h' with
    | silent tracing' => cases tracing.symm.trans tracing'
    | traced _ walks' => rw [walks.unique walks']
  | call _ ih =>
    cases h' with
    | call body => exact ih body

/-! ### Outcomes of bounded productions -/

/-- Unless its bound is exceeded, the production has the outcome of the descent and leaves a tree that can be
walked. -/
def Approximates (m : Production α) (d : Descent α) : Prop :=
  ∀ s, s.tree.Walkable → (∃ s', m.run s = .error .tooDeep s') ∨
    d.Ends Stream.source s (ofResult (m.run s)) ∧ (stateOf (m.run s)).tree.Walkable

/-- The production leaves a tree that can be walked. -/
abbrev Clears (m : Production α) : Prop := Keeps (fun s => s.tree.Walkable) m

theorem clears_of_idle {m : Production α} (h : Idle m) : Clears m := by
  intro s hs
  obtain ⟨v, generator, transcript, hrun⟩ := h s
  rw [hrun]
  exact hs

theorem clears_peek : Clears Parse.peek := by
  intro s hs
  cases hpeek : s.stream.peek with
  | error e =>
    rw [run_peek_of_error hpeek]
    exact hs
  | ok tok =>
    rw [run_peek_of_ok hpeek]
    exact hs

theorem clears_take : Clears Parse.take := by
  intro s hs
  cases hpeek : s.stream.peek with
  | error e =>
    rw [run_take_of_error hpeek]
    exact hs
  | ok tok =>
    rw [run_take_of_ok hpeek]
    exact hs

theorem clears_expected (tok : Token) (kinds : List Kind) : Clears (Parse.expected tok kinds) := by
  intro s hs
  obtain ⟨tracker, transcript, hrun, -⟩ := run_expected_cases s tok kinds
  rw [hrun]
  exact hs

theorem clears_add (parent : Nat) (content : Content) : Clears (Parse.add parent content) := by
  intro s hs
  show (stateOf (Parse.add parent content s)).tree.Walkable
  unfold Parse.add
  cases hadd : s.tree.add parent content with
  | error e => exact hs
  | ok added =>
    obtain ⟨p, hp, -, htree, -⟩ := Tree.add_eq_ok hadd
    show added.1.Walkable
    rw [htree]
    exact hs.attach hp content

/-! The steps that read do with a stream what the productions do. -/

theorem outcome?_enter (production : Text) (s : ParseState) :
    (Operation.enter production).outcome? Stream.source s = some (ofResult ((Parse.enter production).run s)) := by
  rw [Parse.enter, run_bind_of_ok (run_get s), Operation.outcome?]
  cases s.tracing with
  | false => rfl
  | true => rfl

theorem outcome?_peek (s : ParseState) :
    Operation.peek.outcome? Stream.source s = some (ofResult (Parse.peek.run s)) := by
  rw [Operation.outcome?, Stream.peek?_source]
  cases hpeek : s.stream.peek with
  | ok tok =>
    rw [run_peek_of_ok hpeek]
    rfl
  | error e =>
    rw [run_peek_of_error hpeek]
    rfl

theorem outcome?_take (s : ParseState) :
    Operation.take.outcome? Stream.source s = some (ofResult (Parse.take.run s)) := by
  cases hpeek : s.stream.peek with
  | ok tok =>
    rw [run_take_of_ok hpeek, Operation.outcome?, Stream.next?_source_of_ok hpeek]
    rfl
  | error e =>
    rw [run_take_of_error hpeek, Operation.outcome?, Stream.next?_source_of_error hpeek]
    rfl

namespace Approximates

/-- A production does what a step does with a stream. -/
theorem once {m : Production α} {op : Operation α}
    (hop : ∀ s, op.outcome? Stream.source s = some (ofResult (m.run s))) (h : Clears m) :
    Approximates m (.once op) :=
  fun s hs => .inr ⟨.once (hop s), h s hs⟩

theorem pure (v : α) : Approximates (pure v) (pure v) := once (fun _ => rfl) (.pure v)

theorem throw_tooDeep (d : Descent α) : Approximates (throw .tooDeep) d := fun s _ => .inl ⟨s, rfl⟩

theorem call {m : Production α} {c : Recursion α} (h : Approximates m c.body) : Approximates m (.call c) := by
  intro s hs
  rcases h s hs with hdeep | ⟨hends, hs'⟩
  · exact .inl hdeep
  · exact .inr ⟨.call hends, hs'⟩

theorem bind {m : Production α} {d : Descent α} {f : α → Production β} {g : α → Descent β}
    (hm : Approximates m d) (hf : ∀ v, Approximates (f v) (g v)) : Approximates (m >>= f) (d >>= g) := by
  intro s hs
  rcases hm s hs with ⟨s', hdeep⟩ | ⟨hends, hs'⟩
  · exact .inl ⟨s', run_bind_of_error hdeep⟩
  · cases hrun : m.run s with
    | error e s' =>
      rw [hrun] at hends hs'
      rw [run_bind_of_error hrun]
      exact .inr ⟨.stop hends, hs'⟩
    | ok v s' =>
      rw [hrun] at hends hs'
      rw [run_bind_of_ok hrun]
      rcases hf v s' hs' with hdeep | ⟨hrest, hs''⟩
      · exact .inl hdeep
      · exact .inr ⟨.go hends hrest, hs''⟩

end Approximates

/-- The walk that a trace needs ends with the derivation of the tree. -/
theorem approximates_derive (n : Nonterminal) : Approximates (Parse.derive n) (derive n) := by
  intro s hs
  refine .inr ⟨?_, clears_of_idle (idle_derive n) s hs⟩
  rw [Parse.derive, run_bind_of_ok (run_get s)]
  cases htracing : s.tracing with
  | false => exact .silent htracing
  | true => exact .traced htracing hs.walks_root

/-! Steps that a production and its descent have in common, with what follows them. -/

namespace Approximates

section

variable {f : Unit → Production β} {g : Unit → Descent β} (hf : ∀ v, Approximates (f v) (g v))

include hf

theorem enter {production : Text} :
    Approximates (Parse.enter production >>= f) (liftM (Operation.enter production) >>= g) :=
  bind (once (outcome?_enter production) (clears_of_idle (idle_enter production))) hf

theorem derive {n : Nonterminal} : Approximates (Parse.derive n >>= f) (Descent.derive n >>= g) :=
  bind (approximates_derive n) hf

theorem mark {parent : Nat} {k : Kind} : Approximates (Parse.mark parent k >>= f) (Descent.mark parent k >>= g) :=
  bind (bind (once (fun _ => rfl) (clears_add _ _)) fun _ => pure ()) hf

theorem leaf {parent : Nat} {tok : Token} :
    Approximates (Parse.leaf parent tok >>= f) (Descent.leaf parent tok >>= g) :=
  bind (bind (once (fun _ => rfl) (clears_add _ _)) fun _ => pure ()) hf

theorem expected {tok : Token} {kinds : List Kind} :
    Approximates (Parse.expected tok kinds >>= f) (liftM (Operation.expected tok kinds) >>= g) :=
  bind (once (fun _ => rfl) (clears_expected tok kinds)) hf

end

theorem branch {f : Nat → Production β} {g : Nat → Descent β} (hf : ∀ node, Approximates (f node) (g node))
    {parent : Nat} {n : Nonterminal} : Approximates (Parse.branch parent n >>= f) (Descent.branch parent n >>= g) :=
  bind (once (fun _ => rfl) (clears_add _ _)) hf

theorem act {action : Bool → Generator → Step α} :
    Approximates (Parse.act action) (liftM (Operation.act action)) :=
  once (fun _ => rfl) (clears_of_idle (idle_act action))

section

variable {f : Token → Production β} {g : Token → Descent β} (hf : ∀ tok, Approximates (f tok) (g tok))

include hf

theorem peek : Approximates (Parse.peek >>= f) (liftM Operation.peek >>= g) :=
  bind (once outcome?_peek clears_peek) hf

theorem take : Approximates (Parse.take >>= f) (liftM Operation.take >>= g) :=
  bind (once outcome?_take clears_take) hf

theorem accept {k : Kind} : Approximates (Parse.accept k >>= f) (Descent.accept k >>= g) := by
  refine bind (enter fun _ => take fun tok => ?_) hf
  split
  · exact bind (once (fun _ => rfl) fun _ hs => hs) fun _ => pure tok
  · exact expected fun _ => pure tok

end

end Approximates

/-! ### The productions approximate their descents -/

theorem approximates_acceptIdentifier (node : Nat) :
    Approximates (Parse.acceptIdentifier node) (acceptIdentifier node) :=
  .enter fun _ => .accept fun tok => .leaf fun _ => .derive fun _ => .pure tok

theorem approximates_ident (node : Nat) : Approximates (Parse.ident node) (ident node) :=
  .bind (approximates_acceptIdentifier node) fun _ => .act

theorem approximates_addOp (node : Nat) : Approximates (Parse.addOp node) (addOp node) := by
  refine .enter fun _ => .peek fun tok => ?_
  split
  · exact .leaf fun _ => .derive fun _ => .accept fun _ => .act
  · exact .expected fun _ => .pure _

theorem approximates_primary {e : Nat → Production Operand}
    (he : ∀ node, Approximates (e node) (.call (.expression node))) (node : Nat) :
    Approximates (Parse.primary e node) (primary node) := by
  refine .enter fun _ => .peek fun tok => ?_
  generalize tok.kind = k
  cases k with
  | lParen =>
    exact .mark fun _ => .branch fun inner => .mark fun _ => .derive fun _ => .accept fun _ =>
      .bind (he inner) fun value => .accept fun _ => .pure value
  | id => exact .branch fun name => .derive fun _ => approximates_ident name
  | intLiteral => exact .leaf fun _ => .derive fun _ => .accept fun _ => .act
  | _ => exact .expected fun _ => .pure _

theorem approximates_expression (bound node : Nat) :
    Approximates (Parse.expression bound node) (.call (.expression node)) := by
  induction bound generalizing node with
  | zero => exact .throw_tooDeep _
  | succ bound ih =>
    rw [Parse.expression]
    refine .call (.enter fun _ => .branch fun first => .derive fun _ =>
      .bind (approximates_primary ih first) fun left => .peek fun tok => ?_)
    split
    · exact .branch fun operator => .branch fun rest => .derive fun _ =>
        .bind (approximates_addOp operator) fun _ => .bind (ih rest) fun _ => .act
    · exact .pure left

theorem approximates_idList (bound node : Nat) :
    Approximates (Parse.idList bound node) (.call (.idList node)) := by
  induction bound generalizing node with
  | zero => exact .throw_tooDeep _
  | succ bound ih =>
    rw [Parse.idList]
    refine .call (.enter fun _ => .branch fun name => .derive fun _ => .bind (approximates_ident name) fun _ =>
      .bind .act fun _ => .peek fun tok => ?_)
    split
    · exact .mark fun _ => .branch fun rest => .derive fun _ => .accept fun _ => ih rest
    · exact .pure ()

theorem approximates_exprList (bound node : Nat) :
    Approximates (Parse.exprList bound node) (.call (.exprList node)) := by
  induction bound generalizing node with
  | zero => exact .throw_tooDeep _
  | succ bound ih =>
    rw [Parse.exprList]
    refine .call (.enter fun _ => .branch fun value => .derive fun _ =>
      .bind (approximates_expression _ value) fun _ => .bind .act fun _ => .peek fun tok => ?_)
    split
    · exact .mark fun _ => .branch fun rest => .derive fun _ => .accept fun _ => ih rest
    · exact .pure ()

theorem approximates_enclosed {list : Nat → Production Unit} {c : Nat → Recursion Unit}
    (hlist : ∀ node, Approximates (list node) (.call (c node))) (node : Nat) (k : Kind) (n : Nonterminal) :
    Approximates (Parse.enclosed node k n list) (enclosed node k n c) :=
  .mark fun _ => .mark fun _ => .branch fun inner => .mark fun _ => .mark fun _ => .derive fun _ =>
    .accept fun _ => .accept fun _ => .bind (hlist inner) fun _ => .accept fun _ => .accept fun _ => .pure ()

theorem approximates_statement (bound node : Nat) :
    Approximates (Parse.statement bound node) (statement node) := by
  refine .enter fun _ => .peek fun tok => ?_
  generalize tok.kind = k
  cases k with
  | id =>
    exact .branch fun name => .mark fun _ => .branch fun value => .mark fun _ => .derive fun _ =>
      .bind (approximates_acceptIdentifier name) fun _ => .accept fun _ =>
        .bind (approximates_expression bound value) fun _ => .bind .act fun _ => .bind .act fun _ =>
          .accept fun _ => .pure ()
  | readSym => exact approximates_enclosed (approximates_idList bound) node _ _
  | writeSym => exact approximates_enclosed (approximates_exprList bound) node _ _
  | _ => exact .once (fun _ => rfl) (clears_expected tok _)

theorem approximates_statementList (bound node : Nat) :
    Approximates (Parse.statementList bound node) (.call (.statementList node)) := by
  induction bound generalizing node with
  | zero => exact .throw_tooDeep _
  | succ bound ih =>
    rw [Parse.statementList]
    refine .call (.enter fun _ => .branch fun first => .derive fun _ =>
      .bind (approximates_statement _ first) fun _ => .peek fun tok => ?_)
    split
    · exact .branch fun rest => .derive fun _ => ih rest
    · exact .pure ()

theorem approximates_program (bound node : Nat) : Approximates (Parse.program bound node) (program node) :=
  .enter fun _ => .mark fun _ => .branch fun list => .mark fun _ => .derive fun _ => .bind .act fun _ =>
    .accept fun _ => .bind (approximates_statementList bound list) fun _ => .accept fun _ => .pure ()

theorem approximates_systemGoal (bound : Nat) : Approximates (Parse.systemGoal bound) systemGoal :=
  .enter fun _ => .branch fun body => .mark fun _ => .derive fun _ =>
    .bind (approximates_program bound body) fun _ => .accept fun _ => .act

/-- The descent of a parse of scanned tokens ends, and it ends as the parse does. -/
theorem ends_systemGoal {s : ParseState} (hscanned : s.stream.Scanned) (htree : s.tree.Walkable) :
    systemGoal.Ends Stream.source s (ofResult ((Parse.systemGoal (s.stream.tokens.length + 1)).run s)) ∧
      (stateOf ((Parse.systemGoal (s.stream.tokens.length + 1)).run s)).tree.Walkable := by
  rcases approximates_systemGoal (s.stream.tokens.length + 1) s htree with ⟨s', hdeep⟩ | hends
  · exact absurd hdeep (run_systemGoal_ne_tooDeep hscanned)
  · exact hends

end Descent

end MicroLang
