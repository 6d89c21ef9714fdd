import MicroLang.Proofs.Run

/-!
# What productions are composed of

All productions are put together from a few kinds of steps: noting that one was entered or how far the
derivation has come, looking at the token ahead, complaining about it, adding a node, performing an action,
accepting a token.  Whatever is true of every such step and survives putting one behind the other is true of
whole parses, also where it depends on whether a step ends or aborts.
-/

namespace MicroLang

open Parse

/-- The actions of the code generator that productions perform. -/
inductive Deed : {α : Type} → (Bool → Generator → Step α) → Prop where
  | start : Deed fun _ => Generator.start
  | finish : Deed Generator.finish
  | identifier (name : Text) : Deed fun muted => Generator.identifier muted name
  | literal (digits : Text) : Deed fun _ => Generator.literal digits
  | operation (operator : Text) : Deed fun _ => Generator.operation operator
  | combine (left : Operand) (op : Opcode) (right : Operand) :
      Deed fun muted => Generator.combine muted left op right
  | assign (source destination : Operand) : Deed fun muted => Generator.assign muted source destination
  | readInto (operand : Operand) : Deed fun muted => Generator.readInto muted operand
  | writeExpression (operand : Operand) : Deed fun muted => Generator.writeExpression muted operand

/-- The steps that take no token. -/
inductive Basic : {α : Type} → Production α → Prop where
  | enter (n : Nonterminal) : Basic (enter n.name)
  | derive (n : Nonterminal) : Basic (derive n)
  | peek : Basic peek
  | expected (tok : Token) (kinds : List Kind) : Basic (expected tok kinds)
  | add (parent : Nat) (content : Content) : Basic (add parent content)
  | act {α : Type} {action : Bool → Generator → Step α} (h : Deed action) : Basic (act action)

/-- Basic steps and accepted tokens, one behind the other. -/
inductive Composed : {α : Type} → Production α → Prop where
  | pure {α : Type} (v : α) : Composed (pure v)
  | tooDeep {α : Type} : Composed (throw .tooDeep : Production α)
  | basic {α : Type} {m : Production α} (h : Basic m) : Composed m
  | accept (k : Kind) : Composed (accept k)
  | bind {α β : Type} {m : Production α} {f : α → Production β} (hm : Composed m)
      (hf : ∀ v, Composed (f v)) : Composed (m >>= f)

namespace Composed

variable {β : Type}

/-! ### Single steps -/

theorem mark (parent : Nat) (k : Kind) : Composed (mark parent k) :=
  (basic (.add parent _)).bind fun _ => .pure ()

theorem leaf (parent : Nat) (tok : Token) : Composed (leaf parent tok) :=
  (basic (.add parent _)).bind fun _ => .pure ()

theorem act {α : Type} {action : Bool → Generator → Step α} (h : Deed action) : Composed (act action) :=
  basic (.act h)

section

variable {f : Unit → Production β} (hf : ∀ v, Composed (f v))

include hf

theorem enter {n : Nonterminal} : Composed (Parse.enter n.name >>= f) := (basic (.enter n)).bind hf

theorem derive {n : Nonterminal} : Composed (Parse.derive n >>= f) := (basic (.derive n)).bind hf

theorem expected {tok : Token} {kinds : List Kind} : Composed (Parse.expected tok kinds >>= f) :=
  (basic (.expected tok kinds)).bind hf

end

theorem peek {f : Token → Production β} (hf : ∀ tok, Composed (f tok)) : Composed (Parse.peek >>= f) :=
  (basic .peek).bind hf

theorem accepting {k : Kind} {f : Token → Production β} (hf : ∀ tok, Composed (f tok)) :
    Composed (Parse.accept k >>= f) := (accept k).bind hf

theorem branch {parent : Nat} {n : Nonterminal} {f : Nat → Production β} (hf : ∀ node, Composed (f node)) :
    Composed (Parse.branch parent n >>= f) := (basic (.add parent _)).bind hf

/-! ### The productions -/

theorem acceptIdentifier (node : Nat) : Composed (acceptIdentifier node) :=
  .enter fun _ => .accepting fun tok => (leaf node tok).bind fun _ => .derive fun _ => .pure tok

theorem ident (node : Nat) : Composed (ident node) :=
  (acceptIdentifier node).bind fun _ => .act (.identifier _)

theorem addOp (node : Nat) : Composed (addOp node) := by
  refine .enter fun _ => .peek fun tok => ?_
  split
  · exact (leaf node tok).bind fun _ => .derive fun _ => .accepting fun _ => .act (.operation _)
  · exact .expected fun _ => .pure _

theorem primary {e : Nat → Production Operand} (he : ∀ inner, Composed (e inner)) (node : Nat) :
    Composed (primary e node) := by
  refine .enter fun _ => .peek fun tok => ?_
  split
  · exact (mark _ _).bind fun _ => .branch fun inner => (mark _ _).bind fun _ => .derive fun _ =>
      .accepting fun _ => (he inner).bind fun value => .accepting fun _ => .pure value
  · exact .branch fun name => .derive fun _ => ident name
  · exact (leaf node tok).bind fun _ => .derive fun _ => .accepting fun _ => .act (.literal _)
  · exact .expected fun _ => .pure _

theorem expression (bound node : Nat) : Composed (expression bound node) := by
  induction bound generalizing node with
  | zero => exact .tooDeep
  | succ bound ih =>
    refine .enter fun _ => .branch fun first => .derive fun _ => (primary ih first).bind fun left =>
      .peek fun tok => ?_
    split
    · exact .branch fun operator => .branch fun rest => .derive fun _ => (addOp operator).bind fun op =>
        (ih rest).bind fun right => .act (.combine left op right)
    · exact .pure left

theorem commaTail {list : Nat → Production Unit} (hlist : ∀ rest, Composed (list rest)) (node : Nat)
    (n : Nonterminal) : Composed (commaTail node n list) := by
  refine .peek fun tok => ?_
  split
  · exact (mark _ _).bind fun _ => .branch fun rest => .derive fun _ => .accepting fun _ => hlist rest
  · exact .pure ()

theorem idList (bound node : Nat) : Composed (idList bound node) := by
  induction bound generalizing node with
  | zero => exact .tooDeep
  | succ bound ih =>
    exact .enter fun _ => .branch fun name => .derive fun _ => (ident name).bind fun operand =>
      (act (.readInto operand)).bind fun _ => commaTail ih node _

theorem exprList (bound node : Nat) : Composed (exprList bound node) := by
  induction bound generalizing node with
  | zero => exact .tooDeep
  | succ bound ih =>
    exact .enter fun _ => .branch fun value => .derive fun _ => (expression _ value).bind fun operand =>
      (act (.writeExpression operand)).bind fun _ => commaTail ih node _

theorem enclosed {list : Nat → Production Unit} (hlist : ∀ l, Composed (list l)) (node : Nat) (k : Kind)
    (n : Nonterminal) : Composed (enclosed node k n list) := by
  refine (mark _ _).bind fun _ => (mark _ _).bind fun _ => .branch fun l => (mark _ _).bind fun _ =>
    (mark _ _).bind fun _ => .derive fun _ => ?_
  exact .accepting fun _ => .accepting fun _ => (hlist l).bind fun _ => .accepting fun _ =>
    .accepting fun _ => .pure ()

theorem statement (bound node : Nat) : Composed (statement bound node) := by
  refine .enter fun _ => .peek fun tok => ?_
  split
  · refine .branch fun name => (mark _ _).bind fun _ => .branch fun value => (mark _ _).bind fun _ =>
      .derive fun _ => (acceptIdentifier name).bind fun target => .accepting fun _ => ?_
    exact (expression bound value).bind fun source => (act (.identifier _)).bind fun destination =>
      (act (.assign source destination)).bind fun _ => .accepting fun _ => .pure ()
  · exact enclosed (idList bound) node _ _
  · exact enclosed (exprList bound) node _ _
  · exact basic (.expected tok _)

theorem statementList (bound node : Nat) : Composed (statementList bound node) := by
  induction bound generalizing node with
  | zero => exact .tooDeep
  | succ bound ih =>
    refine .enter fun _ => .branch fun first => .derive fun _ => (statement _ first).bind fun _ =>
      .peek fun tok => ?_
    split
    · exact .branch fun rest => .derive fun _ => ih rest
    · exact .pure ()

theorem program (bound node : Nat) : Composed (program bound node) :=
  .enter fun _ => (mark _ _).bind fun _ => .branch fun list => (mark _ _).bind fun _ => .derive fun _ =>
    (act .start).bind fun _ => .accepting fun _ => (statementList bound list).bind fun _ =>
      .accepting fun _ => .pure ()

theorem systemGoal (bound : Nat) : Composed (systemGoal bound) :=
  .enter fun _ => .branch fun body => (mark _ _).bind fun _ => .derive fun _ =>
    (program bound body).bind fun _ => .accepting fun _ => .act .finish

end Composed

end MicroLang
