import MicroLang.Generator
import MicroLang.Proofs.Lexeme

/-!
# Phrases

The programs of the language as trees without places, spelling and layout.  A word is what the grammar
sees of a token: its kind and, where the kind leaves it open, its text.  Every phrase has its words, and
its translation is what the code generator makes of it while nothing is muted.

An expression is a primary or a primary, an operator and an expression, so `a - b - c` groups as
`a - (b - c)`.
-/

namespace MicroLang

/-! ### Words -/

/-- Whether tokens of the kind differ in more than their spelling. -/
def Kind.isOpen : Kind → Bool
  | .id | .intLiteral => true
  | _ => false

structure Word where
  kind : Kind
  value : Text := []
deriving DecidableEq, Repr

/-- What the grammar sees of a token. -/
def Token.word (t : Token) : Word := { kind := t.kind, value := if t.kind.isOpen then t.literal else [] }

@[simp] theorem Token.kind_word (t : Token) : t.word.kind = t.kind := rfl

theorem Token.word_of_closed {t : Token} (h : t.kind.isOpen = false) : t.word = { kind := t.kind } := by
  rw [word, h, if_neg Bool.false_ne_true]

theorem Token.word_of_open {t : Token} (h : t.kind.isOpen = true) : t.word = ⟨t.kind, t.literal⟩ := by
  rw [word, h, if_pos rfl]

/-- A word that can be written: it is the word of a token that can be scanned. -/
def Word.Writable (w : Word) : Prop := ∃ tok : Token, Lexeme tok.kind tok.literal ∧ tok.word = w

theorem Token.writable_word {tok : Token} (h : Lexeme tok.kind tok.literal) : tok.word.Writable :=
  ⟨tok, h, rfl⟩

/-- The value of a writable word is a lexeme where the kind leaves it open. -/
theorem Word.Writable.lexeme {k : Kind} {value : Text} (h : Word.Writable ⟨k, value⟩)
    (hk : k.isOpen = true) : Lexeme k value := by
  obtain ⟨tok, hlexeme, hword⟩ := h
  have hkind : tok.kind = k := congrArg Word.kind hword
  rw [Token.word_of_open (by rw [hkind]; exact hk)] at hword
  cases hword
  exact hlexeme

/-! ### Syntax trees without tokens -/

inductive AddOp where
  | plus
  | minus
deriving DecidableEq, Repr

mutual

/-- A primary, or a primary, an operator and an expression. -/
inductive Expr where
  | single (p : Primary)
  | chain (p : Primary) (op : AddOp) (e : Expr)

inductive Primary where
  | paren (e : Expr)
  | name (x : Text)
  | number (digits : Text)

end

/-- One item or more. -/
structure Series (α : Type) where
  first : α
  rest : List α := []

inductive Statement where
  | assign (target : Text) (value : Expr)
  | read (targets : Series Text)
  | write (values : Series Expr)

structure Program where
  statements : Series Statement

/-! ### The words of a phrase -/

namespace AddOp

def kind : AddOp → Kind
  | .plus => .plusOp
  | .minus => .minusOp

def opcode : AddOp → Opcode
  | .plus => .add
  | .minus => .sub

def words (op : AddOp) : List Word := [{ kind := op.kind }]

end AddOp

mutual

def Expr.words : Expr → List Word
  | .single p => p.words
  | .chain p op e => p.words ++ (op.words ++ e.words)

def Primary.words : Primary → List Word
  | .paren e => { kind := .lParen } :: (e.words ++ [{ kind := .rParen }])
  | .name x => [⟨.id, x⟩]
  | .number digits => [⟨.intLiteral, digits⟩]

end

/-- The items one by one, each but the first behind a separator. -/
def Series.words {α : Type} (separator : List Word) (item : α → List Word) (s : Series α) : List Word :=
  item s.first ++ s.rest.flatMap fun a => separator ++ item a

/-- The words of an item are words of the series. -/
theorem Series.mem_words {α : Type} {separator : List Word} {words : α → List Word} {l : Series α} {a : α}
    (ha : a ∈ l.first :: l.rest) {w : Word} (hw : w ∈ words a) : w ∈ l.words separator words := by
  rw [Series.words, List.mem_append]
  rcases List.mem_cons.1 ha with rfl | ha
  · exact .inl hw
  · exact .inr (List.mem_flatMap.2 ⟨a, ha, List.mem_append_right _ hw⟩)

/-- The words of a name. -/
def nameWords (x : Text) : List Word := [⟨.id, x⟩]

/-- The words of a series with commas. -/
def Series.listed {α : Type} (item : α → List Word) (s : Series α) : List Word :=
  s.words [{ kind := .comma }] item

def Statement.words : Statement → List Word
  | .assign x e => ⟨.id, x⟩ :: { kind := .assignOp } :: (e.words ++ [{ kind := .semiColon }])
  | .read xs =>
    { kind := .readSym } :: { kind := .lParen } ::
      (xs.listed nameWords ++ [{ kind := .rParen }, { kind := .semiColon }])
  | .write es =>
    { kind := .writeSym } :: { kind := .lParen } ::
      (es.listed Expr.words ++ [{ kind := .rParen }, { kind := .semiColon }])

def Program.words (p : Program) : List Word :=
  { kind := .beginSym } :: (p.statements.words [] Statement.words ++ [{ kind := .endSym }])

/-! ### The translation of a phrase -/

/-- Something that makes code and yields a value. -/
abbrev Translation (α : Type) : Type := Generator → α × Generator

namespace Translation

variable {α β γ : Type}

/-- The translation that makes no code. -/
def yield (a : α) : Translation α := fun g => (a, g)

/-- One translation and then another, which may use the value of the first. -/
def andThen (t : Translation α) (u : α → Translation β) : Translation β :=
  fun g => u (t g).1 (t g).2

/-- An action of the generator. -/
def perform (action : Generator → Step α) : Translation α :=
  fun g => ((action g).value, (action g).generator)

/-- The same translation for each item. -/
def forEach (item : α → Translation Unit) : List α → Translation Unit
  | [] => yield ()
  | a :: rest => andThen (item a) fun _ => forEach item rest

end Translation

open Translation

mutual

def Expr.translate : Expr → Translation Operand
  | .single p => p.translate
  | .chain p op e =>
    andThen p.translate fun left =>
      andThen e.translate fun right => perform (Generator.combine false left op.opcode right)

def Primary.translate : Primary → Translation Operand
  | .paren e => e.translate
  | .name x => perform (Generator.identifier false x)
  | .number digits => perform (Generator.literal digits)

end

/-- Each item of a series in turn. -/
def Series.translate {α : Type} (item : α → Translation Unit) (s : Series α) : Translation Unit :=
  andThen (item s.first) fun _ => forEach item s.rest

/-- Reading into a variable. -/
def readName (x : Text) : Translation Unit :=
  andThen (perform (Generator.identifier false x)) fun operand =>
    perform (Generator.readInto false operand)

/-- Writing the value of an expression. -/
def writeValue (e : Expr) : Translation Unit :=
  andThen e.translate fun operand => perform (Generator.writeExpression false operand)

/-- The target of an assignment comes up behind the value that it receives. -/
def Statement.translate : Statement → Translation Unit
  | .assign x e =>
    andThen e.translate fun source =>
      andThen (perform (Generator.identifier false x)) fun destination =>
        perform (Generator.assign false source destination)
  | .read xs => xs.translate readName
  | .write es => es.translate writeValue

/-- The statements in turn; the final `Halt` is not part of it. -/
def Program.translate (p : Program) : Translation Unit := p.statements.translate Statement.translate

end MicroLang
