import MicroLang.Position
import MicroLang.Text.Lowercase
import MicroLang.Text.Quoted

/-!
# Tokens

A token has a kind, the source text it was read from and the position of its first byte.  Sixteen
kinds have a name; kind codes beyond them are representable and are shown by their number.
-/

namespace MicroLang

/-- The category of a token. -/
inductive Kind where
  | beginSym | endSym | readSym | writeSym
  | id | intLiteral
  | lParen | rParen | semiColon | comma
  | assignOp | plusOp | minusOp | equalOp | exponentOp
  | eofSym
  | unnamed (code : UInt8)
deriving DecidableEq, Repr

namespace Kind

/-- The kinds that have a name, in the order of their codes. -/
def named : List Kind :=
  [.beginSym, .endSym, .readSym, .writeSym, .id, .intLiteral, .lParen, .rParen, .semiColon, .comma,
    .assignOp, .plusOp, .minusOp, .equalOp, .exponentOp, .eofSym]

/-- The kind with the given code. -/
def ofCode (code : UInt8) : Kind := named.getD code.toNat (.unnamed code)

/-- The name used in messages. -/
def name : Kind → Text
  | .beginSym => text "BeginSym"
  | .endSym => text "EndSym"
  | .readSym => text "ReadSym"
  | .writeSym => text "WriteSym"
  | .id => text "Id"
  | .intLiteral => text "IntLiteral"
  | .lParen => text "LParen"
  | .rParen => text "RParen"
  | .semiColon => text "SemiColon"
  | .comma => text "Comma"
  | .assignOp => text "AssignOp"
  | .plusOp => text "PlusOp"
  | .minusOp => text "MinusOp"
  | .equalOp => text "EqualOp"
  | .exponentOp => text "ExponentOp"
  | .eofSym => text "EofSym"
  | .unnamed code => text "Kind(" ++ Text.ofNat code.toNat ++ text ")"

def isKeyword : Kind → Bool
  | .beginSym | .endSym | .readSym | .writeSym => true
  | _ => false

/-- The additive operators. -/
def isAddOp : Kind → Bool
  | .plusOp | .minusOp => true
  | _ => false

/-- The kinds a statement can begin with. -/
def isStatementStart : Kind → Bool
  | .id | .readSym | .writeSym => true
  | _ => false

/-- The kind of a word: a reserved word in any case, or else an identifier. -/
def ofWord (word : Text) : Kind :=
  let lower := word.lower
  if lower = text "begin" then .beginSym
  else if lower = text "end" then .endSym
  else if lower = text "read" then .readSym
  else if lower = text "write" then .writeSym
  else .id

theorem isKeyword_or_eq_id_ofWord (word : Text) :
    (ofWord word).isKeyword = true ∨ ofWord word = .id := by
  simp only [ofWord]
  split
  · exact .inl rfl
  split
  · exact .inl rfl
  split
  · exact .inl rfl
  split
  · exact .inl rfl
  · exact .inr rfl

end Kind

/-- A piece of source text with its kind and the position of its first byte. -/
structure Token where
  kind : Kind := .beginSym
  literal : Text := []
  pos : Position := {}
deriving DecidableEq, Repr, Inhabited

namespace Token

/-- The longest identifier the language allows, in bytes. -/
def maxIdentifierLength : Nat := 32

/-- Display as `Kind ("literal") on line:column`. -/
def text (t : Token) : Text :=
  t.kind.name ++ MicroLang.text " (" ++ t.literal.quoted ++ MicroLang.text ") on " ++ t.pos.lineColumn

end Token

end MicroLang
