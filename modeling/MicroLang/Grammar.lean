import MicroLang.Token

/-!
# The grammar

The grammar of the language as data.  A nonterminal has a label, by which it is shown in syntax trees,
and a name, by which traces call its production; a terminal is a token kind.  Expressions are right
recursive, so `a - b - c` groups as `a - (b - c)`.
-/

namespace MicroLang

inductive Nonterminal where
  | systemGoal | program | statementList | statement | ident
  | expression | idList | exprList | primary | addOp
deriving DecidableEq, Repr

namespace Nonterminal

/-- How the nonterminal is shown in a syntax tree. -/
def label : Nonterminal → Text
  | .systemGoal => text "<system goal>"
  | .program => text "<program>"
  | .statementList => text "<statement list>"
  | .statement => text "<statement>"
  | .ident => text "<ident>"
  | .expression => text "<expression>"
  | .idList => text "<idList>"
  | .exprList => text "<exprList>"
  | .primary => text "<primary>"
  | .addOp => text "<add op>"

/-- How a trace calls the production. -/
def name : Nonterminal → Text
  | .systemGoal => text "systemGoal"
  | .program => text "program"
  | .statementList => text "statementList"
  | .statement => text "statement"
  | .ident => text "ident"
  | .expression => text "expression"
  | .idList => text "idList"
  | .exprList => text "exprList"
  | .primary => text "primary"
  | .addOp => text "addOp"

end Nonterminal

/-- How a terminal is shown in a derivation: the fixed words and marks by themselves, everything else
by the name of its kind. -/
def Kind.display : Kind → Text
  | .beginSym => text "begin"
  | .endSym => text "end"
  | .readSym => text "Read"
  | .writeSym => text "Write"
  | .lParen => text "("
  | .rParen => text ")"
  | .semiColon => text ";"
  | .comma => text ","
  | .assignOp => text ":="
  | .eofSym => text "$"
  | kind => kind.name

/-- A symbol on the right-hand side of a production. -/
inductive GrammarSymbol where
  | terminal (kind : Kind)
  | nonterminal (n : Nonterminal)
deriving DecidableEq, Repr

/-- How a grammar symbol is shown in a syntax tree. -/
def GrammarSymbol.label : GrammarSymbol → Text
  | .terminal kind => kind.display
  | .nonterminal n => n.label

/-- The alternatives of a nonterminal. -/
def Nonterminal.alternatives : Nonterminal → List (List GrammarSymbol)
  | .systemGoal => [[.nonterminal .program, .terminal .eofSym]]
  | .program => [[.terminal .beginSym, .nonterminal .statementList, .terminal .endSym]]
  | .statementList =>
    [[.nonterminal .statement], [.nonterminal .statement, .nonterminal .statementList]]
  | .statement =>
    [[.nonterminal .ident, .terminal .assignOp, .nonterminal .expression, .terminal .semiColon],
     [.terminal .readSym, .terminal .lParen, .nonterminal .idList, .terminal .rParen,
      .terminal .semiColon],
     [.terminal .writeSym, .terminal .lParen, .nonterminal .exprList, .terminal .rParen,
      .terminal .semiColon]]
  | .ident => [[.terminal .id]]
  | .idList =>
    [[.nonterminal .ident], [.nonterminal .ident, .terminal .comma, .nonterminal .idList]]
  | .exprList =>
    [[.nonterminal .expression], [.nonterminal .expression, .terminal .comma, .nonterminal .exprList]]
  | .expression =>
    [[.nonterminal .primary], [.nonterminal .primary, .nonterminal .addOp, .nonterminal .expression]]
  | .primary =>
    [[.terminal .lParen, .nonterminal .expression, .terminal .rParen], [.nonterminal .ident],
     [.terminal .intLiteral]]
  | .addOp => [[.terminal .plusOp], [.terminal .minusOp]]

mutual

/-- A grammar symbol derives a sequence of token kinds. -/
inductive Derives : GrammarSymbol → List Kind → Prop
  | terminal (kind : Kind) : Derives (.terminal kind) [kind]
  | nonterminal (n : Nonterminal) {alternative : List GrammarSymbol} {kinds : List Kind} :
      alternative ∈ n.alternatives → DerivesAll alternative kinds → Derives (.nonterminal n) kinds

/-- The symbols of a sequence derive the parts of a sequence of token kinds. -/
inductive DerivesAll : List GrammarSymbol → List Kind → Prop
  | nil : DerivesAll [] []
  | cons {s : GrammarSymbol} {rest : List GrammarSymbol} {kinds more : List Kind} :
      Derives s kinds → DerivesAll rest more → DerivesAll (s :: rest) (kinds ++ more)

end

end MicroLang
