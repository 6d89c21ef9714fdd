import MicroLang.Markdown.Block
import MicroLang.Markdown.Inline
import MicroLang.Text.Quoted

/-!
# Scenarios

A document holds test cases for the compiler.  A case starts at a heading whose text begins with
`Test: ` and reaches to the next such heading.  A fence in the language `micro` is the source of the
case; fences in four other languages are what is expected of it.  A fence without a language means
nothing, and a fence in any other language, or before the first case, is an error, as is a case with
two sources, without a source, or without an expectation.
-/

namespace MicroLang

/-- What a document delivers, in order: headings by their text and fences by language and body, both
with their lines. -/
inductive DocumentItem where
  | heading (title : Text) (line : Nat)
  | fence (language body : Text) (line : Nat)
deriving DecidableEq, Repr

namespace DocumentItem

/-- The line of a fence is that of its first content line; an empty fence counts as line one. -/
def ofBlock (labels : List Text) : Markdown.Block → DocumentItem
  | .heading line content => .heading (Markdown.headingText labels content) line
  | .fence language body =>
    .fence language (body.flatMap Prod.snd) ((body.head?.map Prod.fst).getD 1)

end DocumentItem

/-- The headings and the fences of a document. -/
def documentItems (document : Text) : List DocumentItem :=
  let outline := Markdown.outline document
  outline.blocks.map (DocumentItem.ofBlock outline.labels)

structure Expectation where
  /-- The language of the fence, which says what is expected. -/
  kind : Text
  content : Text
  line : Nat
deriving DecidableEq, Repr

structure Scenario where
  name : Text
  line : Nat
  source : Text := []
  expectations : List Expectation := []
deriving DecidableEq, Repr

/-- What is wrong with a document. -/
inductive ScenarioError where
  | unknownLanguage (line : Nat) (language : Text)
  | outsideCase (line : Nat) (language : Text)
  | secondSource (line : Nat) (name : Text)
  | noSource (line : Nat) (name : Text)
  | noExpectations (line : Nat) (name : Text)
deriving DecidableEq, Repr

namespace ScenarioError

def message (e : ScenarioError) : Text :=
  let place := fun (line : Nat) => text "line " ++ Text.ofNat line ++ text ": "
  match e with
  | .unknownLanguage line language => place line ++ text "unknown fence language " ++ language.quoted
  | .outsideCase line language => place line ++ language ++ text " fence outside of a test case"
  | .secondSource line name => place line ++ text "second micro fence in test " ++ name.quoted
  | .noSource line name => place line ++ text "test " ++ name.quoted ++ text " has no micro fence"
  | .noExpectations line name => place line ++ text "test " ++ name.quoted ++ text " has no expectations"

end ScenarioError

namespace Scenario

/-- The language of the program under test. -/
def sourceLanguage : Text := text "micro"

/-- The languages of expectations. -/
def expectationKinds : List Text :=
  [text "asm", text "diagnostics", text "lex-error", text "derivation"]

/-- What a heading that starts a case begins with. -/
def headingMark : Text := text "Test: "

/-- The content of the first expectation of a kind. -/
def expect? (s : Scenario) (kind : Text) : Option Text :=
  (s.expectations.find? fun e => e.kind = kind).map Expectation.content

/-- Whether a case is complete. -/
def check (s : Scenario) : Except ScenarioError Unit :=
  if s.source.isEmpty then .error (.noSource s.line s.name)
  else if s.expectations.isEmpty then .error (.noExpectations s.line s.name)
  else .ok ()

/-- Adds a fence to the case that is open. -/
def addFence (open? : Option Scenario) (language body : Text) (line : Nat) :
    Except ScenarioError (Option Scenario) :=
  if language.isEmpty then .ok open?
  else if !(language = sourceLanguage || expectationKinds.contains language) then
    .error (.unknownLanguage line language)
  else match open? with
    | none => .error (.outsideCase line language)
    | some s =>
      let content := Text.trimRight (· = 10) body
      if language = sourceLanguage then
        if s.source.isEmpty then .ok (some { s with source := content })
        else .error (.secondSource line s.name)
      else
        .ok (some { s with
          expectations := s.expectations ++ [{ kind := language, content, line }] })

/-- The cases from an item on, given the case that is open. -/
def collect : Option Scenario → List DocumentItem → Except ScenarioError (List Scenario)
  | none, [] => .ok []
  | some s, [] => do
    s.check
    return [s]
  | open?, .heading title line :: rest =>
    match Text.after? headingMark title with
    | none => collect open? rest
    | some name =>
      let next : Scenario := { name := name.trimBlank, line }
      match open? with
      | none => collect (some next) rest
      | some s => do
        s.check
        return s :: (← collect (some next) rest)
  | open?, .fence language body line :: rest => do
    collect (← addFence open? language body line) rest

/-- The test cases of a document. -/
def extract (document : Text) : Except ScenarioError (List Scenario) :=
  collect none (documentItems document)

end Scenario

end MicroLang
