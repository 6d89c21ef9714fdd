import MicroLang.Settings

/-!
# Command-line flags

Arguments that start with a hyphen are flags, wherever they stand; two hyphens alone end the flags.  A
long flag has its value behind an equals sign or, unless it is a switch, in the next argument.  Short flags
can share one hyphen; the first of them that is no switch takes the rest of the argument as its
value.  A flag that occurs more than once has the last value given.
-/

namespace MicroLang

inductive Flag where
  | config
  | output
  | noHeader
  | trace
  | ast
  | verify
  | color
  | help
  | version
deriving DecidableEq, Repr

namespace Flag

def all : List Flag := [.config, .output, .noHeader, .trace, .ast, .verify, .color, .help, .version]

def name : Flag → Text
  | .config => text "config"
  | .output => text "output"
  | .noHeader => text "no-header"
  | .trace => text "trace"
  | .ast => text "ast"
  | .verify => text "verify"
  | .color => text "color"
  | .help => text "help"
  | .version => text "version"

/-- The letter of a flag that has a short form. -/
def letter? : Flag → Option UInt8
  | .output => some 111
  | .help => some 104
  | .version => some 118
  | _ => none

/-- A switch takes a truth value, and being named alone turns it on. -/
def isSwitch : Flag → Bool
  | .noHeader | .trace | .verify | .help | .version => true
  | .config | .output | .ast | .color => false

def ofName? (name : Text) : Option Flag := all.find? fun f => f.name = name

def ofLetter? (letter : UInt8) : Option Flag := all.find? fun f => f.letter? = some letter

/-- All forms of a flag, as it is called in messages. -/
def shown (f : Flag) : Text :=
  match f.letter? with
  | some letter => [45, letter] ++ text ", --" ++ f.name
  | none => text "--" ++ f.name

end Flag

/-- Why the flags of a command line cannot be read. -/
inductive FlagError where
  | badSyntax (argument : Text)
  | unknownName (name : Text)
  | unknownLetter (letter : UInt8) (group : Text)
  | missingValue (name : Text)
  | missingLetterValue (letter : UInt8) (group : Text)
  | notBoolean (flag : Flag) (value : Text)
deriving DecidableEq, Repr

/-- The code point with a byte's value, in single quotes. -/
def quotedLetter (b : UInt8) : Text :=
  let shown := if b = 39 then [92, 39] else if b = 34 then [34] else Text.quoteChar (Char.ofNat b.toNat)
  39 :: shown ++ [39]

def FlagError.message : FlagError → Text
  | .badSyntax argument => text "bad flag syntax: " ++ argument
  | .unknownName name => text "unknown flag: --" ++ name
  | .unknownLetter letter group =>
    text "unknown shorthand flag: " ++ quotedLetter letter ++ text " in -" ++ group
  | .missingValue name => text "flag needs an argument: --" ++ name
  | .missingLetterValue letter group =>
    text "flag needs an argument: " ++ quotedLetter letter ++ text " in -" ++ group
  | .notBoolean flag value =>
    text "invalid argument " ++ value.quoted ++ text " for " ++ flag.shown.quoted
      ++ text " flag: strconv.ParseBool: parsing " ++ value.quoted ++ text ": invalid syntax"

/-- What a command line says: the flags given, and the other arguments in order. -/
structure Flags where
  config : Text := []
  output : Option Text := none
  noHeader : Option Bool := none
  trace : Option Bool := none
  ast : Option Text := none
  verify : Option Bool := none
  color : Option Text := none
  help : Bool := false
  version : Bool := false
  arguments : List Text := []
deriving DecidableEq, Repr

/-- The truth value that a text denotes. -/
def readBool? (t : Text) : Option Bool :=
  if ["1", "t", "T", "TRUE", "true", "True"].any fun w => text w = t then some true
  else if ["0", "f", "F", "FALSE", "false", "False"].any fun w => text w = t then some false
  else none

namespace Flags

def setSwitch (f : Flag) (b : Bool) (flags : Flags) : Flags :=
  match f with
  | .noHeader => { flags with noHeader := some b }
  | .trace => { flags with trace := some b }
  | .verify => { flags with verify := some b }
  | .help => { flags with help := b }
  | .version => { flags with version := b }
  | _ => flags

def setValue (f : Flag) (value : Text) (flags : Flags) : Flags :=
  match f with
  | .config => { flags with config := value }
  | .output => { flags with output := some value }
  | .ast => { flags with ast := some value }
  | .color => { flags with color := some value }
  | _ => flags

/-- Gives a flag a value. -/
def set (f : Flag) (value : Text) (flags : Flags) : Except FlagError Flags :=
  if f.isSwitch then
    match readBool? value with
    | some b => .ok (flags.setSwitch f b)
    | none => .error (.notBoolean f value)
  else .ok (flags.setValue f value)

/-- What reading one argument comes to: it is complete, or its last flag wants the next argument
as its value, which is an error if there is none. -/
inductive Step where
  | complete (flags : Flags)
  | wants (flag : Flag) (flags : Flags) (missing : FlagError)

/-- Reads a long flag, given without its hyphens. -/
def readLong (body : Text) (flags : Flags) : Except FlagError Step :=
  let name := body.takeWhile (· ≠ 61)
  if name.isEmpty || body.head? = some 45 then .error (.badSyntax (text "--" ++ body))
  else match Flag.ofName? name with
    | none => .error (.unknownName name)
    | some f =>
      match body.drop name.length with
      | _ :: value => (flags.set f value).map .complete
      | [] =>
        if f.isSwitch then (flags.set f (text "true")).map .complete
        else .ok (.wants f flags (.missingValue name))

/-- Reads a group of short flags, given without its hyphen.  A group that starts with `test.` is
passed over. -/
def readGroup : Text → Flags → Except FlagError Step
  | [], flags => .ok (.complete flags)
  | letter :: group, flags =>
    if (Text.after? (text "test.") (letter :: group)).isSome then .ok (.complete flags)
    else match Flag.ofLetter? letter with
      | none => .error (.unknownLetter letter (letter :: group))
      | some f =>
        match group with
        | 61 :: b :: value => (flags.set f (b :: value)).map .complete
        | group =>
          if f.isSwitch then
            match flags.set f (text "true") with
            | .error e => .error e
            | .ok flags => readGroup group flags
          else if group.isEmpty then .ok (.wants f flags (.missingLetterValue letter [letter]))
          else (flags.set f group).map .complete

/-- Reads one argument that is not the end mark of the flags. -/
def readArgument (argument : Text) (flags : Flags) : Except FlagError Step :=
  match argument with
  | 45 :: 45 :: body => readLong body flags
  | 45 :: b :: group => readGroup (b :: group) flags
  | _ => .ok (.complete { flags with arguments := flags.arguments ++ [argument] })

/-- Reads arguments from left to right. -/
def readAll : List Text → Flags → Except FlagError Flags
  | [], flags => .ok flags
  | argument :: rest, flags =>
    if argument = text "--" then .ok { flags with arguments := flags.arguments ++ rest }
    else match readArgument argument flags with
      | .error e => .error e
      | .ok (.complete flags) => readAll rest flags
      | .ok (.wants f flags missing) =>
        match rest with
        | [] => .error missing
        | value :: rest =>
          match flags.set f value with
          | .error e => .error e
          | .ok flags => readAll rest flags

/-- The flags and arguments of a command line. -/
def ofArguments (arguments : List Text) : Except FlagError Flags := readAll arguments {}

/-- Settings with the flags that were given on top. -/
def override (flags : Flags) (s : Settings) : Settings :=
  { output := flags.output.getD s.output
    noHeader := flags.noHeader.getD s.noHeader
    trace := flags.trace.getD s.trace
    ast := flags.ast.getD s.ast
    verify := flags.verify.getD s.verify
    color := flags.color.getD s.color }

/-- Without flags the settings stay as they are. -/
theorem override_empty (s : Settings) : override {} s = s := rfl

end Flags

end MicroLang
