import MicroLang.Files
import MicroLang.Text.Folding
import MicroLang.Text.Lowercase
import MicroLang.Text.Quoted
import MicroLang.Toml
import MicroLang.Yaml

/-!
# Settings

The settings of the command can be kept in a file, in TOML or in YAML as the extension of its name
says.  A file changes only what it mentions.  The tree format and the colour mode are plain texts
until they are validated, because a wrong one is reported as it was written.
-/

namespace MicroLang

structure Settings where
  /-- The file for the listing; none if empty. -/
  output : Text := []
  noHeader : Bool := false
  trace : Bool := false
  /-- The format of the syntax tree; no tree if empty. -/
  ast : Text := []
  verify : Bool := false
  color : Text := text "auto"
deriving DecidableEq, Repr

/-- Why settings cannot be used. -/
inductive SettingsError where
  | unreadable (e : FileError)
  | malformed (path : Text)
  | unknownKey (path key : Text)
  | unsupportedFormat (path extension : Text)
  | invalidTreeFormat (value : Text)
  | invalidColourMode (value : Text)
deriving DecidableEq, Repr

def SettingsError.message : SettingsError → Text
  | .unreadable e => text "cannot read config: " ++ e.message
  | .malformed path => text "parse " ++ path ++ text ": malformed document"
  | .unknownKey path key => text "parse " ++ path ++ text ": unknown key " ++ key.quoted
  | .unsupportedFormat path extension =>
    text "config " ++ path ++ text ": unsupported format " ++ extension.quoted
      ++ text " (want .toml, .yaml or .yml)"
  | .invalidTreeFormat value =>
    text "invalid ast format " ++ value.quoted ++ text " (want text or json)"
  | .invalidColourMode value =>
    text "invalid color mode " ++ value.quoted ++ text " (want auto, always or never)"

/-- A single setting. -/
inductive Setting where
  | output
  | noHeader
  | trace
  | ast
  | verify
  | color
deriving DecidableEq, Repr

namespace Setting

def all : List Setting := [.output, .noHeader, .trace, .ast, .verify, .color]

/-- The key of a setting in a file. -/
def key : Setting → Text
  | .output => text "output"
  | .noHeader => text "no_header"
  | .trace => text "trace"
  | .ast => text "ast"
  | .verify => text "verify"
  | .color => text "color"

def ofKey? (key : Text) : Option Setting := all.find? fun s => s.key = key

/-- The setting with the given key in letters of any case. -/
def ofAnyCase? (key : Text) : Option Setting := ofKey? key.foldedSimply

/-- Gives a text to a setting that takes one. -/
def setText? (setting : Setting) (t : Text) (s : Settings) : Option Settings :=
  match setting with
  | .output => some { s with output := t }
  | .ast => some { s with ast := t }
  | .color => some { s with color := t }
  | _ => none

/-- Gives a truth value to a setting that takes one. -/
def setBool? (setting : Setting) (b : Bool) (s : Settings) : Option Settings :=
  match setting with
  | .noHeader => some { s with noHeader := b }
  | .trace => some { s with trace := b }
  | .verify => some { s with verify := b }
  | _ => none

end Setting

namespace Settings

/-- Checks the tree format and then the colour mode. -/
def validate (s : Settings) : Except SettingsError Settings :=
  if !([[], text "text", text "json"].contains s.ast) then .error (.invalidTreeFormat s.ast)
  else if !([text "auto", text "always", text "never"].contains s.color) then
    .error (.invalidColourMode s.color)
  else .ok s

/-- Validation changes nothing. -/
theorem eq_of_validate {s t : Settings} (h : s.validate = .ok t) : t = s := by
  unfold validate at h
  split at h
  · cases h
  · split at h
    · cases h
    · exact (Except.ok.inj h).symm

/-- Takes over a value of a TOML document.  One that names no setting is left alone. -/
def takeToml? (s : Settings) (entry : Text × Toml.Slot) : Option Settings :=
  match Setting.ofAnyCase? entry.1, entry.2 with
  | none, _ => some s
  | some setting, .scalar (.string t) => setting.setText? t s
  | some setting, .scalar (.boolean b) => setting.setBool? b s
  | some _, _ => none

/-- Whether a path of a TOML document names a setting. -/
def isKnown (path : Toml.Path) : Bool :=
  match path with
  | [key] => (Setting.ofAnyCase? key).isSome
  | _ => false

/-- Takes over a TOML document.  A value of the wrong type is noticed before a key that names no
setting. -/
def ofToml (path document : Text) (s : Settings) : Except SettingsError Settings :=
  match Toml.read? document with
  | none => .error (.malformed path)
  | some contents =>
    match contents.values.foldlM takeToml? s with
    | none => .error (.malformed path)
    | some s =>
      match contents.paths.find? fun p => !isKnown p with
      | some p => .error (.unknownKey path (Toml.shownPath p))
      | none => .ok s

/-- Takes over a field of a YAML document.  A null leaves its setting alone; a name that belongs to no
setting is refused. -/
def takeYaml? (s : Settings) (field : Yaml.Field) : Option Settings :=
  match Setting.ofKey? field.1, field.2.value? with
  | some setting, some value =>
    match value.text? with
    | none => some s
    | some t =>
      match setting.setText? t s, value.bool? with
      | some s, _ => some s
      | none, some b => setting.setBool? b s
      | none, none => none
  | _, _ => none

/-- Takes over a YAML document. -/
def ofYaml (path document : Text) (s : Settings) : Except SettingsError Settings :=
  match (Yaml.read? document).bind fun fields => fields.foldlM takeYaml? s with
  | none => .error (.malformed path)
  | some s => .ok s

/-- The extension of a file name: what follows its last dot, with the dot. -/
def extension (path : Text) : Text :=
  let stem := path.reverse.takeWhile fun b => b ≠ 46 && b ≠ 47
  if path.reverse.drop stem.length |>.head? |>.any (· = 46) then 46 :: stem.reverse else []

/-- Reads a settings file on top of other settings, and validates the outcome. -/
def load (storage : Storage) (path : Text) (s : Settings) : Except SettingsError Settings :=
  match storage.read path with
  | .error e => .error (.unreadable e)
  | .ok document =>
    let ext := (extension path).lower
    let loaded :=
      if ext = text ".toml" then ofToml path document s
      else if ext = text ".yaml" || ext = text ".yml" then ofYaml path document s
      else .error (.unsupportedFormat path ext)
    loaded.bind validate

end Settings

end MicroLang
