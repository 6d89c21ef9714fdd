import MicroLang.Yaml.Token

/-!
# Nodes of YAML

A document is a tree of scalars, sequences and mappings.  A node can be anchored and stand for itself
elsewhere by an alias.  Reading goes over the settled tokens of a stream and no further than the end of
the first document.
-/

namespace MicroLang.Yaml

inductive Node where
  /-- A scalar with the tag it is marked with, if any, and whether it is written plainly. -/
  | scalar (tag : Option Text) (isPlain : Bool) (t : Text)
  | sequence (items : List Node)
  | mapping (entries : List (Node × Node))
  /-- A reference to an anchored node; none from within the node itself. -/
  | alias (name : Text) (target : Option Node)

/-- The scalar that stands where nothing is written. -/
def Node.missing : Node := .scalar none true []

/-- What tag handles stand for unless a directive says otherwise. -/
def defaultHandles : List (Text × Text) :=
  [(text "!", text "!"), (text "!!", text "tag:yaml.org,2002:")]

/-- A tag in its short form. -/
def shortTag (t : Text) : Text :=
  match Text.after? (text "tag:yaml.org,2002:") t with
  | some rest => text "!!" ++ rest
  | none => t

/-- What is known while a document is read: its tokens, the tag handles, and the anchored nodes, the
latest first.  The node of an anchor is missing until it has been read. -/
structure Reading where
  tokens : Tokens
  handles : List (Text × Text) := defaultHandles
  anchors : List (Text × Option Node) := []

abbrev Reader (α : Type) : Type := StateT Reading Option α

namespace Reader

def peek : Reader Token := fun r =>
  match r.tokens.peek? with
  | some (t, tokens) => some (t, { r with tokens })
  | none => none

def advance : Reader Unit := modify fun r => { r with tokens := r.tokens.drop }

/-- The text of a tag, whose handle must be known. -/
def resolveTag (handle suffix : Text) : Reader Text := fun r =>
  if handle.isEmpty then some (suffix, r)
  else (r.handles.lookup handle).map fun stem => (stem ++ suffix, r)

/-- The anchor and the tag in front of a node, in either order. -/
def properties : Reader (Option Text × Option Text) := do
  match ← peek with
  | .anchor name =>
    advance
    match ← peek with
    | .tag handle suffix =>
      advance
      return (some name, some (← resolveTag handle suffix))
    | _ => return (some name, none)
  | .tag handle suffix =>
    advance
    let tag ← resolveTag handle suffix
    match ← peek with
    | .anchor name =>
      advance
      return (some name, some tag)
    | _ => return (none, some tag)
  | _ => return (none, none)

/-- Reads a node that its anchor, if it has one, stands for.  A later anchor of the same name hides
this one. -/
def anchored (anchor : Option Text) (read : Reader Node) : Reader Node :=
  match anchor with
  | none => read
  | some name => do
    let count := (← get).anchors.length
    modify fun r => { r with anchors := (name, none) :: r.anchors }
    let node ← read
    modify fun r =>
      { r with anchors := r.anchors.set (r.anchors.length - 1 - count) (name, some node) }
    return node

/-- The node that an alias stands for, which must have been anchored. -/
def aliased (name : Text) : Reader Node := fun r =>
  (r.anchors.lookup name).map fun target => (.alias name target, r)

/-- A scalar with its tag.  The lone exclamation mark says nothing about a scalar. -/
def tagged (tag : Option Text) (isPlain : Bool) (t : Text) : Node :=
  .scalar (if tag = some [33] then none else tag.map shortTag) isPlain t

mutual

/-- A node.  Blocks can stand only where `inBlock` holds, and a sequence that is no deeper than the
mapping it belongs to only where `mayBeFlush` does.  The first argument bounds the number of tokens,
here and below. -/
def node : Nat → Bool → Bool → Reader Node
  | 0, _, _ => failure
  | bound + 1, inBlock, mayBeFlush => do
    match ← peek with
    | .alias name =>
      advance
      aliased name
    | _ =>
      let (anchor, tag) ← properties
      match ← peek with
      | .scalar isPlain t =>
        advance
        anchored anchor (pure (tagged tag isPlain t))
      | .openBracket =>
        advance
        anchored anchor (Node.sequence <$> flowItems bound true)
      | .openBrace =>
        advance
        anchored anchor (Node.mapping <$> flowEntries bound true)
      | .blockSequence =>
        if inBlock then
          advance
          anchored anchor (Node.sequence <$> blockItems bound)
        else absent anchor tag
      | .blockMapping =>
        if inBlock then
          advance
          anchored anchor (Node.mapping <$> blockEntries bound)
        else absent anchor tag
      | .entry =>
        if mayBeFlush then anchored anchor (Node.sequence <$> flushItems bound)
        else absent anchor tag
      | _ => absent anchor tag

/-- A node that is nothing but an anchor or a tag. -/
def absent (anchor tag : Option Text) : Reader Node :=
  if anchor.isNone && tag.isNone then failure
  else anchored anchor (pure (tagged tag true []))

/-- The items of a sequence in a block of its own. -/
def blockItems : Nat → Reader (List Node)
  | 0 => failure
  | bound + 1 => do
    match ← peek with
    | .entry =>
      advance
      let item ← match ← peek with
        | .entry => pure .missing
        | .blockEnd => pure .missing
        | _ => node bound true false
      return item :: (← blockItems bound)
    | .blockEnd =>
      advance
      return []
    | _ => failure

/-- The items of a sequence in the block of a mapping. -/
def flushItems : Nat → Reader (List Node)
  | 0 => failure
  | bound + 1 => do
    match ← peek with
    | .entry =>
      advance
      let item ← match ← peek with
        | .entry => pure .missing
        | .key => pure .missing
        | .value => pure .missing
        | .blockEnd => pure .missing
        | _ => node bound true false
      return item :: (← flushItems bound)
    | _ => return []

/-- A part of an entry of a mapping in a block, which may be missing. -/
def blockPart : Nat → Reader Node
  | 0 => failure
  | bound + 1 => do
    advance
    match ← peek with
    | .key => return .missing
    | .value => return .missing
    | .blockEnd => return .missing
    | _ => node bound true true

/-- The entries of a mapping in a block. -/
def blockEntries : Nat → Reader (List (Node × Node))
  | 0 => failure
  | bound + 1 => do
    match ← peek with
    | .key =>
      let key ← blockPart bound
      let value ← match ← peek with
        | .value => blockPart bound
        | _ => pure .missing
      return (key, value) :: (← blockEntries bound)
    | .blockEnd =>
      advance
      return []
    | _ => failure

/-- A single entry inside brackets, which is a mapping of its own, from behind the mark for its key
on. -/
def flowPair : Nat → Reader Node
  | 0 => failure
  | bound + 1 => do
    let key ← match ← peek with
      | .value => advance; pure .missing
      | .comma => advance; pure .missing
      | .closeBracket => advance; pure .missing
      | _ => node bound false false
    let value ← match ← peek with
      | .value =>
        advance
        match ← peek with
        | .comma => pure .missing
        | .closeBracket => pure .missing
        | _ => node bound false false
      | _ => pure .missing
    return .mapping [(key, value)]

/-- The items between brackets, from behind the opening one or an item on. -/
def flowItems : Nat → Bool → Reader (List Node)
  | 0, _ => failure
  | bound + 1, isFirst => do
    let t ← peek
    if t = .closeBracket then
      advance
      return []
    if !isFirst then
      if t ≠ .comma then failure
      advance
    match ← peek with
    | .key =>
      advance
      let item ← flowPair bound
      return item :: (← flowItems bound false)
    | .closeBracket =>
      advance
      return []
    | _ =>
      let item ← node bound false false
      return item :: (← flowItems bound false)

/-- The entries between braces, from behind the opening one or an entry on.  Without a colon, an entry
is a key. -/
def flowEntries : Nat → Bool → Reader (List (Node × Node))
  | 0, _ => failure
  | bound + 1, isFirst => do
    let t ← peek
    if t = .closeBrace then
      advance
      return []
    if !isFirst then
      if t ≠ .comma then failure
      advance
    match ← peek with
    | .key =>
      advance
      let key ← match ← peek with
        | .value => pure .missing
        | .comma => pure .missing
        | .closeBrace => pure .missing
        | _ => node bound false false
      let value ← match ← peek with
        | .value =>
          advance
          match ← peek with
          | .comma => pure .missing
          | .closeBrace => pure .missing
          | _ => node bound false false
        | _ => pure .missing
      return (key, value) :: (← flowEntries bound false)
    | .closeBrace =>
      advance
      return []
    | _ =>
      let key ← node bound false false
      return (key, .missing) :: (← flowEntries bound false)

end

/-- The directives in front of a document: one version, which must be 1.1, and handles, all of them
different. -/
def directives : Nat → Bool → List (Text × Text) → Reader (List (Text × Text))
  | 0, _, _ => failure
  | bound + 1, hasVersion, handles => do
    match ← peek with
    | .version major minor =>
      if hasVersion || major ≠ 1 || minor ≠ 1 then failure
      advance
      directives bound true handles
    | .handle handle stem =>
      if (handles.lookup handle).isSome then failure
      advance
      directives bound hasVersion (handles ++ [(handle, stem)])
    | _ => return handles

/-- The content of a document that starts with its mark, which may be missing. -/
def markedContent (bound : Nat) : Reader Node := do
  match ← peek with
  | .version _ _ => return .missing
  | .handle _ _ => return .missing
  | .documentStart => return .missing
  | .documentEnd => return .missing
  | .streamEnd => return .missing
  | _ => node bound true false

/-- The first document of a stream, if there is one.  The token behind it must be settled, too. -/
def document (bound : Nat) : Reader (Option Node) := do
  let first ← peek
  let opens := match first with
    | .version _ _ => true
    | .handle _ _ => true
    | .documentStart => true
    | _ => false
  if first = .streamEnd then return none
  else if opens then
    let handles ← directives bound false []
    modify fun r => { r with handles := handles ++ defaultHandles }
    if (← peek) ≠ .documentStart then failure
    advance
    let root ← markedContent bound
    let _ ← peek
    return some root
  else
    let root ← node bound true false
    let _ ← peek
    return some root

end Reader

/-- The root of the first document of a stream.  Nothing if the stream is malformed, and no root if it
holds no document. -/
def root? (stream : Text) : Option (Option Node) :=
  match characters? stream with
  | none => none
  | some t => (Reader.document (4 * t.length + 16) { tokens := .ofText t }).map Prod.fst

end MicroLang.Yaml
