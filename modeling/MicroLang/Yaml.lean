import MicroLang.Yaml.Value

/-!
# Reading YAML mappings

The fields of the mapping at the root of a YAML document.  A mapping may take over the fields of
others by a merge key; its own fields come first, and of two fields with one name the first is the
one that counts.
-/

namespace MicroLang.Yaml

/-- A field of a mapping: the name that its key spells, and its node. -/
abbrev Field : Type := Text × Node

/-- What makes two keys the same: their kind and their spelling. -/
def Node.spelling : Node → Nat × Text
  | .scalar _ _ t => (0, t)
  | .sequence _ => (1, [])
  | .mapping _ => (2, [])
  | .alias name _ => (3, name)

/-- Whether a mapping has a key twice. -/
def repeatsKey : List (Node × Node) → Bool
  | [] => false
  | (key, _) :: entries =>
    entries.any (fun e => e.1.spelling = key.spelling) || repeatsKey entries

/-- Whether a key asks for the fields of other mappings. -/
def Node.isMerge : Node → Bool
  | .scalar none isPlain t => isPlain && t = text "<<"
  | .scalar (some tag) _ t => tag = text "!!merge" && t = text "<<"
  | _ => false

/-- The fields that a mapping has by itself.  Every key must be a scalar; a null key has no field. -/
def ownFields? : List (Node × Node) → Option (List Field)
  | [] => some []
  | (key, value) :: entries =>
    if key.isMerge then ownFields? entries
    else match key.value?, ownFields? entries with
      | some v, some fields => some ((v.text?.map fun name => [(name, value)]).getD [] ++ fields)
      | _, _ => none

/-- What the merge key of a mapping asks for. -/
def mergeSource? (entries : List (Node × Node)) : Option Node :=
  (entries.find? fun e => e.1.isMerge).map Prod.snd

/-- The fields whose names are neither seen before nor repeated. -/
def freshFields (seen : List Text) : List Field → List Field
  | [] => []
  | f :: fields =>
    if seen.contains f.1 then freshFields seen fields
    else f :: freshFields (f.1 :: seen) fields

def names (fields : List Field) : List Text := fields.map Prod.fst

mutual

/-- The fresh fields of a mapping, or of the mapping that an alias stands for, with those that it takes
over itself.  The first argument bounds the depth. -/
def mergedFields? : Nat → List Text → Node → Option (List Field)
  | 0, _, _ => none
  | bound + 1, seen, .alias _ (some (.mapping entries)) => mergedEntries? bound seen entries
  | bound + 1, seen, .mapping entries => mergedEntries? bound seen entries
  | _, _, _ => none

def mergedEntries? : Nat → List Text → List (Node × Node) → Option (List Field)
  | 0, _, _ => none
  | bound + 1, seen, entries =>
    if repeatsKey entries then none
    else match ownFields? entries with
      | none => none
      | some own =>
        let fresh := freshFields seen own
        (sourceFields? bound (seen ++ names fresh) (mergeSource? entries)).map (fresh ++ ·)

/-- The fresh fields of what a merge key asks for: one mapping, or several in order. -/
def sourceFields? : Nat → List Text → Option Node → Option (List Field)
  | 0, _, _ => none
  | _, _, none => some []
  | _ + 1, _, some (.sequence []) => some []
  | bound + 1, seen, some (.sequence (item :: items)) =>
    match mergedFields? bound seen item with
    | none => none
    | some fields =>
      (sourceFields? bound (seen ++ names fields) (some (.sequence items))).map (fields ++ ·)
  | bound + 1, seen, some source => mergedFields? bound seen source

end

/-- The fields of the mapping with the given entries. -/
def fields? (bound : Nat) (entries : List (Node × Node)) : Option (List Field) :=
  if repeatsKey entries then none
  else match ownFields? entries with
    | none => none
    | some own =>
      if (names own).Nodup then
        (sourceFields? bound (names own) (mergeSource? entries)).map (own ++ ·)
      else none

/-- The fields of the root of the first document.  A document that is empty or a null has none; any
other root must be a mapping. -/
def read? (stream : Text) : Option (List Field) :=
  match root? stream with
  | none => none
  | some none => some []
  | some (some (.mapping entries)) => fields? (3 * stream.length + 3) entries
  | some (some node) =>
    match node.value? with
    | some .null => some []
    | _ => none

end MicroLang.Yaml
