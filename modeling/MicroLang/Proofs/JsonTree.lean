import MicroLang.Compilation
import MicroLang.Proofs.Dump
import MicroLang.Proofs.JsonText

/-!
# The JSON form of a tree

A node is written as an object.  Fields without a value are left out, and still the object tells what the node
holds: a token has a kind and a label has none, and a field that is missing stands for an empty text, for
zero or for no children.

The JSON text of a tree tells the tree apart from the numbers of its nodes and from the file names and offsets
of its tokens, as long as its labels and literals are UTF-8.  The two layouts of it differ in white space only.
-/

namespace MicroLang

/-- Whether the text in a node is UTF-8 throughout. -/
def Content.isUtf8 : Content → Bool
  | .label name => name.isUtf8
  | .token tok => tok.literal.isUtf8

namespace Tree

/-! ### Fields -/

/-- A field that may be left out. -/
def optionalField (key : String) (omitted : Bool) (value : Json) : List (Text × Json) :=
  if omitted then [] else [(text key, value)]

theorem textField_eq (key : String) (t : Text) :
    textField key t = optionalField key t.isEmpty (.string t) := rfl

theorem numberField_eq (key : String) (n : Int) :
    numberField key n = optionalField key (n = 0) (.number n) := by
  simp only [numberField, optionalField, decide_eq_true_eq]

theorem lookup_optionalField (k : Text) (key : String) (omitted : Bool) (value : Json) :
    (optionalField key omitted value).lookup k =
      if k = text key ∧ omitted = false then some value else none := by
  unfold optionalField
  by_cases homitted : omitted = true
  · simp [homitted]
  · by_cases hkey : k = text key
    · simp [homitted, hkey]
    · simp [homitted, hkey, List.lookup_cons, beq_eq_false_iff_ne.2 hkey]

/-- The fields of a node whose children have the given forms. -/
def nodeFields (c : Content) (children : List Json) : List (Text × Json) :=
  contentFields c ++ optionalField "children" children.isEmpty (.array children)

section

variable (c : Content) (name : Text) (tok : Token) (children : List Json)

theorem lookup_kind : (nodeFields c children).lookup (text "kind") =
    c.token?.map fun tok => .string tok.kind.name := by
  cases c with
  | label name =>
    simp +decide [nodeFields, contentFields, textField_eq, List.lookup_append, lookup_optionalField,
      Content.token?]
  | token tok =>
    simp +decide [nodeFields, contentFields, textField_eq, numberField_eq, List.lookup_append,
      lookup_optionalField, Content.token?, tok.kind.name_ne_nil]

theorem lookup_children : (nodeFields c children).lookup (text "children") =
    if children = [] then none else some (.array children) := by
  cases c with
  | label name =>
    simp +decide [nodeFields, contentFields, textField_eq, List.lookup_append, lookup_optionalField]
  | token tok =>
    simp +decide [nodeFields, contentFields, textField_eq, numberField_eq, List.lookup_append,
      lookup_optionalField]

theorem lookup_label : (nodeFields (.label name) children).lookup (text "label") =
    if name = [] then none else some (.string name) := by
  simp +decide [nodeFields, contentFields, textField_eq, List.lookup_append, lookup_optionalField]

theorem lookup_literal : (nodeFields (.token tok) children).lookup (text "literal") =
    if tok.literal = [] then none else some (.string tok.literal) := by
  simp +decide [nodeFields, contentFields, textField_eq, numberField_eq, List.lookup_append,
    lookup_optionalField]

theorem lookup_line : (nodeFields (.token tok) children).lookup (text "line") =
    if tok.pos.line = 0 then none else some (.number tok.pos.line) := by
  simp +decide [nodeFields, contentFields, textField_eq, numberField_eq, List.lookup_append,
    lookup_optionalField]

theorem lookup_column : (nodeFields (.token tok) children).lookup (text "column") =
    if tok.pos.column = 0 then none else some (.number tok.pos.column) := by
  simp +decide [nodeFields, contentFields, textField_eq, numberField_eq, List.lookup_append,
    lookup_optionalField]

end

/-- A value that is left out if it is the default can be told from its field. -/
theorem eq_of_omitted {α : Type} {default a b : α} [Decidable (a = default)] [Decidable (b = default)]
    {value : α → Json} (hvalue : value a = value b → a = b)
    (h : (if a = default then none else some (value a)) = if b = default then none else some (value b)) :
    a = b := by
  by_cases ha : a = default
  · by_cases hb : b = default
    · rw [ha, hb]
    · rw [if_pos ha, if_neg hb] at h
      cases h
  · by_cases hb : b = default
    · rw [if_neg ha, if_pos hb] at h
      cases h
    · rw [if_neg ha, if_neg hb] at h
      exact hvalue (Option.some.inj h)

/-- The fields of a node tell its content and the forms of its children. -/
theorem nodeFields_inj {c c' : Content} {children children' : List Json}
    (h : nodeFields c children = nodeFields c' children') : c.Agrees c' ∧ children = children' := by
  have hlookup : ∀ k, (nodeFields c children).lookup k = (nodeFields c' children').lookup k := by
    intro k
    rw [h]
  refine ⟨?_, ?_⟩
  · have hkind := hlookup (text "kind")
    rw [lookup_kind, lookup_kind] at hkind
    cases c with
    | label name =>
      cases c' with
      | label name' =>
        have hname := hlookup (text "label")
        rw [lookup_label, lookup_label] at hname
        rw [eq_of_omitted Json.string.inj hname]
        exact .label name'
      | token tok' => cases hkind
    | token tok =>
      cases c' with
      | label name' => cases hkind
      | token tok' =>
        have hliteral := hlookup (text "literal")
        have hline := hlookup (text "line")
        have hcolumn := hlookup (text "column")
        rw [lookup_literal, lookup_literal] at hliteral
        rw [lookup_line, lookup_line] at hline
        rw [lookup_column, lookup_column] at hcolumn
        exact .token (Kind.name_inj (Json.string.inj (Option.some.inj hkind)))
          (eq_of_omitted Json.string.inj hliteral)
          (eq_of_omitted Json.number.inj hline) (eq_of_omitted Json.number.inj hcolumn)
  · have hchildren := hlookup (text "children")
    rw [lookup_children, lookup_children] at hchildren
    exact eq_of_omitted Json.array.inj hchildren

theorem nodeFields_congr {c c' : Content} (h : c.Agrees c') (children : List Json) :
    nodeFields c children = nodeFields c' children := by
  cases h with
  | label name => rfl
  | token kind literal line column => simp only [nodeFields, contentFields, kind, literal, line, column]

/-! ### Nodes -/

/-- The object of a node whose children have the given forms. -/
def nodeJson (c : Content) (children : List Json) : Json := .object (nodeFields c children)

/-- The JSON form of the subtree at an index. -/
def jsonAt (t : Tree) (i : Nat) : Json := (t.shapeAt i).json

theorem json_eq (t : Tree) : t.json = t.jsonAt root := rfl

theorem Shape.jsonList_eq (shapes : List Shape) : Shape.jsonList shapes = shapes.map Shape.json := by
  induction shapes with
  | nil => rfl
  | cons s shapes ih => rw [Shape.jsonList, ih, List.map_cons]

variable {t u : Tree}

theorem Ordered.jsonAt_eq (h : t.Ordered) (i : Nat) (n : Node) (hn : t.nodes[i]? = some n) :
    t.jsonAt i = nodeJson n.content (n.children.map t.jsonAt) := by
  have hchildren : (n.children.map t.shapeAt).map Shape.json = n.children.map t.jsonAt := List.map_map
  rw [jsonAt, h.shapeAt_eq hn, Shape.json, Shape.jsonList_eq, hchildren, nodeJson, nodeFields,
    optionalField, List.isEmpty_map, List.isEmpty_map]

/-- The JSON forms of trees are the same exactly if the trees are. -/
theorem json_eq_iff_same (h : t.Built) (h' : u.Built) : t.json = u.json ↔ t.Same u := by
  rw [json_eq, json_eq]
  constructor
  · refine h.ordered.sameAt_of_eq h'.ordered h.ordered.jsonAt_eq h'.ordered.jsonAt_eq ?_ root h.size_pos root
      h'.size_pos
    intro c c' children children' hsame
    exact nodeFields_inj (Json.object.inj hsame)
  · refine h.ordered.eq_of_sameAt h.ordered.jsonAt_eq h'.ordered.jsonAt_eq ?_ root h.size_pos root
    intro c c' children hagrees
    rw [nodeJson, nodeJson, nodeFields_congr hagrees]

/-! ### UTF-8 -/

/-- Whether all texts in the nodes of a tree are UTF-8. -/
def isUtf8 (t : Tree) : Bool := t.nodes.toList.all fun n => n.content.isUtf8

theorem isUtf8_of_getElem? {t : Tree} (h : t.isUtf8 = true) {i : Nat} {n : Node} (hn : t.nodes[i]? = some n) :
    n.content.isUtf8 = true := by
  rw [← Array.getElem?_toList] at hn
  exact List.all_eq_true.1 h n (List.mem_of_getElem? hn)

end Tree

theorem Text.isUtf8_of_plain {t : Text} (h : t.all isPlain = true) : t.isUtf8 = true := by
  induction t with
  | nil => rfl
  | cons b t ih =>
    rw [List.all_cons, Bool.and_eq_true] at h
    rw [isUtf8, pieces_cons_ascii b t (lt_of_isPlain h.1), List.all_cons, Bool.true_and]
    exact ih h.2

namespace Tree

variable {t u : Tree}

theorem isUtf8_optionalField {key : String} {omitted : Bool} {value : Json} (hkey : (text key).isUtf8 = true)
    (hvalue : value.IsUtf8) : ∀ f ∈ optionalField key omitted value, f.1.isUtf8 = true ∧ f.2.IsUtf8 := by
  intro f hf
  unfold optionalField at hf
  split at hf
  · cases hf
  · rw [List.mem_singleton.1 hf]
    exact ⟨hkey, hvalue⟩

theorem isUtf8_nodeFields {c : Content} {children : List Json} (hc : c.isUtf8 = true)
    (hchildren : ∀ child ∈ children, child.IsUtf8) :
    ∀ f ∈ nodeFields c children, f.1.isUtf8 = true ∧ f.2.IsUtf8 := by
  rw [nodeFields, List.forall_mem_append]
  refine ⟨?_, isUtf8_optionalField (by decide) (.array hchildren)⟩
  cases c with
  | label name => exact isUtf8_optionalField (by decide) (.string hc)
  | token tok =>
    rw [contentFields, List.forall_mem_append, List.forall_mem_append, List.forall_mem_append, numberField_eq,
      numberField_eq]
    exact ⟨⟨⟨isUtf8_optionalField (by decide) (.string (Text.isUtf8_of_plain tok.kind.plain_name)),
      isUtf8_optionalField (by decide) (.string hc)⟩, isUtf8_optionalField (by decide) (.number _)⟩,
      isUtf8_optionalField (by decide) (.number _)⟩

theorem Ordered.isUtf8_jsonAt (h : t.Ordered) (hutf8 : t.isUtf8 = true) :
    ∀ i < t.size, (t.jsonAt i).IsUtf8 := by
  refine h.induction fun i hi ih => ?_
  obtain ⟨n, hn⟩ := exists_node hi
  rw [children_of_getElem? hn] at ih
  have hchildren : ∀ child ∈ n.children.map t.jsonAt, child.IsUtf8 := by
    rw [List.forall_mem_map]
    exact ih
  have hfields := isUtf8_nodeFields (isUtf8_of_getElem? hutf8 hn) hchildren
  rw [h.jsonAt_eq i n hn]
  exact .object (fun f hf => (hfields f hf).1) fun f hf => (hfields f hf).2

end Tree

/-- The JSON form of a tree is faithful.  Of trees whose texts are UTF-8 it is the same exactly if the trees
are the same as ordered trees, and without the white space outside literals the JSON text of the tree of a
source is the compact one. -/
theorem json_faithful :
    (∀ t u : Tree, t.Built → u.Built → t.isUtf8 = true → u.isUtf8 = true →
      (t.json.compact = u.json.compact ↔ t.Same u)) ∧
    ∀ (config : Config) (filename src : Text),
      Json.withoutWhite .between (Compilation.ofSource config filename src).output.treeJson =
        (Compilation.ofSource config filename src).output.tree.json.compact := by
  refine ⟨fun t u ht hu htutf8 huutf8 => ?_, fun config filename src => ?_⟩
  · rw [← Tree.json_eq_iff_same ht hu]
    have hjson : t.json.IsUtf8 := ht.ordered.isUtf8_jsonAt htutf8 Tree.root ht.size_pos
    have hjson' : u.json.IsUtf8 := hu.ordered.isUtf8_jsonAt huutf8 Tree.root hu.size_pos
    exact ⟨Json.compact_inj hjson hjson', congrArg Json.compact⟩
  · have hlayout := Json.withoutWhite_indented (Compilation.ofSource config filename src).output.tree.json 0 []
    rw [List.append_nil, Json.withoutWhite, List.append_nil] at hlayout
    exact hlayout

/-- Two trees with escapes and with bytes outside ASCII.  Their nodes were added in another order, and their
tokens stand in files of other names, at other offsets. -/
theorem json_faithful_renumbered :
    let base := (Tree.ofRoot (text "é\"")).attach 0 (.label (text "\u2028\t"))
    let tok : Token := { kind := .id, literal := text "\\", pos := { line := 1, column := 2 } }
    let t := (base.attach 1 (.token tok)).attach 0 (.label [])
    let u := (base.attach 0 (.label [])).attach 1
      (.token { tok with pos := { tok.pos with filename := text "b", offset := 7 } })
    t ≠ u ∧ t.json.compact = u.json.compact ∧ t.Same u := by
  intro base tok t u
  have hbase : base.Built := .label (.root _) (show (Tree.ofRoot _).addLabel 0 _ = .ok (base, 1) from rfl)
  have ht : t.Built := .label (.token hbase (show base.addToken 1 tok = .ok (_, 2) from rfl))
    (show (base.attach 1 (.token tok)).addLabel 0 [] = .ok (t, 3) from rfl)
  have hu : u.Built := .token (.label hbase (show base.addLabel 0 [] = .ok (_, 2) from rfl))
    (show (base.attach 0 (.label [])).addToken 1 _ = .ok (u, 3) from rfl)
  have htext : t.json.compact = u.json.compact := by decide +kernel
  exact ⟨by decide, htext, (json_faithful.1 t u ht hu (by decide +kernel) (by decide +kernel)).1 htext⟩

end MicroLang
