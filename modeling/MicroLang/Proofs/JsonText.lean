import MicroLang.Proofs.Literal
import MicroLang.Proofs.Viability

/-!
# The texts of JSON values

The compact layout tells the value, provided that the texts in it are UTF-8: the first byte tells what form
of value it is, a literal and the brackets of a container tell where they end, and a numeral ends where a byte
follows that belongs to no numeral.

The indented layout has the same bytes apart from white space between the tokens.  Whether white space stands
between tokens or inside a literal is told by reading from the left, with an eye on quotes and on backslashes
inside literals.
-/

namespace MicroLang

namespace Json

/-- Induction along a value, from what a container holds to the container. -/
theorem induction {motive : Json → Prop} (number : ∀ n, motive (.number n)) (string : ∀ t, motive (.string t))
    (array : ∀ items, (∀ item ∈ items, motive item) → motive (.array items))
    (object : ∀ fields, (∀ f ∈ fields, motive f.2) → motive (.object fields)) (j : Json) : motive j :=
  match j with
  | .number n => number n
  | .string t => string t
  | .array items => array items fun item _ => induction number string array object item
  | .object fields => object fields fun f _ => induction number string array object f.2
termination_by sizeOf j
decreasing_by
  · have hlt := List.sizeOf_lt_of_mem ‹_›
    simp only [Json.array.sizeOf_spec]
    omega
  · have hlt := List.sizeOf_lt_of_mem ‹_›
    have hvalue : sizeOf f.2 < sizeOf f := by
      obtain ⟨key, value⟩ := f
      simp only [Prod.mk.sizeOf_spec]
      omega
    simp only [Json.object.sizeOf_spec]
    omega

/-! ### Elements with commas between them -/

section

variable {α : Type} (shown : α → Text)

def separated : List α → Text
  | [] => []
  | a :: rest => shown a ++ rest.flatMap fun b => 44 :: shown b

theorem separated_cons_cons (a b : α) (rest : List α) :
    separated shown (a :: b :: rest) = shown a ++ 44 :: separated shown (b :: rest) := by
  simp only [separated, List.flatMap_cons, List.cons_append]

end

/-- The text starts with no byte of a numeral. -/
def Stops (t : Text) : Prop := ∀ b ∈ t.head?, Text.isNumeral b = false

theorem stops_cons {b : UInt8} (h : Text.isNumeral b = false) (t : Text) : Stops (b :: t) := by
  intro b' hb'
  cases hb'
  exact h

section

variable {α : Type} {shown : α → Text} {close : UInt8} {as bs : List α} {x y : Text}

theorem stops_rest (hclose : Text.isNumeral close = false) :
    Stops ((as.flatMap fun b => 44 :: shown b) ++ close :: x) := by
  cases as with
  | nil => exact stops_cons hclose x
  | cons a as => exact stops_cons rfl _

/-- The elements behind the first one. -/
theorem rest_append_inj (hclose : Text.isNumeral close = false) (hcomma : close ≠ 44)
    (hshown : ∀ a ∈ as, ∀ b ∈ bs, ∀ x y, Stops x → Stops y → shown a ++ x = shown b ++ y → a = b ∧ x = y)
    (h : (as.flatMap fun b => 44 :: shown b) ++ close :: x = (bs.flatMap fun b => 44 :: shown b) ++ close :: y) :
    as = bs ∧ x = y := by
  induction as generalizing bs with
  | nil =>
    cases bs with
    | nil => exact ⟨rfl, (List.cons.inj h).2⟩
    | cons b bs => exact absurd (List.cons.inj h).1 hcomma
  | cons a as ih =>
    cases bs with
    | nil => exact absurd (List.cons.inj h).1.symm hcomma
    | cons b bs =>
      rw [List.flatMap_cons, List.flatMap_cons, List.append_assoc, List.append_assoc] at h
      obtain ⟨rfl, hrest⟩ := hshown a List.mem_cons_self b List.mem_cons_self _ _ (stops_rest hclose)
        (stops_rest hclose) (List.cons.inj h).2
      obtain ⟨rfl, hxy⟩ := ih (fun a ha b hb => hshown a (List.mem_cons_of_mem _ ha) b
        (List.mem_cons_of_mem _ hb)) hrest
      exact ⟨rfl, hxy⟩

/-- A container ends at its closing bracket. -/
theorem separated_append_inj (hclose : Text.isNumeral close = false) (hcomma : close ≠ 44)
    (hopen : ∀ a, ∃ b t, shown a = b :: t ∧ b ≠ close)
    (hshown : ∀ a ∈ as, ∀ b ∈ bs, ∀ x y, Stops x → Stops y → shown a ++ x = shown b ++ y → a = b ∧ x = y)
    (h : separated shown as ++ close :: x = separated shown bs ++ close :: y) : as = bs ∧ x = y := by
  have hnil : ∀ {a : α} {as : List α} {x y : Text}, close :: x ≠ separated shown (a :: as) ++ y := by
    intro a as x y hsame
    obtain ⟨b, t, hfirst, hne⟩ := hopen a
    rw [separated, hfirst] at hsame
    exact hne (List.cons.inj hsame).1.symm
  cases as with
  | nil =>
    cases bs with
    | nil => exact ⟨rfl, (List.cons.inj h).2⟩
    | cons b bs => exact absurd h hnil
  | cons a as =>
    cases bs with
    | nil => exact absurd h.symm hnil
    | cons b bs =>
      rw [separated, separated, List.append_assoc, List.append_assoc] at h
      obtain ⟨rfl, hrest⟩ := hshown a List.mem_cons_self b List.mem_cons_self _ _ (stops_rest hclose)
        (stops_rest hclose) h
      obtain ⟨rfl, hxy⟩ := rest_append_inj hclose hcomma (fun a ha b hb => hshown a (List.mem_cons_of_mem _ ha)
        b (List.mem_cons_of_mem _ hb)) hrest
      exact ⟨rfl, hxy⟩

end

/-! ### The compact layout -/

/-- A key and its value. -/
def compactField (f : Text × Json) : Text := literal f.1 ++ 58 :: f.2.compact

theorem compactItems_eq (items : List Json) : compactItems items = separated compact items := by
  induction items with
  | nil => rfl
  | cons item items ih =>
    cases items with
    | nil => rw [compactItems, separated, List.flatMap_nil, List.append_nil]
    | cons next items =>
      rw [compactItems, ih, separated_cons_cons, List.append_assoc]
      · rfl
      · exact List.cons_ne_nil _ _

theorem compactFields_eq (fields : List (Text × Json)) :
    compactFields fields = separated compactField fields := by
  induction fields with
  | nil => rfl
  | cons f fields ih =>
    obtain ⟨key, value⟩ := f
    cases fields with
    | nil =>
      rw [compactFields, separated, List.flatMap_nil, List.append_nil, compactField, List.append_assoc]
      rfl
    | cons next fields =>
      rw [compactFields, ih, separated_cons_cons, compactField]
      · simp only [List.append_assoc]
        rfl
      · exact List.cons_ne_nil _ _

theorem compact_array (items : List Json) :
    (Json.array items).compact = 91 :: (separated compact items ++ [93]) := by
  rw [compact, compactItems_eq]
  rfl

theorem compact_object (fields : List (Text × Json)) :
    (Json.object fields).compact = 123 :: (separated compactField fields ++ [125]) := by
  rw [compact, compactFields_eq]
  rfl

/-- Values whose texts are UTF-8 throughout. -/
inductive IsUtf8 : Json → Prop where
  | number (n : Int) : IsUtf8 (.number n)
  | string {t : Text} (h : t.isUtf8 = true) : IsUtf8 (.string t)
  | array {items : List Json} (h : ∀ item ∈ items, IsUtf8 item) : IsUtf8 (.array items)
  | object {fields : List (Text × Json)} (keys : ∀ f ∈ fields, f.1.isUtf8 = true)
      (values : ∀ f ∈ fields, IsUtf8 f.2) : IsUtf8 (.object fields)

/-- What tells the constructors of values apart. -/
inductive Form where
  | number
  | string
  | array
  | object

def form : Json → Form
  | .number _ => .number
  | .string _ => .string
  | .array _ => .array
  | .object _ => .object

/-- The form of the values that start with a byte. -/
def Form.ofByte (b : UInt8) : Form :=
  if Text.isNumeral b then .number else if b = 34 then .string else if b = 91 then .array else .object

theorem compact_eq_cons (j : Json) : ∃ b t, j.compact = b :: t ∧ j.form = .ofByte b ∧ b ≠ 93 := by
  cases j with
  | number n =>
    obtain ⟨b, t, hdigits⟩ := List.exists_cons_of_ne_nil (Text.ofInt_ne_nil n)
    have hnumeral := Text.all_isNumeral_ofInt n
    rw [hdigits, List.all_cons, Bool.and_eq_true] at hnumeral
    refine ⟨b, t, by rw [compact, hdigits], ?_, ?_⟩
    · rw [Form.ofByte, if_pos hnumeral.1]
      rfl
    · rintro rfl
      cases hnumeral.1
  | string t => exact ⟨34, _, rfl, rfl, by decide⟩
  | array items => exact ⟨91, _, compact_array items, rfl, by decide⟩
  | object fields => exact ⟨123, _, compact_object fields, rfl, by decide⟩

/-- Values of which one starts like the other are of the same form. -/
theorem form_eq_of_append {a b : Json} {x y : Text} (h : a.compact ++ x = b.compact ++ y) :
    a.form = b.form := by
  obtain ⟨c, t, hc, hform, -⟩ := a.compact_eq_cons
  obtain ⟨c', t', hc', hform', -⟩ := b.compact_eq_cons
  rw [hc, hc'] at h
  have hsame : c = c' := (List.cons.inj h).1
  rw [hform, hform', hsame]

/-- The compact layout tells the value and where it ends. -/
theorem compact_append_inj {a b : Json} (ha : a.IsUtf8) (hb : b.IsUtf8) {x y : Text} (hx : Stops x)
    (hy : Stops y) (h : a.compact ++ x = b.compact ++ y) : a = b ∧ x = y := by
  induction a using Json.induction generalizing b x y with
  | number n =>
    cases b with
    | number m =>
      obtain ⟨hnumeral, hrest⟩ := eq_of_append_of_stop (Text.all_isNumeral_ofInt n) (Text.all_isNumeral_ofInt m)
        hx hy h
      exact ⟨congrArg Json.number (Text.ofInt_inj hnumeral), hrest⟩
    | _ => cases form_eq_of_append h
  | string t =>
    cases b with
    | string u =>
      cases ha with
      | string ht =>
        cases hb with
        | string hu =>
          obtain ⟨hliteral, hrest⟩ := literal_append_inj ht hu h
          exact ⟨congrArg Json.string hliteral, hrest⟩
    | _ => cases form_eq_of_append h
  | array items ih =>
    cases b with
    | array items' =>
      cases ha with
      | array hitems =>
        cases hb with
        | array hitems' =>
          rw [compact_array, compact_array, List.cons_append, List.cons_append, List.append_assoc,
            List.append_assoc] at h
          have hopen : ∀ a : Json, ∃ b t, a.compact = b :: t ∧ b ≠ 93 := by
            intro a
            obtain ⟨b, t, hb, -, hne⟩ := a.compact_eq_cons
            exact ⟨b, t, hb, hne⟩
          obtain ⟨hsame, hrest⟩ := separated_append_inj rfl (by decide) hopen
            (fun a ha b hb x y hx hy h => ih a ha (hitems a ha) (hitems' b hb) hx hy h) (List.cons.inj h).2
          exact ⟨congrArg Json.array hsame, hrest⟩
    | _ => cases form_eq_of_append h
  | object fields ih =>
    cases b with
    | object fields' =>
      cases ha with
      | object hkeys hvalues =>
        cases hb with
        | object hkeys' hvalues' =>
          rw [compact_object, compact_object, List.cons_append, List.cons_append, List.append_assoc,
            List.append_assoc] at h
          have hfield : ∀ f ∈ fields, ∀ g ∈ fields', ∀ x y, Stops x → Stops y →
              compactField f ++ x = compactField g ++ y → f = g ∧ x = y := by
            intro f hf g hg x y hx hy hfg
            unfold compactField at hfg
            rw [List.append_assoc, List.append_assoc] at hfg
            obtain ⟨hkey, hvalue⟩ := literal_append_inj (hkeys f hf) (hkeys' g hg) hfg
            obtain ⟨hvalue, hrest⟩ := ih f hf (hvalues f hf) (hvalues' g hg) hx hy (List.cons.inj hvalue).2
            exact ⟨Prod.ext hkey hvalue, hrest⟩
          obtain ⟨hsame, hrest⟩ :=
            separated_append_inj rfl (by decide) (fun f => ⟨34, _, rfl, by decide⟩) hfield
            (List.cons.inj h).2
          exact ⟨congrArg Json.object hsame, hrest⟩
    | _ => cases form_eq_of_append h

theorem compact_inj {a b : Json} (ha : a.IsUtf8) (hb : b.IsUtf8) (h : a.compact = b.compact) : a = b := by
  have hnil : Stops [] := by
    intro b hb
    cases hb
  exact (compact_append_inj ha hb hnil hnil (congrArg (· ++ []) h)).1

/-! ### White space -/

/-- Where a byte of a text stands. -/
inductive Spot where
  | between
  | inside
  | escaped
deriving DecidableEq

/-- The white space of JSON. -/
def isWhite (b : UInt8) : Bool := b == 32 || b == 9 || b == 10 || b == 13

namespace Spot

/-- Where the byte behind a byte stands. -/
def next : Spot → UInt8 → Spot
  | .between, b => if b = 34 then .inside else .between
  | .inside, b => if b = 34 then .between else if b = 92 then .escaped else .inside
  | .escaped, _ => .inside

/-- White space counts outside literals only. -/
def drops : Spot → UInt8 → Bool
  | .between, b => isWhite b
  | _, _ => false

end Spot

/-- The text from a spot on, without the white space outside literals. -/
def withoutWhite : Spot → Text → Text
  | _, [] => []
  | spot, b :: t => if spot.drops b then withoutWhite spot t else b :: withoutWhite (spot.next b) t

theorem withoutWhite_white {t : Text} (h : t.all isWhite = true) (rest : Text) :
    withoutWhite .between (t ++ rest) = withoutWhite .between rest := by
  induction t with
  | nil => rfl
  | cons b t ih =>
    rw [List.all_cons, Bool.and_eq_true] at h
    have hdrops : Spot.between.drops b = true := h.1
    rw [List.cons_append, withoutWhite, if_pos hdrops, ih h.2]

/-- Bytes that are neither dropped nor change anything. -/
theorem withoutWhite_append {spot : Spot} {t : Text} (h : ∀ b ∈ t, spot.drops b = false ∧ spot.next b = spot)
    (rest : Text) : withoutWhite spot (t ++ rest) = t ++ withoutWhite spot rest := by
  induction t with
  | nil => rfl
  | cons b t ih =>
    rw [List.forall_mem_cons] at h
    rw [List.cons_append, withoutWhite, h.1.1, h.1.2, ih h.2]
    rfl

theorem withoutWhite_numeral (n : Int) (rest : Text) :
    withoutWhite .between (Text.ofInt n ++ rest) = Text.ofInt n ++ withoutWhite .between rest := by
  have hbyte : ∀ b : UInt8, Text.isNumeral b = true →
      Spot.between.drops b = false ∧ Spot.between.next b = .between :=
    Text.forall_byte (by decide +kernel)
  apply withoutWhite_append
  intro b hb
  exact hbyte b (List.all_eq_true.1 (Text.all_isNumeral_ofInt n) b hb)

theorem next_inside {b : UInt8} (h : b ≠ 34 ∧ b ≠ 92) :
    Spot.inside.drops b = false ∧ Spot.inside.next b = .inside := by
  refine ⟨rfl, ?_⟩
  rw [Spot.next, if_neg h.1, if_neg h.2]

/-- Escaped forms are a backslash, any byte and bytes that are neither quotes nor backslashes. -/
theorem escapeChar_of_mem {c : Char} (h : c.toNat ∈ escaped) :
    ∃ b t, escapeChar c = 92 :: b :: t ∧ ∀ d ∈ t, d ≠ 34 ∧ d ≠ 92 := by
  have hall : ∀ v ∈ escaped, (escapeChar (Char.ofNat v)).head? = some 92 ∧
      2 ≤ (escapeChar (Char.ofNat v)).length ∧ ∀ d ∈ (escapeChar (Char.ofNat v)).drop 2, d ≠ 34 ∧ d ≠ 92 := by
    decide +kernel
  have hc := hall c.toNat h
  rw [Char.ofNat_toNat] at hc
  obtain ⟨hfirst, hlength, hrest⟩ := hc
  obtain ⟨t, ht⟩ := List.head?_eq_some_iff.1 hfirst
  cases t with
  | nil =>
    rw [ht] at hlength
    simp at hlength
  | cons b t =>
    rw [ht] at hrest
    exact ⟨b, t, ht, hrest⟩

theorem withoutWhite_escapePiece (p : Piece) (rest : Text) :
    withoutWhite .inside (escapePiece p ++ rest) = escapePiece p ++ withoutWhite .inside rest := by
  cases p with
  | stray b =>
    apply withoutWhite_append
    intro d hd
    have hall : ∀ d ∈ Text.replacement, d ≠ 34 ∧ d ≠ 92 := by decide +kernel
    exact next_inside (hall d hd)
  | scalar c =>
    show withoutWhite .inside (escapeChar c ++ rest) = escapeChar c ++ _
    by_cases hc : c.toNat ∈ escaped
    · obtain ⟨b, t, ht, hplain⟩ := escapeChar_of_mem hc
      have htail := withoutWhite_append (fun d hd => next_inside (hplain d hd)) rest
      rw [ht]
      exact congrArg (fun u => 92 :: b :: u) htail
    · rw [escapeChar_of_not_mem hc]
      apply withoutWhite_append
      intro d hd
      exact next_inside (ne_of_mem_ofChar hc hd)

theorem withoutWhite_literal (t rest : Text) :
    withoutWhite .between (literal t ++ rest) = literal t ++ withoutWhite .between rest := by
  have hpieces : ∀ ps : List Piece, withoutWhite .inside (ps.flatMap escapePiece ++ 34 :: rest) =
      ps.flatMap escapePiece ++ 34 :: withoutWhite .between rest := by
    intro ps
    induction ps with
    | nil => rfl
    | cons p ps ih =>
      rw [List.flatMap_cons, List.append_assoc, withoutWhite_escapePiece, ih, List.append_assoc]
  show 34 :: withoutWhite .inside (t.pieces.flatMap escapePiece ++ [34] ++ rest) =
    34 :: (t.pieces.flatMap escapePiece ++ [34] ++ withoutWhite .between rest)
  rw [List.append_assoc, List.append_assoc, List.singleton_append, List.singleton_append, hpieces]

theorem newline_white (depth : Nat) : (newline depth).all isWhite = true := by
  rw [newline, List.all_cons, List.all_replicate]
  simp [isWhite]

/-! ### The indented layout -/

/-- An element on a line of its own. -/
def indentedItem (depth : Nat) (item : Json) : Text := newline depth ++ item.indented depth

/-- A field on a line of its own. -/
def indentedField (depth : Nat) (f : Text × Json) : Text :=
  newline depth ++ (literal f.1 ++ 58 :: 32 :: f.2.indented depth)

theorem indentedItems_eq (depth : Nat) (items : List Json) :
    indentedItems depth items = separated (indentedItem depth) items := by
  induction items with
  | nil => rfl
  | cons item items ih =>
    cases items with
    | nil =>
      rw [indentedItems, separated, List.flatMap_nil, List.append_nil]
      rfl
    | cons next items =>
      rw [indentedItems, ih, separated_cons_cons, List.append_assoc]
      · rfl
      · exact List.cons_ne_nil _ _

theorem indentedFields_eq (depth : Nat) (fields : List (Text × Json)) :
    indentedFields depth fields = separated (indentedField depth) fields := by
  induction fields with
  | nil => rfl
  | cons f fields ih =>
    obtain ⟨key, value⟩ := f
    cases fields with
    | nil =>
      rw [indentedFields, separated, List.flatMap_nil, List.append_nil, indentedField, List.append_assoc,
        List.append_assoc]
      rfl
    | cons next fields =>
      rw [indentedFields, ih, separated_cons_cons, indentedField]
      · simp only [List.append_assoc]
        rfl
      · exact List.cons_ne_nil _ _

/-- Without white space, elements with commas between them are elements with commas between them. -/
theorem withoutWhite_separated {α : Type} {spaced compact : α → Text} {as : List α} (rest : Text)
    (h : ∀ a ∈ as, ∀ rest, withoutWhite .between (spaced a ++ rest) = compact a ++ withoutWhite .between rest) :
    withoutWhite .between (separated spaced as ++ rest) = separated compact as ++ withoutWhite .between rest := by
  have htail : ∀ as : List α, (∀ a ∈ as, ∀ rest, withoutWhite .between (spaced a ++ rest) =
      compact a ++ withoutWhite .between rest) →
      withoutWhite .between ((as.flatMap fun b => 44 :: spaced b) ++ rest) =
        (as.flatMap fun b => 44 :: compact b) ++ withoutWhite .between rest := by
    intro as h
    induction as with
    | nil => rfl
    | cons a as ih =>
      rw [List.forall_mem_cons] at h
      rw [List.flatMap_cons, List.flatMap_cons, List.append_assoc, List.append_assoc, ← ih h.2]
      show 44 :: withoutWhite .between (spaced a ++ _) = 44 :: (compact a ++ _)
      rw [h.1]
  cases as with
  | nil => rfl
  | cons a as =>
    rw [List.forall_mem_cons] at h
    rw [separated, separated, List.append_assoc, List.append_assoc, h.1, htail as h.2]

/-- Without the white space outside literals, the indented layout is the compact one. -/
theorem withoutWhite_indented (j : Json) (depth : Nat) (rest : Text) :
    withoutWhite .between (j.indented depth ++ rest) = j.compact ++ withoutWhite .between rest := by
  induction j using Json.induction generalizing depth rest with
  | number n => exact withoutWhite_numeral n rest
  | string t => exact withoutWhite_literal t rest
  | array items ih =>
    have hitem : ∀ item ∈ items, ∀ rest, withoutWhite .between (indentedItem (depth + 1) item ++ rest) =
        item.compact ++ withoutWhite .between rest := by
      intro item hitem rest
      rw [indentedItem, List.append_assoc, withoutWhite_white (newline_white _), ih item hitem]
    rw [compact_array]
    cases items with
    | nil => rfl
    | cons item items =>
      rw [indented, indentedItems_eq, List.append_assoc, List.append_assoc, List.append_assoc]
      · show 91 :: withoutWhite .between (separated _ _ ++ (newline depth ++ (93 :: rest))) = _
        rw [withoutWhite_separated _ hitem, withoutWhite_white (newline_white _), List.cons_append,
          List.append_assoc]
        rfl
      · exact List.cons_ne_nil _ _
  | object fields ih =>
    have hfield : ∀ f ∈ fields, ∀ rest, withoutWhite .between (indentedField (depth + 1) f ++ rest) =
        compactField f ++ withoutWhite .between rest := by
      intro f hf rest
      rw [indentedField, List.append_assoc, withoutWhite_white (newline_white _), List.append_assoc,
        withoutWhite_literal]
      show literal f.1 ++ 58 :: withoutWhite .between (f.2.indented (depth + 1) ++ rest) = _
      rw [ih f hf, compactField, List.append_assoc]
      rfl
    rw [compact_object]
    cases fields with
    | nil => rfl
    | cons f fields =>
      rw [indented, indentedFields_eq, List.append_assoc, List.append_assoc, List.append_assoc]
      · show 123 :: withoutWhite .between (separated _ _ ++ (newline depth ++ (125 :: rest))) = _
        rw [withoutWhite_separated _ hfield, withoutWhite_white (newline_white _), List.cons_append,
          List.append_assoc]
        rfl
      · exact List.cons_ne_nil _ _

end Json

end MicroLang
