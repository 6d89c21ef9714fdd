import Mathlib.Data.List.Forall2
import Mathlib.Data.List.Induction
import MicroLang.Proofs.Margins
import MicroLang.Proofs.Sections

/-!
# Lines of headings and fences

Blocks carry the numbers of lines: a heading that of its first line, a fence those of its content.  A document
is read line by line, and while it is read a line is in one place at most, in a block that is complete or in
the one that takes text.  So each step adds the number of its line to the numbers that are there or does
not, and may drop some of them, but never moves any.  What comes out in the end is part of the numbers of
all lines, in order.

A fence whose content has no line counts as line one.  No other fence does, since it starts in front of its
content.
-/

namespace MicroLang

namespace Markdown

/-! ### Definitions in front of a paragraph -/

theorem closure?_isSuffix {opener closer : UInt8} {t inner rest : Text}
    (h : closure? opener closer t = some (inner, rest)) : rest <:+ t := by
  fun_induction closure? opener closer t generalizing inner rest with
  | case1 => cases h
  | case2 =>
    cases h
    exact List.nil_suffix
  | case3 => cases h
  | case4 b c t _ ih =>
    obtain ⟨⟨inner', rest'⟩, hclosure, heq⟩ := Option.map_eq_some_iff.1 h
    cases heq
    exact (ih hclosure).trans (List.suffix_append [b, c] t)
  | case5 c t _ =>
    cases h
    exact List.suffix_cons closer _
  | case6 => cases h
  | case7 b c t _ _ _ ih =>
    obtain ⟨⟨inner', rest'⟩, hclosure, heq⟩ := Option.map_eq_some_iff.1 h
    cases heq
    exact (ih hclosure).trans (List.suffix_cons b _)

theorem afterBracketed?_isSuffix {t rest : Text} (h : afterBracketed? t = some rest) : rest <:+ t := by
  fun_induction afterBracketed? t with
  | case1 => cases h
  | case2 =>
    cases h
    exact List.nil_suffix
  | case3 => cases h
  | case4 => cases h
  | case5 b c t _ _ ih => exact (ih h).trans (List.suffix_append [b, c] t)
  | case6 c t =>
    cases h
    exact List.suffix_cons 62 _
  | case7 b c t _ _ _ ih => exact (ih h).trans (List.suffix_cons b _)

theorem afterBare_isSuffix (depth : Nat) (t : Text) : afterBare depth t <:+ t := by
  fun_induction afterBare depth t with
  | case1 => exact List.nil_suffix
  | case2 => exact List.suffix_refl _
  | case3 _ c t _ _ ih => exact ih.trans (List.suffix_append [92, c] t)
  | case4 _ c t _ _ ih => exact ih.trans (List.suffix_cons 92 _)
  | case5 _ t _ ih => exact ih.trans (List.suffix_cons 40 _)
  | case6 _ t _ ih => exact ih.trans (List.suffix_cons 41 _)
  | case7 _ b _ t _ _ _ ih => exact ih.trans (List.suffix_cons b _)

theorem afterDestination?_isSuffix {t rest : Text} (h : afterDestination? t = some rest) : rest <:+ t := by
  unfold afterDestination? at h
  split at h
  · exact (afterBracketed?_isSuffix h).trans (List.suffix_cons 60 _)
  · dsimp only at h
    split at h
    · cases h
    · cases h
      exact afterBare_isSuffix 0 t

/-- Lines are counted forwards. -/
theorem lineAt_le (paragraph : Text) {t rest : Text} (h : rest <:+ t) :
    lineAt paragraph t ≤ lineAt paragraph rest :=
  Nat.sub_le_sub_left (h.sublist.count_le 10) _

/-- A definition does not end in front of the line on which it starts. -/
theorem definition?_range {paragraph t label rest : Text} {first behind : Nat}
    (h : definition? paragraph t = some (label, (first, behind), rest)) : first ≤ behind := by
  unfold definition? at h
  dsimp only at h
  split at h
  · next found target hlabel =>
    have htarget : target <:+ t.dropWhile isSpacing := by
      refine (List.suffix_cons 58 target).trans ?_
      split at hlabel
      · next inner hstart =>
        rw [hstart]
        exact (closure?_isSuffix hlabel).trans (List.suffix_cons 91 inner)
      · cases hlabel
    split at h
    · cases h
    · next left hleft =>
      have hrest : left <:+ t.dropWhile isSpacing :=
        ((afterDestination?_isSuffix hleft).trans (List.dropWhile_suffix _)).trans htarget
      have hlast : lineAt paragraph (t.dropWhile isSpacing) ≤ lineAt paragraph left :=
        lineAt_le paragraph hrest
      split at h
      · cases h
      · split at h
        · split at h <;> cases h
          omega
        · split at h
          · cases h
          · split at h
            · split at h <;> cases h
              omega
            · next titled hclosure =>
              have htitle : titled <:+ left :=
                ((closure?_isSuffix hclosure).trans (List.drop_suffix _ _)).trans (List.dropWhile_suffix _)
              have hbehind := lineAt_le paragraph htitle
              split at h
              · cases h
                omega
              · split at h <;> cases h
                omega
  · cases h

theorem definitions_range {paragraph : Text} (bound : Nat) (t : Text) :
    ∀ d ∈ definitions bound paragraph t, d.2.1 ≤ d.2.2 := by
  induction bound generalizing t with
  | zero => exact List.forall_mem_nil _
  | succ bound ih =>
    rw [definitions]
    split
    · exact List.forall_mem_nil _
    · next hdefinition => exact List.forall_mem_cons.2 ⟨definition?_range hdefinition, ih _⟩

theorem dropRanges_sublist {α : Type} {ranges : List (Nat × Nat)} (h : ∀ range ∈ ranges, range.1 ≤ range.2)
    (dropped : Nat) (lines : List α) : (dropRanges dropped ranges lines).Sublist lines := by
  induction ranges generalizing dropped lines with
  | nil => exact List.Sublist.refl lines
  | cons range ranges ih =>
    obtain ⟨first, behind⟩ := range
    obtain ⟨hrange, hranges⟩ := List.forall_mem_cons.1 h
    have hle : first - dropped ≤ behind - dropped := Nat.sub_le_sub_right hrange dropped
    rw [dropRanges]
    refine (ih hranges behind _).trans ?_
    calc (lines.take (first - dropped) ++ lines.drop (behind - dropped)).Sublist
          (lines.take (first - dropped) ++ lines.drop (first - dropped)) :=
          (List.Sublist.refl _).append (List.drop_sublist_drop_left lines hle)
      _ = lines := List.take_append_drop _ _

/-- What is left of a paragraph are lines of it, in order. -/
theorem withoutDefinitions_sublist (lines : List (Nat × Text)) :
    (withoutDefinitions lines).2.Sublist lines := by
  refine dropRanges_sublist ?_ 0 lines
  exact List.forall_mem_map.2 fun d hd => definitions_range _ _ d hd

/-! ### What a line can do -/

/-- The complete blocks, newest first, once the block that takes text is closed. -/
def Leaf.closed (blocks : List Block) : Leaf → List Block
  | .fence _ _ _ language body => .fence language body.reverse :: blocks
  | .none | .paragraph _ | .raw _ => blocks

/-- The blocks that take text behind the line that opens them. -/
inductive Leaf.Opened (number : Nat) (line : Text) : Leaf → Prop where
  | none : Opened number line .none
  | paragraph {t : Text} (ht : StandsIn line t) : Opened number line (.paragraph [(number, t)])
  | fence (mark : UInt8) (length indent : Nat) (language : Text) :
      Opened number line (.fence mark length indent language [])
  | raw (ending : RawEnd) : Opened number line (.raw ending)

/-- What a line can do to the block that takes text and to the complete blocks, which are newest first.  All
text that it adds stands in it. -/
inductive LineStep (number : Nat) (line : Text) : Leaf → List Block → Leaf → List Block → Prop where
  | stay (leaf : Leaf) (blocks : List Block) : LineStep number line leaf blocks leaf blocks
  | text {t : Text} (ht : StandsIn line t) (lines : List (Nat × Text)) (blocks : List Block) :
      LineStep number line (.paragraph lines) blocks (.paragraph ((number, t) :: lines)) blocks
  | content {t : Text} (ht : StandsIn line t) (mark : UInt8) (length indent : Nat) (language : Text)
      (body : List (Nat × Text)) (blocks : List Block) :
      LineStep number line (.fence mark length indent language body) blocks
        (.fence mark length indent language ((number, t) :: body)) blocks
  /-- The line underlines a paragraph, one line of which is then the first of a heading. -/
  | underline {first : Nat × Text} {lines rest : List (Nat × Text)} (hfirst : first ∈ lines)
      (blocks : List Block) :
      LineStep number line (.paragraph lines) blocks .none (underlinedHeading first rest :: blocks)
  | start (leaf : Leaf) (blocks : List Block) {leaf' : Leaf} (hopened : leaf'.Opened number line) :
      LineStep number line leaf blocks leaf' (leaf.closed blocks)
  | heading (leaf : Leaf) (blocks : List Block) {t : Text} (ht : StandsIn line t) :
      LineStep number line leaf blocks .none (.heading number [t] :: leaf.closed blocks)

/-- A paragraph may be dropped before a line is read. -/
theorem LineStep.of_none {number : Nat} {line : Text} {blocks blocks' : List Block} {leaf' : Leaf}
    (h : LineStep number line .none blocks leaf' blocks') (lines : List (Nat × Text)) :
    LineStep number line (.paragraph lines) blocks leaf' blocks' := by
  cases h with
  | stay => exact .start (.paragraph lines) blocks .none
  | start _ _ hopened => exact .start (.paragraph lines) blocks hopened
  | heading _ _ ht => exact .heading (.paragraph lines) blocks ht

namespace Reading

theorem leaf_closeLeaf (r : Reading) : r.closeLeaf.leaf = .none := by
  unfold closeLeaf
  split
  · assumption
  all_goals rfl

theorem blocks_closeLeaf (r : Reading) : r.closeLeaf.blocks = r.leaf.closed r.blocks := by
  unfold closeLeaf
  split
  all_goals next hleaf => rw [hleaf]; rfl

variable {line : Text} {k : Continuation}

theorem lineStep_place (hk : k.line.rest <:+ line) (r : Reading) (number : Nat) (standing : Standing) :
    LineStep number line r.leaf r.blocks (r.place number k standing).leaf
      (r.place number k standing).blocks := by
  have hblocks := r.blocks_closeLeaf
  have hnone := r.leaf_closeLeaf
  unfold place
  generalize hfound : (if k.isSibling then openedSibling k.line
    else opened (k.line.rest.length + 1) standing k.line) = found
  have hsuffix : found.2.2.rest <:+ k.line.rest ∧ found.2.1.StandsIn found.2.2.rest := by
    rw [← hfound]
    split
    · exact openedSibling_isSuffix k.line
    · exact opened_isSuffix _ standing k.line
  obtain ⟨new, start, l⟩ := found
  have hl : l.rest <:+ line := hsuffix.1.trans hk
  dsimp only
  split
  · next hleaf =>
    rw [hleaf]
    exact .text (standsIn_content hl) _ r.blocks
  · next hleaf =>
    rw [hleaf]
    exact .text (standsIn_content hl) _ r.blocks
  · have hstart : ∀ {leaf : Leaf}, leaf.Opened number line →
        LineStep number line r.leaf r.blocks leaf r.closeLeaf.blocks := by
      intro leaf hopened
      rw [hblocks]
      exact .start r.leaf r.blocks hopened
    split
    · exact hstart (.paragraph (standsIn_content hl))
    · dsimp only
      rw [hblocks, hnone]
      exact .heading r.leaf r.blocks (.of_isInfix (hsuffix.2.trans hl.isInfix))
    · exact hstart (.fence _ _ _ _)
    · split
      · exact hstart (by rw [hnone]; exact .none)
      · exact hstart (.raw _)
    · exact hstart (by rw [hnone]; exact .none)

theorem lineStep_readLine (hk : k.line.rest <:+ line) (r : Reading) (number : Nat) :
    LineStep number line r.leaf r.blocks (r.readLine number k).leaf (r.readLine number k).blocks := by
  unfold readLine
  dsimp only
  split
  · next lines hleaf _ =>
    rw [hleaf]
    split
    · next labels _ =>
      have hplace := lineStep_place hk { r with leaf := .none, labels := labels ++ r.labels } number .closed
      exact hplace.of_none lines
    · next labels first rest hrest =>
      have hkept := withoutDefinitions_sublist lines.reverse
      rw [hrest] at hkept
      have hmem : first ∈ lines := List.mem_reverse.1 (hkept.subset List.mem_cons_self)
      exact .underline hmem r.blocks
  · exact lineStep_place hk r number _
  · exact lineStep_place hk r number _

/-- What reading the next line does is one of these steps. -/
theorem lineStep_next (hline : 10 ∉ line.dropLast) (r : Reading) (number : Nat) :
    LineStep number line r.leaf r.blocks (r.next (number, line)).leaf (r.next (number, line)).blocks := by
  have hk := continued_isSuffix hline (l := { rest := line }) r.containers r.stale (List.suffix_refl line)
  unfold next
  dsimp only
  generalize continued r.stale r.containers { rest := line } = k at hk ⊢
  split
  · next mark length indent language body hleaf _ =>
    split
    · rw [blocks_closeLeaf, leaf_closeLeaf]
      exact .start r.leaf r.blocks .none
    · rw [hleaf]
      exact .content (standsIn_fenceContent hk indent) mark length indent language body r.blocks
  · next ending hleaf _ =>
    split
    · rw [blocks_closeLeaf, leaf_closeLeaf]
      exact .start r.leaf r.blocks .none
    · exact .stay r.leaf r.blocks
  · exact lineStep_readLine hk r number

end Reading

/-! ### The numbers of lines -/

/-- The line that a block counts as: that of a heading, and that of the first content of a fence. -/
def Block.line? : Block → Option Nat
  | .heading line _ => some line
  | .fence _ body => body.head?.map Prod.fst

/-- The lines of the block that takes text, newest first. -/
def Leaf.numbers : Leaf → List Nat
  | .paragraph lines => lines.map Prod.fst
  | .fence _ _ _ _ body => body.map Prod.fst
  | .none | .raw _ => []

variable {number : Nat} {line : Text} {leaf leaf' : Leaf} {blocks blocks' : List Block}

/-- Of the block that takes text at most one line stays when it is closed. -/
theorem Leaf.closed_sublist (leaf : Leaf) (blocks : List Block) :
    ((leaf.closed blocks).filterMap Block.line?).Sublist
      (leaf.numbers ++ blocks.filterMap Block.line?) := by
  cases leaf with
  | none => exact List.Sublist.refl _
  | paragraph lines => exact List.sublist_append_right _ _
  | raw ending => exact List.Sublist.refl _
  | fence mark length indent language body =>
    rw [Leaf.closed, Leaf.numbers]
    cases hfirst : body.reverse.head? with
    | none =>
      rw [List.filterMap_cons_none (by rw [Block.line?, hfirst]; rfl)]
      exact List.sublist_append_right _ _
    | some first =>
      have hmem : first ∈ body := List.mem_reverse.1 (List.mem_of_head? hfirst)
      rw [List.filterMap_cons_some (by rw [Block.line?, hfirst]; rfl)]
      exact (List.singleton_sublist.2 (List.mem_map_of_mem hmem)).append (List.Sublist.refl _)

/-- A step adds the number of its line to those that count, or does not, and moves none of them. -/
theorem LineStep.numbers_sublist (h : LineStep number line leaf blocks leaf' blocks') :
    (leaf'.numbers ++ blocks'.filterMap Block.line?).Sublist
      (number :: (leaf.numbers ++ blocks.filterMap Block.line?)) := by
  cases h with
  | stay => exact (List.Sublist.refl _).cons number
  | text => exact List.Sublist.refl _
  | content => exact List.Sublist.refl _
  | underline hfirst =>
    refine List.Sublist.cons number ?_
    exact (List.singleton_sublist.2 (List.mem_map_of_mem hfirst)).append (List.Sublist.refl _)
  | start _ _ hopened =>
    have hclosed := leaf.closed_sublist blocks
    cases hopened with
    | none => exact hclosed.cons number
    | paragraph t => exact hclosed.cons_cons number
    | fence => exact hclosed.cons number
    | raw => exact hclosed.cons number
  | heading => exact (leaf.closed_sublist blocks).cons_cons number

/-- The content of a fence stands behind the first line. -/
def Block.IsLate : Block → Prop
  | .heading _ _ => True
  | .fence _ body => ∀ l ∈ body, 1 < l.1

/-- The same of the block that takes text: a fence has been opened on one of the lines read. -/
def Leaf.IsLate (read : Nat) : Leaf → Prop
  | .fence _ _ _ _ body => 0 < read ∧ ∀ l ∈ body, 1 < l.1
  | .none | .paragraph _ | .raw _ => True

theorem Leaf.IsLate.closed {read : Nat} (h : leaf.IsLate read) (hblocks : ∀ b ∈ blocks, b.IsLate) :
    ∀ b ∈ leaf.closed blocks, b.IsLate := by
  cases leaf with
  | none => exact hblocks
  | paragraph => exact hblocks
  | raw => exact hblocks
  | fence mark length indent language body =>
    exact List.forall_mem_cons.2 ⟨fun l hl => h.2 l (List.mem_reverse.1 hl), hblocks⟩

theorem LineStep.isLate {read : Nat} (h : LineStep (read + 1) line leaf blocks leaf' blocks')
    (hleaf : leaf.IsLate read) (hblocks : ∀ b ∈ blocks, b.IsLate) :
    leaf'.IsLate (read + 1) ∧ ∀ b ∈ blocks', b.IsLate := by
  cases h with
  | stay =>
    refine ⟨?_, hblocks⟩
    cases leaf with
    | fence => exact ⟨Nat.succ_pos read, hleaf.2⟩
    | none => trivial
    | paragraph => trivial
    | raw => trivial
  | text => exact ⟨trivial, hblocks⟩
  | content =>
    refine ⟨⟨Nat.succ_pos read, List.forall_mem_cons.2 ⟨?_, hleaf.2⟩⟩, hblocks⟩
    exact Nat.succ_lt_succ hleaf.1
  | underline => exact ⟨trivial, List.forall_mem_cons.2 ⟨trivial, hblocks⟩⟩
  | start _ _ hopened =>
    refine ⟨?_, hleaf.closed hblocks⟩
    cases hopened with
    | fence => exact ⟨Nat.succ_pos read, List.forall_mem_nil _⟩
    | none => trivial
    | paragraph => trivial
    | raw => trivial
  | heading => exact ⟨trivial, List.forall_mem_cons.2 ⟨trivial, hleaf.closed hblocks⟩⟩

/-! ### Whole documents -/

/-- What has been read of a document after all of its lines. -/
def readAll (lines : List Text) : Reading :=
  (lines.mapIdx fun i line => (i + 1, line)).foldl Reading.next {}

/-- What holds in front of the first line, and is kept by every step, holds behind the last line. -/
theorem readAll_induction {motive : List Text → Leaf → List Block → Prop} (hstart : motive [] .none [])
    (hstep : ∀ read line leaf blocks leaf' blocks', LineStep (read.length + 1) line leaf blocks leaf' blocks' →
      motive read leaf blocks → motive (read ++ [line]) leaf' blocks')
    (document : Text) : motive (physicalLines document) (readAll (physicalLines document)).leaf
      (readAll (physicalLines document)).blocks := by
  have hlines : ∀ line ∈ physicalLines document, 10 ∉ line.dropLast := fun _ => newline_notMem_dropLast
  generalize physicalLines document = lines at hlines ⊢
  induction lines using List.reverseRecOn with
  | nil => exact hstart
  | append_singleton lines line ih =>
    have hread : readAll (lines ++ [line]) = (readAll lines).next (lines.length + 1, line) := by
      rw [readAll, List.mapIdx_concat, List.foldl_append]
      rfl
    obtain ⟨hearlier, hline⟩ := List.forall_mem_append.1 hlines
    rw [hread]
    exact hstep _ _ _ _ _ _ (Reading.lineStep_next (hline line List.mem_cons_self) _ _) (ih hearlier)

theorem outline_blocks (document : Text) :
    (outline document).blocks =
      ((readAll (physicalLines document)).leaf.closed (readAll (physicalLines document)).blocks).reverse :=
  congrArg List.reverse (Reading.blocks_closeLeaf _)

/-- The blocks of a document stand in the order of its lines, each on a line of its own. -/
theorem lines_outline_sublist (document : Text) :
    ((outline document).blocks.filterMap Block.line?).Sublist
      (List.range' 1 (physicalLines document).length) := by
  have hread := readAll_induction (motive := fun read leaf blocks =>
      (leaf.numbers ++ blocks.filterMap Block.line?).Sublist (List.range' 1 read.length).reverse)
    (List.Sublist.refl _) (by
      intro read line leaf blocks leaf' blocks' hstep ih
      rw [List.length_append, List.length_singleton, List.range'_concat, List.reverse_append, Nat.one_mul,
        Nat.add_comm 1 read.length]
      exact hstep.numbers_sublist.trans (ih.cons_cons (read.length + 1)))
    document
  have hclosed := ((Leaf.closed_sublist _ _).trans hread).reverse
  rwa [List.reverse_reverse, ← List.filterMap_reverse, ← outline_blocks] at hclosed

theorem isLate_outline (document : Text) : ∀ b ∈ (outline document).blocks, b.IsLate := by
  obtain ⟨hleaf, hblocks⟩ := readAll_induction
    (motive := fun read leaf blocks => leaf.IsLate read.length ∧ ∀ b ∈ blocks, b.IsLate)
    ⟨trivial, List.forall_mem_nil _⟩ (by
      intro read line leaf blocks leaf' blocks' hstep ih
      rw [List.length_append]
      exact hstep.isLate ih.1 ih.2)
    document
  intro b hb
  rw [outline_blocks, List.mem_reverse] at hb
  exact hleaf.closed hblocks b hb

/-- The content of a fence in the language of an expectation, line by line. -/
def Block.expectation? : Block → Option (List (Nat × Text))
  | .heading _ _ => none
  | .fence language body => if Scenario.expectationKinds.contains language then some body else none

end Markdown

/-! ### Lines of cases -/

/-- The contents of the fences in the languages of expectations, in the order of the document.  Lines go with
their numbers. -/
def expectationLines (document : Text) : List (List (Nat × Text)) :=
  (Markdown.outline document).blocks.filterMap Markdown.Block.expectation?

/-- The line that a fence with the given content counts as. -/
def firstLine (lines : List (Nat × Text)) : Nat := (lines.head?.map Prod.fst).getD 1

theorem firstLine_eq_one_iff {lines : List (Nat × Text)} (h : ∀ l ∈ lines, 1 < l.1) :
    firstLine lines = 1 ↔ lines = [] := by
  cases lines with
  | nil => exact ⟨fun _ => rfl, fun _ => rfl⟩
  | cons first rest =>
    have hfirst : first.1 ≠ 1 := Nat.ne_of_gt (h first List.mem_cons_self)
    exact ⟨fun hone => absurd hone hfirst, fun hnil => absurd hnil (List.cons_ne_nil _ _)⟩

/-- The lines of the fences in the languages of expectations, except for fences that count as line one. -/
def Fence.places (fences : List Fence) : List Nat :=
  ((fences.filter Fence.isExpectation).map Fence.line).filter (· ≠ 1)

theorem Fence.places_cons (f : Fence) (fences : List Fence) :
    places (f :: fences) =
      if f.isExpectation = true ∧ f.line ≠ 1 then f.line :: places fences else places fences := by
  by_cases hexpectation : f.isExpectation = true
  · by_cases hline : f.line = 1 <;> simp [places, hexpectation, hline]
  · simp [places, hexpectation]

/-- The line that an item counts as, unless it is a fence that counts as line one. -/
def DocumentItem.place? : DocumentItem → Option Nat
  | .heading _ line => some line
  | .fence _ _ line => if line = 1 then none else some line

theorem filterMap_place?_heading (title : Text) (line : Nat) (rest : List DocumentItem) :
    (.heading title line :: rest).filterMap DocumentItem.place? =
      line :: rest.filterMap DocumentItem.place? := rfl

/-- Sections take the lines of a document as they come. -/
theorem places_sections_sublist (items : List DocumentItem) :
    (Fence.places (leadingFences items) ++
      (sections items).flatMap fun sec => sec.line :: Fence.places sec.fences).Sublist
        (items.filterMap DocumentItem.place?) := by
  induction items with
  | nil => exact List.Sublist.refl _
  | cons i rest ih =>
    cases i with
    | heading title line =>
      rw [filterMap_place?_heading]
      cases htest : (DocumentItem.heading title line).test? with
      | none =>
        rw [leadingFences_of_heading htest, sections_of_none htest]
        exact ih.cons line
      | some test =>
        obtain ⟨name, line'⟩ := test
        have hline : line' = line := by
          obtain ⟨_, -, heq⟩ := Option.map_eq_some_iff.1 htest
          exact (congrArg Prod.snd heq).symm
        rw [leadingFences_of_test htest, sections_of_test htest, List.flatMap_cons, hline]
        exact ih.cons_cons line
    | fence language body line =>
      rw [leadingFences_fence, sections_of_none rfl, Fence.places_cons]
      by_cases hfirst : line = 1
      · have hplace : (DocumentItem.fence language body line).place? = none := if_pos hfirst
        rw [if_neg fun h => h.2 hfirst, List.filterMap_cons_none hplace]
        exact ih
      · have hplace : (DocumentItem.fence language body line).place? = some line := if_neg hfirst
        rw [List.filterMap_cons_some hplace]
        split
        · exact ih.cons_cons line
        · exact ih.cons line

/-- The items of a document count as the lines of its blocks. -/
theorem filterMap_place?_documentItems (document : Text) :
    (documentItems document).filterMap DocumentItem.place? =
      (Markdown.outline document).blocks.filterMap Markdown.Block.line? := by
  rw [documentItems, List.filterMap_map]
  apply List.filterMap_congr
  intro b hb
  have hlate := Markdown.isLate_outline document b hb
  cases b with
  | heading line content => rfl
  | fence language body =>
    cases body with
    | nil => rfl
    | cons first rest => exact if_neg fun hone => List.cons_ne_nil _ _ ((firstLine_eq_one_iff hlate).1 hone)

/-- The fences in the languages of expectations, as items and as blocks. -/
theorem map_line_expectations (document : Text) :
    (((documentItems document).filterMap DocumentItem.fence?).filter Fence.isExpectation).map Fence.line =
      (expectationLines document).map firstLine := by
  rw [documentItems, expectationLines, List.filterMap_map, List.filter_filterMap, List.map_filterMap,
    List.map_filterMap]
  apply List.filterMap_congr
  intro b _
  cases b with
  | heading line content => rfl
  | fence language body =>
    let f : Fence := { language, body := body.flatMap Prod.snd, line := firstLine body }
    show ((some f).filter Fence.isExpectation).map Fence.line =
      (if Scenario.expectationKinds.contains language then some body else none).map firstLine
    have hlanguage : f.isExpectation = Scenario.expectationKinds.contains language := rfl
    rw [Option.filter_some, hlanguage]
    split <;> rfl

theorem firstLine_eq_one_iff_of_mem {document : Text} {lines : List (Nat × Text)}
    (h : lines ∈ expectationLines document) : firstLine lines = 1 ↔ lines = [] := by
  obtain ⟨b, hb, hlines⟩ := List.mem_filterMap.1 h
  have hlate := Markdown.isLate_outline document b hb
  cases b with
  | heading line content => cases hlines
  | fence language body =>
    rw [Markdown.Block.expectation?] at hlines
    split at hlines
    · cases hlines
      exact firstLine_eq_one_iff hlate
    · cases hlines

namespace Scenario

variable {document : Text} {cases : List Scenario}

/-- All expectations of a document, in order, are those of its cases. -/
theorem flatMap_expectations (h : extract document = .ok cases) :
    cases.flatMap Scenario.expectations =
      (((documentItems document).filterMap DocumentItem.fence?).filter Fence.isExpectation).map
        Fence.expectation := by
  obtain ⟨hleading, -, rfl⟩ := extract_eq_ok_iff.1 h
  have hnone : (leadingFences (documentItems document)).filter Fence.isExpectation = [] :=
    List.filter_eq_nil_iff.2 fun f hf => by
      rw [Fence.isExpectation_of_isPlain (hleading f hf)]
      exact Bool.false_ne_true
  rw [← leadingFences_append_sections, List.filter_append, hnone, List.nil_append, List.filter_flatMap,
    List.map_flatMap, List.flatMap_map]
  rfl

theorem map_line_flatMap_expectations (h : extract document = .ok cases) :
    (cases.flatMap Scenario.expectations).map Expectation.line = (expectationLines document).map firstLine := by
  rw [flatMap_expectations h, ← map_line_expectations, List.map_map]
  rfl

/-- The lines of a case, except for expectations that count as line one. -/
def places (s : Scenario) : List Nat := s.line :: (s.expectations.map Expectation.line).filter (· ≠ 1)

theorem places_sublist (h : extract document = .ok cases) :
    (cases.flatMap places).Sublist (List.range' 1 (Markdown.physicalLines document).length) := by
  obtain ⟨-, -, rfl⟩ := extract_eq_ok_iff.1 h
  have hplaces : ∀ sec : Section, places sec.scenario = sec.line :: Fence.places sec.fences := by
    intro sec
    have hlines : sec.scenario.expectations.map Expectation.line = sec.expected.map Fence.line :=
      List.map_map
    rw [places, hlines]
    rfl
  have hsections := (List.sublist_append_right _ _).trans (places_sections_sublist (documentItems document))
  rw [filterMap_place?_documentItems] at hsections
  rw [List.flatMap_map]
  simp only [hplaces]
  exact hsections.trans (Markdown.lines_outline_sublist document)

/-- The first line of a document has number one, so an expectation that counts as line one is out of order. -/
theorem pairwise_lines_iff (h : extract document = .ok cases) :
    (cases.flatMap fun s => s.line :: s.expectations.map Expectation.line).Pairwise (· < ·) ↔
      [] ∉ expectationLines document := by
  have hlines := map_line_flatMap_expectations h
  have hplaces := places_sublist h
  constructor
  · intro hordered hempty
    have hone : 1 ∈ (cases.flatMap Scenario.expectations).map Expectation.line := by
      rw [hlines]
      exact List.mem_map.2 ⟨[], hempty, rfl⟩
    obtain ⟨e, he, hline⟩ := List.mem_map.1 hone
    obtain ⟨s, hs, hes⟩ := List.mem_flatMap.1 he
    have hlt : s.line < e.line := by
      have hcase := (List.pairwise_flatMap.1 hordered).1 s hs
      exact (List.pairwise_cons.1 hcase).1 e.line (List.mem_map_of_mem hes)
    have hpos := hplaces.subset (List.mem_flatMap.2 ⟨s, hs, List.mem_cons_self⟩)
    rw [List.mem_range'_1] at hpos
    omega
  · intro hfilled
    have hne : ∀ s ∈ cases, ∀ e ∈ s.expectations, e.line ≠ 1 := by
      intro s hs e he hone
      have hmem : e.line ∈ (expectationLines document).map firstLine := by
        rw [← hlines]
        exact List.mem_map_of_mem (List.mem_flatMap.2 ⟨s, hs, he⟩)
      obtain ⟨lines, hmem, hfirst⟩ := List.mem_map.1 hmem
      have hnil := (firstLine_eq_one_iff_of_mem hmem).1 (hfirst.trans hone)
      exact hfilled (hnil ▸ hmem)
    have hall : (cases.flatMap fun s => s.line :: s.expectations.map Expectation.line) =
        cases.flatMap places := by
      apply List.flatMap_congr
      intro s hs
      rw [places, List.filter_eq_self.2]
      exact List.forall_mem_map.2 fun e he => decide_eq_true (hne s hs e he)
    rw [hall]
    exact List.Pairwise.sublist hplaces (List.pairwise_lt_range' 1)

/-- The lines of cases and of their expectations go up along the document, except for expectations whose fences
are empty: these, and no others, count as line one. -/
theorem lines_follow_document (h : extract document = .ok cases) :
    (cases.flatMap fun s => s.line :: (s.expectations.map Expectation.line).filter (· ≠ 1)).Pairwise (· < ·) ∧
      (cases.flatMap Scenario.expectations).map Expectation.line =
        (expectationLines document).map firstLine ∧
      (∀ lines ∈ expectationLines document, firstLine lines = 1 ↔ lines = []) ∧
      ((cases.flatMap fun s => s.line :: s.expectations.map Expectation.line).Pairwise (· < ·) ↔
        [] ∉ expectationLines document) :=
  ⟨List.Pairwise.sublist (places_sublist h) (List.pairwise_lt_range' 1), map_line_flatMap_expectations h,
    fun _ hlines => firstLine_eq_one_iff_of_mem hlines, pairwise_lines_iff h⟩

/-- Two cases, the first with an expectation in an empty fence between two others. -/
theorem lines_follow_document_around_empty :
    let document := text "# Test: a\n```micro\nx\n```\n```asm\nHalt\n```\n```asm\n```\n~~~derivation\n$\n~~~\n" ++
      text "## Test: b\n```asm\n\n```\n```micro\ny"
    ∃ cases, extract document = .ok cases ∧
      (cases.flatMap fun s => s.line :: (s.expectations.map Expectation.line).filter (· ≠ 1)).Pairwise
        (· < ·) ∧
      (cases.flatMap fun s => s.line :: s.expectations.map Expectation.line) = [1, 6, 1, 11, 13, 15] := by
  intro document
  have h : extract document = .ok ((sections (documentItems document)).map Section.scenario) :=
    eq_ok_of_toOption (by decide +kernel)
  exact ⟨_, h, (lines_follow_document h).1, by decide +kernel⟩

/-- The empty fence stands on line five. -/
theorem empty_expectation_out_of_order :
    let document := text "# Test: a\n```micro\nx\n```\n```asm\n```\n"
    ∃ cases, extract document = .ok cases ∧
      ¬(cases.flatMap fun s => s.line :: s.expectations.map Expectation.line).Pairwise (· < ·) := by
  intro document
  have h : extract document = .ok [⟨text "a", 1, text "x", [⟨text "asm", [], 1⟩]⟩] :=
    eq_ok_of_toOption (by decide +kernel)
  exact ⟨_, h, by decide⟩

end Scenario

end MicroLang
