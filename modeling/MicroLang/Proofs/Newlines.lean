import MicroLang.Proofs.Numbering

/-!
# Newlines in front of headings and fences

The line of an offset in a document can be found by counting the newlines in front of it.  Headings and fences
carry the numbers of their lines instead, from the moment a line is read.  Here both come to the same: what a
heading or a fence starts with stands at an offset of the document whose line, by counting, is the number that
the block carries.  A fence without content has no such offset and counts as line one.
-/

namespace MicroLang

namespace Markdown

/-! ### Counting -/

/-- The line of an offset: one more than there are newlines in front of it. -/
def lineOf (document : Text) (offset : Nat) : Nat := (document.take offset).count 10 + 1

/-- Lines that end with their only newline are as many as there are newlines. -/
theorem count_newline_flatten {lines : List Text}
    (h : ∀ line ∈ lines, ∃ body, 10 ∉ body ∧ line = body ++ [10]) : lines.flatten.count 10 = lines.length := by
  induction lines with
  | nil => rfl
  | cons line lines ih =>
    obtain ⟨⟨body, hbody, rfl⟩, hlines⟩ := List.forall_mem_cons.1 h
    rw [List.flatten_cons, List.count_append, List.count_append, List.count_eq_zero.2 hbody, ih hlines,
      List.count_singleton_self, List.length_cons]
    omega

variable {document line t : Text} {before after lines : List Text} {number : Nat}

theorem document_eq_of_cut (h : physicalLines document = before ++ line :: after) :
    document = before.flatten ++ (line ++ after.flatten) := by
  rw [← flatten_physicalLines document, h, List.flatten_append, List.flatten_cons]

/-- All offsets in a line have its number. -/
theorem lineOf_of_cut (h : physicalLines document = before ++ line :: after) {k : Nat} (hk : k < line.length) :
    lineOf document (before.flatten.length + k) = before.length + 1 := by
  obtain ⟨hbefore, -, hnone⟩ := physicalLines_cut h
  have hinitial : line.take k <+: line.dropLast := by
    rw [List.dropLast_eq_take]
    exact List.take_prefix_take_left (Nat.le_sub_one_of_lt hk)
  have hzero : (line.take k).count 10 = 0 := List.count_eq_zero.2 fun hmem => hnone (hinitial.subset hmem)
  rw [lineOf, document_eq_of_cut h, List.take_length_add_append, List.take_append_of_le_length (Nat.le_of_lt hk),
    List.count_append, count_newline_flatten hbefore, hzero]

/-! ### Texts on numbered lines -/

/-- The text stands in the line with the given number. -/
def StandsOn (lines : List Text) (number : Nat) (t : Text) : Prop :=
  ∃ before line after, lines = before ++ line :: after ∧ number = before.length + 1 ∧ StandsIn line t

theorem StandsOn.concat (h : StandsOn lines number t) (last : Text) : StandsOn (lines ++ [last]) number t := by
  obtain ⟨before, line, after, rfl, hnumber, hstands⟩ := h
  exact ⟨before, line, after ++ [last], by rw [List.append_assoc, List.cons_append], hnumber, hstands⟩

theorem standsOn_last (h : StandsIn line t) : StandsOn (lines ++ [line]) (lines.length + 1) t :=
  ⟨lines, line, [], rfl, rfl, h⟩

/-- The text stands at an offset of the document, if the blanks that it may start with in place of a tab are
left out. -/
def StandsAt (document : Text) (offset : Nat) (t : Text) : Prop :=
  ∃ columns rest, t = List.replicate columns 32 ++ rest ∧ rest <+: document.drop offset

/-- By counting, the offset of a text on a numbered line has the number of the line. -/
theorem StandsOn.exists_offset (h : StandsOn (physicalLines document) number t) :
    ∃ offset, StandsAt document offset t ∧ lineOf document offset = number := by
  obtain ⟨before, line, after, hcut, rfl, columns, rest, ht, front, back, rfl⟩ := h
  cases rest with
  | nil =>
    -- nothing stands anywhere, for instance where the line starts
    have hline := List.length_pos_of_ne_nil (physicalLines_cut hcut).2.1
    exact ⟨_, ⟨columns, [], ht, List.nil_prefix⟩, lineOf_of_cut hcut hline⟩
  | cons b rest =>
    refine ⟨_, ⟨columns, b :: rest, ht, ?_⟩, lineOf_of_cut hcut (k := front.length) ?_⟩
    · rw [document_eq_of_cut hcut, List.drop_length_add_append, List.append_assoc, List.append_assoc,
        List.drop_left]
      exact List.prefix_append _ _
    · simp only [List.length_append, List.length_cons]
      omega

/-! ### Blocks -/

/-- A heading starts, and a fence stays, on the lines that they carry the numbers of. -/
def Block.IsPlaced (lines : List Text) : Block → Prop
  | .heading number content => ∃ t more, content = t :: more ∧ StandsOn lines number t
  | .fence _ body => ∀ l ∈ body, StandsOn lines l.1 l.2

/-- The same of the block that takes text. -/
def Leaf.IsPlaced (lines : List Text) : Leaf → Prop
  | .paragraph texts => ∀ l ∈ texts, StandsOn lines l.1 l.2
  | .fence _ _ _ _ body => ∀ l ∈ body, StandsOn lines l.1 l.2
  | .none | .raw _ => True

variable {leaf leaf' : Leaf} {blocks blocks' : List Block}

theorem Block.IsPlaced.concat {b : Block} (h : b.IsPlaced lines) (last : Text) : b.IsPlaced (lines ++ [last]) := by
  cases b with
  | heading number content =>
    obtain ⟨t, more, hcontent, ht⟩ := h
    exact ⟨t, more, hcontent, ht.concat last⟩
  | fence language body => exact fun l hl => (h l hl).concat last

theorem Leaf.IsPlaced.concat (h : leaf.IsPlaced lines) (last : Text) : leaf.IsPlaced (lines ++ [last]) := by
  cases leaf with
  | paragraph texts => exact fun l hl => (h l hl).concat last
  | fence mark length indent language body => exact fun l hl => (h l hl).concat last
  | none => trivial
  | raw => trivial

theorem Leaf.IsPlaced.closed (h : leaf.IsPlaced lines) (hblocks : ∀ b ∈ blocks, b.IsPlaced lines) :
    ∀ b ∈ leaf.closed blocks, b.IsPlaced lines := by
  cases leaf with
  | none => exact hblocks
  | paragraph => exact hblocks
  | raw => exact hblocks
  | fence mark length indent language body =>
    exact List.forall_mem_cons.2 ⟨fun l hl => h l (List.mem_reverse.1 hl), hblocks⟩

theorem Leaf.Opened.isPlaced (h : leaf.Opened (lines.length + 1) line) : leaf.IsPlaced (lines ++ [line]) := by
  cases h with
  | paragraph ht => exact List.forall_mem_singleton.2 (standsOn_last ht)
  | fence => exact List.forall_mem_nil _
  | none => trivial
  | raw => trivial

theorem LineStep.isPlaced (h : LineStep (lines.length + 1) line leaf blocks leaf' blocks')
    (hleaf : leaf.IsPlaced lines) (hblocks : ∀ b ∈ blocks, b.IsPlaced lines) :
    leaf'.IsPlaced (lines ++ [line]) ∧ ∀ b ∈ blocks', b.IsPlaced (lines ++ [line]) := by
  have hleaf := hleaf.concat line
  have hblocks : ∀ b ∈ blocks, b.IsPlaced (lines ++ [line]) := fun b hb => (hblocks b hb).concat line
  cases h with
  | stay => exact ⟨hleaf, hblocks⟩
  | text ht => exact ⟨List.forall_mem_cons.2 ⟨standsOn_last ht, hleaf⟩, hblocks⟩
  | content ht => exact ⟨List.forall_mem_cons.2 ⟨standsOn_last ht, hleaf⟩, hblocks⟩
  | underline hfirst =>
    refine ⟨trivial, List.forall_mem_cons.2 ⟨?_, hblocks⟩⟩
    obtain ⟨before, own, after, hlines, hnumber, hstands⟩ := hleaf _ hfirst
    obtain ⟨t, more, hheading, ht⟩ := underlinedHeading_standsIn hstands _
    rw [hheading]
    exact ⟨t, more, rfl, before, own, after, hlines, hnumber, ht⟩
  | start _ _ hopened => exact ⟨hopened.isPlaced, hleaf.closed hblocks⟩
  | heading _ _ ht =>
    exact ⟨trivial, List.forall_mem_cons.2 ⟨⟨_, [], rfl, standsOn_last ht⟩, hleaf.closed hblocks⟩⟩

/-- The blocks of a document stand on the lines that they carry the numbers of. -/
theorem isPlaced_outline (document : Text) :
    ∀ b ∈ (outline document).blocks, b.IsPlaced (physicalLines document) := by
  obtain ⟨hleaf, hblocks⟩ := readAll_induction
    (motive := fun read leaf blocks => leaf.IsPlaced read ∧ ∀ b ∈ blocks, b.IsPlaced read)
    ⟨trivial, List.forall_mem_nil _⟩ (fun _ _ _ _ _ _ hstep ih => hstep.isPlaced ih.1 ih.2) document
  intro b hb
  rw [outline_blocks, List.mem_reverse] at hb
  exact hleaf.closed hblocks b hb

/-- The text that a block starts with. -/
def Block.firstText? : Block → Option Text
  | .heading _ content => content.head?
  | .fence _ body => body.head?.map Prod.snd

end Markdown

open Markdown

def DocumentItem.line : DocumentItem → Nat
  | .heading _ line => line
  | .fence _ _ line => line

/-- The line of an item is that of the offset at which its block starts in the document, found by counting
newlines, and line one if its block has no text. -/
theorem line_ofBlock {document : Text} {b : Block} (hb : b ∈ (outline document).blocks) (labels : List Text) :
    ∃ start?, Option.Rel (StandsAt document) start? b.firstText? ∧
      (DocumentItem.ofBlock labels b).line = start?.elim 1 (lineOf document) := by
  have hplaced := isPlaced_outline document b hb
  cases b with
  | heading number content =>
    obtain ⟨t, more, rfl, ht⟩ := hplaced
    obtain ⟨offset, hoffset, hline⟩ := ht.exists_offset
    exact ⟨some offset, .some hoffset, hline.symm⟩
  | fence language body =>
    cases body with
    | nil => exact ⟨none, .none, rfl⟩
    | cons first body =>
      obtain ⟨offset, hoffset, hline⟩ := (hplaced first List.mem_cons_self).exists_offset
      exact ⟨some offset, .some hoffset, hline.symm⟩

end MicroLang
