import MicroLang.Markdown.Block

/-!
# What is left of a line

Containers, headings and fences cut a line at its front: blanks, the marks of quotes and list items, the number
signs of a heading.  What they leave is the end of the line.  Only where a tab is cut in the middle, the
columns that are left of it come back as blanks in front.  Of a heading the end is cut too, so that its text
stands somewhere in its line.
-/

namespace MicroLang.Markdown

variable {line : Text} {l : Line}

/-! ### Lines of a document -/

/-- A line in front of another one ends with its only newline, and no line has a newline in front of its last
byte. -/
theorem physicalLines_cut {t : Text} {before after : List Text} (h : physicalLines t = before ++ line :: after) :
    (∀ earlier ∈ before, ∃ body, 10 ∉ body ∧ earlier = body ++ [10]) ∧ line ≠ [] ∧ 10 ∉ line.dropLast := by
  induction t generalizing before line after with
  | nil => exact absurd h.symm (List.append_ne_nil_of_right_ne_nil _ (List.cons_ne_nil _ _))
  | cons b t ih =>
    rw [physicalLines] at h
    split at h
    · next hb =>
      subst hb
      cases before with
      | nil =>
        cases h
        exact ⟨List.forall_mem_nil _, List.cons_ne_nil _ _, List.not_mem_nil⟩
      | cons first before =>
        obtain ⟨rfl, htail⟩ := List.cons.inj h
        obtain ⟨hbefore, hline⟩ := ih htail
        exact ⟨List.forall_mem_cons.2 ⟨⟨[], List.not_mem_nil, rfl⟩, hbefore⟩, hline⟩
    · next hb =>
      split at h
      · cases before with
        | nil =>
          cases h
          exact ⟨List.forall_mem_nil _, List.cons_ne_nil _ _, List.not_mem_nil⟩
        | cons first before =>
          exact absurd (List.cons.inj h).2.symm (List.append_ne_nil_of_right_ne_nil _ (List.cons_ne_nil _ _))
      · next head rest hrest =>
        cases before with
        | nil =>
          cases h
          have hcut : physicalLines t = [] ++ head :: after := hrest
          obtain ⟨-, hne, hnone⟩ := ih hcut
          refine ⟨List.forall_mem_nil _, List.cons_ne_nil _ _, ?_⟩
          rw [List.dropLast_cons_of_ne_nil hne]
          exact List.not_mem_cons_of_ne_of_not_mem (Ne.symm hb) hnone
        | cons first before =>
          obtain ⟨rfl, htail⟩ := List.cons.inj h
          have hcut : physicalLines t = (head :: before) ++ line :: after := by
            rw [hrest, htail]
            rfl
          obtain ⟨hbefore, hline⟩ := ih hcut
          obtain ⟨⟨body, hbody, rfl⟩, hlater⟩ := List.forall_mem_cons.1 hbefore
          have hcons : ∃ body', 10 ∉ body' ∧ b :: (body ++ [10]) = body' ++ [10] :=
            ⟨b :: body, List.not_mem_cons_of_ne_of_not_mem (Ne.symm hb) hbody, rfl⟩
          exact ⟨List.forall_mem_cons.2 ⟨hcons, hlater⟩, hline⟩

theorem newline_notMem_dropLast {t : Text} (h : line ∈ physicalLines t) : 10 ∉ line.dropLast := by
  obtain ⟨before, after, hcut⟩ := List.append_of_mem h
  exact (physicalLines_cut hcut).2.2

/-! ### Ends of a line -/

theorem blanks_isSuffix (column : Nat) (t : Text) : (blanks column t).2 <:+ t := by
  induction t generalizing column with
  | nil => exact List.suffix_refl []
  | cons b t ih =>
    rw [blanks]
    split
    · exact (ih _).trans (List.suffix_cons b t)
    · split
      · exact (ih _).trans (List.suffix_cons b t)
      · exact List.suffix_refl _

theorem Line.body_isSuffix (l : Line) : l.body <:+ l.rest := blanks_isSuffix l.column l.rest

theorem Line.rest_dropBody_isSuffix (n : Nat) (l : Line) : (l.dropBody n).rest <:+ l.rest :=
  (List.drop_suffix n _).trans l.body_isSuffix

theorem Line.rest_dropColumns_isSuffix (n : Nat) (l : Line) : (l.dropColumns n).rest <:+ l.rest := by
  induction n generalizing l with
  | zero => exact List.suffix_refl _
  | succ n ih =>
    rw [dropColumns]
    split
    · exact ih _
    · split
      · next t hrest =>
        rw [hrest]
        exact (ih _).trans (List.suffix_cons 32 t)
      · next t hrest =>
        rw [hrest]
        exact (ih _).trans (List.suffix_cons 9 t)
      · exact List.suffix_refl _

/-- Pending blanks are passed along with those of the line. -/
theorem Line.dropWhile_content {test : UInt8 → Bool} (h : test 32 = true) (l : Line) :
    l.content.dropWhile test = l.rest.dropWhile test := by
  refine List.dropWhile_append_of_pos fun b hb => ?_
  rw [List.eq_of_mem_replicate hb]
  exact h

theorem quoteMark?_isSuffix {rest : Line} (h : quoteMark? l = some rest) : rest.rest <:+ l.rest := by
  unfold quoteMark? at h
  split at h
  · cases h
    exact (Line.rest_dropColumns_isSuffix 1 _).trans (l.rest_dropBody_isSuffix 1)
  · cases h

theorem itemStart?_isSuffix {i : ItemStart} (h : itemStart? l = some i) : i.rest.rest <:+ l.rest := by
  unfold itemStart? at h
  dsimp only at h
  split at h
  · cases h
  · split at h
    · cases h
    · cases h
      refine ((List.drop_suffix _ _).trans (List.drop_suffix _ _)).trans ?_
      rw [l.dropWhile_content (by decide)]
      exact List.dropWhile_suffix _

/-- The newlines in the end of a line that has no newline but its last byte are again an end of it. -/
theorem filter_newline_isSuffix {t : Text} (hline : 10 ∉ line.dropLast) (ht : t <:+ line) :
    t.filter (· = 10) <:+ t := by
  obtain rfl | ⟨t, b, rfl⟩ := List.eq_nil_or_concat t
  · exact List.suffix_refl []
  · rw [List.concat_eq_append] at ht ⊢
    obtain ⟨front, rfl⟩ := ht
    have hnone : t.filter (· = 10) = [] := by
      refine List.filter_eq_nil_iff.2 fun c hc hnewline => ?_
      rw [← List.append_assoc, List.dropLast_concat] at hline
      exact hline (List.mem_append_right front (of_decide_eq_true hnewline ▸ hc))
    rw [List.filter_append, hnone, List.nil_append, List.filter_cons]
    split
    · exact List.suffix_append t [b]
    · exact List.nil_suffix

/-- The containers that go on leave an end of the line. -/
theorem continued_isSuffix (hline : 10 ∉ line.dropLast) (containers : List Container) (stale : Bool)
    (hl : l.rest <:+ line) : (continued stale containers l).line.rest <:+ line := by
  induction containers generalizing stale l with
  | nil => exact hl
  | cons c inner ih =>
    cases c with
    | quote =>
      rw [continued]
      split
      · exact hl
      · next hmark => exact ih stale ((quoteMark?_isSuffix hmark).trans hl)
    | item marker indent hollow =>
      rw [continued]
      dsimp only
      split
      · exact ih _ ((filter_newline_isSuffix hline hl).trans hl)
      · generalize (if (l.indent < 4 && (l.indent < indent || hollow)) = true then itemStart? l else none) = next
        split
        · exact hl
        · split
          · exact hl
          · exact ih stale ((Line.rest_dropColumns_isSuffix indent l).trans hl)

/-! ### Headings -/

theorem trimRight_isPrefix (test : UInt8 → Bool) (t : Text) : Text.trimRight test t <+: t := by
  have hsuffix := List.reverse_prefix.2 (List.dropWhile_suffix (l := t.reverse) test)
  rwa [List.reverse_reverse] at hsuffix

theorem trim_isInfix (test : UInt8 → Bool) (t : Text) : Text.trim test t <:+: t :=
  (trimRight_isPrefix test _).isInfix.trans (List.dropWhile_suffix test).isInfix

theorem withoutClosing_isPrefix (t : Text) : withoutClosing t <+: t := by
  unfold withoutClosing
  dsimp only
  split
  · exact List.nil_prefix
  · split
    · split
      · exact (trimRight_isPrefix isSpacing _).trans (trimRight_isPrefix _ t)
      · exact List.prefix_refl t
    · exact List.prefix_refl t

theorem headingContent?_isInfix {body content : Text} (h : headingContent? body = some content) :
    content <:+: body := by
  unfold headingContent? at h
  dsimp only at h
  split at h
  · cases h
    exact ((withoutClosing_isPrefix _).isInfix.trans (trim_isInfix isSpacing _)).trans
      (List.dropWhile_suffix _).isInfix
  · cases h

/-! ### Starts of blocks -/

/-- What a start carries on stands in the text. -/
def Start.StandsIn (t : Text) : Start → Prop
  | .quote rest => rest.rest <:+ t
  | .item i => i.rest.rest <:+ t
  | .heading content => content <:+: t
  | _ => True

theorem startOf_standsIn (standing : Standing) (l : Line) : (startOf standing l).StandsIn l.rest := by
  have hbody : (if l.indent < l.content.length then l.body else []) <:+ l.rest := by
    split
    · exact l.body_isSuffix
    · exact List.nil_suffix
  unfold startOf
  dsimp only
  split
  · trivial
  split
  · split <;> trivial
  split
  · trivial
  split
  · trivial
  split
  · next hitem => exact itemStart?_isSuffix (Option.filter_eq_some_iff.1 hitem).1
  split
  · next hheading => exact (headingContent?_isInfix hheading).trans hbody.isInfix
  split
  · trivial
  split
  · next hquote => exact quoteMark?_isSuffix hquote
  split <;> trivial

/-- Behind the containers that a line opens there is an end of it, and a heading that starts there stands in
that end. -/
theorem opened_isSuffix (bound : Nat) (standing : Standing) (l : Line) :
    (opened bound standing l).2.2.rest <:+ l.rest ∧
      (opened bound standing l).2.1.StandsIn (opened bound standing l).2.2.rest := by
  induction bound generalizing standing l with
  | zero => exact ⟨List.suffix_refl _, trivial⟩
  | succ bound ih =>
    have hstart := startOf_standsIn standing l
    rw [opened]
    split
    · next rest hquote =>
      rw [hquote] at hstart
      exact ⟨(ih .closed rest).1.trans hstart, (ih .closed rest).2⟩
    · next i hitem =>
      rw [hitem] at hstart
      exact ⟨(ih .closed i.rest).1.trans hstart, (ih .closed i.rest).2⟩
    · exact ⟨List.suffix_refl _, hstart⟩

theorem openedSibling_isSuffix (l : Line) :
    (openedSibling l).2.2.rest <:+ l.rest ∧ (openedSibling l).2.1.StandsIn (openedSibling l).2.2.rest := by
  unfold openedSibling
  split
  · exact opened_isSuffix _ .closed l
  · next i hitem =>
    have hopened := opened_isSuffix (l.rest.length + 1) .closed i.rest
    exact ⟨hopened.1.trans (itemStart?_isSuffix hitem), hopened.2⟩

/-! ### Texts that stand in a line -/

/-- The text stands in the line, if the blanks that it may start with in place of a tab are left out. -/
def StandsIn (line t : Text) : Prop := ∃ columns rest, t = List.replicate columns 32 ++ rest ∧ rest <:+: line

theorem StandsIn.of_isInfix {t : Text} (h : t <:+: line) : StandsIn line t := ⟨0, t, rfl, h⟩

theorem standsIn_content (h : l.rest <:+ line) : StandsIn line l.content := ⟨l.pending, l.rest, rfl, h.isInfix⟩

theorem standsIn_fenceContent (h : l.rest <:+ line) (indent : Nat) : StandsIn line (fenceContent indent l) := by
  unfold fenceContent
  split
  · exact standsIn_content ((l.rest_dropColumns_isSuffix indent).trans h)
  · split
    · exact .of_isInfix h.isInfix
    · exact .of_isInfix ((List.drop_suffix _ _).trans h).isInfix

/-- Without the blanks at its front the text stands in the line as it is. -/
theorem StandsIn.dropWhile_isSpacing {t : Text} (h : StandsIn line t) : t.dropWhile isSpacing <:+: line := by
  obtain ⟨columns, rest, rfl, hrest⟩ := h
  rw [List.dropWhile_append_of_pos fun b hb => by rw [List.eq_of_mem_replicate hb]; rfl]
  exact (List.dropWhile_suffix _).isInfix.trans hrest

/-- An underlined heading starts with text from the first line of its paragraph. -/
theorem underlinedHeading_standsIn {first : Nat × Text} (h : StandsIn line first.2) (rest : List (Nat × Text)) :
    ∃ t more, underlinedHeading first rest = .heading first.1 (t :: more) ∧ StandsIn line t := by
  have hfirst := h.dropWhile_isSpacing
  cases rest with
  | nil => exact ⟨_, _, rfl, .of_isInfix ((trimRight_isPrefix isSpacing _).isInfix.trans hfirst)⟩
  | cons second rest => exact ⟨_, _, rfl, .of_isInfix hfirst⟩

end MicroLang.Markdown
