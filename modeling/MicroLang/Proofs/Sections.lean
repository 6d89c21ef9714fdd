import Mathlib.Data.List.Forall2
import MicroLang.Scenario

/-!
# Test sections

Cases are collected on one way through a document: fences go into the case that is open, and the next test
heading, or the end, closes it.  Here the document is first cut into sections, one for each test heading
with the fences up to the next one, and every case is said to be what its own section holds.

The cut and the collection agree.  A step lemma says what one fence does to the open case.  From it follows,
along the items of the document, that collection succeeds exactly if no known fence stands in front of
the first test heading and every section is complete, and that it then gives the cases of the sections.

A complete section has at least one expectation.  Its sources are any number of hollow ones, whose bodies
are newlines alone, and behind them one that is not hollow, which is the source of the case.
-/

namespace MicroLang

/-- A fence of a document: its language, which may be missing, its body and the line it counts as. -/
structure Fence where
  language : Text
  body : Text
  line : Nat
deriving DecidableEq, Repr

namespace Fence

/-- The body without the newlines at its end. -/
def content (f : Fence) : Text := Text.trimRight (· = 10) f.body

/-- A fence without a language means nothing. -/
def isPlain (f : Fence) : Bool := f.language.isEmpty

def isSource (f : Fence) : Bool := f.language = Scenario.sourceLanguage

def isExpectation (f : Fence) : Bool := Scenario.expectationKinds.contains f.language

def isKnown (f : Fence) : Bool := f.isSource || f.isExpectation

/-- What the fence, taken for an expectation, says. -/
def expectation (f : Fence) : Expectation := { kind := f.language, content := f.content, line := f.line }

variable {f : Fence}

theorem language_of_isPlain (h : f.isPlain = true) : f.language = [] := List.isEmpty_iff.1 h

theorem isSource_of_isPlain (h : f.isPlain = true) : f.isSource = false := by
  rw [isSource, language_of_isPlain h]
  rfl

theorem isExpectation_of_isPlain (h : f.isPlain = true) : f.isExpectation = false := by
  rw [isExpectation, language_of_isPlain h]
  rfl

theorem isKnown_of_isPlain (h : f.isPlain = true) : f.isKnown = false := by
  rw [isKnown, isSource_of_isPlain h, isExpectation_of_isPlain h]
  rfl

theorem isExpectation_of_isSource (h : f.isSource = true) : f.isExpectation = false := by
  rw [isExpectation, of_decide_eq_true h]
  decide +kernel

theorem isSource_of_isExpectation (h : f.isExpectation = true) : f.isSource = false := by
  cases hsource : f.isSource with
  | false => rfl
  | true => rw [isExpectation_of_isSource hsource] at h; cases h

end Fence

/-! ### Cutting a document -/

namespace DocumentItem

def fence? : DocumentItem → Option Fence
  | .heading _ _ => none
  | .fence language body line => some { language, body, line }

/-- The name and the line of the case that a test heading starts. -/
def test? : DocumentItem → Option (Text × Nat)
  | .heading title line =>
    (Text.after? Scenario.headingMark title).map fun name => (name.trimBlank, line)
  | .fence _ _ _ => none

end DocumentItem

/-- A test heading by its name and line, and the fences up to the next test heading. -/
structure Section where
  name : Text
  line : Nat
  fences : List Fence
deriving DecidableEq, Repr

/-- The fences in front of the first test heading. -/
def leadingFences (items : List DocumentItem) : List Fence :=
  (items.takeWhile fun i => i.test?.isNone).filterMap DocumentItem.fence?

/-- The sections of a document.  Other headings start none and end none. -/
def sections : List DocumentItem → List Section
  | [] => []
  | i :: rest =>
    match i.test? with
    | none => sections rest
    | some (name, line) => { name, line, fences := leadingFences rest } :: sections rest

section

variable {i : DocumentItem} {rest : List DocumentItem}

theorem leadingFences_of_test {test : Text × Nat} (h : i.test? = some test) :
    leadingFences (i :: rest) = [] := by
  simp only [leadingFences, List.takeWhile_cons, h, Option.isNone_some, Bool.false_eq_true, if_false,
    List.filterMap_nil]

theorem leadingFences_of_heading {title : Text} {line : Nat}
    (h : (DocumentItem.heading title line).test? = none) :
    leadingFences (.heading title line :: rest) = leadingFences rest := by
  simp only [leadingFences, List.takeWhile_cons, h, Option.isNone_none, if_true, List.filterMap_cons,
    DocumentItem.fence?]

theorem leadingFences_fence (language body : Text) (line : Nat) :
    leadingFences (.fence language body line :: rest) = { language, body, line } :: leadingFences rest := by
  simp only [leadingFences, List.takeWhile_cons, DocumentItem.test?, Option.isNone_none, if_true,
    List.filterMap_cons, DocumentItem.fence?]

theorem sections_of_none (h : i.test? = none) : sections (i :: rest) = sections rest := by
  rw [sections, h]

theorem sections_of_test {name : Text} {line : Nat} (h : i.test? = some (name, line)) :
    sections (i :: rest) = { name, line, fences := leadingFences rest } :: sections rest := by
  rw [sections, h]

end

/-- There is a section for every test heading, in order. -/
theorem map_sections (items : List DocumentItem) :
    (sections items).map (fun s => (s.name, s.line)) = items.filterMap DocumentItem.test? := by
  induction items with
  | nil => rfl
  | cons i rest ih =>
    cases htest : i.test? with
    | none => rw [sections_of_none htest, List.filterMap_cons_none htest, ih]
    | some test =>
      obtain ⟨name, line⟩ := test
      rw [sections_of_test htest, List.filterMap_cons_some htest, List.map_cons, ih]

/-- Every fence stands in front of the first test heading or in one section. -/
theorem leadingFences_append_sections (items : List DocumentItem) :
    leadingFences items ++ (sections items).flatMap Section.fences =
      items.filterMap DocumentItem.fence? := by
  induction items with
  | nil => rfl
  | cons i rest ih =>
    cases i with
    | heading title line =>
      rw [List.filterMap_cons_none rfl, ← ih]
      cases htest : (DocumentItem.heading title line).test? with
      | none => rw [leadingFences_of_heading htest, sections_of_none htest]
      | some test =>
        obtain ⟨name, line⟩ := test
        rw [leadingFences_of_test htest, sections_of_test htest, List.flatMap_cons, List.nil_append]
    | fence language body line =>
      rw [leadingFences_fence, sections_of_none rfl, List.filterMap_cons, ← ih]
      rfl

theorem mem_fences_iff {items : List DocumentItem} {f : Fence} :
    f ∈ items.filterMap DocumentItem.fence? ↔
      f ∈ leadingFences items ∨ ∃ sec ∈ sections items, f ∈ sec.fences := by
  rw [← leadingFences_append_sections, List.mem_append, List.mem_flatMap]

/-! ### The case that is open -/

namespace Scenario

variable {s : Scenario} {f : Fence} {fences : List Fence}

/-- What a fence does while no case is open. -/
theorem addFence_none_eq_ok_iff {open? : Option Scenario} :
    addFence none f.language f.body f.line = .ok open? ↔ f.isPlain = true ∧ open? = none := by
  have hplain : f.language.isEmpty = f.isPlain := rfl
  unfold addFence
  rw [hplain]
  cases f.isPlain with
  | true => simp [eq_comm]
  | false =>
    simp only [Bool.false_eq_true, if_false, false_and, iff_false]
    split <;> simp

/-- What a fence does to the case that is open. -/
theorem addFence_some_eq_ok_iff {open? : Option Scenario} :
    addFence (some s) f.language f.body f.line = .ok open? ↔
      (f.isPlain = true ∧ open? = some s) ∨
      (f.isSource = true ∧ s.source = [] ∧ open? = some { s with source := f.content }) ∨
      (f.isExpectation = true ∧
        open? = some { s with expectations := s.expectations ++ [f.expectation] }) := by
  have hplain : f.language.isEmpty = f.isPlain := rfl
  have hknown : (decide (f.language = sourceLanguage) || expectationKinds.contains f.language) = f.isKnown :=
    rfl
  unfold addFence
  rw [hplain, hknown]
  cases hp : f.isPlain with
  | true => simp [Fence.isSource_of_isPlain hp, Fence.isExpectation_of_isPlain hp, eq_comm]
  | false =>
    cases hs : f.isSource with
    | true =>
      have hlanguage : f.language = sourceLanguage := of_decide_eq_true hs
      by_cases hempty : s.source = []
      · simp [Fence.isKnown, Fence.content, hs, hlanguage, hempty, Fence.isExpectation_of_isSource hs, eq_comm]
      · simp [Fence.isKnown, hs, hlanguage, hempty, Fence.isExpectation_of_isSource hs]
    | false =>
      have hlanguage : ¬f.language = sourceLanguage := of_decide_eq_false hs
      cases he : f.isExpectation with
      | true => simp [Fence.isKnown, Fence.content, Fence.expectation, hs, he, hlanguage, eq_comm]
      | false => simp [Fence.isKnown, hs, he]

/-- An open case stays open. -/
theorem exists_of_addFence {open? : Option Scenario}
    (h : addFence (some s) f.language f.body f.line = .ok open?) : ∃ s', open? = some s' := by
  rcases addFence_some_eq_ok_iff.1 h with ⟨-, hs⟩ | ⟨-, -, hs⟩ | ⟨-, hs⟩ <;> exact ⟨_, hs⟩

/-- Fences can be added to a case with a given source: all of them are known, and of the texts that become
its source one after the other only the last is not empty. -/
structure Admits (source : Text) (fences : List Fence) : Prop where
  known : ∀ f ∈ fences, f.isPlain = true ∨ f.isKnown = true
  hollow : ∀ t ∈ (source :: (fences.filter Fence.isSource).map Fence.content).dropLast, t = []

/-- The case with fences added to it. -/
def filled (s : Scenario) (fences : List Fence) : Scenario :=
  { s with
    source := ((fences.filter Fence.isSource).map Fence.content).getLastD s.source
    expectations := s.expectations ++ (fences.filter Fence.isExpectation).map Fence.expectation }

theorem admits_nil (source : Text) : Admits source [] where
  known := List.forall_mem_nil _
  hollow := List.forall_mem_nil _

theorem filled_nil (s : Scenario) : s.filled [] = s := by
  simp [filled]

theorem admits_cons_of_source {source : Text} (h : f.isSource = true) :
    Admits source (f :: fences) ↔ source = [] ∧ Admits f.content fences := by
  have hknown : f.isKnown = true := Bool.or_eq_true_iff.2 (.inl h)
  constructor
  · rintro ⟨hall, hhollow⟩
    rw [List.filter_cons_of_pos h, List.map_cons, List.dropLast_cons_cons] at hhollow
    obtain ⟨hsource, hrest⟩ := List.forall_mem_cons.1 hhollow
    exact ⟨hsource, (List.forall_mem_cons.1 hall).2, hrest⟩
  · rintro ⟨hsource, hall, hhollow⟩
    refine ⟨List.forall_mem_cons.2 ⟨.inr hknown, hall⟩, ?_⟩
    rw [List.filter_cons_of_pos h, List.map_cons, List.dropLast_cons_cons]
    exact List.forall_mem_cons.2 ⟨hsource, hhollow⟩

theorem admits_cons_of_other {source : Text} (hf : f.isPlain = true ∨ f.isKnown = true)
    (h : f.isSource = false) : Admits source (f :: fences) ↔ Admits source fences := by
  have hfilter : (f :: fences).filter Fence.isSource = fences.filter Fence.isSource :=
    List.filter_cons_of_neg (by rw [h]; exact Bool.false_ne_true)
  constructor
  · rintro ⟨hall, hhollow⟩
    rw [hfilter] at hhollow
    exact ⟨(List.forall_mem_cons.1 hall).2, hhollow⟩
  · rintro ⟨hall, hhollow⟩
    refine ⟨List.forall_mem_cons.2 ⟨hf, hall⟩, ?_⟩
    rwa [hfilter]

/-- Fences can be added to a case if the first one can be, and the others to what comes out. -/
theorem admits_cons_iff :
    Admits s.source (f :: fences) ↔
      ∃ s', addFence (some s) f.language f.body f.line = .ok (some s') ∧ Admits s'.source fences := by
  constructor
  · intro h
    rcases h.known f List.mem_cons_self with hplain | hknown
    · have hadmits := (admits_cons_of_other (.inl hplain) (Fence.isSource_of_isPlain hplain)).1 h
      exact ⟨s, addFence_some_eq_ok_iff.2 (.inl ⟨hplain, rfl⟩), hadmits⟩
    · rcases Bool.or_eq_true_iff.1 hknown with hsource | hexpectation
      · obtain ⟨hempty, hadmits⟩ := (admits_cons_of_source hsource).1 h
        exact ⟨_, addFence_some_eq_ok_iff.2 (.inr (.inl ⟨hsource, hempty, rfl⟩)), hadmits⟩
      · have hother := Fence.isSource_of_isExpectation hexpectation
        have hadmits := (admits_cons_of_other (.inr hknown) hother).1 h
        exact ⟨_, addFence_some_eq_ok_iff.2 (.inr (.inr ⟨hexpectation, rfl⟩)), hadmits⟩
  · rintro ⟨s', hadd, hadmits⟩
    rcases addFence_some_eq_ok_iff.1 hadd with ⟨hplain, hs⟩ | ⟨hsource, hempty, hs⟩ | ⟨hexpectation, hs⟩
    · cases hs
      exact (admits_cons_of_other (.inl hplain) (Fence.isSource_of_isPlain hplain)).2 hadmits
    · cases hs
      exact (admits_cons_of_source hsource).2 ⟨hempty, hadmits⟩
    · cases hs
      have hknown : f.isKnown = true := Bool.or_eq_true_iff.2 (.inr hexpectation)
      exact (admits_cons_of_other (.inr hknown) (Fence.isSource_of_isExpectation hexpectation)).2 hadmits

theorem filled_cons {s' : Scenario} (h : addFence (some s) f.language f.body f.line = .ok (some s')) :
    s.filled (f :: fences) = s'.filled fences := by
  rcases addFence_some_eq_ok_iff.1 h with ⟨hplain, hs⟩ | ⟨hsource, -, hs⟩ | ⟨hexpectation, hs⟩
  · cases hs
    simp [filled, Fence.isSource_of_isPlain hplain, Fence.isExpectation_of_isPlain hplain]
  · cases hs
    simp only [filled, List.filter_cons_of_pos hsource, List.map_cons, List.getLastD_cons,
      List.filter_cons, Fence.isExpectation_of_isSource hsource, Bool.false_eq_true, if_false]
  · cases hs
    simp [filled, hexpectation, Fence.isSource_of_isExpectation hexpectation]

theorem check_eq_ok_iff : s.check = .ok () ↔ s.source ≠ [] ∧ s.expectations ≠ [] := by
  unfold check
  by_cases hsource : s.source = []
  · simp [hsource]
  · by_cases hexpectations : s.expectations = []
    · simp [hsource, hexpectations]
    · simp [hsource, hexpectations]

end Scenario

/-! ### Cases by section -/

namespace Section

def sources (sec : Section) : List Fence := sec.fences.filter Fence.isSource

def expected (sec : Section) : List Fence := sec.fences.filter Fence.isExpectation

/-- The case that the heading of a section opens. -/
def opened (sec : Section) : Scenario := { name := sec.name, line := sec.line }

/-- The case that a section holds. -/
def scenario (sec : Section) : Scenario := sec.opened.filled sec.fences

/-- The source of a case comes from the last source fence of its section.  That one is not hollow, and all
in front of it are. -/
def Sourced (sec : Section) (source : Text) : Prop :=
  ∃ before f, sec.sources = before ++ [f] ∧ (∀ g ∈ before, g.content = []) ∧ f.content ≠ [] ∧
    source = f.content

/-- A section that gives a case. -/
structure Complete (sec : Section) : Prop where
  known : ∀ f ∈ sec.fences, f.isPlain = true ∨ f.isKnown = true
  sourced : ∃ source, sec.Sourced source
  expected : sec.expected ≠ []

variable {sec : Section}

/-- The same said as the collection sees it: of the texts that become the source one after the other, starting
with none, the last one stays and all others are empty. -/
theorem sourced_iff {source : Text} :
    sec.Sourced source ↔
      (∀ t ∈ ([] :: sec.sources.map Fence.content).dropLast, t = []) ∧ source ≠ [] ∧
        source = (sec.sources.map Fence.content).getLastD [] := by
  unfold Sourced
  rcases List.eq_nil_or_concat sec.sources with hnil | ⟨before, f, hsources⟩
  · rw [hnil]
    constructor
    · rintro ⟨before, f, hsources, -⟩
      exact absurd hsources.symm (List.append_ne_nil_of_right_ne_nil _ (List.cons_ne_nil _ _))
    · rintro ⟨-, hne, hsource⟩
      exact absurd hsource hne
  · rw [List.concat_eq_append] at hsources
    have hcontents : sec.sources.map Fence.content = before.map Fence.content ++ [f.content] := by
      rw [hsources, List.map_append, List.map_singleton]
    have hearlier : ([] :: sec.sources.map Fence.content).dropLast = [] :: before.map Fence.content := by
      rw [hcontents, ← List.cons_append, List.dropLast_concat]
    rw [hearlier, hcontents, hsources, List.getLastD_concat]
    constructor
    · rintro ⟨before', f', heq, hhollow, hne, rfl⟩
      obtain ⟨rfl, hlast⟩ := List.append_inj' heq rfl
      cases hlast
      exact ⟨List.forall_mem_cons.2 ⟨rfl, List.forall_mem_map.2 hhollow⟩, hne, rfl⟩
    · rintro ⟨hhollow, hne, rfl⟩
      exact ⟨before, f, rfl, List.forall_mem_map.1 (List.forall_mem_cons.1 hhollow).2, hne, rfl⟩

theorem complete_iff :
    sec.Complete ↔ Scenario.Admits [] sec.fences ∧ sec.scenario.check = .ok () := by
  have hexpected : sec.scenario.expectations ≠ [] ↔ sec.expected ≠ [] := not_congr List.map_eq_nil_iff
  rw [Scenario.check_eq_ok_iff, hexpected]
  constructor
  · rintro ⟨hknown, ⟨source, hsourced⟩, hne⟩
    obtain ⟨hhollow, hsource, rfl⟩ := sourced_iff.1 hsourced
    exact ⟨⟨hknown, hhollow⟩, hsource, hne⟩
  · rintro ⟨⟨hknown, hhollow⟩, hsource, hne⟩
    exact ⟨hknown, ⟨_, sourced_iff.2 ⟨hhollow, hsource, rfl⟩⟩, hne⟩

/-- The source of the case that a complete section holds. -/
theorem Complete.sourced_scenario (h : sec.Complete) : sec.Sourced sec.scenario.source := by
  obtain ⟨hadmits, hcheck⟩ := complete_iff.1 h
  exact sourced_iff.2 ⟨hadmits.hollow, (Scenario.check_eq_ok_iff.1 hcheck).1, rfl⟩

end Section

namespace Scenario

variable {s : Scenario} {items rest : List DocumentItem} {cases : List Scenario}

theorem collect_fence_eq_ok_iff {open? : Option Scenario} (f : Fence) :
    collect open? (.fence f.language f.body f.line :: rest) = .ok cases ↔
      ∃ next?, addFence open? f.language f.body f.line = .ok next? ∧ collect next? rest = .ok cases := by
  rw [collect]
  cases addFence open? f.language f.body f.line with
  | error e => simp [bind, Except.bind]
  | ok next? => simp [bind, Except.bind]

theorem collect_heading {open? : Option Scenario} {title : Text} {line : Nat}
    (h : (DocumentItem.heading title line).test? = none) :
    collect open? (.heading title line :: rest) = collect open? rest := by
  rw [collect, Option.map_eq_none_iff.1 h]

theorem collect_none_of_test {title name : Text} {line line' : Nat}
    (h : (DocumentItem.heading title line).test? = some (name, line')) :
    collect none (.heading title line :: rest) = collect (some { name, line := line' }) rest := by
  obtain ⟨name', hname, heq⟩ := Option.map_eq_some_iff.1 h
  cases heq
  rw [collect, hname]

/-- A test heading closes the case that is open. -/
theorem collect_some_of_test {title name : Text} {line line' : Nat}
    (h : (DocumentItem.heading title line).test? = some (name, line')) :
    collect (some s) (.heading title line :: rest) = .ok cases ↔
      s.check = .ok () ∧ ∃ more, collect (some { name, line := line' }) rest = .ok more ∧
        cases = s :: more := by
  obtain ⟨name', hname, heq⟩ := Option.map_eq_some_iff.1 h
  cases heq
  rw [collect, hname]
  dsimp only
  cases s.check with
  | error e => simp [bind, Except.bind]
  | ok _ =>
    cases collect (some { name := Text.trimBlank name', line }) rest with
    | error e => simp [bind, Except.bind]
    | ok more => simp [bind, Except.bind, pure, Except.pure, eq_comm]

/-- What collection makes of a document while a case is open: the case takes the fences up to the next test
heading, and every section behind it gives a case of its own. -/
theorem collect_some_eq_ok_iff :
    collect (some s) items = .ok cases ↔
      Admits s.source (leadingFences items) ∧ (s.filled (leadingFences items)).check = .ok () ∧
        (∀ sec ∈ sections items, sec.Complete) ∧
        cases = s.filled (leadingFences items) :: (sections items).map Section.scenario := by
  induction items generalizing s cases with
  | nil =>
    have hend : collect (some s) [] = .ok cases ↔ s.check = .ok () ∧ cases = [s] := by
      rw [collect]
      cases s.check with
      | error e => simp [bind, Except.bind]
      | ok _ => simp [bind, Except.bind, pure, Except.pure, eq_comm]
    have hlead : leadingFences [] = [] := rfl
    have hnone : sections [] = [] := rfl
    rw [hend, hlead, hnone, filled_nil]
    exact ⟨fun h => ⟨admits_nil _, h.1, List.forall_mem_nil _, h.2⟩, fun h => ⟨h.2.1, h.2.2.2⟩⟩
  | cons i rest ih =>
    cases i with
    | heading title line =>
      cases htest : (DocumentItem.heading title line).test? with
      | none => rw [collect_heading htest, leadingFences_of_heading htest, sections_of_none htest, ih]
      | some test =>
        obtain ⟨name, line'⟩ := test
        -- the open case gets no further fence, and the one that the heading opens is that of its section
        rw [collect_some_of_test htest, leadingFences_of_test htest, sections_of_test htest, filled_nil,
          List.forall_mem_cons, Section.complete_iff, List.map_cons]
        constructor
        · rintro ⟨hcheck, more, hmore, rfl⟩
          obtain ⟨hadmits, hfilled, hcomplete, rfl⟩ := ih.1 hmore
          exact ⟨admits_nil _, hcheck, ⟨⟨hadmits, hfilled⟩, hcomplete⟩, rfl⟩
        · rintro ⟨-, hcheck, ⟨⟨hadmits, hfilled⟩, hcomplete⟩, rfl⟩
          exact ⟨hcheck, _, ih.2 ⟨hadmits, hfilled, hcomplete, rfl⟩, rfl⟩
    | fence language body line =>
      rw [collect_fence_eq_ok_iff { language, body, line }, leadingFences_fence, sections_of_none rfl,
        admits_cons_iff]
      constructor
      · rintro ⟨next?, hadd, hrest⟩
        obtain ⟨s', rfl⟩ := exists_of_addFence hadd
        obtain ⟨hadmits, hfilled⟩ := ih.1 hrest
        rw [filled_cons hadd]
        exact ⟨⟨s', hadd, hadmits⟩, hfilled⟩
      · rintro ⟨⟨s', hadd, hadmits⟩, hfilled⟩
        rw [filled_cons hadd] at hfilled
        exact ⟨some s', hadd, ih.2 ⟨hadmits, hfilled⟩⟩

/-- Collection succeeds exactly if no known fence stands in front of the first test heading and every section
is complete; it gives the cases of the sections. -/
theorem collect_none_eq_ok_iff :
    collect none items = .ok cases ↔
      (∀ f ∈ leadingFences items, f.isPlain = true) ∧ (∀ sec ∈ sections items, sec.Complete) ∧
        cases = (sections items).map Section.scenario := by
  induction items with
  | nil =>
    rw [collect]
    constructor
    · intro h
      cases h
      exact ⟨List.forall_mem_nil _, List.forall_mem_nil _, rfl⟩
    · rintro ⟨-, -, rfl⟩
      rfl
  | cons i rest ih =>
    cases i with
    | heading title line =>
      cases htest : (DocumentItem.heading title line).test? with
      | none => rw [collect_heading htest, leadingFences_of_heading htest, sections_of_none htest, ih]
      | some test =>
        obtain ⟨name, line'⟩ := test
        rw [collect_none_of_test htest, collect_some_eq_ok_iff, leadingFences_of_test htest,
          sections_of_test htest, List.forall_mem_cons, Section.complete_iff, List.map_cons]
        constructor
        · rintro ⟨hadmits, hfilled, hcomplete, rfl⟩
          exact ⟨List.forall_mem_nil _, ⟨⟨hadmits, hfilled⟩, hcomplete⟩, rfl⟩
        · rintro ⟨-, ⟨⟨hadmits, hfilled⟩, hcomplete⟩, rfl⟩
          exact ⟨hadmits, hfilled, hcomplete, rfl⟩
    | fence language body line =>
      rw [collect_fence_eq_ok_iff { language, body, line }, leadingFences_fence, sections_of_none rfl,
        List.forall_mem_cons]
      constructor
      · rintro ⟨next?, hadd, hrest⟩
        obtain ⟨hplain, rfl⟩ := addFence_none_eq_ok_iff.1 hadd
        obtain ⟨hleading, hcases⟩ := ih.1 hrest
        exact ⟨⟨hplain, hleading⟩, hcases⟩
      · rintro ⟨⟨hplain, hleading⟩, hcases⟩
        exact ⟨none, addFence_none_eq_ok_iff.2 ⟨hplain, rfl⟩, ih.2 ⟨hleading, hcases⟩⟩

variable {document : Text}

theorem eq_ok_of_toOption (h : (extract document).toOption = some cases) : extract document = .ok cases := by
  cases hextract : extract document with
  | error e => rw [hextract] at h; cases h
  | ok found => rw [hextract] at h; exact congrArg _ (Option.some.inj h)

theorem extract_eq_ok_iff :
    extract document = .ok cases ↔
      (∀ f ∈ leadingFences (documentItems document), f.isPlain = true) ∧
        (∀ sec ∈ sections (documentItems document), sec.Complete) ∧
        cases = (sections (documentItems document)).map Section.scenario :=
  collect_none_eq_ok_iff

end Scenario

/-! ### Sources -/

/-- What a section supplies to its case.  It has an expectation, and only its last source fence is not hollow;
so it has a single source fence exactly if none of them is hollow. -/
structure Section.Supplies (sec : Section) (s : Scenario) : Prop where
  name : s.name = sec.name
  line : s.line = sec.line
  source : sec.Sourced s.source
  single_iff : sec.sources.length = 1 ↔ ∀ f ∈ sec.sources, f.content ≠ []
  expected : sec.expected ≠ []

theorem Section.Complete.supplies {sec : Section} (h : sec.Complete) : sec.Supplies sec.scenario where
  name := rfl
  line := rfl
  source := h.sourced_scenario
  single_iff := by
    obtain ⟨before, f, hsources, hhollow, hne, -⟩ := h.sourced_scenario
    rw [hsources, List.length_append, List.length_singleton]
    constructor
    · intro hlength g hg
      have hnil : before = [] := List.length_eq_zero_iff.1 (by omega)
      rw [hnil, List.nil_append, List.mem_singleton] at hg
      rwa [hg]
    · intro hfilled
      have hnil : before = [] := by
        refine List.eq_nil_iff_forall_not_mem.2 fun g hg => ?_
        exact hfilled g (List.mem_append_left _ hg) (hhollow g hg)
      rw [hnil]
      rfl
  expected := h.expected

namespace Scenario

/-- Each case has a section with at least one expectation, and its source is the body of the last source
fence there.  In front of that fence there may be others, all of them hollow. -/
theorem source_is_last_fence {document : Text} {cases : List Scenario} (h : extract document = .ok cases) :
    List.Forall₂ Section.Supplies (sections (documentItems document)) cases := by
  obtain ⟨-, hcomplete, rfl⟩ := extract_eq_ok_iff.1 h
  rw [List.forall₂_map_right_iff, List.forall₂_same]
  exact fun sec hsec => (hcomplete sec hsec).supplies

/-- The first section has two hollow source fences in front of its source, the second has a single one. -/
theorem source_is_last_fence_behind_hollow :
    let document := text "# Test: a\n```micro\n```\n~~~ micro\n\n~~~\n```micro\nx\n\n```\n```asm\n```\n" ++
      text "Test: b\n---\n```micro\ny\n```\n~~~asm"
    ∃ cases, extract document = .ok cases ∧
      List.Forall₂ Section.Supplies (sections (documentItems document)) cases ∧
      (sections (documentItems document)).map (fun sec => (sec.sources.length, sec.scenario.source)) =
        [(3, text "x"), (1, text "y")] := by
  intro document
  have h : extract document = .ok ((sections (documentItems document)).map Section.scenario) :=
    eq_ok_of_toOption (by decide +kernel)
  exact ⟨_, h, source_is_last_fence h, by decide +kernel⟩

/-- A hollow source fence does not keep a second one from being accepted. -/
theorem second_source_accepted :
    let document := text "# Test: a\n```micro\n```\n```micro\nx\n```\n```asm\n```\n"
    (∃ s, extract document = .ok [s]) ∧
      ¬∀ sec ∈ sections (documentItems document), sec.sources.length = 1 := by
  intro document
  have h : extract document = .ok [⟨text "a", 1, text "x", [⟨text "asm", [], 1⟩]⟩] :=
    eq_ok_of_toOption (by decide +kernel)
  exact ⟨⟨_, h⟩, by decide +kernel⟩

end Scenario

/-! ### Expectations -/

/-- What a document that cases are extracted from must not have: a fence in a language that is not known, a
known fence in front of the first test heading, or a section without expectations. -/
inductive Misfiled (items : List DocumentItem) : Prop where
  | unknown {f : Fence} (hf : f ∈ items.filterMap DocumentItem.fence?) (hplain : ¬f.isPlain = true)
      (hknown : ¬f.isKnown = true)
  | outside {f : Fence} (hf : f ∈ leadingFences items) (hknown : f.isKnown = true)
  | unexpecting {sec : Section} (hsec : sec ∈ sections items) (hnone : sec.expected = [])

/-- In a document that is not misfiled only plain fences stand in front of the first test heading, and all
that a section can lack is its source. -/
theorem not_misfiled_iff {items : List DocumentItem} :
    ¬Misfiled items ↔
      (∀ f ∈ leadingFences items, f.isPlain = true) ∧
        ∀ sec ∈ sections items,
          (∀ f ∈ sec.fences, f.isPlain = true ∨ f.isKnown = true) ∧ sec.expected ≠ [] := by
  constructor
  · intro h
    have hfences : ∀ f ∈ items.filterMap DocumentItem.fence?, f.isPlain = true ∨ f.isKnown = true := by
      intro f hf
      by_contra hneither
      rw [not_or] at hneither
      exact h (.unknown hf hneither.1 hneither.2)
    refine ⟨fun f hf => ?_, fun sec hsec => ⟨fun f hf => ?_, fun hnone => h (.unexpecting hsec hnone)⟩⟩
    · exact (hfences f (mem_fences_iff.2 (.inl hf))).resolve_right fun hknown => h (.outside hf hknown)
    · exact hfences f (mem_fences_iff.2 (.inr ⟨sec, hsec, hf⟩))
  · rintro ⟨hleading, hsections⟩ hmisfiled
    cases hmisfiled with
    | unknown hf hplain hknown =>
      rcases mem_fences_iff.1 hf with hlead | ⟨sec, hsec, hmem⟩
      · exact hplain (hleading _ hlead)
      · exact ((hsections sec hsec).1 _ hmem).elim hplain hknown
    | outside hf hknown =>
      rw [Fence.isKnown_of_isPlain (hleading _ hf)] at hknown
      cases hknown
    | unexpecting hsec hnone => exact (hsections _ hsec).2 hnone

def DocumentItem.isPlain : DocumentItem → Bool
  | .heading _ _ => false
  | .fence language _ _ => language.isEmpty

namespace Scenario

/-- Fences without a language might as well not be there. -/
theorem collect_filter_plain (open? : Option Scenario) (items : List DocumentItem) :
    collect open? (items.filter fun i => !i.isPlain) = collect open? items := by
  induction items generalizing open? with
  | nil => rfl
  | cons i rest ih =>
    cases i with
    | heading title line =>
      rw [List.filter_cons_of_pos rfl]
      simp only [collect, ih]
    | fence language body line =>
      by_cases hplain : language.isEmpty = true
      · have hadd : addFence open? language body line = .ok open? := if_pos hplain
        rw [List.filter_cons_of_neg (by simp [DocumentItem.isPlain, hplain]), ih, collect, hadd]
        rfl
      · rw [List.filter_cons_of_pos (by simp [DocumentItem.isPlain, hplain])]
        simp only [collect, ih]

/-- Extraction succeeds exactly if the document is not misfiled and its sections have sources. -/
theorem exists_extract_iff {document : Text} :
    (∃ cases, extract document = .ok cases) ↔
      ¬Misfiled (documentItems document) ∧
        ∀ sec ∈ sections (documentItems document), ∃ source, sec.Sourced source := by
  rw [not_misfiled_iff]
  constructor
  · rintro ⟨cases, h⟩
    obtain ⟨hleading, hcomplete, -⟩ := extract_eq_ok_iff.1 h
    exact ⟨⟨hleading, fun sec hsec => ⟨(hcomplete sec hsec).known, (hcomplete sec hsec).expected⟩⟩,
      fun sec hsec => (hcomplete sec hsec).sourced⟩
  · rintro ⟨⟨hleading, hsections⟩, hsourced⟩
    have hcomplete : ∀ sec ∈ sections (documentItems document), sec.Complete := fun sec hsec =>
      ⟨(hsections sec hsec).1, hsourced sec hsec, (hsections sec hsec).2⟩
    exact ⟨_, extract_eq_ok_iff.2 ⟨hleading, hcomplete, rfl⟩⟩

/-- The cases are those of the test headings, in order, and their expectations are the fences in the languages
of expectations up to the next test heading.  Fences without a language change nothing.  From a misfiled
document nothing is extracted; from any other one something is, if its sections have sources. -/
theorem expectations_by_section (document : Text) :
    (∀ cases, extract document = .ok cases →
      cases.map (fun s => (s.name, s.line)) = (documentItems document).filterMap DocumentItem.test? ∧
        cases.map Scenario.expectations =
          (sections (documentItems document)).map fun sec => sec.expected.map Fence.expectation) ∧
      extract document = collect none ((documentItems document).filter fun i => !i.isPlain) ∧
      (Misfiled (documentItems document) → ∃ e, extract document = .error e) ∧
      (¬Misfiled (documentItems document) →
        (∀ sec ∈ sections (documentItems document), ∃ source, sec.Sourced source) →
          ∃ cases, extract document = .ok cases) := by
  refine ⟨?_, (collect_filter_plain none _).symm, ?_, fun hfiled hsourced => ?_⟩
  · intro cases h
    obtain ⟨-, -, rfl⟩ := extract_eq_ok_iff.1 h
    rw [← map_sections, List.map_map, List.map_map]
    exact ⟨rfl, rfl⟩
  · intro hmisfiled
    cases hextract : extract document with
    | error e => exact ⟨e, rfl⟩
    | ok cases => exact absurd hmisfiled (exists_extract_iff.1 ⟨cases, hextract⟩).1
  · exact exists_extract_iff.2 ⟨hfiled, hsourced⟩

/-- Another heading and a fence without a language change nothing; a known fence in front of the first test
heading does. -/
theorem expectations_by_section_between_headings :
    let document := text "# Test: a\n```micro\nx\n```\n```asm\nHalt\n\n```\n## Aside\n```\n?\n```\n" ++
      text "~~~derivation\n~~~\n# Test: b\n~~~lex-error\n#\n~~~\n```micro\ny"
    let misfiled := text "```asm\n```\n"
    (∃ cases, extract document = .ok cases ∧
      cases.map Scenario.expectations =
        (sections (documentItems document)).map (fun sec => sec.expected.map Fence.expectation) ∧
      cases.map (fun s => s.expectations.map fun e => (e.kind, e.content)) =
        [[(text "asm", text "Halt"), (text "derivation", [])], [(text "lex-error", text "#")]]) ∧
      ∃ e, extract misfiled = .error e := by
  intro document misfiled
  have h : extract document = .ok ((sections (documentItems document)).map Section.scenario) :=
    eq_ok_of_toOption (by decide +kernel)
  have hleading : ⟨text "asm", [], 1⟩ ∈ leadingFences (documentItems misfiled) := by decide +kernel
  refine ⟨⟨_, h, ((expectations_by_section document).1 _ h).2, by decide +kernel⟩, ?_⟩
  exact (expectations_by_section misfiled).2.2.1 (.outside hleading rfl)

end Scenario

end MicroLang
