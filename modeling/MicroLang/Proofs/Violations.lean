import MicroLang.Proofs.Temporaries

/-!
# What verification reports

Verification goes over a listing once, remembers the names that it has seen declared and notes what is wrong
with each line.  What it notes is said here without that memory: each line is judged by the lines in front
of it and by whether a line follows.  An operand has to be a number or a name that an earlier line
declares, a declared name must be new, and `Halt` has to be the last line.

The lists agree problem by problem, in the order of the lines and of the operands in a line, as long as no
line lacks an operand that has to be looked at.  So a listing has no problem exactly if it is proper.
-/

namespace MicroLang

/-- How many operands of an instruction verification looks at. -/
def Opcode.examined : Opcode → Nat
  | .add | .sub => 3
  | .store => 2
  | .declare | .read | .write => 1
  | .halt | .unnamed _ => 0

/-- The operands that have to be numbers or declared names. -/
def Instruction.uses (i : Instruction) : List Text :=
  match i.opcode with
  | .add | .sub => i.operands.take 3
  | .store => i.operands.take 2
  | .read | .write => i.operands.take 1
  | .declare | .halt | .unnamed _ => []

namespace Listing

/-! ### Problems, line by line -/

/-- The names that lines declare, in order. -/
def declaredNames (lines : List Line) : List Text := lines.filterMap fun l => l.instruction.declared?

/-- What is wrong with a line, judged by the lines in front of it and by whether it is the last. -/
def problemsOf (earlier : List Line) (isLast : Bool) (l : Line) : List Problem :=
  (l.instruction.uses.filter fun t => !OperandShape.isNumber t && t ∉ declaredNames earlier).map
      .usedBeforeDeclaration
    ++ (l.instruction.declared?.toList.filter (· ∈ declaredNames earlier)).map .declaredTwice
    ++ if l.instruction.opcode = .halt ∧ isLast = false then [.earlyHalt] else []

/-- The problem of a listing that is empty or does not end with `Halt`. -/
def endProblem (lines : List Line) : List Error :=
  if lines.getLast?.map (fun l => l.instruction.opcode) = some .halt then []
  else [{ line := (lines.getLast?.map Line.number).getD 0, text := [], problem := .noFinalHalt }]

/-- All that is wrong with a listing, line by line, and its end. -/
def violations (lines : List Line) : List Error :=
  (lines.mapIdx fun k l =>
    (problemsOf (lines.take k) (k + 1 = lines.length) l).map (errorOn l)).flatten ++ endProblem lines

/-- Every operand in use is a number or declared earlier, no name is declared twice, and the only `Halt` is
the last line. -/
structure Proper (lines : List Line) : Prop where
  declared : ∀ earlier l later, lines = earlier ++ l :: later →
    ∀ t ∈ l.instruction.uses, OperandShape.isNumber t = true ∨ t ∈ declaredNames earlier
  once : (declaredNames lines).Nodup
  halted : ∃ front last, lines = front ++ [last] ∧ last.instruction.opcode = .halt ∧
    ∀ l ∈ front, l.instruction.opcode ≠ .halt

/-- No line lacks an operand that verification looks at. -/
def Complete (lines : List Line) : Prop :=
  ∀ l ∈ lines, l.instruction.opcode.examined ≤ l.instruction.operands.length

/-! ### One line -/

/-- Names are remembered as declared exactly if an earlier line declares them. -/
def Remembers (declared : List Text) (earlier : List Line) : Prop :=
  ∀ x, x ∈ declared ↔ x ∈ declaredNames earlier

theorem declaredNames_concat (lines : List Line) (l : Line) :
    declaredNames (lines ++ [l]) = declaredNames lines ++ l.instruction.declared?.toList := by
  rw [declaredNames, declaredNames, List.filterMap_append]
  cases h : l.instruction.declared? <;> simp [h]

theorem Remembers.concat {declared : List Text} {earlier : List Line} (h : Remembers declared earlier)
    (l : Line) : Remembers (l.instruction.declared?.toList ++ declared) (earlier ++ [l]) := by
  intro x
  rw [declaredNames_concat, List.mem_append, List.mem_append, h x]
  exact or_comm

theorem filter_undeclared {declared : List Text} {earlier : List Line} (h : Remembers declared earlier)
    (used : List Text) :
    (used.filter fun t => !(OperandShape.isNumber t || declared.contains t)) =
      used.filter fun t => !OperandShape.isNumber t && t ∉ declaredNames earlier := by
  refine List.filter_congr fun t _ => ?_
  rw [Bool.not_or]
  congr 1
  simp [h t]

/-- A line that has all its operands shows those in use. -/
theorem usedOperands?_eq {i : Instruction} (h : i.opcode.examined ≤ i.operands.length) :
    usedOperands? i = some i.uses := by
  obtain ⟨opcode, operands⟩ := i
  cases opcode with
  | declare | halt | unnamed => rfl
  | read | write =>
    obtain _ | ⟨a, rest⟩ := operands
    · cases h
    · rfl
  | store =>
    obtain _ | ⟨a, _ | ⟨b, rest⟩⟩ := operands
    · cases h
    · simp [Opcode.examined] at h
    · rfl
  | add | sub =>
    obtain _ | ⟨a, _ | ⟨b, _ | ⟨c, rest⟩⟩⟩ := operands
    · cases h
    · simp [Opcode.examined] at h
    · simp [Opcode.examined] at h
    · rfl

theorem declared?_of_ne {i : Instruction} (h : i.opcode ≠ .declare) : i.declared? = none := by
  unfold Instruction.declared?
  split
  · next hop _ => exact absurd hop h
  · rfl

/-- The check of a line finds what the earlier lines make wrong with it, and remembers what it declares. -/
theorem checkLine_eq {declared : List Text} {earlier : List Line} (h : Remembers declared earlier)
    {l : Line} (hl : l.instruction.opcode.examined ≤ l.instruction.operands.length) (isLast : Bool) :
    checkLine declared isLast l =
      .ok ((problemsOf earlier isLast l).map (errorOn l), l.instruction.declared?.toList ++ declared) := by
  unfold checkLine
  split
  · next hop hnil =>
    rw [hop, hnil] at hl
    cases hl
  · next name rest hop hcons =>
    have huses : l.instruction.uses = [] := by rw [Instruction.uses, hop]
    have hname : l.instruction.declared? = some name := by rw [Instruction.declared?, hop, hcons]
    by_cases hmem : name ∈ declaredNames earlier <;> simp [problemsOf, huses, hname, hop, h name, hmem]
  · next hop =>
    have huses : l.instruction.uses = [] := by rw [Instruction.uses, hop]
    have hname : l.instruction.declared? = none := declared?_of_ne (by rw [hop]; decide)
    cases isLast <;> simp [problemsOf, huses, hname, hop]
  · next hhalt hnil hcons =>
    have hdeclare : l.instruction.opcode ≠ .declare := by
      intro hop
      cases hoperands : l.instruction.operands with
      | nil => exact hnil hop hoperands
      | cons name rest => exact hcons name rest hop hoperands
    have hnot : ¬(l.instruction.opcode = .halt ∧ isLast = false) := fun hop => hhalt hop.1
    rw [usedOperands?_eq hl]
    dsimp only
    rw [filter_undeclared h, problemsOf, declared?_of_ne hdeclare, if_neg hnot]
    simp

/-! ### All lines -/

/-- What the check of the lines from some place on finds, line by line. -/
theorem checkLines_eq {declared : List Text} {earlier lines : List Line} (h : Remembers declared earlier)
    (hlines : Complete lines) :
    checkLines declared lines = .ok (lines.mapIdx fun k l =>
      (problemsOf (earlier ++ lines.take k) (k + 1 = lines.length) l).map (errorOn l)).flatten := by
  induction lines generalizing declared earlier with
  | nil => rfl
  | cons l rest ih =>
    have hhere := checkLine_eq h (hlines l List.mem_cons_self) rest.isEmpty
    have hlater := ih (h.concat l) fun m hm => hlines m (List.mem_cons_of_mem l hm)
    have hlast : rest.isEmpty = decide (0 + 1 = (l :: rest).length) := by
      cases rest <;> simp
    rw [checkLines, hhere]
    dsimp only
    rw [hlater, List.mapIdx_cons, List.flatten_cons, hlast]
    simp only [List.take_zero, List.append_nil, List.take_succ_cons, List.append_assoc,
      List.singleton_append, List.length_cons, Nat.add_right_cancel_iff]

theorem checkEnd_eq (lines : List Line) : checkEnd lines = endProblem lines := by
  unfold checkEnd endProblem
  cases lines.getLast? with
  | none => rfl
  | some l => simp

/-- Verification of complete lines finds just what is wrong with them. -/
theorem verify_eq {lines : List Line} (h : Complete lines) : verify lines = .ok (violations lines) := by
  have hnone : Remembers [] [] := fun _ => Iff.rfl
  have hlines := checkLines_eq hnone h
  simp only [List.nil_append] at hlines
  rw [verify, hlines]
  dsimp only
  rw [checkEnd_eq, violations]

/-! ### Listings without problems -/

theorem problemsOf_eq_nil_iff (earlier : List Line) (isLast : Bool) (l : Line) :
    problemsOf earlier isLast l = [] ↔
      (∀ t ∈ l.instruction.uses, OperandShape.isNumber t = true ∨ t ∈ declaredNames earlier) ∧
      (∀ x ∈ l.instruction.declared?, x ∉ declaredNames earlier) ∧
      (l.instruction.opcode = .halt → isLast = true) := by
  rw [problemsOf, List.append_eq_nil_iff, List.append_eq_nil_iff, List.map_eq_nil_iff, List.map_eq_nil_iff,
    List.filter_eq_nil_iff, List.filter_eq_nil_iff, and_assoc]
  refine and_congr (forall_congr' fun t => imp_congr_right fun _ => ?_)
    (and_congr (forall_congr' fun x => ?_) ?_)
  · cases OperandShape.isNumber t <;> simp
  · rw [Option.mem_toList, Option.mem_def, decide_eq_true_eq]
  · cases isLast <;> simp

/-- The problems of a listing are those of each line, wherever the listing is cut, and of its end. -/
theorem violations_eq_nil_iff (lines : List Line) :
    violations lines = [] ↔ (∀ earlier l later, lines = earlier ++ l :: later →
      problemsOf earlier later.isEmpty l = []) ∧ endProblem lines = [] := by
  rw [violations, List.append_eq_nil_iff, List.flatten_eq_nil_iff]
  refine and_congr_left fun _ => ⟨fun h earlier l later hcut => ?_, fun h es hes => ?_⟩
  · have hmem : (problemsOf earlier later.isEmpty l).map (errorOn l) ∈ lines.mapIdx fun k l =>
        (problemsOf (lines.take k) (k + 1 = lines.length) l).map (errorOn l) := by
      rw [List.mem_mapIdx]
      refine ⟨earlier.length, by simp [hcut], ?_⟩
      have hlast : decide (earlier.length + 1 = lines.length) = later.isEmpty := by
        cases later <;> simp [hcut]
      rw [hlast]
      simp [hcut]
    exact List.map_eq_nil_iff.1 (h _ hmem)
  · obtain ⟨k, hk, rfl⟩ := List.mem_mapIdx.1 hes
    have hcut : lines = lines.take k ++ lines[k] :: lines.drop (k + 1) := by
      rw [← List.drop_eq_getElem_cons hk, List.take_append_drop]
    have hlast : (lines.drop (k + 1)).isEmpty = decide (k + 1 = lines.length) := by
      rw [Bool.eq_iff_iff, List.isEmpty_iff, List.drop_eq_nil_iff, decide_eq_true_eq]
      omega
    rw [← hlast, h _ _ _ hcut, List.map_nil]

theorem declaredNames_append (lines more : List Line) :
    declaredNames (lines ++ more) = declaredNames lines ++ declaredNames more := List.filterMap_append

theorem mem_declaredNames {lines : List Line} {x : Text} :
    x ∈ declaredNames lines ↔ ∃ l ∈ lines, l.instruction.declared? = some x := List.mem_filterMap

/-- Names are declared once exactly if no line declares a name that an earlier one declares. -/
theorem nodup_declaredNames_iff (lines : List Line) :
    (declaredNames lines).Nodup ↔ ∀ earlier l later, lines = earlier ++ l :: later →
      ∀ x ∈ l.instruction.declared?, x ∉ declaredNames earlier := by
  constructor
  · rintro h earlier l later rfl x hx hmem
    rw [declaredNames_append, List.nodup_append] at h
    exact h.2.2 x hmem x (mem_declaredNames.2 ⟨l, List.mem_cons_self, hx⟩) rfl
  · intro h
    induction lines with
    | nil => exact List.nodup_nil
    | cons l rest ih =>
      have hrest : (declaredNames rest).Nodup := by
        refine ih fun earlier m later hcut x hx hmem => ?_
        refine h (l :: earlier) m later (by rw [hcut]; rfl) x hx ?_
        obtain ⟨n, hn, hname⟩ := mem_declaredNames.1 hmem
        exact mem_declaredNames.2 ⟨n, List.mem_cons_of_mem l hn, hname⟩
      cases hname : l.instruction.declared? with
      | none => simpa [declaredNames, hname] using hrest
      | some x =>
        have hnew : x ∉ declaredNames rest := by
          intro hmem
          obtain ⟨m, hm, hagain⟩ := mem_declaredNames.1 hmem
          obtain ⟨earlier, later, rfl⟩ := List.append_of_mem hm
          exact h (l :: earlier) m later rfl x hagain (mem_declaredNames.2 ⟨l, List.mem_cons_self, hname⟩)
        simpa [declaredNames, hname] using And.intro hnew hrest

theorem endProblem_eq_nil_iff (lines : List Line) :
    endProblem lines = [] ↔ ∃ front last, lines = front ++ [last] ∧ last.instruction.opcode = .halt := by
  unfold endProblem
  rcases List.eq_nil_or_concat lines with rfl | ⟨front, last, rfl⟩
  · simp
  · simp only [List.concat_eq_append, List.getLast?_concat, Option.map_some, Option.some.injEq]
    constructor
    · intro h
      refine ⟨front, last, rfl, Decidable.byContradiction fun hop => ?_⟩
      rw [if_neg hop] at h
      cases h
    · rintro ⟨front', last', heq, hop⟩
      obtain ⟨-, hlast⟩ := List.append_inj' heq rfl
      cases hlast
      rw [if_pos hop]

/-- A listing without problems is proper, and a proper one has none. -/
theorem violations_eq_nil_iff_proper (lines : List Line) : violations lines = [] ↔ Proper lines := by
  rw [violations_eq_nil_iff, endProblem_eq_nil_iff]
  simp only [problemsOf_eq_nil_iff]
  constructor
  · rintro ⟨h, front, last, rfl, hhalt⟩
    refine ⟨fun earlier l later hcut => (h earlier l later hcut).1,
      (nodup_declaredNames_iff _).2 fun earlier l later hcut => (h earlier l later hcut).2.1,
      front, last, rfl, hhalt, fun l hl hop => ?_⟩
    obtain ⟨earlier, later, rfl⟩ := List.append_of_mem hl
    have hlast := (h earlier l (later ++ [last]) (by simp)).2.2 hop
    simp at hlast
  · rintro ⟨hdeclared, honce, front, last, rfl, hhalt, honly⟩
    refine ⟨fun earlier l later hcut => ⟨hdeclared earlier l later hcut,
      (nodup_declaredNames_iff _).1 honce earlier l later hcut, fun hop => ?_⟩, front, last, rfl, hhalt⟩
    rcases List.eq_nil_or_concat later with rfl | ⟨later, other, rfl⟩
    · rfl
    · rw [List.concat_eq_append, ← List.cons_append, ← List.append_assoc] at hcut
      obtain ⟨hfront, -⟩ := List.append_inj' hcut rfl
      exact absurd hop (honly l (hfront ▸ List.mem_append_right earlier List.mem_cons_self))

/-- Verification reports exactly the violations.  If no line lacks an operand that is looked at, there is a
result, and it lists, in the order of the lines: each operand in use that is no number and that no earlier
line declares, in the order of the operands; each declaration of a name that an earlier line declares; each
`Halt` with a line behind it; and, behind all these, one problem if the listing is empty or ends in
anything but `Halt`.  So nothing is reported exactly for proper listings. -/
theorem verify_reports_violations (lines : List Line) (h : Complete lines) :
    verify lines = .ok (violations lines) ∧ (verify lines = .ok [] ↔ Proper lines) := by
  refine ⟨verify_eq h, ?_⟩
  rw [verify_eq h, ← violations_eq_nil_iff_proper]
  exact ⟨Except.ok.inj, congrArg Except.ok⟩

/-- Operands that are not declared, a name declared twice, code behind `Halt`, and an instruction with an
operand to spare. -/
theorem verify_reports_violations_of_each_kind :
    let lines : List Line :=
      [⟨1, ⟨.declare, [text "a", text "Integer"]⟩⟩,
        ⟨3, ⟨.add, [text "b", text "7", text "Temp&1", text "c"]⟩⟩, ⟨4, ⟨.halt, []⟩⟩,
        ⟨5, ⟨.declare, [text "a"]⟩⟩, ⟨9, ⟨.store, [text "a", text "b"]⟩⟩]
    Complete lines ∧ ¬Proper lines ∧ ∃ problems, verify lines = .ok problems ∧
      problems.map (fun e => (e.line, e.problem)) =
        [(3, .usedBeforeDeclaration (text "b")), (3, .usedBeforeDeclaration (text "Temp&1")), (4, .earlyHalt),
          (5, .declaredTwice (text "a")), (9, .usedBeforeDeclaration (text "b")), (9, .noFinalHalt)] := by
  intro lines
  have hcomplete : Complete lines := by unfold Complete; decide +kernel
  obtain ⟨hverify, hproper⟩ := verify_reports_violations lines hcomplete
  refine ⟨hcomplete, ?_, violations lines, hverify, ?_⟩
  · rw [← hproper, hverify]
    intro hnone
    have hlength : (violations lines).length = 6 := by decide +kernel
    rw [Except.ok.inj hnone] at hlength
    cases hlength
  · decide +kernel

end Listing

end MicroLang
