import MicroLang.Proofs.Language
import MicroLang.Proofs.Operands

/-!
# The place of the first error

A beginning of a text is viable if some sentence of the grammar starts with its kinds.  The first
diagnostic of a compilation stands at the first token that makes the beginning unviable: no token in
front of it is complained about, and none behind it is reached without a complaint.  What the message
asks for is true, since each kind that it lists would keep the beginning viable.  Where every token keeps
it viable and the scan ends in a fault, that fault is all there is to report.

A message can be read in one way only, because the names of kinds hold neither blanks nor periods and
different kinds have different names.
-/

namespace MicroLang

open Parse

/-! ### Viable beginnings -/

/-- Some sentence of the grammar starts with the kinds. -/
def Viable (kinds : List Kind) : Prop :=
  ∃ more, Derives (.nonterminal .systemGoal) (kinds ++ more)

theorem Viable.of_longer {kinds start : List Kind} (h : Viable kinds) (hstart : start <+: kinds) :
    Viable start := by
  obtain ⟨more, hmore⟩ := h
  obtain ⟨rest, rfl⟩ := hstart
  rw [List.append_assoc] at hmore
  exact ⟨rest ++ more, hmore⟩

theorem Program.viable_beginning {p : Program} {kinds : List Kind}
    (h : kinds <+: p.sentence.map Word.kind) : Viable kinds := by
  obtain ⟨more, hmore⟩ := h
  refine ⟨more, ?_⟩
  rw [hmore]
  exact p.derives_sentence

/-- Words with viable kinds begin the sentence of a program. -/
theorem Proper.exists_program {ws : List Word} (hws : Proper ws) (h : Viable (ws.map Word.kind)) :
    ∃ p : Program, ws <+: p.sentence := by
  obtain ⟨more, hmore⟩ := h
  have hkinds : (ws ++ more.map fun k => Word.mk k []).map Word.kind = ws.map Word.kind ++ more := by
    rw [List.map_append, List.map_map]
    exact congrArg _ (List.map_id more)
  have hproper : Proper (ws ++ more.map fun k => Word.mk k []) := by
    intro w hw
    rcases List.mem_append.1 hw with hw | hw
    · exact hws w hw
    · obtain ⟨k, _, rfl⟩ := List.mem_map.1 hw
      exact fun _ => rfl
  obtain ⟨p, hp⟩ := hmore.covers hkinds hproper
  exact ⟨p, _, hp⟩

/-! ### The tokens that scanning delivers -/

namespace Stream

/-- All tokens up to the end of the text, its own token included, or up to the fault. -/
def delivered (s : Stream) : List Token :=
  match s.ending with
  | .eof tok => s.tokens ++ [tok]
  | .fault _ => s.tokens

theorem mem_delivered_iff {s : Stream} {tok : Token} :
    tok ∈ s.delivered ↔ tok ∈ s.tokens ∨ s.ending = .eof tok := by
  unfold delivered
  cases s.ending with
  | eof last => rw [List.mem_append, List.mem_singleton, Ending.eof.injEq, eq_comm]
  | fault e => exact (or_iff_left Ending.noConfusion).symm

theorem delivered_of_append {s ahead : Stream} {read : List Token}
    (htokens : s.tokens = read ++ ahead.tokens) (hending : ahead.ending = s.ending) :
    s.delivered = read ++ ahead.delivered := by
  unfold delivered
  rw [hending, htokens]
  cases s.ending with
  | eof tok => exact List.append_assoc ..
  | fault e => rfl

theorem suffix_rest (stream : Stream) : stream.rest.delivered <:+ stream.delivered := by
  obtain ⟨tokens, ending⟩ := stream
  cases tokens with
  | nil => exact List.suffix_refl _
  | cons tok tokens =>
    have hdelivered : (mk (tok :: tokens) ending).delivered = [tok] ++ (mk tokens ending).delivered :=
      delivered_of_append rfl rfl
    exact ⟨[tok], hdelivered.symm⟩

theorem delivered_of_peek {s : Stream} {tok : Token} (h : s.peek = .ok tok) :
    ∃ later, s.delivered = tok :: later := by
  obtain ⟨tokens, ending⟩ := s
  cases tokens with
  | cons first rest =>
    cases h
    cases ending with
    | eof last => exact ⟨rest ++ [last], rfl⟩
    | fault e => exact ⟨rest, rfl⟩
  | nil =>
    cases ending with
    | eof last =>
      cases h
      exact ⟨[], rfl⟩
    | fault e => cases h

/-- What is delivered of the text of a program is the sentence of the program. -/
theorem Spells.kinds_delivered {s : Stream} {p : Program} (h : s.Spells p) (hs : s.Scanned) :
    s.delivered.map Token.kind = p.sentence.map Word.kind := by
  obtain ⟨hwords, tok, htok⟩ := h
  rw [delivered, htok, Program.sentence, ← hwords, List.map_append, List.map_append, List.map_map,
    List.map_singleton, List.map_singleton, hs.eof tok htok]
  rfl

end Stream

/-! ### What a message says -/

namespace Kind

theorem name_ne_nil (k : Kind) : k.name ≠ [] := by
  cases k <;> exact List.cons_ne_nil _ _

/-- A name is free of blanks and periods. -/
theorem all_name (k : Kind) : k.name.all (fun b => b != 32 && b != 46) = true := by
  cases k with
  | unnamed code =>
    have hdigits : (Text.ofNat code.toNat).all (fun b => b != 32 && b != 46) = true := by
      rw [List.all_eq_true]
      intro b hb
      have hdigit := List.all_eq_true.1 (Text.all_isDigit_ofNat code.toNat) b hb
      by_cases h : b = 32 ∨ b = 46
      · rcases h with rfl | rfl <;> cases hdigit
      · rw [not_or] at h
        exact Bool.and_eq_true_iff.2 ⟨bne_iff_ne.2 h.1, bne_iff_ne.2 h.2⟩
    rw [name, List.all_append, List.all_append, hdigits]
    rfl
  | _ => decide

theorem mem_named_or (k : Kind) : k ∈ named ∨ ∃ code, k = .unnamed code := by
  cases k with
  | unnamed code => exact .inr ⟨code, rfl⟩
  | _ => exact .inl (by decide)

/-- Different kinds have different names. -/
theorem name_inj {k k' : Kind} (h : k.name = k'.name) : k = k' := by
  have hnamed : ∀ k ∈ named, ∀ k' ∈ named, k.name = k'.name → k = k' := by
    decide +kernel
  have hstart : ∀ k ∈ named, k.name.take 5 ≠ text "Kind(" := by decide +kernel
  have hunnamed : ∀ code : UInt8, (unnamed code).name.take 5 = text "Kind(" := fun _ => rfl
  rcases k.mem_named_or with hk | ⟨code, rfl⟩
  · rcases k'.mem_named_or with hk' | ⟨code', rfl⟩
    · exact hnamed k hk k' hk' h
    · refine absurd ?_ (hstart k hk)
      rw [h]
      exact hunnamed code'
  · rcases k'.mem_named_or with hk' | ⟨code', rfl⟩
    · refine absurd ?_ (hstart k' hk')
      rw [← h]
      exact hunnamed code
    · have hcode := Text.ofNat_inj (List.append_cancel_left (List.append_cancel_right h))
      rw [UInt8.toNat_inj.1 hcode]

end Kind

/-- Texts that satisfy a predicate throughout are cut off alike, where what follows starts with a byte
that does not satisfy it. -/
theorem eq_of_append_of_stop {p : UInt8 → Bool} {r r' u u' : Text} (hr : r.all p = true)
    (hr' : r'.all p = true) (hu : ∀ b ∈ u.head?, p b = false) (hu' : ∀ b ∈ u'.head?, p b = false)
    (h : r ++ u = r' ++ u') : r = r' ∧ u = u' := by
  have hsame : r = r' := by
    rw [← takeWhile_append_of_stop hr hu, h, takeWhile_append_of_stop hr' hu']
  subst hsame
  exact ⟨rfl, List.append_cancel_left h⟩

namespace Tracker

/-- The kinds in a list of alternatives. -/
def alternatives (kinds : List Kind) : Text := (text " or ").intercalate (kinds.map Kind.name)

theorem alternatives_cons (k : Kind) (kinds : List Kind) :
    alternatives (k :: kinds) = k.name ++ kinds.flatMap fun k => text " or " ++ k.name := by
  induction kinds generalizing k with
  | nil => rw [alternatives, List.map_singleton, List.intercalate_singleton, List.flatMap_nil,
      List.append_nil]
  | cons k' kinds ih =>
    rw [alternatives, List.map_cons, List.map_cons, List.intercalate_cons_cons, ← List.map_cons,
      ← alternatives, ih, List.flatMap_cons, List.append_assoc, List.append_assoc]

/-- The alternatives behind the first one start with a blank. -/
theorem head?_flatMap_alternatives (kinds : List Kind) :
    ∀ b ∈ (kinds.flatMap fun k => text " or " ++ k.name).head?, (b != 32) = false := by
  intro b hb
  cases kinds with
  | nil => cases hb
  | cons k kinds =>
    cases hb
    rfl

theorem alternatives_inj {kinds kinds' : List Kind} (h : alternatives kinds = alternatives kinds') :
    kinds = kinds' := by
  have hname : ∀ k : Kind, k.name.all (fun b => b != 32) = true := by
    intro k
    rw [List.all_eq_true]
    intro b hb
    exact (Bool.and_eq_true_iff.1 (List.all_eq_true.1 k.all_name b hb)).1
  have hnil : ∀ (k : Kind) (kinds : List Kind), alternatives (k :: kinds) ≠ [] := by
    intro k kinds hempty
    rw [alternatives_cons] at hempty
    exact k.name_ne_nil (List.append_eq_nil_iff.1 hempty).1
  have hcut : ∀ {k k' : Kind} {kinds kinds' : List Kind},
      k.name ++ (kinds.flatMap fun k => text " or " ++ k.name) =
        k'.name ++ (kinds'.flatMap fun k => text " or " ++ k.name) →
      k = k' ∧ (kinds.flatMap fun k => text " or " ++ k.name) =
        kinds'.flatMap fun k => text " or " ++ k.name := by
    intro k k' kinds kinds' h
    obtain ⟨hfirst, hlater⟩ := eq_of_append_of_stop (hname k) (hname k')
      (head?_flatMap_alternatives kinds) (head?_flatMap_alternatives kinds') h
    exact ⟨Kind.name_inj hfirst, hlater⟩
  have hlater : ∀ {kinds kinds' : List Kind}, (kinds.flatMap fun k => text " or " ++ k.name) =
      (kinds'.flatMap fun k => text " or " ++ k.name) → kinds = kinds' := by
    intro kinds
    induction kinds with
    | nil =>
      intro kinds' h
      cases kinds' with
      | nil => rfl
      | cons k' kinds' => cases h
    | cons k kinds ih =>
      intro kinds' h
      cases kinds' with
      | nil => cases h
      | cons k' kinds' =>
        rw [List.flatMap_cons, List.flatMap_cons, List.append_assoc, List.append_assoc] at h
        obtain ⟨rfl, hrest⟩ := hcut (List.append_cancel_left h)
        rw [ih hrest]
  cases kinds with
  | nil =>
    cases kinds' with
    | nil => rfl
    | cons k' kinds' => exact absurd h.symm (hnil k' kinds')
  | cons k kinds =>
    cases kinds' with
    | nil => exact absurd h (hnil k kinds)
    | cons k' kinds' =>
      rw [alternatives_cons, alternatives_cons] at h
      obtain ⟨rfl, hrest⟩ := hcut h
      rw [hlater hrest]

/-- There is no period among alternatives. -/
theorem all_alternatives (kinds : List Kind) : (alternatives kinds).all (fun b => b != 46) = true := by
  have hname : ∀ k : Kind, k.name.all (fun b => b != 46) = true := by
    intro k
    rw [List.all_eq_true]
    intro b hb
    exact (Bool.and_eq_true_iff.1 (List.all_eq_true.1 k.all_name b hb)).2
  cases kinds with
  | nil => rfl
  | cons k kinds =>
    rw [alternatives_cons, List.all_append, hname, Bool.true_and, List.all_flatMap, List.all_eq_true]
    intro k' _
    rw [List.all_append, hname, Bool.and_true]
    decide

/-- A message can be read in one way only. -/
theorem expectedMessage_inj {kinds kinds' : List Kind} {found found' : Kind}
    (h : expectedMessage kinds found = expectedMessage kinds' found') :
    kinds = kinds' ∧ found = found' := by
  simp only [expectedMessage, List.append_assoc] at h
  obtain ⟨hkinds, hfound⟩ := eq_of_append_of_stop (p := fun b => b != 46) (all_alternatives kinds)
    (all_alternatives kinds') (fun b hb => by cases hb; rfl) (fun b hb => by cases hb; rfl)
    (List.append_cancel_left h)
  exact ⟨alternatives_inj hkinds, Kind.name_inj (List.append_cancel_right (List.append_cancel_left hfound))⟩

end Tracker

/-- The message of the finding: one of some kinds was required and another was found. -/
def Finding.Says (f : Finding) (expected : List Kind) (found : Kind) : Prop :=
  f.message = Tracker.expectedMessage expected found

/-! ### The first error -/

/-- The words from which some program goes on in a way are viable with that way. -/
theorem Resumes.viable {g : Generator} {read : List Token} {code : List Instruction} {next : Option Kind}
    (h : Resumes g (read.map Token.word) code next) : Viable (read.map Token.kind ++ next.toList) := by
  obtain ⟨p, missing, hwords, _, hhead, _⟩ := h
  refine Program.viable_beginning (p := p) ?_
  have hsentence : p.sentence.map Word.kind =
      read.map Token.kind ++ (missing.map Word.kind ++ [.eofSym]) := by
    rw [Program.sentence, hwords, List.map_append, List.map_append, List.map_map, List.append_assoc]
    rfl
  rw [hsentence, List.prefix_append_right_inj]
  cases next with
  | none => exact List.nil_prefix
  | some k =>
    obtain ⟨rest, hrest⟩ := List.head?_eq_some_iff.1 (hhead k rfl)
    exact ⟨rest, hrest.symm⟩

/-- Tokens whose words begin no sentence are not viable. -/
theorem not_viable_of_excluded {read : List Token} {tok : Token}
    (h : ∀ p : Program, ¬read.map Token.word ++ [tok.word] <+: p.sentence) :
    ¬Viable ((read ++ [tok]).map Token.kind) := by
  intro hviable
  have hkinds : (read ++ [tok]).map Token.kind = ((read ++ [tok]).map Token.word).map Word.kind := by
    rw [List.map_map]
    rfl
  rw [hkinds] at hviable
  obtain ⟨p, hp⟩ := (proper_words _).exists_program hviable
  rw [List.map_append] at hp
  exact h p hp

/-- How the first error of a compilation shows, seen from the tokens that scanning delivers. -/
inductive Compilation.Report (stream : Stream) (c : Compilation) : Prop
  /-- All tokens together are viable and scanning reaches the end. -/
  | clean {eof : Token} : Viable (stream.delivered.map Token.kind) → stream.ending = .eof eof →
      Report stream c
  /-- All tokens together are viable and scanning ends in a fault, which is the error. -/
  | fault {e : LexicalError} : Viable (stream.delivered.map Token.kind) → stream.ending = .fault e →
      c.error = some (.ofLexical e) → c.output.findings = [] → Report stream c
  /-- Some token is not viable behind those in front of it, and the first finding is about it. -/
  | mismatch {read later : List Token} {tok : Token} {expected : List Kind} {f : Finding}
      {others : List Finding} : stream.delivered = read ++ tok :: later →
      ¬Viable ((read ++ [tok]).map Token.kind) → c.output.findings = f :: others →
      f.line = tok.pos.line → f.column = tok.pos.column → f.Says expected tok.kind →
      expected ≠ [] → (∀ k ∈ expected, Viable (read.map Token.kind ++ [k])) → Report stream c

namespace Compilation

variable (config : Config) (filename src : Text)

theorem report_ofSource : Report (Stream.ofSource filename src) (ofSource config filename src) := by
  have hready := ParseState.ready_initial filename src config.trace (Tracker.hasError_fresh filename)
  have hfindings := findings_eq config filename src
  generalize hrun : (systemGoal ((Stream.ofSource filename src).tokens.length + 1)).run
    (ParseState.initial filename src { filename } config.trace) = r at hfindings
  have hverdict := verdict_systemGoal hready
  rw [hrun] at hverdict
  cases hverdict with
  | accepted p _ hwords hending _ _ =>
    have hspells : (Stream.ofSource filename src).Spells p := ⟨hwords, _, hending⟩
    refine .clean ?_ hending
    rw [hspells.kinds_delivered (Stream.scanned_ofSource filename src)]
    exact Program.viable_beginning (List.prefix_refl _)
  | rejected f read hshown htokens hending hresumes hexcludes =>
    have hdelivered : (Stream.ofSource filename src).delivered = read ++ f.ahead.delivered :=
      Stream.delivered_of_append htokens hending
    cases hshown with
    | @fault e s' hnone hpeek htracker _ =>
      obtain ⟨hnil, hfault⟩ := Stream.ending_of_peek_error hpeek
      refine .fault ?_ (hending.symm.trans hfault) (error_of_lexical config hrun) ?_
      · have hread : Viable (read.map Token.kind ++ []) := (hresumes none hnone).viable
        rw [hdelivered, Stream.delivered, hfault, hnil]
        rw [List.append_nil] at hread ⊢
        exact hread
      · rw [hfindings, show stateOf (.error (.lexical e) s') = s' from rfl, htracker]
        rfl
    | @mismatch _ tok hsome hpeek _ hdiag _ =>
      obtain ⟨later, hlater⟩ := Stream.delivered_of_peek hpeek
      obtain ⟨others, hothers⟩ := hdiag
      rw [hlater] at hdelivered
      rw [← hothers] at hfindings
      exact .mismatch hdelivered (not_viable_of_excluded (hexcludes tok hpeek)) hfindings rfl rfl rfl
        hsome fun k hk => (hresumes (some k) hk).viable

/-- The first finding is at the first token that is not viable behind those in front of it, says that a
token of this kind was found, and asks only for kinds that would have been viable.  If all tokens are
viable and scanning ends in a fault, the fault is the error and nothing else is found. -/
theorem first_error_located (config : Config) (filename src : Text) :
    let tokens := (Stream.ofSource filename src).delivered
    let c := ofSource config filename src
    (∀ (i : Nat) (tok : Token), tokens[i]? = some tok →
      ¬Viable ((tokens.take (i + 1)).map Token.kind) →
      (∀ j < i, Viable ((tokens.take (j + 1)).map Token.kind)) →
      ∃ f others expected, c.output.findings = f :: others ∧ f.line = tok.pos.line ∧
        f.column = tok.pos.column ∧ expected ≠ [] ∧ f.Says expected tok.kind ∧
        ∀ kinds found, f.Says kinds found → found = tok.kind ∧
          ∀ k ∈ kinds, Viable ((tokens.take i).map Token.kind ++ [k])) ∧
    ∀ e, (Stream.ofSource filename src).ending = .fault e →
      (∀ i < tokens.length, Viable ((tokens.take (i + 1)).map Token.kind)) →
      c.error = some (.ofLexical e) ∧ c.output.findings = [] := by
  intro tokens c
  have hwhole : ∀ i, Viable (tokens.map Token.kind) → Viable ((tokens.take (i + 1)).map Token.kind) :=
    fun i h => h.of_longer ((List.take_prefix _ _).map _)
  cases report_ofSource config filename src with
  | clean hviable hending =>
    refine ⟨fun i tok _ hno _ => absurd (hwhole i hviable) hno, fun e he _ => ?_⟩
    rw [hending] at he
    cases he
  | fault hviable hending herror hnone =>
    refine ⟨fun i tok _ hno _ => absurd (hwhole i hviable) hno, fun e he _ => ?_⟩
    rw [hending] at he
    cases he
    exact ⟨herror, hnone⟩
  | @mismatch read later tok expected f others hsplit hno hfindings hline hcolumn hsays hsome hviable =>
    have hbad : tokens.take (read.length + 1) = read ++ [tok] := by
      show (Stream.ofSource filename src).delivered.take _ = _
      rw [hsplit, List.take_length_add_append]
      rfl
    have hread : tokens.take read.length = read := by
      show (Stream.ofSource filename src).delivered.take _ = _
      rw [hsplit, List.take_left]
    have hreadViable : Viable (read.map Token.kind) := by
      obtain ⟨k, hk⟩ := List.exists_mem_of_ne_nil expected hsome
      exact (hviable k hk).of_longer (List.prefix_append _ _)
    refine ⟨?_, fun e _ hall => ?_⟩
    · intro i tok' htok' hno' hbefore
      -- a smaller index would be viable, and a larger one has this one in front of it
      have hi : i = read.length := by
        rcases Nat.lt_trichotomy i read.length with hlt | heq | hgt
        · refine absurd (hreadViable.of_longer ?_) hno'
          rw [← hread]
          exact (List.take_prefix_take_left hlt).map _
        · exact heq
        · refine absurd (hbefore read.length hgt) ?_
          rw [hbad]
          exact hno
      subst hi
      have htok : tokens[read.length]? = some tok := by
        show (Stream.ofSource filename src).delivered[read.length]? = _
        rw [hsplit, List.getElem?_append_right (Nat.le_refl _), Nat.sub_self]
        rfl
      cases htok'.symm.trans htok
      refine ⟨f, others, expected, hfindings, hline, hcolumn, hsome, hsays, ?_⟩
      intro kinds found hreading
      obtain ⟨rfl, rfl⟩ := Tracker.expectedMessage_inj (hreading.symm.trans hsays)
      refine ⟨rfl, ?_⟩
      rw [hread]
      exact hviable
    · refine absurd (hall read.length ?_) ?_
      · show _ < (Stream.ofSource filename src).delivered.length
        rw [hsplit, List.length_append, List.length_cons]
        omega
      · rw [hbad]
        exact hno

/-- A program without statements is rejected at its `end`; a faulty byte behind `:=` is all that is
reported. -/
theorem first_error_located_empty_body :
    (¬Viable [.beginSym, .endSym] ∧ Viable [.beginSym] ∧
      ∃ f others expected, (ofSource {} [] (text "begin\n end")).output.findings = f :: others ∧
        f.line = 2 ∧ f.column = 2 ∧ expected ≠ [] ∧ f.Says expected .endSym ∧
        ∀ kinds found, f.Says kinds found → found = .endSym ∧ ∀ k ∈ kinds, Viable [.beginSym, k]) ∧
    (Viable [.beginSym, .id, .assignOp] ∧
      (ofSource {} [] (text "begin a := #")).error =
        some (.ofLexical ⟨{ line := 1, column := 12, offset := 11 }, .unexpected 35⟩) ∧
      (ofSource {} [] (text "begin a := #")).output.findings = []) := by
  have hempty : ¬Viable [.beginSym, .endSym] := by
    intro h
    have hproper : Proper [⟨.beginSym, []⟩, ⟨.endSym, []⟩] :=
      proper_words [{ kind := .beginSym }, { kind := .endSym }]
    obtain ⟨p, hp⟩ := hproper.exists_program h
    obtain ⟨w, rest, hw, hstart⟩ := p.statements.first.words_starts
    rw [Program.sentence, Program.words, Series.words, hw] at hp
    rw [← (List.cons_prefix_cons.1 (List.cons_prefix_cons.1 hp).2).1] at hstart
    cases hstart
  have hbegin : Viable [.beginSym] :=
    Program.viable_beginning (p := ⟨⟨.read ⟨[97], []⟩, []⟩⟩) ⟨_, rfl⟩
  have hassign : Viable [.beginSym, .id, .assignOp] :=
    Program.viable_beginning (p := ⟨⟨.assign [97] (.single (.name [97])), []⟩⟩) ⟨_, rfl⟩
  have hfirst : (Stream.ofSource [] (text "begin\n end")).delivered =
      [⟨.beginSym, text "begin", { line := 1, column := 1, offset := 0 }⟩,
        ⟨.endSym, text "end", { line := 2, column := 2, offset := 7 }⟩,
        ⟨.eofSym, [], { line := 2, column := 5, offset := 10 }⟩] := by decide +kernel
  have hsecond : (Stream.ofSource [] (text "begin a := #")).delivered.map Token.kind =
      [.beginSym, .id, .assignOp] := by decide +kernel
  refine ⟨⟨hempty, hbegin, ?_⟩, hassign, ?_⟩
  · have h := (first_error_located {} [] (text "begin\n end")).1 1
      ⟨.endSym, text "end", { line := 2, column := 2, offset := 7 }⟩
    rw [hfirst] at h
    refine h rfl hempty ?_
    intro j hj
    cases Nat.lt_one_iff.1 hj
    exact hbegin
  · refine (first_error_located {} [] (text "begin a := #")).2 _ (by decide +kernel) ?_
    intro i _
    rw [List.map_take, hsecond]
    exact hassign.of_longer (List.take_prefix _ _)

end Compilation

end MicroLang
