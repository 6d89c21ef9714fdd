import MicroLang.Proofs.Containment
import MicroLang.Proofs.Observation
import MicroLang.Proofs.Tokenization
import MicroLang.Proofs.Viability

/-!
# Layout

White space and comments keep tokens apart and have no other meaning.  A filler is a white-space byte and
then any white space and comments that end with their lines.  Put in front of a token, in front of the end
or in front of a lexical error, it changes the places of what follows and nothing else: the
tokens and the error stay the same, and so does whatever the compiler makes of them.

Readings carry this: the filler joins the gap that already stands there, or the comment in which the
source ends, and the rest is read as before from another place.
-/

namespace MicroLang

/-- White space that can be put between tokens: one byte, then white space and comments. -/
def Filler (t : Text) : Prop := ∃ b g, t = b :: g ∧ isSpace b = true ∧ Gap false g

/-- The text with another one put in at an offset. -/
def Text.inserted (src t : Text) (offset : Nat) : Text := src.take offset ++ (t ++ src.drop offset)

/-! ### Gaps that grow -/

namespace Gap

theorem append {g t : Text} (hg : Gap false g) (ht : Gap false t) : Gap false (g ++ t) := by
  induction hg with
  | nil => exact ht
  | space hb _ ih => exact .space hb ih
  | comment hbody _ ih =>
    rw [List.cons_append, List.cons_append, List.append_assoc, List.cons_append]
    exact .comment hbody ih
  | last hfinal => cases hfinal

theorem final {t : Text} (h : Gap false t) : Gap true t := by
  induction h with
  | nil => exact .nil
  | space hb _ ih => exact .space hb ih
  | comment hbody _ ih => exact .comment hbody ih
  | last hfinal => cases hfinal

/-- Inside a comment a gap is passed as well: up to its first newline it belongs to the comment. -/
theorem in_comment {body t : Text} (hbody : 10 ∉ body) (ht : Gap false t) :
    Gap true (45 :: 45 :: (body ++ t)) := by
  induction ht generalizing body with
  | nil =>
    rw [List.append_nil]
    exact .last rfl hbody
  | @space b t hb ht ih =>
    by_cases hline : b = 10
    · subst hline
      exact .comment hbody ht.final
    · have hlonger : 10 ∉ body ++ [b] := by
        rw [List.mem_append, List.mem_singleton, not_or]
        exact ⟨hbody, Ne.symm hline⟩
      have hrest := ih hlonger
      rwa [List.append_assoc] at hrest
  | @comment inner t hinner ht ih =>
    have hlonger : 10 ∉ body ++ 45 :: 45 :: inner := by
      simp only [List.mem_append, List.mem_cons, not_or]
      exact ⟨hbody, by decide, by decide, hinner⟩
    have hcomment := Gap.comment hlonger ht.final
    rwa [List.append_assoc] at hcomment
  | last hfinal => cases hfinal

/-- A gap at the end of a source can be followed by another one. -/
theorem append_final {g t : Text} (hg : Gap true g) (ht : Gap false t) : Gap true (g ++ t) := by
  induction hg with
  | nil => exact ht.final
  | space hb _ ih => exact .space hb ih
  | comment hbody _ ih =>
    rw [List.cons_append, List.cons_append, List.append_assoc, List.cons_append]
    exact .comment hbody ih
  | last _ hbody => exact in_comment hbody ht

end Gap

/-- White space continues no token. -/
theorem Kind.extendedBy_of_isSpace {b : UInt8} (hb : isSpace b = true) (kind : Kind) :
    kind.extendedBy b = false := by
  simp only [isSpace, Bool.or_eq_true, beq_iff_eq, Bool.and_eq_true, decide_eq_true_eq,
    UInt8.le_iff_toNat_le, UInt8.reduceToNat, ← UInt8.toNat_inj] at hb
  have hdigit : Text.isDigit b = false := by
    simp only [Text.isDigit, Bool.and_eq_false_iff, decide_eq_false_iff_not, UInt8.le_iff_toNat_le,
      UInt8.reduceToNat]
    omega
  have hword : isWordByte b = false := by
    simp only [isWordByte, hdigit, Text.isLetter, Bool.or_eq_false_iff, Bool.and_eq_false_iff,
      decide_eq_false_iff_not, UInt8.le_iff_toNat_le, UInt8.reduceToNat, beq_eq_false_iff_ne, ne_eq,
      ← UInt8.toNat_inj, and_true]
    omega
  have hminus : (b == 45) = false := by
    simp only [beq_eq_false_iff_ne, ne_eq, ← UInt8.toNat_inj, UInt8.reduceToNat]
    omega
  cases kind with
  | beginSym | endSym | readSym | writeSym | id => exact hword
  | intLiteral => exact hdigit
  | minusOp => exact hminus
  | _ => rfl

namespace Filler

theorem gap {t : Text} (h : Filler t) : Gap false t := by
  obtain ⟨b, g, rfl, hb, hg⟩ := h
  exact .space hb hg

/-- No token is made longer by a filler. -/
theorem ends {t : Text} (h : Filler t) (kind : Kind) (rest : Text) : kind.Ends (t ++ rest) := by
  obtain ⟨b, g, rfl, hb, _⟩ := h
  intro c hc
  cases hc
  exact Kind.extendedBy_of_isSpace hb kind

end Filler

/-! ### Readings from another place -/

namespace Reading

variable {filename before rest : Text} {s : Stream}

/-- What stands in front of a text decides about places only. -/
theorem elsewhere (h : Reading filename before rest s) (before' : Text) :
    ∃ s', Reading filename before' rest s' ∧ s'.moved .forget = s.moved .forget := by
  induction h generalizing before' with
  | eof hg => exact ⟨_, .eof hg, rfl⟩
  | fault hg hrest => exact ⟨_, .fault hg hrest, rfl⟩
  | @token before g literal rest kind stream hg hlexeme hends _ ih =>
    obtain ⟨s', hs', hmoved⟩ := ih (before' ++ g ++ literal)
    refine ⟨_, .token hg hlexeme hends hs', ?_⟩
    rw [Stream.moved_cons, Stream.moved_cons, hmoved]
    rfl

/-- A filler can be put in front of any token and of the ending. -/
theorem insert (h : Reading filename before rest s) {p : Position} (hp : p ∈ s.places) {t : Text}
    (ht : Filler t) : ∃ front back, rest = front ++ back ∧ p = .behind filename (before ++ front) ∧
      ∀ before', ∃ s', Reading filename before' (front ++ (t ++ back)) s' ∧
        s'.moved .forget = s.moved .forget := by
  induction h with
  | @eof before g hg =>
    obtain rfl := List.mem_singleton.1 hp
    refine ⟨g, [], (List.append_nil g).symm, rfl, fun before' => ?_⟩
    rw [List.append_nil]
    exact ⟨_, .eof (hg.append_final ht.gap), rfl⟩
  | @fault before g rest fault hg hrest =>
    obtain rfl := List.mem_singleton.1 hp
    refine ⟨g, rest, rfl, rfl, fun before' => ?_⟩
    rw [← List.append_assoc]
    exact ⟨_, .fault (hg.append ht.gap) hrest, rfl⟩
  | @token before g literal rest kind stream hg hlexeme hends hstream ih =>
    rw [Stream.places_cons] at hp
    rcases List.mem_cons.1 hp with rfl | hp
    · refine ⟨g, literal ++ rest, rfl, rfl, fun before' => ?_⟩
      obtain ⟨s', hs', hmoved⟩ := hstream.elsewhere (before' ++ (g ++ t) ++ literal)
      rw [← List.append_assoc]
      refine ⟨_, .token (hg.append ht.gap) hlexeme hends hs', ?_⟩
      rw [Stream.moved_cons, Stream.moved_cons, hmoved]
      rfl
    · obtain ⟨front, back, rfl, rfl, hlater⟩ := ih hp
      refine ⟨g ++ (literal ++ front), back, ?_, ?_, fun before' => ?_⟩
      · simp only [List.append_assoc]
      · simp only [List.append_assoc]
      · obtain ⟨s', hs', hmoved⟩ := hlater (before' ++ g ++ literal)
        have hends' : kind.Ends (front ++ (t ++ back)) := by
          cases front with
          | nil => exact ht.ends kind back
          | cons c front => exact hends
        have hread := Reading.token hg hlexeme hends' hs'
        rw [List.append_assoc, List.append_assoc]
        refine ⟨_, hread, ?_⟩
        rw [Stream.moved_cons, Stream.moved_cons, hmoved]
        rfl

end Reading

namespace Stream

/-- A filler in front of a token or of the ending changes places only. -/
theorem moved_ofSource_inserted {filename src t : Text} {offset : Nat} (ht : Filler t)
    (hoffset : ∃ p ∈ (ofSource filename src).places, p.offset = offset) :
    (ofSource filename (src.inserted t offset)).moved .forget = (ofSource filename src).moved .forget := by
  obtain ⟨p, hp, hoffset⟩ := hoffset
  have hread : Reading filename [] src (ofSource filename src) := (reading_iff filename src _).2 rfl
  obtain ⟨front, back, hsrc, rfl, hinsert⟩ := hread.insert hp ht
  rw [Position.offset_behind, List.nil_append] at hoffset
  have hlength : offset = front.length := by omega
  have hinserted : src.inserted t offset = front ++ (t ++ back) := by
    rw [Text.inserted, hsrc, hlength, List.take_left, List.drop_left]
  obtain ⟨s', hs', hmoved⟩ := hinsert []
  rw [hinserted, ← (reading_iff filename _ s').1 hs']
  exact hmoved

theorem delivered_moved (move : Relocation) (s : Stream) :
    (s.moved move).delivered = s.delivered.map (Token.moved move) := by
  obtain ⟨tokens, ending⟩ := s
  cases ending with
  | eof tok => simp only [moved, delivered, Ending.moved, List.map_append, List.map_cons, List.map_nil]
  | fault e => rfl

/-- Moving keeps kinds and texts. -/
theorem unplaced_delivered_moved (move : Relocation) (s : Stream) :
    (s.moved move).delivered.map Token.unplaced = s.delivered.map Token.unplaced := by
  rw [delivered_moved, List.map_map]
  rfl

theorem message_fault?_moved (move : Relocation) (s : Stream) :
    (s.moved move).fault?.map LexicalError.message = s.fault?.map LexicalError.message := by
  obtain ⟨tokens, ending⟩ := s
  cases ending <;> rfl

end Stream

/-! ### Compilations -/

/-- A finding without its line and its column. -/
def Finding.unplaced (f : Finding) : Finding := { f with line := 0, column := 0 }

/-- An error without lines and columns. -/
def CompileError.unplaced : CompileError → CompileError
  | .lexical filename _ _ message => .lexical filename 0 0 message
  | .syntactic errors => .syntactic (errors.map Finding.unplaced)
  | .unreadable path reason => .unreadable path reason

theorem Finding.unplaced_ofDiagnostic (d : Diagnostic) :
    (ofDiagnostic d).unplaced = ofDiagnostic (d.moved .forget) := rfl

theorem Finding.map_unplaced (ds : List Diagnostic) :
    (ds.map ofDiagnostic).map unplaced = (ds.map (Diagnostic.moved .forget)).map ofDiagnostic := by
  rw [List.map_map, List.map_map]
  exact List.map_congr_left fun d _ => unplaced_ofDiagnostic d

theorem Tracker.errors_moved (move : Relocation) (t : Tracker) :
    (t.moved move).errors = t.errors.map (Diagnostic.moved move) := by
  unfold errors moved
  rw [Array.toList_map, List.filter_map]
  rfl

theorem Compilation.unplaced_errorFrom (fault : Option LexicalError) (t : Tracker) :
    (errorFrom fault t).map CompileError.unplaced =
      errorFrom (fault.map (LexicalError.moved .forget)) (t.moved .forget) := by
  cases fault with
  | some e => rfl
  | none =>
    unfold errorFrom
    rw [Option.map_none]
    dsimp only
    rw [Tracker.hasError_moved, Tracker.errors_moved, ← Finding.map_unplaced]
    split
    · rfl
    · rfl

namespace Parsed.SameUpTo

variable {p p' : Parsed}

theorem unplaced_findings (h : SameUpTo .forget p p') :
    (Output.ofParsed p).findings.map Finding.unplaced = (Output.ofParsed p').findings.map Finding.unplaced := by
  have hdiagnostics : p.diagnostics.map (Diagnostic.moved .forget) =
      p'.diagnostics.map (Diagnostic.moved .forget) := by
    have htracker := congrArg (fun t : Tracker => t.diagnostics.toList) h.tracker
    simpa only [Parsed.diagnostics, Tracker.moved, Array.toList_map] using htracker
  show (p.diagnostics.map _).map _ = (p'.diagnostics.map _).map _
  rw [Finding.map_unplaced, Finding.map_unplaced, hdiagnostics]

theorem unplaced_errorOf (h : SameUpTo .forget p p') :
    (Compilation.errorOf p).map CompileError.unplaced =
      (Compilation.errorOf p').map CompileError.unplaced := by
  rw [Compilation.errorOf_eq_errorFrom, Compilation.errorOf_eq_errorFrom, Compilation.unplaced_errorFrom,
    Compilation.unplaced_errorFrom, h.lexicalError, h.tracker]

theorem derivation_eq {move : Relocation} (h : SameUpTo move p p') :
    (Output.ofParsed p).derivation = (Output.ofParsed p').derivation := by
  show p.tree.derivation = p'.tree.derivation
  rw [← Tree.derivation_moved move p.tree, h.tree, Tree.derivation_moved]

end Parsed.SameUpTo

namespace Compilation

/-- A filler in front of a token, of the end or of a lexical error changes lines, columns and offsets
and nothing else. -/
theorem layout_is_free (config : Config) (filename src t : Text) (offset : Nat)
    (hoffset : ∃ p ∈ (Stream.ofSource filename src).places, p.offset = offset) (ht : Filler t) :
    (Stream.ofSource filename (src.inserted t offset)).delivered.map Token.unplaced =
      (Stream.ofSource filename src).delivered.map Token.unplaced ∧
    (Stream.ofSource filename (src.inserted t offset)).fault?.map LexicalError.message =
      (Stream.ofSource filename src).fault?.map LexicalError.message ∧
    (ofSource config filename (src.inserted t offset)).output.code =
      (ofSource config filename src).output.code ∧
    (ofSource config filename (src.inserted t offset)).output.symbols =
      (ofSource config filename src).output.symbols ∧
    (ofSource config filename (src.inserted t offset)).output.derivation =
      (ofSource config filename src).output.derivation ∧
    (ofSource config filename (src.inserted t offset)).output.findings.map Finding.unplaced =
      (ofSource config filename src).output.findings.map Finding.unplaced ∧
    (ofSource config filename (src.inserted t offset)).error.map CompileError.unplaced =
      (ofSource config filename src).error.map CompileError.unplaced := by
  have hmoved := Stream.moved_ofSource_inserted ht hoffset
  have hsame := Parsed.sameUpTo_ofSource hmoved { filename } config.trace config.trace
  refine ⟨?_, ?_, ?_, ?_, hsame.derivation_eq, hsame.unplaced_findings, hsame.unplaced_errorOf⟩
  · rw [← Stream.unplaced_delivered_moved .forget, hmoved, Stream.unplaced_delivered_moved]
  · rw [← Stream.message_fault?_moved .forget, hmoved, Stream.message_fault?_moved]
  · show (Parsed.instructions _).map _ = (Parsed.instructions _).map _
    rw [Parsed.instructions, hsame.generator, Parsed.instructions]
  · show (Parsed.symbols _).names = (Parsed.symbols _).names
    rw [Parsed.symbols, hsame.generator, Parsed.symbols]

/-- A tab and a comment at the end of a source whose last line is a comment already, and a line break between
a sign and the byte that ends the scan. -/
theorem layout_is_free_at_endings :
    ((∃ p ∈ (Stream.ofSource [] (text "begin a := 1; end --x")).places, p.offset = 21) ∧
      Filler (text "\t--y\n") ∧
      (ofSource {} [] (text "begin a := 1; end --x\t--y\n")).output.code =
        [text "Declare a, Integer", text "Store 1, a", text "Halt"]) ∧
    ((∃ p ∈ (Stream.ofSource [] (text "a-#")).places, p.offset = 2) ∧ Filler (text "\n") ∧
      (Stream.ofSource [] (text "a-\n#")).delivered.map Token.unplaced =
        [(.id, text "a"), (.minusOp, text "-")] ∧
      (ofSource {} [] (text "a-\n#")).error.map CompileError.unplaced =
        some (.lexical [] 0 0 (Fault.unexpected 35).message)) := by
  have hend : ∃ p ∈ (Stream.ofSource [] (text "begin a := 1; end --x")).places, p.offset = 21 := by
    decide +kernel
  have hfault : ∃ p ∈ (Stream.ofSource [] (text "a-#")).places, p.offset = 2 := by decide +kernel
  have hcomment : Filler (text "\t--y\n") :=
    ⟨9, text "--y\n", rfl, rfl, @Gap.comment false (text "y") [] (by decide) .nil⟩
  have hline : Filler (text "\n") := ⟨10, [], rfl, rfl, .nil⟩
  obtain ⟨_, _, hcode, _⟩ := layout_is_free {} [] _ _ 21 hend hcomment
  obtain ⟨htokens, _, _, _, _, _, herror⟩ := layout_is_free {} [] _ _ 2 hfault hline
  refine ⟨⟨hend, hcomment, hcode.trans (by decide +kernel)⟩, hfault, hline, ?_, ?_⟩
  · exact htokens.trans (by decide +kernel)
  · exact herror.trans (by decide +kernel)

end Compilation

end MicroLang
