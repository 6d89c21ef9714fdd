import MicroLang.Command
import MicroLang.Proofs.Observation
import MicroLang.Proofs.Truncation
import MicroLang.Proofs.Verification

/-!
# Listings that are delivered

A run of the command leaves a listing only if the source compiles cleanly, and in one place: in the file that
was asked for, or on standard output behind the syntax tree.  Where the source does not compile, or the
file cannot be created, nothing is left but the tree.

Command lines reach a compilation through their flags and a file of settings.  Whatever valid settings are
wanted, some command line asks for them.  That verification is one of the settings makes no difference,
since it finds nothing in the listing of a clean compilation, and nothing else is verified.  For the same reason
no run breaks down over an instruction that lacks an operand.
-/

namespace MicroLang

/-! ### Clean compilations -/

namespace Compilation

variable {filename src : Text}

theorem output_of_config (config config' : Config) :
    (ofSource config filename src).output = (ofSource config' filename src).output :=
  (Parsed.sameUpTo_stay filename src { filename } config.trace config'.trace).output_eq

theorem error_of_config (config config' : Config) :
    (ofSource config filename src).error = (ofSource config' filename src).error :=
  (Parsed.sameUpTo_stay filename src { filename } config.trace config'.trace).errorOf_eq

/-- Verification finds nothing in the listing of a clean compilation. -/
theorem verify_of_clean {config : Config} (h : (ofSource config filename src).error = none) :
    (ofSource config filename src).output.verify = .ok [] := by
  obtain ⟨p, hp⟩ := (error_eq_none_iff config filename src).1 h
  have hspelled := p.wellSpelled (hp.writable (Stream.scanned_ofSource filename src))
  exact Output.verify_of_halted (p.sound hspelled).admitted (code_of_spells config hp)

end Compilation

namespace Command

/-! ### What a run shows -/

/-- The syntax tree as it is shown, if it is. -/
def shownTree (s : Settings) (o : Output) : Text :=
  if s.ast = [] then [] else if s.ast = text "json" then o.treeJson ++ text "\n" else o.tree.dump

/-- The listing with its header, unless that is left out. -/
def shownListing (s : Settings) (o : Output) : Text := (if s.noHeader then [] else header) ++ o.listing

/-- What a compilation shows on standard error while it goes on. -/
def shownEvents (s : Settings) (around : Surroundings) (path src : Text) : Text :=
  let coloured := isColoured s.color around
  eventLines coloured around.clock (Compilation.ofSource { trace := s.trace, coloured } path src).transcript

theorem flatten_treePieces (s : Settings) (o : Output) : (treePieces s o).flatten = shownTree s o := by
  unfold treePieces shownTree
  by_cases hnone : s.ast = []
  · rw [if_pos hnone, hnone]
    rfl
  · rw [if_neg (by simpa using hnone), if_neg hnone]
    split
    · exact List.flatten_singleton
    · rfl

theorem flatten_listingPieces (s : Settings) (o : Output) :
    (listingPieces s o).flatten = shownListing s o := by
  unfold listingPieces shownListing
  split
  · exact List.flatten_singleton
  · rw [List.flatten_cons, List.flatten_singleton]

/-! ### Settled compilations -/

section

variable {s : Settings} {around : Surroundings} {path src : Text}

theorem verificationErrors_of_verified {o : Output} (h : o.verify = .ok []) :
    verificationErrors s o = .ok [] := by
  unfold verificationErrors
  rw [h]
  split <;> rfl

/-- A clean compilation is delivered, verified or not. -/
theorem compile_of_clean (hread : around.storage.read path = .ok src)
    (h : (Compilation.ofSource {} path src).error = none) :
    compile s around path {} = deliver s around.storage (Compilation.ofSource {} path src).output
      { chunks := (treePieces s (Compilation.ofSource {} path src).output).toArray }
      (shownEvents s around path src) := by
  rw [Compilation.error_of_config {} { trace := s.trace, coloured := isColoured s.color around }] at h
  have hverified := Compilation.verify_of_clean h
  rw [Compilation.output_of_config {} { trace := s.trace, coloured := isColoured s.color around }]
  unfold compile
  rw [hread]
  dsimp only
  rw [h]
  dsimp only
  rw [conclude, Writer.writeAll_free, Array.empty_append, verificationErrors_of_verified hverified]
  rfl

/-- A compilation with an error shows at most the tree. -/
theorem compile_of_error (hread : around.storage.read path = .ok src) {e : CompileError}
    (h : (Compilation.ofSource {} path src).error = some e) :
    compile s around path {} = if e.isFatal then
        { stdout := {}, stderr := shownEvents s around path src, failure := some (.compile e) }
      else {
        stdout := { chunks := (treePieces s (Compilation.ofSource {} path src).output).toArray }
        stderr := shownEvents s around path src
        failure := some .reported } := by
  rw [Compilation.error_of_config {} { trace := s.trace, coloured := isColoured s.color around }] at h
  rw [Compilation.output_of_config {} { trace := s.trace, coloured := isColoured s.color around }]
  unfold compile
  rw [hread]
  dsimp only
  rw [h]
  dsimp only
  split
  · rfl
  · rw [conclude, Writer.writeAll_free, Array.empty_append]
    rfl

/-- Verification has no influence on a run. -/
theorem compile_verify (hread : around.storage.read path = .ok src) (verify : Bool) :
    compile { s with verify } around path {} = compile s around path {} := by
  cases h : (Compilation.ofSource {} path src).error with
  | none =>
    rw [compile_of_clean hread h, compile_of_clean hread h]
    rfl
  | some e =>
    rw [compile_of_error hread h, compile_of_error hread h]
    rfl

theorem failure_deliver_ne_breakdown (storage : Storage) (o : Output) (stdout : Writer) (stderr : Text)
    (e : Listing.MissingOperand) : (deliver s storage o stdout stderr).failure ≠ some (.breakdown e) := by
  unfold deliver
  split
  · split <;> simp
  · split <;> simp

/-- What is verified has been compiled cleanly, and then verification comes to an end. -/
theorem failure_conclude_ne_breakdown {o : Output} {isClean : Bool} (h : isClean = true → o.verify = .ok [])
    (storage : Storage) (stdout : Writer) (stderr : Text) (e : Listing.MissingOperand) :
    (conclude s storage o isClean stdout stderr).failure ≠ some (.breakdown e) := by
  unfold conclude
  split
  · simp
  · cases isClean with
    | false => simp
    | true =>
      rw [verificationErrors_of_verified (h rfl)]
      exact failure_deliver_ne_breakdown _ _ _ _ e

theorem failure_compile_ne_breakdown (path : Text) (stdout : Writer) (e : Listing.MissingOperand) :
    (compile s around path stdout).failure ≠ some (.breakdown e) := by
  unfold compile
  split
  · simp
  · dsimp only
    split
    · next hclean => exact failure_conclude_ne_breakdown (fun _ => Compilation.verify_of_clean hclean) _ _ _ e
    · split
      · simp
      · exact failure_conclude_ne_breakdown (fun h => absurd h Bool.false_ne_true) _ _ _ e

end

/-- No run of the command breaks down. -/
theorem failure_run_ne_breakdown (arguments : List Text) (around : Surroundings) (stdout : Writer)
    (e : Listing.MissingOperand) : (run arguments around stdout).failure ≠ some (.breakdown e) := by
  unfold run
  split
  · simp
  · split
    · unfold showHelp
      split <;> simp
    · split
      · unfold showVersion
        split <;> simp
      · split
        · split
          · simp
          · exact failure_compile_ne_breakdown _ stdout e
        · simp

/-! ### Deliveries -/

/-- The run leaves the listing of the compilation where it belongs if the source compiles cleanly and the file
asked for can be created, and otherwise nothing but the tree, which is not shown after a lexical error. -/
structure Delivered (s : Settings) (storage : Storage) (c : Compilation) (events : Text) (r : Run) :
    Prop where
  exitCode : r.exitCode = 0 ↔ c.error = none ∧ (s.output ≠ [] → storage.create s.output = .ok ())
  stdout : r.exitCode = 0 → s.output = [] →
    r.file = none ∧ r.stdout.written = shownTree s c.output ++ shownListing s c.output
  file : r.exitCode = 0 → s.output ≠ [] →
    r.file = some (s.output, shownListing s c.output) ∧ r.stdout.written = shownTree s c.output
  stderr : r.exitCode = 0 → r.allErrors = events
  failed : r.exitCode ≠ 0 → r.file = none ∧
    r.stdout.written = if c.error.any CompileError.isFatal then [] else shownTree s c.output

section

variable {s : Settings} {storage : Storage} {c : Compilation} {events : Text}

/-- A run that fails has to hold no more than the tree. -/
theorem delivered_of_failure {r : Run} (hfailure : r.failure ≠ none)
    (hcause : c.error ≠ none ∨ s.output ≠ [] ∧ storage.create s.output ≠ .ok ()) (hfile : r.file = none)
    (hstdout : r.stdout.written = if c.error.any CompileError.isFatal then [] else shownTree s c.output) :
    Delivered s storage c events r := by
  have hcode : r.exitCode ≠ 0 := fun h => hfailure (r.exitCode_eq_zero_iff.1 h)
  refine ⟨iff_of_false hcode ?_, fun h => absurd h hcode, fun h => absurd h hcode, fun h => absurd h hcode,
    fun _ => ⟨hfile, hstdout⟩⟩
  rintro ⟨hclean, hcreate⟩
  rcases hcause with herror | ⟨houtput, hno⟩
  · exact herror hclean
  · exact hno (hcreate houtput)

theorem delivered_of_error {e : CompileError} (h : c.error = some e) :
    Delivered s storage c events (if e.isFatal then
        { stdout := {}, stderr := events, failure := some (.compile e) }
      else {
        stdout := { chunks := (treePieces s c.output).toArray }
        stderr := events
        failure := some .reported }) := by
  have hcause : c.error ≠ none := by
    rw [h]
    exact Option.some_ne_none e
  split
  · next hfatal =>
    refine delivered_of_failure (Option.some_ne_none _) (.inl hcause) rfl ?_
    rw [h, Option.any_some, if_pos hfatal]
    rfl
  · next hfatal =>
    refine delivered_of_failure (Option.some_ne_none _) (.inl hcause) rfl ?_
    rw [h, Option.any_some, if_neg hfatal]
    exact flatten_treePieces s c.output

theorem delivered_of_clean (h : c.error = none) :
    Delivered s storage c events
      (deliver s storage c.output { chunks := (treePieces s c.output).toArray } events) := by
  have hshown : ¬c.error.any CompileError.isFatal = true := by
    rw [h]
    exact Bool.false_ne_true
  unfold deliver
  by_cases houtput : s.output = []
  · rw [if_pos (by rw [houtput]; rfl), Writer.writeAll_free]
    refine ⟨iff_of_true rfl ⟨h, fun hne => absurd houtput hne⟩, fun _ _ => ⟨rfl, ?_⟩,
      fun _ hne => absurd houtput hne, fun _ => List.append_nil _, fun hcode => absurd rfl hcode⟩
    rw [Writer.written, Array.toList_append, List.flatten_append, flatten_treePieces, flatten_listingPieces]
  · rw [if_neg (by simpa using houtput)]
    cases hcreate : storage.create s.output with
    | error e =>
      refine delivered_of_failure (Option.some_ne_none _) (.inr ⟨houtput, ?_⟩) rfl ?_
      · rw [hcreate]
        simp
      · rw [if_neg hshown]
        exact flatten_treePieces s c.output
    | ok _ =>
      refine ⟨iff_of_true rfl ⟨h, fun _ => hcreate⟩, fun _ heq => absurd heq houtput, fun _ _ => ⟨?_, ?_⟩,
        fun _ => List.append_nil _, fun hcode => absurd rfl hcode⟩
      · rw [flatten_listingPieces]
      · exact flatten_treePieces s c.output

end

theorem delivered_compile {around : Surroundings} {path src : Text} (s : Settings)
    (hread : around.storage.read path = .ok src) :
    Delivered s around.storage (Compilation.ofSource {} path src) (shownEvents s around path src)
      (compile s around path {}) := by
  cases h : (Compilation.ofSource {} path src).error with
  | none =>
    rw [compile_of_clean hread h]
    exact delivered_of_clean h
  | some e =>
    rw [compile_of_error hread h]
    exact delivered_of_error h

/-! ### Command lines -/

/-- The arguments ask for a compilation of the file under these settings. -/
def Asks (arguments : List Text) (storage : Storage) (s : Settings) (path : Text) : Prop :=
  ∃ flags, Flags.ofArguments arguments = .ok flags ∧ flags.help = false ∧ flags.version = false ∧
    flags.arguments = [path] ∧ settings flags storage = .ok s

theorem Asks.run {arguments : List Text} {around : Surroundings} {s : Settings} {path : Text}
    (h : Asks arguments around.storage s path) (stdout : Writer) :
    run arguments around stdout = compile s around path stdout := by
  obtain ⟨flags, hflags, hhelp, hversion, harguments, hsettings⟩ := h
  unfold Command.run
  rw [hflags]
  dsimp only
  rw [hhelp, hversion, harguments, hsettings]
  rfl

/-- A long flag with its value. -/
def argument (f : Flag) (value : Text) : Text := text "--" ++ (f.name ++ 61 :: value)

theorem readArgument_argument (f : Flag) (value : Text) (flags : Flags) :
    Flags.readArgument (argument f value) flags = (flags.set f value).map .complete := by
  have hname : (f.name ++ 61 :: value).takeWhile (fun b => decide (b ≠ 61)) = f.name :=
    takeWhile_append_of_stop (by cases f <;> decide) (by simp)
  have hproper : (f.name.isEmpty || decide ((f.name ++ 61 :: value).head? = some 45)) = false := by
    cases f <;> rfl
  have hflag : Flag.ofName? f.name = some f := by cases f <;> decide
  show Flags.readLong (f.name ++ 61 :: value) flags = _
  unfold Flags.readLong
  dsimp only
  rw [hname, hproper, hflag, List.drop_left]
  rfl

theorem readAll_argument (f : Flag) (value : Text) (rest : List Text) {flags flags' : Flags}
    (h : flags.set f value = .ok flags') :
    Flags.readAll (argument f value :: rest) flags = Flags.readAll rest flags' := by
  have hne : argument f value ≠ text "--" := by cases f <;> simp [argument, Flag.name, text]
  rw [Flags.readAll, if_neg hne, readArgument_argument, h]
  rfl

/-- How a switch is given. -/
def switched (b : Bool) : Text := if b then text "true" else text "false"

theorem set_switched {f : Flag} (h : f.isSwitch = true) (b : Bool) (flags : Flags) :
    flags.set f (switched b) = .ok (flags.setSwitch f b) := by
  have hread : readBool? (switched b) = some b := by cases b <;> decide
  rw [Flags.set, if_pos h, hread]

theorem set_value {f : Flag} (h : f.isSwitch = false) (value : Text) (flags : Flags) :
    flags.set f value = .ok (flags.setValue f value) := by
  rw [Flags.set, h]
  rfl

/-- A command line that gives all settings. -/
def commandLine (s : Settings) (path : Text) : List Text :=
  [argument .output s.output, argument .noHeader (switched s.noHeader), argument .trace (switched s.trace),
    argument .ast s.ast, argument .verify (switched s.verify), argument .color s.color, text "--", path]

/-- All valid settings can be asked for. -/
theorem asks_commandLine {s : Settings} (h : s.validate = .ok s) (storage : Storage) (path : Text) :
    Asks (commandLine s path) storage s path := by
  have hflags : Flags.ofArguments (commandLine s path) = .ok {
      output := some s.output
      noHeader := some s.noHeader
      trace := some s.trace
      ast := some s.ast
      verify := some s.verify
      color := some s.color
      arguments := [path] } := by
    unfold Flags.ofArguments commandLine
    rw [readAll_argument _ _ _ (set_value rfl _ _), readAll_argument _ _ _ (set_switched rfl _ _),
      readAll_argument _ _ _ (set_switched rfl _ _), readAll_argument _ _ _ (set_value rfl _ _),
      readAll_argument _ _ _ (set_switched rfl _ _), readAll_argument _ _ _ (set_value rfl _ _)]
    rfl
  exact ⟨_, hflags, rfl, rfl, rfl, h⟩

/-! ### Whole runs -/

/-- The command leaves a listing only for a clean compilation.  Whatever the valid settings, command lines ask
for them.  Each of these delivers what the source of the file comes to, and asking for the verification or
not makes no difference to the run. -/
theorem listing_only_if_clean (around : Surroundings) (path src : Text) (s : Settings)
    (hread : around.storage.read path = .ok src) (hvalid : s.validate = .ok s) :
    (∃ arguments, Asks arguments around.storage s path) ∧
      ∀ arguments, Asks arguments around.storage s path →
        Delivered s around.storage (Compilation.ofSource {} path src) (shownEvents s around path src)
          (run arguments around {}) ∧
        ∀ verify arguments', Asks arguments' around.storage { s with verify } path →
          run arguments' around {} = run arguments around {} := by
  refine ⟨⟨_, asks_commandLine hvalid around.storage path⟩, fun arguments hasks => ?_⟩
  rw [hasks.run]
  refine ⟨delivered_compile s hread, fun verify arguments' hasks' => ?_⟩
  rw [hasks'.run, compile_verify hread]

/-- A source that compiles, with its tree on standard output and its listing in a file. -/
theorem listing_only_if_clean_in_file : ∃ (fs : Files) (arguments : List Text),
    fs.read (text "w.mic") = .ok (text "begin write(1); end") ∧
    (run arguments { storage := fs.storage } {}).exitCode = 0 ∧
    (run arguments { storage := fs.storage } {}).file =
      some (text "w.asm", text "Write 1, Integer\nHalt\n") := by
  obtain ⟨fs, hread, hcreate⟩ : ∃ fs : Files, fs.read (text "w.mic") = .ok (text "begin write(1); end") ∧
      fs.create (text "w.asm") = .ok () :=
    ⟨{ files := [([text "w.mic"], text "begin write(1); end")] }, by decide +kernel, by decide +kernel⟩
  obtain ⟨⟨arguments, hasks⟩, hall⟩ := listing_only_if_clean { storage := fs.storage } _ _
    { output := text "w.asm", noHeader := true, ast := text "text", verify := true } hread rfl
  have hdelivered := (hall arguments hasks).1
  have hcode := hdelivered.exitCode.2 ⟨by decide +kernel, fun _ => hcreate⟩
  refine ⟨fs, arguments, hread, hcode, ?_⟩
  rw [(hdelivered.file hcode (by decide)).1]
  decide +kernel

end Command

end MicroLang
