import MicroLang.Proofs.Recognition

/-!
# The productions

Every production of the parser recognises the phrases of its category with their translations.  The
proofs follow the bodies of the productions step by step with the rules of `Parses`.

A production that recurses has room for as many tokens as its bound says.  Each recursive call comes
behind a token that was taken, so what is left fits the smaller bound and the depth is never exceeded.
-/

namespace MicroLang

open Translation Parse

variable {room : Nat} {nodes : List Nat} {node : Nat}

/-! ### Names and operators -/

theorem parses_acceptIdentifier (h : node ∈ nodes) :
    Parses room nodes (Category.terminal .id rfl) (fun t => yield t.1) (acceptIdentifier node) := by
  refine .enter (Parses.bind_quiet (.terminal rfl) fun tok => ?_)
  exact (Quiet.leaf h tok).bind fun _ => (Quiet.derive .ident).bind fun _ => .pure tok

theorem parses_ident (h : node ∈ nodes) :
    Parses room nodes Category.name (fun x => perform (Generator.identifier false x)) (ident node) := by
  have hact : ∀ tok : Token, Quiet nodes (act fun muted => Generator.identifier muted tok.literal)
      (perform (Generator.identifier false tok.literal)) :=
    fun tok => .act (Generator.program_identifier_muted tok.literal) (grows_identifier tok.literal)
  refine ((parses_acceptIdentifier h).bind_quiet hact).map (fun t => t.1.literal) ?_ (fun _ => rfl)
    (fun _ => rfl) ?_ grows_identifier
  · intro t
    exact congrArg (fun w => [w]) (t.2.word_of_open rfl).symm
  · exact fun x => ⟨⟨{ kind := .id, literal := x }, rfl, fun hopen => nomatch hopen⟩, rfl⟩

/-- The operator that a token of the kind stands for. -/
theorem parses_addOp_of_kind (op : AddOp) (h : node ∈ nodes) {tok : Token} (hk : tok.kind = op.kind) :
    ParsesOn tok room nodes Category.addOp (fun op => yield op.opcode)
      (leaf node tok >>= fun _ => derive .addOp >>= fun _ => accept tok.kind >>= fun op =>
        act fun _ => Generator.operation op.literal) := by
  rw [hk]
  have hscanned : op.kind.isScanned = true := by cases op <;> rfl
  have hclosed : op.kind.isOpen = false := by cases op <;> rfl
  have hact : ∀ tok : Token, Quiet nodes (act fun _ => Generator.operation tok.literal)
      (perform (Generator.operation tok.literal)) :=
    fun tok => .act (fun _ => rfl) (fun g => List.prefix_refl g.instructions)
  refine Parses.alternative hk (.leaf h (.derive ((Parses.terminal hscanned).bind_quiet hact)))
    (fun _ => op) ?_ ?_ (fun _ => rfl) ?_
  · intro t
    exact congrArg (fun w => [w]) (t.2.word_of_closed hclosed).symm
  · rintro ⟨t, ht⟩
    have hspelled := ht.spelled hclosed
    funext g
    cases op with
    | plus =>
      show (Opcode.add, g) = (if t.literal = text "+" then Opcode.add else Opcode.sub, g)
      rw [hspelled.eq_plus]
      rfl
    | minus =>
      show (Opcode.sub, g) = (if t.literal = text "+" then Opcode.add else Opcode.sub, g)
      rw [hspelled.eq_minus]
      rfl
  · intro op' w rest hop hw
    have hkind : op'.kind = op.kind := (congrArg Word.kind (List.cons.inj hop).1).trans hw
    refine ⟨(Category.terminal op.kind hscanned).sample, ?_⟩
    show [Token.word _] = [{ kind := op'.kind }]
    rw [hkind, Token.word_of_closed hclosed]
    rfl

theorem parses_addOp (h : node ∈ nodes) :
    Parses room nodes Category.addOp (fun op => yield op.opcode) (addOp node) := by
  refine .enter (.peek (fun op => grows_yield op.opcode) fun tok => ?_)
  by_cases hop : tok.kind.isAddOp = true
  · rw [if_pos hop]
    cases hk : tok.kind with
    | plusOp =>
      rw [← hk]
      exact parses_addOp_of_kind .plus h hk
    | minusOp =>
      rw [← hk]
      exact parses_addOp_of_kind .minus h hk
    | _ =>
      rw [hk] at hop
      cases hop
  · rw [if_neg hop]
    refine .expected (List.cons_ne_nil _ _) (Bool.eq_false_iff.2 hop) ?_
      (fun op => grows_yield op.opcode) (fun _ => Steady.pure _)
    intro k hk
    rcases List.mem_cons.1 hk with rfl | hk
    · exact ⟨.plus, _, _, rfl, rfl, Category.addOp.writable_sample⟩
    · refine ⟨.minus, _, _, rfl, (List.mem_singleton.1 hk).symm, ?_⟩
      intro w hw
      rw [List.mem_singleton.1 hw]
      exact Kind.writable_of_isFixed (k := .minusOp) rfl

/-! ### Expressions -/

theorem Category.primary_offers {k : Kind} (h : k ∈ [Kind.lParen, .id, .intLiteral]) :
    Category.primary.Offers k := by
  have hsingle : ∀ (k : Kind) (p : Primary), p.words = [⟨k, k.sample⟩] → k.isOpen = true →
      Category.primary.Offers k := by
    intro k p hp hk
    refine ⟨p, ⟨k, k.sample⟩, [], hp, rfl, ?_⟩
    intro v hv
    rw [show Category.primary.words p = [⟨k, k.sample⟩] from hp] at hv
    rw [List.mem_singleton.1 hv]
    exact Kind.writable_of_isOpen hk
  simp only [List.mem_cons, List.not_mem_nil, or_false] at h
  rcases h with rfl | rfl | rfl
  · refine ⟨.paren Category.expression.sample, _, _, rfl, rfl, ?_⟩
    intro v hv
    rcases List.mem_cons.1 hv with rfl | hv
    · exact Kind.writable_of_isFixed (k := .lParen) rfl
    · rcases List.mem_append.1 hv with hv | hv
      · exact Category.expression.writable_sample v hv
      · rw [List.mem_singleton.1 hv]
        exact Kind.writable_of_isFixed (k := .rParen) rfl
  · exact hsingle .id (.name _) rfl rfl
  · exact hsingle .intLiteral (.number _) rfl rfl

section

variable {e : Nat → Production Operand}
  (he : ∀ {nodes : List Nat} {inner : Nat}, inner ∈ nodes →
    Parses room nodes Category.expression Expr.translate (e inner))
  (h : node ∈ nodes)

include he h in
theorem parses_paren {tok : Token} (hk : tok.kind = .lParen) :
    ParsesOn tok (room + 1) nodes Category.primary Primary.translate
      (mark node .lParen >>= fun _ => branch node .expression >>= fun inner =>
        mark node .rParen >>= fun _ => derive .primary >>= fun _ => accept .lParen >>= fun _ =>
          e inner >>= fun value => accept .rParen >>= fun _ => pure value) := by
  refine Parses.alternative hk
    (D := Category.after .lParen rfl
      (Category.expression.seq (Category.symbol .rParen rfl) (Category.apart_kind rfl)))
    (.mark h (.branch h fun inner => .mark (List.mem_cons_of_mem _ h) (.derive
      (.accept rfl (Nat.le_refl _) fun _ =>
        .seq _ (Nat.le_succ _) (he List.mem_cons_self) fun value => .symbol rfl value))))
    (fun p => .paren p.1) (fun _ => rfl) ?_ (fun _ => rfl) ?_
  · intro p
    rw [Primary.translate]
    rfl
  · intro p w rest hp hw
    cases p with
    | paren inner => exact ⟨(inner, ()), rfl⟩
    | name x =>
      cases hp
      cases hw
    | number digits =>
      cases hp
      cases hw

include he h in
theorem parses_primary :
    Parses (room + 1) nodes Category.primary Primary.translate (primary e node) := by
  refine .enter (.peek Primary.grows_translate fun tok => ?_)
  split
  · next hk => exact parses_paren he h hk
  · next hk =>
    refine Parses.alternative hk
      (.branch h fun name => .derive (parses_ident List.mem_cons_self)) Primary.name (fun _ => rfl) ?_
      (fun _ => rfl) ?_
    · intro x
      rw [Primary.translate]
    · intro p w rest hp hw
      cases p with
      | name x => exact ⟨x, rfl⟩
      | paren inner =>
        cases hp
        cases hw
      | number digits =>
        cases hp
        cases hw
  · next hk =>
    have hact : ∀ tok : Token, Quiet nodes (act fun _ => Generator.literal tok.literal)
        (perform (Generator.literal tok.literal)) :=
      fun tok => .act (fun _ => rfl) (grows_literal tok.literal)
    refine Parses.alternative hk (.leaf h (.derive ((Parses.terminal rfl).bind_quiet hact)))
      (fun t => .number t.1.literal) ?_ ?_ (fun _ => rfl) ?_
    · intro t
      exact congrArg (fun w => [w]) (t.2.word_of_open rfl).symm
    · intro t
      rw [Primary.translate]
      rfl
    · intro p w rest hp hw
      cases p with
      | number digits =>
        exact ⟨⟨{ kind := .intLiteral, literal := digits }, rfl, fun hopen => nomatch hopen⟩, rfl⟩
      | paren inner =>
        cases hp
        cases hw
      | name x =>
        cases hp
        cases hw
  · next hparen hid hnumber =>
    refine .expected (List.cons_ne_nil _ _) ?_ (fun k => Category.primary_offers)
      Primary.grows_translate (fun _ => Steady.pure _)
    cases hk : tok.kind with
    | lParen => exact absurd hk hparen
    | id => exact absurd hk hid
    | intLiteral => exact absurd hk hnumber
    | _ => rfl

end

theorem parses_expression : ∀ (bound : Nat) {nodes : List Nat} {node : Nat}, node ∈ nodes →
    Parses bound nodes Category.expression Expr.translate (expression bound node)
  | 0, nodes, node, _ => {
      steady := Steady.throw _
      grows := Expr.grows_translate
      outcome := fun hs => absurd hs.room (Nat.not_lt_zero _) }
  | bound + 1, nodes, node, h => by
    have hcombine : ∀ (nodes : List Nat) (left : Operand) (op : Opcode) (right : Operand),
        Quiet nodes (act fun muted => Generator.combine muted left op right)
          (perform (Generator.combine false left op right)) :=
      fun nodes left op right =>
        .act (Generator.program_combine_muted left op right) (grows_combine left op right)
    refine .enter (Parses.map
      (.branch h fun first => .derive
        (.withTail (C := Category.primary)
          (D := Category.addOp.seq Category.expression (Category.apart_never fun _ => rfl))
          (P := fun k => k.isAddOp = true) (Category.apart_never fun _ => rfl)
          (fun k => (Bool.or_false _).symm) (fun _ => Iff.rfl) (Nat.le_refl (bound + 1))
          (parses_primary (parses_expression bound) List.mem_cons_self) fun left =>
          .branch (List.mem_cons_of_mem _ h) fun operator =>
            .branch (List.mem_cons_of_mem _ (List.mem_cons_of_mem _ h)) fun rest => .derive
            (.seq _ (Nat.le_succ bound) (parses_addOp (List.mem_cons_of_mem _ List.mem_cons_self)) fun op =>
              Parses.bind_quiet (parses_expression bound List.mem_cons_self) (hcombine _ left op))))
      (fun p => p.2.elim (.single p.1) fun q => .chain p.1 q.1 q.2) ?_ ?_ (fun _ => rfl) ?_
      Expr.grows_translate)
    · rintro ⟨p, _ | ⟨op, e⟩⟩
      · exact (List.append_nil p.words).symm
      · rfl
    · rintro ⟨p, _ | ⟨op, e⟩⟩
      · show (Expr.single p).translate = _
        rw [Expr.translate]
        rfl
      · show (Expr.chain p op e).translate = _
        rw [Expr.translate]
        rfl
    · intro e
      cases e with
      | single p => exact ⟨(p, none), List.append_nil p.words⟩
      | chain p op e => exact ⟨(p, some (op, e)), rfl⟩

/-! ### Lists -/

theorem parses_idList : ∀ (bound : Nat) {nodes : List Nat} {node : Nat}, node ∈ nodes →
    Parses bound nodes Category.names (Series.translate readName) (idList bound node)
  | 0, nodes, node, _ => {
      steady := Steady.throw _
      grows := Series.grows_translate grows_readName
      outcome := fun hs => absurd hs.room (Nat.not_lt_zero _) }
  | bound + 1, nodes, node, h => by
    have hread : ∀ (nodes : List Nat) (operand : Operand),
        Quiet nodes (act fun muted => Generator.readInto muted operand)
          (perform (Generator.readInto false operand)) :=
      fun nodes operand => .act (fun _ => rfl) (grows_readInto operand)
    exact .enter (.branch h fun name => .derive (.assoc (.series (C := Category.name)
      (T := Category.after .comma rfl Category.names) (P := fun k => k = .comma) [{ kind := .comma }]
      (fun _ => rfl) (fun _ => rfl) (fun _ => rfl) (Category.apart_never fun _ => rfl)
      (fun k => (Bool.or_false _).symm) (fun _ => decide_eq_true_iff.symm) (Nat.le_refl (bound + 1))
      ((parses_ident List.mem_cons_self).bind_quiet (hread _))
      (.mark (List.mem_cons_of_mem _ h) (.branch (List.mem_cons_of_mem _ h) fun rest =>
        .derive (.accept rfl (Nat.le_succ bound) fun _ => parses_idList bound List.mem_cons_self))))))

theorem parses_exprList : ∀ (bound : Nat) {nodes : List Nat} {node : Nat}, node ∈ nodes →
    Parses bound nodes Category.expressions (Series.translate writeValue) (exprList bound node)
  | 0, nodes, node, _ => {
      steady := Steady.throw _
      grows := Series.grows_translate grows_writeValue
      outcome := fun hs => absurd hs.room (Nat.not_lt_zero _) }
  | bound + 1, nodes, node, h => by
    have hwrite : ∀ (nodes : List Nat) (operand : Operand),
        Quiet nodes (act fun muted => Generator.writeExpression muted operand)
          (perform (Generator.writeExpression false operand)) :=
      fun nodes operand => .act (fun _ => rfl) (grows_writeExpression operand)
    exact .enter (.branch h fun value => .derive (.assoc (.series (C := Category.expression)
      (T := Category.after .comma rfl Category.expressions) (P := fun k => k = .comma)
      [{ kind := .comma }] (fun _ => rfl) (fun _ => rfl) (fun _ => rfl) (Category.apart_kind rfl)
      (fun _ => rfl) (fun _ => decide_eq_true_iff.symm) (Nat.le_refl (bound + 1))
      ((parses_expression (bound + 1) List.mem_cons_self).bind_quiet (hwrite _))
      (.mark (List.mem_cons_of_mem _ h) (.branch (List.mem_cons_of_mem _ h) fun rest =>
        .derive (.accept rfl (Nat.le_succ bound) fun _ => parses_exprList bound List.mem_cons_self))))))

/-! ### Statements -/

/-- A keyword and a list in parentheses. -/
theorem parses_enclosed {σ : Type} {S : Category σ} {G : σ → Translation Unit} {k : Kind}
    {n : Nonterminal} {list : Nat → Production Unit} (hk : k.isFixed = true)
    (hS : S.continues .rParen = false)
    (hlist : ∀ {nodes : List Nat} {l : Nat}, l ∈ nodes → Parses room nodes S G (list l))
    (h : node ∈ nodes) :
    Parses room nodes
      (Category.after k hk (Category.after .lParen rfl (S.seq
        (Category.after .rParen rfl (Category.symbol .semiColon rfl)) (Category.apart_kind hS))))
      (fun p => andThen (G p.1) fun _ => yield ())
      (enclosed node k n list) :=
  .mark h (.mark h (.branch h fun _ => .mark (List.mem_cons_of_mem _ h)
    (.mark (List.mem_cons_of_mem _ h) (.derive (.accept hk (Nat.le_succ room) fun _ =>
      .accept rfl (Nat.le_succ room) fun _ => .seq _ (Nat.le_succ room) (hlist List.mem_cons_self)
        fun _ => .accept rfl (Nat.le_succ room) fun _ => .symbol rfl ())))))

theorem parses_assignment (h : node ∈ nodes) {tok : Token} (hk : tok.kind = .id) :
    ParsesOn tok room nodes Category.statement Statement.translate
      (branch node .ident >>= fun name => mark node .assignOp >>= fun _ =>
        branch node .expression >>= fun value => mark node .semiColon >>= fun _ =>
          derive .statement >>= fun _ => acceptIdentifier name >>= fun target =>
            accept .assignOp >>= fun _ => expression room value >>= fun source =>
              (act fun muted => Generator.identifier muted target.literal) >>= fun destination =>
                (act fun muted => Generator.assign muted source destination) >>= fun _ =>
                  accept .semiColon >>= fun _ => pure ()) := by
  have hidentifier : ∀ (nodes : List Nat) (x : Text),
      Quiet nodes (act fun muted => Generator.identifier muted x)
        (perform (Generator.identifier false x)) :=
    fun nodes x => .act (Generator.program_identifier_muted x) (grows_identifier x)
  have hassign : ∀ (nodes : List Nat) (source destination : Operand),
      Quiet nodes (act fun muted => Generator.assign muted source destination)
        (perform (Generator.assign false source destination)) :=
    fun nodes source destination => .act (fun _ => rfl) (grows_assign source destination)
  refine Parses.alternative hk
    (D := (Category.terminal .id rfl).seq (Category.after .assignOp rfl
      (Category.expression.seq (Category.symbol .semiColon rfl) (Category.apart_kind rfl)))
      (Category.apart_never fun _ => rfl))
    (.branch h fun name => .mark (List.mem_cons_of_mem _ h) (.branch (List.mem_cons_of_mem _ h)
      fun value => .mark (List.mem_cons_of_mem _ (List.mem_cons_of_mem _ h)) (.derive
        (.seq _ (Nat.le_succ room) (parses_acceptIdentifier (List.mem_cons_of_mem _ List.mem_cons_self))
          fun target => .accept rfl (Nat.le_succ room) fun _ =>
            .seq _ (Nat.le_succ room) (parses_expression room List.mem_cons_self) fun source =>
              .quiet_bind (hidentifier _ target.literal) fun destination =>
                .quiet_bind (hassign _ source destination) fun _ => .symbol rfl ()))))
    (fun p => .assign p.1.1.literal p.2.1) ?_ (fun _ => rfl) (fun _ => rfl) ?_
  · rintro ⟨t, e, _⟩
    show Word.mk .id t.1.literal :: _ = [t.1.word] ++ _
    rw [t.2.word_of_open rfl]
    rfl
  · intro s w rest hs hw
    cases s with
    | assign x e =>
      exact ⟨(⟨{ kind := .id, literal := x }, rfl, fun hopen => nomatch hopen⟩, e, ()), rfl⟩
    | read xs =>
      cases hs
      cases hw
    | write es =>
      cases hs
      cases hw

theorem Category.statement_offers {k : Kind} (h : k ∈ [Kind.id, .readSym, .writeSym]) :
    Category.statement.Offers k := by
  simp only [List.mem_cons, List.not_mem_nil, or_false] at h
  rcases h with rfl | rfl | rfl
  · refine ⟨.assign (Kind.sample .id) Category.expression.sample, _, _, rfl, rfl, ?_⟩
    intro v hv
    simp only [Category.statement, Statement.words, List.mem_cons, List.mem_append, List.not_mem_nil,
      or_false] at hv
    rcases hv with rfl | rfl | hv | rfl
    · exact Kind.writable_of_isOpen (k := .id) rfl
    · exact Kind.writable_of_isFixed (k := .assignOp) rfl
    · exact Category.expression.writable_sample v hv
    · exact Kind.writable_of_isFixed (k := .semiColon) rfl
  · exact ⟨Category.statement.sample, _, _, rfl, rfl, Category.statement.writable_sample⟩
  · refine ⟨.write Category.expressions.sample, _, _, rfl, rfl, ?_⟩
    intro v hv
    simp only [Category.statement, Statement.words, List.mem_cons, List.mem_append, List.not_mem_nil,
      or_false] at hv
    rcases hv with rfl | rfl | hv | rfl | rfl
    · exact Kind.writable_of_isFixed (k := .writeSym) rfl
    · exact Kind.writable_of_isFixed (k := .lParen) rfl
    · exact Category.expressions.writable_sample v hv
    · exact Kind.writable_of_isFixed (k := .rParen) rfl
    · exact Kind.writable_of_isFixed (k := .semiColon) rfl

theorem parses_statement (bound : Nat) (h : node ∈ nodes) :
    Parses bound nodes Category.statement Statement.translate (statement bound node) := by
  refine .enter (.peek Statement.grows_translate fun tok => ?_)
  split
  · next hk => exact parses_assignment h hk
  · next hk =>
    refine Parses.alternative hk (parses_enclosed (S := Category.names) rfl rfl (parses_idList bound) h)
      (fun p => .read p.1) (fun _ => rfl) (fun _ => rfl) (fun _ => rfl) ?_
    intro s w rest hs hw
    cases s with
    | read xs => exact ⟨(xs, ()), rfl⟩
    | assign x e =>
      cases hs
      cases hw
    | write es =>
      cases hs
      cases hw
  · next hk =>
    refine Parses.alternative hk
      (parses_enclosed (S := Category.expressions) rfl rfl (parses_exprList bound) h)
      (fun p => .write p.1) (fun _ => rfl) (fun _ => rfl) (fun _ => rfl) ?_
    intro s w rest hs hw
    cases s with
    | write es => exact ⟨(es, ()), rfl⟩
    | assign x e =>
      cases hs
      cases hw
    | read xs =>
      cases hs
      cases hw
  · next hid hread hwrite =>
    rw [← bind_pure (expected tok _)]
    refine .expected (List.cons_ne_nil _ _) ?_ (fun k => Category.statement_offers)
      Statement.grows_translate Steady.pure
    cases hk : tok.kind with
    | id => exact absurd hk hid
    | readSym => exact absurd hk hread
    | writeSym => exact absurd hk hwrite
    | _ => rfl

theorem parses_statementList : ∀ (bound : Nat) {nodes : List Nat} {node : Nat}, node ∈ nodes →
    Parses bound nodes Category.statements (Series.translate Statement.translate)
      (statementList bound node)
  | 0, nodes, node, _ => {
      steady := Steady.throw _
      grows := Series.grows_translate Statement.grows_translate
      outcome := fun hs => absurd hs.room (Nat.not_lt_zero _) }
  | bound + 1, nodes, node, h => by
    exact .enter (.branch h fun first => .derive (.series (C := Category.statement)
      (T := Category.statements) (P := fun k => k.isStatementStart = true) [] (fun _ => rfl)
      (fun _ => rfl) (fun _ => rfl) (Category.apart_never fun _ => rfl)
      (fun k => (Bool.or_false _).symm) (fun _ => Iff.rfl) (Nat.le_refl (bound + 1))
      (parses_statement (bound + 1) List.mem_cons_self)
      (.branch (List.mem_cons_of_mem _ h) fun rest =>
        .derive (parses_statementList bound List.mem_cons_self))))

/-! ### Programs -/

theorem parses_program (bound : Nat) (h : node ∈ nodes) :
    Parses bound nodes Category.program Program.translate (program bound node) := by
  have hstart : ∀ nodes : List Nat, Quiet nodes (act fun _ => Generator.start) (yield ()) :=
    fun nodes => .act (fun _ => rfl) (fun g => List.prefix_refl g.instructions)
  refine .enter (Parses.map
    (D := Category.after .beginSym rfl
      (Category.statements.seq (Category.symbol .endSym rfl) (Category.apart_kind rfl)))
    (.mark h (.branch h fun list => .mark (List.mem_cons_of_mem _ h) (.derive
      (.quiet_bind (hstart _) fun _ => .accept rfl (Nat.le_succ bound) fun _ =>
        .seq _ (Nat.le_succ bound) (parses_statementList bound List.mem_cons_self) fun _ =>
          .symbol rfl ()))))
    (fun p => ⟨p.1⟩) (fun _ => rfl) (fun _ => rfl) (fun _ => rfl) ?_ Program.grows_translate)
  exact fun p => ⟨(p.statements, ()), rfl⟩

/-! ### Whole texts -/

/-- The words of a program and of the end of its text. -/
def Program.sentence (p : Program) : List Word := p.words ++ [{ kind := .eofSym }]

/-- Some program goes on from the words read in the given way, and its code from the code emitted. -/
def Resumes (g : Generator) (read : List Word) (code : List Instruction) (next : Option Kind) : Prop :=
  ∃ (p : Program) (missing : List Word), p.words = read ++ missing ∧ (∀ w ∈ missing, w.Writable) ∧
    (∀ k ∈ next, (missing.map Word.kind ++ [Kind.eofSym]).head? = some k) ∧
    code <+: (p.translate g).2.instructions

/-- A complete program goes on with the end of the text. -/
theorem Resumes.of_program {g g' : Generator} {read : List Word} {p : Program} (hwords : read = p.words)
    (hG : p.translate g = ((), g')) {next : Option Kind} (hnext : ∀ k ∈ next, k = .eofSym) :
    Resumes g read g'.instructions next := by
  refine ⟨p, [], ?_, fun w hw => absurd hw List.not_mem_nil, ?_, ?_⟩
  · rw [List.append_nil, hwords]
  · intro k hk
    rw [hnext k hk]
    rfl
  · simp only [hG, List.prefix_refl]

/-- Behind a complete program no program has anything but the end of the text. -/
theorem Program.not_prefix_sentence {p p' : Program} {w : Word} (hw : w.kind ≠ .eofSym) :
    ¬p.words ++ [w] <+: p'.sentence := by
  rintro ⟨z, hz⟩
  rw [List.append_assoc, Program.sentence] at hz
  have hsame : p.words = p'.words := Category.program.unique hz (stops_cons.2 rfl) (stops_cons.2 rfl)
  rw [hsame] at hz
  exact hw (congrArg Word.kind (List.cons.inj (List.append_cancel_left hz)).1)

/-- The outcome of parsing all that a state without errors has ahead. -/
inductive Verdict (s : ParseState) (r : EStateM.Result Abort ParseState Unit) : Prop
  | accepted (p : Program) {tok : Token} {s' : ParseState} :
      r = .ok () s' → s.stream.tokens.map Token.word = p.words → s.stream.ending = .eof tok →
      s'.tracker = s.tracker →
      s'.generator = (Generator.finish false (p.translate s.generator).2).generator → Verdict s r
  | rejected (f : FirstError) (read : List Token) :
      f.ShownBy s.tracker r → s.stream.tokens = read ++ f.ahead.tokens →
      f.ahead.ending = s.stream.ending →
      (∀ next, f.Wants next → Resumes s.generator (read.map Token.word) f.code next) →
      (∀ tok, f.ahead.peek = .ok tok → ∀ p : Program,
        ¬read.map Token.word ++ [tok.word] <+: p.sentence) → Verdict s r

/-- The goal without the end of the text. -/
def goalBody (bound : Nat) : Production Unit := do
  enter Nonterminal.systemGoal.name
  let body ← branch Tree.root .program
  mark Tree.root .eofSym
  derive .systemGoal
  program bound body

theorem systemGoal_eq (bound : Nat) :
    systemGoal bound = goalBody bound >>= fun _ => accept .eofSym >>= fun _ =>
      act fun muted => Generator.finish muted := by
  simp only [systemGoal, goalBody, bind_assoc]

theorem parses_goalBody (bound : Nat) (h : Tree.root ∈ nodes) :
    Parses bound nodes Category.program Program.translate (goalBody bound) :=
  .enter (.branch h fun _ => .mark (List.mem_cons_of_mem _ h)
    (.derive (parses_program bound List.mem_cons_self)))

/-- What follows a complete program: the end of the text, or something that no program has there. -/
theorem verdict_end {s s₁ : ParseState} {p : Program} {read : List Token} (hread : s.Reads read s₁)
    (hready : s₁.stream.Scanned) (hwords : read.map Token.word = p.words)
    (hG : p.translate s.generator = ((), s₁.generator)) (hnoError : s.tracker.hasError = false) :
    Verdict s ((accept .eofSym >>= fun _ => act fun muted => Generator.finish muted).run s₁) := by
  cases hpeek : s₁.stream.peek with
  | error e =>
    obtain ⟨transcript, hrun⟩ := run_accept_of_error hpeek .eofSym
    refine .rejected ⟨s₁.stream, [], s₁.generator.instructions⟩ read ?_ hread.tokens hread.ending ?_ ?_
    · rw [run_bind_of_error hrun]
      exact .fault rfl hpeek hread.tracker rfl
    · intro next hnext
      refine .of_program hwords hG fun k hk => ?_
      rw [Option.mem_def.1 hk] at hnext
      exact absurd hnext List.not_mem_nil
    · intro tok htok
      rw [hpeek] at htok
      cases htok
  | ok tok =>
    by_cases hk : tok.kind = .eofSym
    · obtain ⟨transcript, hrun⟩ := run_accept hpeek hk
      obtain ⟨transcript', hrun'⟩ := run_act (fun muted => Generator.finish muted)
        { s₁ with stream := s₁.stream.rest, current := tok, recovering := false, transcript }
      obtain ⟨hnil, hend⟩ := hready.ending_of_peek hpeek hk
      refine .accepted p ((run_bind_of_ok hrun).trans hrun') ?_ (hread.ending.symm.trans hend)
        hread.tracker ?_
      · rw [hread.tokens, hnil, List.append_nil, hwords]
      · show (Generator.finish s₁.tracker.hasError s₁.generator).generator = _
        rw [hread.tracker, hnoError, hG]
    · obtain ⟨transcript, hrun⟩ := run_accept_of_ne hpeek hk hread.calm
      refine .rejected ⟨s₁.stream, [.eofSym], s₁.generator.instructions⟩ read ?_ hread.tokens
        hread.ending ?_ ?_
      · refine FirstError.ShownBy.bind ?_ fun _ => Steady.act fun _ => rfl
        rw [hrun, ← hread.tracker]
        exact .of_report hpeek (List.cons_ne_nil _ _) (fun hmem => hk (List.mem_singleton.1 hmem)) rfl rfl
      · intro next hnext
        refine .of_program hwords hG fun k hk => ?_
        rw [Option.mem_def.1 hk] at hnext
        exact List.mem_singleton.1 hnext
      · intro tok' htok' p'
        rw [hpeek] at htok'
        cases htok'
        rw [hwords]
        exact Program.not_prefix_sentence hk

theorem verdict_systemGoal {bound : Nat} {s : ParseState} (h : s.Ready bound [Tree.root]) :
    Verdict s ((systemGoal bound).run s) := by
  rw [systemGoal_eq]
  cases (parses_goalBody bound (List.mem_singleton.2 rfl)).outcome h with
  | recognised p read hrun hread hwords hG _ =>
    have hready := h.of_reads hread (Nat.le_add_right bound _)
    rw [run_bind_of_ok hrun]
    exact verdict_end hread hready.scanned hwords hG h.noError
  | failed f read hshown htokens hending hcompletes hexcludes =>
    have hsteady : Steady (accept .eofSym >>= fun _ => act fun muted => Generator.finish muted) :=
      (Steady.accept _).bind fun _ => Steady.act fun _ => rfl
    refine .rejected f read (hshown.bind fun _ => hsteady) htokens hending ?_ ?_
    · intro next hnext
      obtain ⟨p, missing, hwords, hwritable, hhead, hcode⟩ := hcompletes next hnext
      refine ⟨p, missing, hwords, hwritable, ?_, hcode⟩
      intro k hk
      have hfirst := hhead k hk
      rw [← List.head?_map] at hfirst
      rw [List.head?_append, hfirst]
      rfl
    · intro tok htok p hprefix
      exact hexcludes tok htok p [{ kind := .eofSym }] (stops_cons.2 rfl) hprefix

end MicroLang
