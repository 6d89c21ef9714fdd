import MicroLang.Proofs.Arena
import MicroLang.Proofs.Spelling
import MicroLang.Proofs.Viability

/-!
# The text dump of a tree

A dump can be read in one way only.  Each node has a line of its own, the blanks in front of the line tell
its depth, and what follows them tells a label from a token and one token from another.  This rests on
what labels and literals look like: they have no quotes and no line breaks in them, and no label
starts with a blank.  The labels of the grammar and the tokens of a source are like that.

A walk goes down by one level at a time and comes up to any level, so the depths of its visits tell the
children of each node.
-/

namespace MicroLang

/-! ### Plain texts -/

namespace Text

/-- The printable bytes of ASCII that stand for themselves between quotes. -/
def isPlain (b : UInt8) : Bool := 32 ≤ b && b ≤ 126 && b != 34 && b != 92

theorem lt_of_isPlain {b : UInt8} (h : isPlain b = true) : b.toNat < 0x80 := by
  simp only [isPlain, Bool.and_eq_true, decide_eq_true_eq, UInt8.le_iff_toNat_le, UInt8.reduceToNat] at h
  omega

theorem isPlain_of_isNumeral : ∀ b : UInt8, isNumeral b = true → isPlain b = true :=
  forall_byte (by decide +kernel)

/-- Plain texts do not have other bytes in them. -/
theorem all_ne_of_plain {t : Text} (h : t.all isPlain = true) {b : UInt8} (hb : isPlain b = false) :
    t.all (· != b) = true := by
  rw [List.all_eq_true] at h ⊢
  intro c hc
  refine bne_iff_ne.2 fun hcb => ?_
  rw [← hcb, h c hc] at hb
  cases hb

theorem plain_ofInt (n : Int) : (ofInt n).all isPlain = true := by
  rw [List.all_eq_true]
  intro b hb
  exact isPlain_of_isNumeral b (List.all_eq_true.1 (all_isNumeral_ofInt n) b hb)

theorem quoteChar_of_isPlain : ∀ b : UInt8, isPlain b = true → quoteChar (Char.ofNat b.toNat) = [b] :=
  forall_byte (by decide +kernel)

theorem quoted_of_plain {t : Text} (h : t.all isPlain = true) : t.quoted = 34 :: t ++ [34] := by
  have hpieces : t.pieces.flatMap quotePiece = t := by
    induction t with
    | nil => rfl
    | cons b t ih =>
      rw [List.all_cons, Bool.and_eq_true] at h
      rw [pieces_cons_ascii b t (lt_of_isPlain h.1), List.flatMap_cons, ih h.2]
      show quoteChar _ ++ t = b :: t
      rw [quoteChar_of_isPlain b h.1]
      rfl
  rw [quoted, hpieces]

end Text

/-! ### Lines -/

namespace Content

/-- Contents whose lines can be told apart. -/
def Plain : Content → Prop
  | .label name => name.all Text.isPlain = true ∧ ∃ b ∈ name.head?, b ≠ 32
  | .token tok => tok.literal.all Text.isPlain = true

/-- The line of a node without its end. -/
def dumpBody : Content → Text
  | .label name => name
  | .token tok => tok.kind.name ++ 32 :: (tok.literal.quoted ++ 32 :: tok.pos.lineColumn)

theorem dumpLine_eq (c : Content) : c.dumpLine = c.dumpBody ++ [10] := by
  cases c with
  | label name => rfl
  | token tok =>
    show _ ++ [32] ++ _ ++ [32] ++ _ ++ [10] = _
    simp [dumpBody]

end Content

theorem Position.lineColumn_inj {p q : Position} (h : p.lineColumn = q.lineColumn) :
    p.line = q.line ∧ p.column = q.column := by
  have hstop : ∀ n : Int, ∀ b ∈ (58 :: Text.ofInt n).head?, Text.isNumeral b = false := by
    intro n b hb
    cases hb
    rfl
  unfold lineColumn at h
  rw [List.append_assoc, List.append_assoc] at h
  obtain ⟨hline, hcolumn⟩ := eq_of_append_of_stop (Text.all_isNumeral_ofInt _) (Text.all_isNumeral_ofInt _)
    (hstop _) (hstop _) h
  exact ⟨Text.ofInt_inj hline, Text.ofInt_inj (List.cons.inj hcolumn).2⟩

theorem Position.plain_lineColumn (p : Position) : p.lineColumn.all Text.isPlain = true := by
  simp only [lineColumn, List.all_append, Text.plain_ofInt]
  rfl

theorem Kind.plain_name (k : Kind) : k.name.all Text.isPlain = true := by
  cases k with
  | unnamed code =>
    have hdigits : (Text.ofNat code.toNat).all Text.isPlain = true := Text.plain_ofInt (.ofNat code.toNat)
    simp only [name, List.all_append, hdigits]
    rfl
  | _ => decide

theorem Kind.name_all_ne_blank (k : Kind) : k.name.all (· != 32) = true := by
  rw [List.all_eq_true]
  intro b hb
  exact (Bool.and_eq_true_iff.1 (List.all_eq_true.1 k.all_name b hb)).1

namespace Content

/-- No line has a line break in it. -/
theorem Plain.dumpBody_all {c : Content} (h : c.Plain) : c.dumpBody.all (· != 10) = true := by
  cases c with
  | label name => exact Text.all_ne_of_plain h.1 rfl
  | token tok =>
    have hname : tok.kind.name.all (· != 10) = true := Text.all_ne_of_plain tok.kind.plain_name rfl
    have hliteral : tok.literal.all (· != 10) = true := Text.all_ne_of_plain h rfl
    have hplace : tok.pos.lineColumn.all (· != 10) = true := Text.all_ne_of_plain tok.pos.plain_lineColumn rfl
    simp [dumpBody, Text.quoted_of_plain h, hname, hliteral, hplace]

/-- A label has no quotes in it, but the line of a token has. -/
theorem Plain.label_ne_token {name : Text} {tok : Token} (h : (label name).Plain) (h' : (token tok).Plain) :
    (label name).dumpBody ≠ (token tok).dumpBody := by
  intro hsame
  have hquote : (34 : UInt8) ∈ (token tok).dumpBody := by
    simp [dumpBody, Text.quoted_of_plain h']
  rw [← hsame] at hquote
  exact absurd rfl (bne_iff_ne.1 (List.all_eq_true.1 (Text.all_ne_of_plain h.1 rfl) 34 hquote))

/-- What a line shows is told by its text. -/
theorem Plain.agrees_of_dumpBody {c c' : Content} (h : c.Plain) (h' : c'.Plain)
    (hsame : c.dumpBody = c'.dumpBody) : c.Agrees c' := by
  cases c with
  | label name =>
    cases c' with
    | label name' =>
      have hname : name = name' := hsame
      rw [hname]
      exact .label name'
    | token tok' => exact absurd hsame (h.label_ne_token h')
  | token tok =>
    cases c' with
    | label name' => exact absurd hsame.symm (h'.label_ne_token h)
    | token tok' =>
      have hstop : ∀ (b : UInt8) (t : Text), ∀ x ∈ (b :: t).head?, (x != b) = false := by
        intro b t x hx
        cases hx
        exact bne_self_eq_false b
      simp only [dumpBody, Text.quoted_of_plain h, Text.quoted_of_plain h'] at hsame
      obtain ⟨hkind, hrest⟩ := eq_of_append_of_stop tok.kind.name_all_ne_blank tok'.kind.name_all_ne_blank
        (hstop 32 _) (hstop 32 _) hsame
      simp only [List.cons_append, List.append_assoc, List.cons.injEq, true_and, List.nil_append] at hrest
      obtain ⟨hliteral, hplace⟩ := eq_of_append_of_stop (Text.all_ne_of_plain h rfl)
        (Text.all_ne_of_plain h' rfl)
        (hstop 34 _) (hstop 34 _) hrest
      simp only [List.cons.injEq, true_and] at hplace
      obtain ⟨hline, hcolumn⟩ := Position.lineColumn_inj hplace
      exact .token (Kind.name_inj hkind) hliteral hline hcolumn

/-- A line of a dump with its indentation. -/
def lineAt (depth : Nat) (c : Content) : Text := List.replicate (4 * depth) 32 ++ (c.dumpBody ++ [10])

theorem Plain.head?_dumpBody {c : Content} (h : c.Plain) (t : Text) :
    ∀ b ∈ (c.dumpBody ++ t).head?, (b == 32) = false := by
  intro b hb
  cases c with
  | label name =>
    obtain ⟨-, b', hb', hne⟩ := h
    cases name with
    | nil => cases hb'
    | cons b'' name =>
      cases hb'
      cases hb
      exact beq_eq_false_iff_ne.2 hne
  | token tok =>
    obtain ⟨b', name, hname⟩ := List.exists_cons_of_ne_nil tok.kind.name_ne_nil
    have hblank := tok.kind.name_all_ne_blank
    dsimp only [dumpBody] at hb
    rw [hname] at hb hblank
    cases hb
    rw [List.all_cons, Bool.and_eq_true] at hblank
    exact beq_eq_false_iff_ne.2 (bne_iff_ne.1 hblank.1)

/-- A line in front of anything else can be told from it. -/
theorem Plain.lineAt_append_inj {c c' : Content} {depth depth' : Nat} {t t' : Text} (h : c.Plain)
    (h' : c'.Plain) (hsame : c.lineAt depth ++ t = c'.lineAt depth' ++ t') :
    depth = depth' ∧ c.Agrees c' ∧ t = t' := by
  have hblanks : ∀ n : Nat, (List.replicate n (32 : UInt8)).all (· == 32) = true := by
    intro n
    simp
  have hbreak : ∀ t : Text, ∀ b ∈ ([10] ++ t).head?, (b != 10) = false := by
    intro t b hb
    cases hb
    rfl
  unfold lineAt at hsame
  rw [List.append_assoc, List.append_assoc, List.append_assoc, List.append_assoc] at hsame
  obtain ⟨hdepth, hline⟩ := eq_of_append_of_stop (hblanks _) (hblanks _) (h.head?_dumpBody _)
    (h'.head?_dumpBody _) hsame
  obtain ⟨hbody, hrest⟩ := eq_of_append_of_stop h.dumpBody_all h'.dumpBody_all (hbreak t) (hbreak t') hline
  have hlength := congrArg List.length hdepth
  rw [List.length_replicate, List.length_replicate] at hlength
  refine ⟨by omega, h.agrees_of_dumpBody h' hbody, ?_⟩
  simpa using hrest

theorem Agrees.lineAt_eq {c c' : Content} (h : c.Agrees c') (depth : Nat) :
    c.lineAt depth = c'.lineAt depth := by
  cases h with
  | label name => rfl
  | token kind literal line column =>
    simp only [lineAt, dumpBody, Position.lineColumn, kind, literal, line, column]

end Content

/-! ### Walks -/

namespace Tree

variable {t u : Tree}

/-- Two visits show the same at the same depth. -/
def VisitsAgree (v w : Node × Nat) : Prop := v.1.content.Agrees w.1.content ∧ v.2 = w.2

/-- The visits are told by the lines of the nodes. -/
theorem visitsAgree_of_lines {vs ws : List (Node × Nat)} (hvs : ∀ v ∈ vs, v.1.content.Plain)
    (hws : ∀ w ∈ ws, w.1.content.Plain)
    (h : vs.flatMap (fun v => v.1.content.lineAt v.2) = ws.flatMap fun w => w.1.content.lineAt w.2) :
    List.Forall₂ VisitsAgree vs ws := by
  have hne : ∀ (v : Node × Nat) (vs : List (Node × Nat)),
      (v :: vs).flatMap (fun v => v.1.content.lineAt v.2) ≠ [] := by
    intro v vs hnil
    simp [Content.lineAt] at hnil
  induction vs generalizing ws with
  | nil =>
    cases ws with
    | nil => exact .nil
    | cons w ws => exact absurd h.symm (hne w ws)
  | cons v vs ih =>
    cases ws with
    | nil => exact absurd h (hne v vs)
    | cons w ws =>
      rw [List.forall_mem_cons] at hvs hws
      rw [List.flatMap_cons, List.flatMap_cons] at h
      obtain ⟨hdepth, hcontent, hrest⟩ := hvs.1.lineAt_append_inj hws.1 h
      exact .cons ⟨hcontent, hdepth⟩ (ih hvs.2 hws.2 hrest)

theorem dump_eq (t : Tree) : t.dump = t.allNodes.flatMap fun v => v.1.content.lineAt v.2 := by
  have hline : ∀ v : Node × Nat, (List.replicate v.2 (text "    ") ++ [v.1.content.dumpLine]).flatten =
      v.1.content.lineAt v.2 := by
    intro v
    have hblanks : text "    " = List.replicate 4 32 := rfl
    rw [List.flatten_append, hblanks, List.flatten_replicate_replicate, Nat.mul_comm, List.flatten_singleton,
      Content.dumpLine_eq, Content.lineAt]
  unfold dump dumpPieces
  rw [List.flatMap_def, List.flatMap_def, List.flatten_flatten, List.map_map]
  congr 1
  apply List.map_congr_left
  intro v _
  exact hline v

/-- What is visited behind a subtree is not deeper than its root. -/
def Behind (depth : Nat) (vs : List (Node × Nat)) : Prop := ∀ v ∈ vs.head?, v.2 ≤ depth

theorem Ordered.head?_nodesAt (h : t.Ordered) {i : Nat} (hi : i < t.size) (depth : Nat) :
    ∃ n rest, t.nodesAt depth i = (n, depth) :: rest := by
  obtain ⟨n, hn⟩ := exists_node hi
  exact ⟨n, _, h.nodesAt_eq hn⟩

theorem Ordered.behind_children (h : t.Ordered) {cs : List Nat} (hcs : ∀ c ∈ cs, c < t.size) {depth : Nat}
    {rest : List (Node × Nat)} (hrest : Behind depth rest) :
    Behind (depth + 1) (cs.flatMap (t.nodesAt (depth + 1)) ++ rest) := by
  intro v hv
  cases cs with
  | nil => exact Nat.le_succ_of_le (hrest v hv)
  | cons c cs =>
    obtain ⟨n, later, hfirst⟩ := h.head?_nodesAt (hcs c List.mem_cons_self) (depth + 1)
    rw [List.flatMap_cons, hfirst] at hv
    cases hv
    exact Nat.le_refl _

/-- No subtree of a deeper node is visited behind a subtree. -/
theorem Ordered.not_visitsAgree (h : t.Ordered) {c depth : Nat} (hc : c < t.size)
    {later rest : List (Node × Nat)} (hrest : Behind depth rest) :
    ¬List.Forall₂ VisitsAgree (t.nodesAt (depth + 1) c ++ later) rest ∧
      ¬List.Forall₂ VisitsAgree rest (t.nodesAt (depth + 1) c ++ later) := by
  obtain ⟨n, more, hfirst⟩ := h.head?_nodesAt hc (depth + 1)
  rw [hfirst]
  refine ⟨fun hagree => ?_, fun hagree => ?_⟩
  · cases hagree with
    | cons hvisit _ =>
      have hle := hrest _ rfl
      have hdepth : depth + 1 = _ := hvisit.2
      omega
  · cases hagree with
    | cons hvisit _ =>
      have hle := hrest _ rfl
      have hdepth : _ = depth + 1 := hvisit.2
      omega

/-- Subtrees side by side, given that subtrees of the nodes on the left can be told from what is behind. -/
theorem Ordered.forall₂_of_visitsAgree (h : t.Ordered) (h' : u.Ordered) {depth : Nat}
    {cs ds : List Nat} (hcs : ∀ c ∈ cs, c < t.size) (hds : ∀ d ∈ ds, d < u.size)
    (hchild : ∀ c ∈ cs, ∀ d < u.size, ∀ rest rest', Behind (depth + 1) rest → Behind (depth + 1) rest' →
      List.Forall₂ VisitsAgree (t.nodesAt (depth + 1) c ++ rest) (u.nodesAt (depth + 1) d ++ rest') →
        t.SameAt u c d ∧ List.Forall₂ VisitsAgree rest rest')
    {rest rest' : List (Node × Nat)} (hrest : Behind depth rest) (hrest' : Behind depth rest')
    (hagree : List.Forall₂ VisitsAgree (cs.flatMap (t.nodesAt (depth + 1)) ++ rest)
      (ds.flatMap (u.nodesAt (depth + 1)) ++ rest')) :
    List.Forall₂ (t.SameAt u) cs ds ∧ List.Forall₂ VisitsAgree rest rest' := by
  induction cs generalizing ds with
  | nil =>
    cases ds with
    | nil => exact ⟨.nil, hagree⟩
    | cons d ds =>
      rw [List.flatMap_cons, List.append_assoc] at hagree
      exact absurd hagree (h'.not_visitsAgree (hds d List.mem_cons_self) hrest).2
  | cons c cs ih =>
    cases ds with
    | nil =>
      rw [List.flatMap_cons, List.append_assoc] at hagree
      exact absurd hagree (h.not_visitsAgree (hcs c List.mem_cons_self) hrest').1
    | cons d ds =>
      rw [List.forall_mem_cons] at hcs hds hchild
      rw [List.flatMap_cons, List.append_assoc, List.flatMap_cons, List.append_assoc] at hagree
      obtain ⟨hfirst, hlater⟩ := hchild.1 d hds.1 _ _ (h.behind_children hcs.2 hrest)
        (h'.behind_children hds.2 hrest') hagree
      obtain ⟨hsame, hbehind⟩ := ih hcs.2 hds.2 hchild.2 hlater
      exact ⟨.cons hfirst hsame, hbehind⟩

/-- A walk in depth first order, with the depths of its visits, tells the tree and where it ends. -/
theorem Ordered.sameAt_of_visitsAgree (h : t.Ordered) (h' : u.Ordered) : ∀ i < t.size, ∀ j < u.size,
    ∀ depth rest rest', Behind depth rest → Behind depth rest' →
      List.Forall₂ VisitsAgree (t.nodesAt depth i ++ rest) (u.nodesAt depth j ++ rest') →
        t.SameAt u i j ∧ List.Forall₂ VisitsAgree rest rest' := by
  -- from the children to the node, for any depth and whatever comes behind
  refine h.induction fun i hi ih j hj depth rest rest' hrest hrest' hagree => ?_
  obtain ⟨n, hn⟩ := exists_node hi
  obtain ⟨m, hm⟩ := exists_node hj
  rw [h.nodesAt_eq hn, h'.nodesAt_eq hm, List.cons_append, List.cons_append, List.forall₂_cons] at hagree
  rw [children_of_getElem? hn] at ih
  have hcs : ∀ c ∈ n.children, c < t.size := fun c hc =>
    (h i c (by rw [children_of_getElem? hn]; exact hc)).2
  have hds : ∀ d ∈ m.children, d < u.size := fun d hd =>
    (h' j d (by rw [children_of_getElem? hm]; exact hd)).2
  obtain ⟨hchildren, hbehind⟩ := h.forall₂_of_visitsAgree h' hcs hds
    (fun c hc d hd rest rest' => ih c hc d hd (depth + 1) rest rest') hrest hrest' hagree.2
  exact ⟨.node hn hm hagree.1.1 hchildren, hbehind⟩

/-- The lines of the subtree at an index, which stands at the given depth. -/
def dumpAt (t : Tree) (i depth : Nat) : Text := (t.nodesAt depth i).flatMap fun v => v.1.content.lineAt v.2

/-- The lines of a node above those of its children. -/
def dumpAbove (c : Content) (below : List (Nat → Text)) (depth : Nat) : Text :=
  c.lineAt depth ++ below.flatMap fun lines => lines (depth + 1)

theorem Ordered.dumpAt_eq (h : t.Ordered) (i : Nat) (n : Node) (hn : t.nodes[i]? = some n) :
    t.dumpAt i = dumpAbove n.content (n.children.map t.dumpAt) := by
  funext depth
  rw [dumpAt, h.nodesAt_eq hn, List.flatMap_cons, List.flatMap_assoc, dumpAbove, List.flatMap_map]
  rfl

theorem dumpAbove_congr (c c' : Content) (below : List (Nat → Text)) (h : c.Agrees c') :
    dumpAbove c below = dumpAbove c' below := by
  funext depth
  rw [dumpAbove, dumpAbove, h.lineAt_eq]

/-- The dumps of trees with plain contents are the same exactly if the trees are. -/
theorem Ordered.dump_eq_iff (h : t.Ordered) (h' : u.Ordered) (hroot : 0 < t.size) (hroot' : 0 < u.size)
    (hplain : ∀ v ∈ t.allNodes, v.1.content.Plain) (hplain' : ∀ v ∈ u.allNodes, v.1.content.Plain) :
    t.dump = u.dump ↔ t.Same u := by
  rw [dump_eq, dump_eq]
  constructor
  · intro hdump
    have hagree := visitsAgree_of_lines hplain hplain' hdump
    rw [allNodes_eq, allNodes_eq, ← List.append_nil (t.nodesAt 0 root), ← List.append_nil (u.nodesAt 0 root)]
      at hagree
    exact (h.sameAt_of_visitsAgree h' root hroot root hroot' 0 [] [] nofun nofun hagree).1
  · intro hsame
    exact congrFun (h.eq_of_sameAt h.dumpAt_eq h'.dumpAt_eq dumpAbove_congr root hroot root hsame) 0

theorem exists_of_mem_allNodes {v : Node × Nat} (hv : v ∈ t.allNodes) :
    ∃ i : Nat, t.nodes[i]? = some v.1 := by
  unfold allNodes at hv
  obtain ⟨⟨i, depth⟩, -, hi⟩ := List.mem_filterMap.1 hv
  obtain ⟨n, hn, hpair⟩ := Option.map_eq_some_iff.1 hi
  exact ⟨i, by rw [hn, ← hpair]⟩

end Tree

/-! ### Syntax trees -/

/-- The labels of the grammar are plain. -/
theorem GrammarSymbol.ShownBy.plain_label {faulty : Prop} {symbol : GrammarSymbol} {name : Text}
    (h : symbol.ShownBy faulty (.label name)) : (Content.label name).Plain := by
  cases h with
  | nonterminal n =>
    have hall : ∀ n ∈ Nonterminal.all, n.label.all Text.isPlain = true ∧ n.label.head? = some 60 := by
      decide +kernel
    have hn := hall n (List.mem_of_find?_eq_some n.find?_label)
    exact ⟨hn.1, 60, hn.2, by decide⟩
  | @mark k hk =>
    have hfirst : ∃ b ∈ k.display.head?, b ≠ 32 := by
      cases k with
      | unnamed code => exact ⟨75, rfl, by decide⟩
      | _ => exact ⟨_, rfl, by decide⟩
    refine ⟨?_, hfirst⟩
    cases k with
    | unnamed code => exact (Kind.unnamed code).plain_name
    | _ => decide

/-- The texts of tokens are plain. -/
theorem Lexeme.plain {kind : Kind} {literal : Text} (h : Lexeme kind literal) :
    literal.all Text.isPlain = true := by
  have hword : ∀ b : UInt8, isWordByte b = true → Text.isPlain b = true :=
    Text.forall_byte (by decide +kernel)
  rw [List.all_eq_true]
  intro b hb
  cases h with
  | word hletter hbytes =>
    apply hword
    rcases List.mem_cons.1 hb with rfl | hb
    · exact isWordByte_of_isLetter hletter
    · exact List.all_eq_true.1 hbytes b hb
  | number hdigit hdigits =>
    apply hword
    rcases List.mem_cons.1 hb with rfl | hb
    · exact isWordByte_of_isDigit hdigit
    · exact isWordByte_of_isDigit (List.all_eq_true.1 hdigits b hb)
  | mark hm =>
    have hmarks : ∀ mark ∈ marks, ∀ b ∈ mark.2, Text.isPlain b = true := by decide +kernel
    exact hmarks _ hm b hb

theorem Stream.plain_delivered {filename src : Text} {tok : Token}
    (h : tok ∈ (ofSource filename src).delivered) : (Content.token tok).Plain := by
  rcases mem_delivered_iff.1 h with htok | hending
  · exact ((scanned_ofSource filename src).lexemes tok htok).plain
  · -- the end of the source has no text
    rw [(tokenizes_ofSource filename src).eof tok hending]
    rfl

namespace Parsed

variable (filename src : Text) (tracker : Tracker) (tracing : Bool)

theorem ordered_tree : (ofSource filename src tracker tracing).tree.Ordered := by
  obtain ⟨_, _, _, hleft⟩ := exists_left filename src tracker tracing
  exact hleft.tree.ordered

theorem tree_size_pos : 0 < (ofSource filename src tracker tracing).tree.size := by
  obtain ⟨_, _, _, hleft⟩ := exists_left filename src tracker tracing
  exact Nat.lt_of_le_of_lt (Nat.zero_le _) hleft.tree.node_lt

/-- Whatever a walk of a syntax tree meets is plain. -/
theorem plain_of_mem_allNodes : ∀ v ∈ (ofSource filename src tracker tracing).tree.allNodes,
    v.1.content.Plain := by
  intro v hv
  obtain ⟨hparse, -⟩ := partialParse_ofState (Stream.scanned_ofSource filename src)
    (ParseState.growing_initial filename src tracker tracing) rfl
  cases hcontent : v.1.content with
  | label name =>
    obtain ⟨i, hi⟩ := Tree.exists_of_mem_allNodes hv
    obtain ⟨symbol, hshown⟩ := (hparse.fits i v.1 hi).shows
    rw [hcontent] at hshown
    exact hshown.plain_label
  | token tok =>
    have htok : tok ∈ (ofSource filename src tracker tracing).tree.tokens :=
      List.mem_filterMap.2 ⟨v, hv, by rw [hcontent]; rfl⟩
    obtain ⟨consumed, hdelivered, hsublist⟩ := exists_consumed filename src tracker tracing
    apply Stream.plain_delivered
    rw [hdelivered]
    exact List.mem_append_left _ (hsublist.subset htok)

end Parsed

/-- The text dump of the syntax tree of a source, whether it compiles cleanly or not, is the dump of this
tree alone, up to the numbers of its nodes and to what no dump shows of a token, its file name and its
offset. -/
theorem Compilation.dump_determines_tree (config config' : Config) (filename filename' src src' : Text) :
    ((ofSource config filename src).output.tree.writeDump {}).2.written =
        ((ofSource config' filename' src').output.tree.writeDump {}).2.written ↔
      (ofSource config filename src).output.tree.Same (ofSource config' filename' src').output.tree := by
  have hwritten : ∀ t : Tree, (t.writeDump {}).2.written = t.dump := fun t =>
    (Writer.writeAll_unlimited t.dumpPieces {} rfl).2
  rw [hwritten, hwritten]
  exact (Parsed.ordered_tree filename src _ _).dump_eq_iff (Parsed.ordered_tree filename' src' _ _)
    (Parsed.tree_size_pos filename src _ _) (Parsed.tree_size_pos filename' src' _ _)
    (Parsed.plain_of_mem_allNodes filename src _ _) (Parsed.plain_of_mem_allNodes filename' src' _ _)

end MicroLang
