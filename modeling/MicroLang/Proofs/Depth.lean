import MicroLang.Proofs.Recognition

/-!
# Depth

No parse exceeds the depth it is given, whatever its text is and however many errors it meets.

A run can stand still: the end of the text is delivered for as long as anyone asks, and a production that
finds none of the tokens it could start with takes nothing.  So what bounds the depth is not that every
production takes a token, but that every recursive call comes behind one.  A list goes on only behind a
comma and an expression only behind an operator, which are taken; a statement list goes on only if a
statement can start at the token ahead, and then the statement before it took a token, since otherwise
it would have been the same token at which that one could not start.

`Within room ahead gain m` is the judgement that carries this through the productions.
-/

namespace MicroLang

open Parse

/-! ### Streams that shrink -/

/-- What a stream has become once it was read: itself, or a stream with fewer tokens and the same ending. -/
structure Stream.Shrinks (stream stream' : Stream) : Prop where
  scanned : stream.Scanned → stream'.Scanned
  ending : stream'.ending = stream.ending
  shorter : stream' = stream ∨ stream'.tokens.length < stream.tokens.length

namespace Stream

variable {stream stream' stream'' : Stream}

theorem Shrinks.refl (stream : Stream) : stream.Shrinks stream := ⟨id, rfl, .inl rfl⟩

theorem Shrinks.trans (h : stream.Shrinks stream') (h' : stream'.Shrinks stream'') :
    stream.Shrinks stream'' where
  scanned := h'.scanned ∘ h.scanned
  ending := h'.ending.trans h.ending
  shorter := by
    rcases h.shorter with rfl | hlt
    · exact h'.shorter
    · rcases h'.shorter with rfl | hlt'
      · exact .inr hlt
      · exact .inr (Nat.lt_trans hlt' hlt)

theorem Shrinks.le (h : stream.Shrinks stream') : stream'.tokens.length ≤ stream.tokens.length := by
  rcases h.shorter with rfl | hlt
  · exact Nat.le_refl _
  · exact Nat.le_of_lt hlt

theorem shrinks_rest (stream : Stream) : stream.Shrinks stream.rest where
  scanned := fun h => ⟨fun tok htok => h.lexemes tok (List.mem_of_mem_tail htok), h.eof⟩
  ending := rfl
  shorter := by
    obtain ⟨tokens, ending⟩ := stream
    cases tokens with
    | nil => exact .inl rfl
    | cons tok tokens => exact .inr (Nat.lt_succ_self _)

end Stream

/-! ### The judgement -/

/-- A state with a scanned stream that has fewer than `room` tokens and the right kind of token ahead. -/
structure ParseState.Before (room : Nat) (ahead : Kind → Prop) (s : ParseState) : Prop where
  scanned : s.stream.Scanned
  room : s.stream.tokens.length < room
  ahead : ∀ tok, s.stream.peek = .ok tok → ahead tok.kind

/-- Why a run over a stream may end early: at the error in which the stream ends, or at a node that is not
there.  Being too deep is no reason. -/
inductive Abort.DueTo (stream : Stream) : Abort → Prop
  | lexical {e : LexicalError} : stream.ending = .fault e → DueTo stream (.lexical e)
  | stray (e : StrayNode) : DueTo stream (.stray e)

theorem Abort.DueTo.of_shrinks {stream stream' : Stream} {e : Abort} (h : e.DueTo stream')
    (hshrinks : stream.Shrinks stream') : e.DueTo stream := by
  cases h with
  | lexical hfault => exact .lexical (hshrinks.ending.symm.trans hfault)
  | stray e => exact .stray e

/-- A run that keeps to its depth and, if it does not abort, takes at least `gain` tokens. -/
inductive Bounded {α : Type} (gain : Nat) (stream : Stream) : EStateM.Result Abort ParseState α → Prop
  | ok {v : α} {s : ParseState} : stream.Shrinks s.stream →
      s.stream.tokens.length + gain ≤ stream.tokens.length → Bounded gain stream (.ok v s)
  | abort {e : Abort} {s : ParseState} : e.DueTo stream → Bounded gain stream (.error e s)

/-- The production keeps to its depth wherever fewer than `room` tokens are left, and where the token
ahead is of a kind that satisfies `ahead` it takes at least `gain` tokens. -/
def Within {α : Type} (room : Nat) (ahead : Kind → Prop) (gain : Nat) (m : Production α) : Prop :=
  ∀ s : ParseState, s.Before room ahead → Bounded gain s.stream (m.run s)

/-- Any token may be ahead. -/
def anyKind : Kind → Prop := fun _ => True

theorem ParseState.Before.of_shrinks {s s' : ParseState} {room room' gain : Nat} {ahead : Kind → Prop}
    (h : s.Before room ahead) (hshrinks : s.stream.Shrinks s'.stream)
    (hgain : s'.stream.tokens.length + gain ≤ s.stream.tokens.length) (hroom : room ≤ room' + gain) :
    s'.Before room' anyKind where
  scanned := hshrinks.scanned h.scanned
  room := by
    have hlen := h.room
    omega
  ahead := fun _ _ => trivial

section

variable {α β : Type} {m : Production α} {f : α → Production β} {gain : Nat}

theorem Bounded.mono {stream : Stream} {gain' : Nat} {r : EStateM.Result Abort ParseState α}
    (h : Bounded gain stream r) (hgain : gain' ≤ gain) : Bounded gain' stream r := by
  cases h with
  | ok hshrinks htaken => exact .ok hshrinks (by omega)
  | abort hdue => exact .abort hdue

/-- What holds of a run behind a part that took some tokens. -/
theorem Bounded.behind {stream stream' : Stream} {r : EStateM.Result Abort ParseState α}
    (h : Bounded 0 stream' r) (hshrinks : stream.Shrinks stream')
    (htaken : stream'.tokens.length + gain ≤ stream.tokens.length) : Bounded gain stream r := by
  cases h with
  | ok hshrinks' htaken' => exact .ok (hshrinks.trans hshrinks') (by omega)
  | abort hdue => exact .abort (hdue.of_shrinks hshrinks)

theorem Bounded.bind {s : ParseState} (h : Bounded gain s.stream (m.run s))
    (hf : ∀ v (s' : ParseState), s.stream.Shrinks s'.stream →
      s'.stream.tokens.length + gain ≤ s.stream.tokens.length → Bounded 0 s'.stream ((f v).run s')) :
    Bounded gain s.stream ((m >>= f).run s) := by
  cases hrun : m.run s with
  | ok v s' =>
    rw [hrun] at h
    obtain ⟨hshrinks, htaken⟩ | _ := h
    rw [run_bind_of_ok hrun]
    exact (hf v s' hshrinks htaken).behind hshrinks htaken
  | error e s' =>
    rw [hrun] at h
    obtain _ | hdue := h
    rw [run_bind_of_error hrun]
    exact .abort hdue

/-! ### Steps that take no token -/

/-- A step that takes no token; if it aborts, then because it names no node. -/
def Level (m : Production α) : Prop :=
  ∀ s : ParseState, (∃ v s', m.run s = .ok v s' ∧ s'.stream = s.stream) ∨
    ∃ e s', m.run s = .error (.stray e) s'

theorem Parse.Idle.level (h : Idle m) : Level m := by
  intro s
  obtain ⟨v, generator, transcript, hrun⟩ := h s
  exact .inl ⟨v, _, hrun, rfl⟩

theorem level_add (parent : Nat) (content : Content) : Level (add parent content) := by
  intro s
  simp only [EStateM.run, add]
  split
  · exact .inl ⟨_, _, rfl, rfl⟩
  · exact .inr ⟨_, _, rfl⟩

theorem Level.bind_pure (h : Level m) (v : β) : Level (m >>= fun _ => pure v) := by
  intro s
  rcases h s with ⟨_, s', hrun, hstream⟩ | ⟨e, s', hrun⟩
  · exact .inl ⟨v, s', run_bind_of_ok hrun, hstream⟩
  · exact .inr ⟨e, s', run_bind_of_error hrun⟩

theorem level_branch (parent : Nat) (n : Nonterminal) : Level (branch parent n) := level_add parent _

theorem level_mark (parent : Nat) (k : Kind) : Level (mark parent k) := (level_add parent _).bind_pure ()

theorem level_leaf (parent : Nat) (tok : Token) : Level (leaf parent tok) :=
  (level_add parent _).bind_pure ()

theorem level_expected (tok : Token) (kinds : List Kind) : Level (expected tok kinds) := by
  intro s
  obtain ⟨tracker, transcript, hrun, _⟩ := run_expected_cases s tok kinds
  exact .inl ⟨(), _, hrun, rfl⟩

/-! ### Rules -/

namespace Within

variable {room room' gain' taken : Nat} {ahead ahead' : Kind → Prop}

theorem mono (h : Within room ahead gain m) (hahead : ∀ k, ahead' k → ahead k) (hgain : gain' ≤ gain) :
    Within room ahead' gain' m := by
  intro s hs
  exact (h s ⟨hs.scanned, hs.room, fun tok htok => hahead _ (hs.ahead tok htok)⟩).mono hgain

theorem last (hm : Level m) : Within room ahead 0 m := by
  intro s hs
  rcases hm s with ⟨v, s', hrun, hstream⟩ | ⟨e, s', hrun⟩
  · rw [hrun, ← hstream]
    exact .ok (.refl _) (Nat.le_refl _)
  · rw [hrun]
    exact .abort (.stray e)

theorem step (hm : Level m) (hf : ∀ v, Within room ahead gain (f v)) :
    Within room ahead gain (m >>= f) := by
  intro s hs
  rcases hm s with ⟨v, s', hrun, hstream⟩ | ⟨e, s', hrun⟩
  · rw [run_bind_of_ok hrun, ← hstream]
    refine hf v s' ⟨?_, ?_, ?_⟩
    · rw [hstream]
      exact hs.scanned
    · rw [hstream]
      exact hs.room
    · rw [hstream]
      exact hs.ahead
  · rw [run_bind_of_error hrun]
    exact .abort (.stray e)

theorem peek {f : Token → Production β}
    (hf : ∀ tok, ahead tok.kind → Within room (fun k => k = tok.kind) gain (f tok)) :
    Within room ahead gain (Parse.peek >>= f) := by
  intro s hs
  cases hpeek : s.stream.peek with
  | ok tok =>
    rw [run_bind_of_ok (run_peek_of_ok hpeek)]
    refine hf tok (hs.ahead tok hpeek) s ⟨hs.scanned, hs.room, ?_⟩
    intro tok' htok'
    cases hpeek.symm.trans htok'
    rfl
  | error e =>
    rw [run_bind_of_error (run_peek_of_error hpeek)]
    exact .abort (.lexical (Stream.ending_of_peek_error hpeek).2)

theorem seq (hm : Within room ahead taken m) (hgain : gain ≤ taken) (hroom : room ≤ room' + taken)
    (hf : ∀ v, Within room' anyKind 0 (f v)) : Within room ahead gain (m >>= f) := by
  intro s hs
  refine Bounded.mono (Bounded.bind (hm s hs) fun v s' hshrinks htaken => ?_) hgain
  exact hf v s' (hs.of_shrinks hshrinks htaken hroom)

/-- Whatever is ahead, accepting shortens the stream or leaves it; a token that is not the end is
taken. -/
theorem accept (htaken : taken = 0 ∨ taken = 1 ∧ ∀ k, ahead k → k ≠ .eofSym) (k : Kind) :
    Within room ahead taken (accept k) := by
  intro s hs
  cases hpeek : s.stream.peek with
  | ok tok =>
    obtain ⟨recovering, tracker, transcript, hrun, _⟩ := run_accept_cases hpeek k
    rw [hrun]
    refine .ok s.stream.shrinks_rest ?_
    rcases htaken with rfl | ⟨rfl, hno⟩
    · exact s.stream.shrinks_rest.le
    · rw [hs.scanned.tokens_of_peek hpeek (hno _ (hs.ahead tok hpeek))]
      exact Nat.le_refl _
  | error e =>
    obtain ⟨transcript, hrun⟩ := run_accept_of_error hpeek k
    rw [hrun]
    exact .abort (.lexical (Stream.ending_of_peek_error hpeek).2)

/-- Parts of which none has to take a token. -/
theorem andThen (hm : Within room ahead 0 m) (hf : ∀ v, Within room anyKind 0 (f v)) :
    Within room ahead 0 (m >>= f) :=
  hm.seq (Nat.le_refl _) (Nat.le_refl _) hf

theorem pass {f : Token → Production β} (k : Kind) (hf : ∀ tok, Within room anyKind 0 (f tok)) :
    Within room ahead 0 (Parse.accept k >>= f) :=
  (accept (.inl rfl) k).andThen hf

/-- A part that takes a token where a further one can start, and a tail that is read only there. -/
theorem tail {P : Kind → Prop} [DecidablePred P] {rest last : α → Production β}
    (hm : Within room anyKind 0 m) (hstart : Within room P 1 m) (hroom : room ≤ room' + 1)
    (hrest : ∀ v, Within room' anyKind 0 (rest v)) (hlast : ∀ v, Level (last v)) :
    Within room anyKind 0
      (m >>= fun v => Parse.peek >>= fun tok => if P tok.kind then rest v else last v) := by
  intro s hs
  -- Behind a token that was taken both ways of going on have room.
  have htail : ∀ v, Within room' anyKind 0
      (Parse.peek >>= fun tok => if P tok.kind then rest v else last v) := by
    intro v
    refine .peek fun tok _ => ?_
    split
    · exact (hrest v).mono (fun _ _ => trivial) (Nat.le_refl _)
    · exact .last (hlast v)
  by_cases hfirst : ∀ tok, s.stream.peek = .ok tok → P tok.kind
  · exact (hstart.seq (Nat.zero_le 1) hroom htail) s ⟨hs.scanned, hs.room, hfirst⟩
  · -- The first part may have stood still; then the token ahead is still the one that starts nothing.
    simp only [Classical.not_forall] at hfirst
    obtain ⟨tok, hpeek, hno⟩ := hfirst
    refine Bounded.bind (hm s hs) fun v s' hshrinks _ => ?_
    rcases hshrinks.shorter with hsame | hlt
    · rw [run_bind_of_ok (run_peek_of_ok (by rw [hsame]; exact hpeek)), if_neg hno]
      exact (Within.last (hlast v) : Within room anyKind 0 (last v)) s'
        (hs.of_shrinks hshrinks hshrinks.le (Nat.le_refl (room + 0)))
    · exact htail v s' (hs.of_shrinks hshrinks hlt hroom)

end Within

end

/-! ### The productions -/

variable {room node taken : Nat} {ahead : Kind → Prop}

theorem within_acceptIdentifier (h : taken = 0 ∨ taken = 1 ∧ ∀ k, ahead k → k ≠ .eofSym) :
    Within room ahead taken (acceptIdentifier node) := by
  refine .step (idle_enter _).level fun _ =>
    .seq (.accept h .id) (Nat.le_refl _) (Nat.le_add_right room taken) fun tok => ?_
  exact .step (level_leaf _ _) fun _ => .step (idle_derive _).level fun _ => .last (idle_pure tok).level

theorem within_ident : Within room ahead 0 (ident node) :=
  .andThen (within_acceptIdentifier (.inl rfl)) fun _ => .last (idle_act _).level

theorem within_addOp : Within room (fun k => k.isAddOp = true) 1 (addOp node) := by
  refine .step (idle_enter _).level fun _ => .peek fun tok hop => ?_
  rw [if_pos hop]
  refine .step (level_leaf _ _) fun _ => .step (idle_derive _).level fun _ =>
    .seq (.accept (.inr ⟨rfl, ?_⟩) _) (Nat.le_refl _) (Nat.le_succ room) fun _ => .last (idle_act _).level
  rintro k rfl heof
  rw [heof] at hop
  cases hop

theorem within_primary {e : Nat → Production Operand} (he : ∀ inner, Within room anyKind 0 (e inner)) :
    Within (room + 1) ahead 0 (primary e node) := by
  refine .step (idle_enter _).level fun _ => .peek fun tok _ => ?_
  split
  · next hk =>
    refine .step (level_mark _ _) fun _ => .step (level_branch _ _) fun inner =>
      .step (level_mark _ _) fun _ => .step (idle_derive _).level fun _ =>
        .seq (.accept (.inr ⟨rfl, ?_⟩) _) (Nat.zero_le _) (Nat.le_refl (room + 1)) fun _ => ?_
    · rintro k rfl heof
      cases hk.symm.trans heof
    · exact .andThen (he inner) fun value => .pass _ fun _ => .last (idle_pure value).level
  · exact .step (level_branch _ _) fun _ => .step (idle_derive _).level fun _ => within_ident
  · exact .step (level_leaf _ _) fun _ => .step (idle_derive _).level fun _ =>
      .pass _ fun _ => .last (idle_act _).level
  · exact .last ((level_expected _ _).bind_pure _)

theorem within_expression : ∀ (bound : Nat) {node : Nat},
    Within bound anyKind 0 (expression bound node)
  | 0, _ => fun _ hs => absurd hs.room (Nat.not_lt_zero _)
  | bound + 1, node => by
    refine .step (idle_enter _).level fun _ => .step (level_branch _ _) fun first =>
      .step (idle_derive _).level fun _ =>
        .andThen (within_primary fun _ => within_expression bound) fun left => .peek fun tok _ => ?_
    split
    · -- The operator is taken before the expression behind it is read.
      next hop =>
      refine .step (level_branch _ _) fun operator => .step (level_branch _ _) fun rest =>
        .step (idle_derive _).level fun _ =>
          .seq (within_addOp.mono ?_ (Nat.le_refl _)) (Nat.zero_le _) (Nat.le_refl (bound + 1))
            fun op => ?_
      · rintro k rfl
        exact hop
      · exact .andThen (within_expression bound) fun _ => .last (idle_act _).level
    · exact .last (idle_pure left).level

/-- A list goes on behind a comma that is taken. -/
theorem within_commaTail {n : Nonterminal} {list : Nat → Production Unit}
    (hlist : ∀ rest, Within room anyKind 0 (list rest)) :
    Within (room + 1) anyKind 0 (commaTail node n list) := by
  refine .peek fun tok _ => ?_
  split
  · next hcomma =>
    refine .step (level_mark _ _) fun _ => .step (level_branch _ _) fun rest =>
      .step (idle_derive _).level fun _ =>
        .seq (.accept (.inr ⟨rfl, ?_⟩) _) (Nat.zero_le _) (Nat.le_refl (room + 1)) fun _ => hlist rest
    rintro k rfl heof
    cases hcomma.symm.trans heof
  · exact .last (idle_pure ()).level

theorem within_idList : ∀ (bound : Nat) {node : Nat}, Within bound anyKind 0 (idList bound node)
  | 0, _ => fun _ hs => absurd hs.room (Nat.not_lt_zero _)
  | bound + 1, _ =>
    .step (idle_enter _).level fun _ => .step (level_branch _ _) fun _ =>
      .step (idle_derive _).level fun _ => .andThen within_ident fun _ =>
        .step (idle_act _).level fun _ => within_commaTail fun _ => within_idList bound

theorem within_exprList : ∀ (bound : Nat) {node : Nat}, Within bound anyKind 0 (exprList bound node)
  | 0, _ => fun _ hs => absurd hs.room (Nat.not_lt_zero _)
  | bound + 1, _ =>
    .step (idle_enter _).level fun _ => .step (level_branch _ _) fun _ =>
      .step (idle_derive _).level fun _ => .andThen (within_expression (bound + 1)) fun _ =>
        .step (idle_act _).level fun _ => within_commaTail fun _ => within_exprList bound

theorem within_enclosed {k : Kind} {n : Nonterminal} {list : Nat → Production Unit}
    (h : ∀ k, ahead k → k ≠ .eofSym) (hlist : ∀ l, Within room anyKind 0 (list l)) :
    Within room ahead 1 (enclosed node k n list) := by
  refine .step (level_mark _ _) fun _ => .step (level_mark _ _) fun _ => .step (level_branch _ _) fun l =>
    .step (level_mark _ _) fun _ => .step (level_mark _ _) fun _ => .step (idle_derive _).level fun _ =>
      .seq (.accept (.inr ⟨rfl, h⟩) _) (Nat.le_refl _) (Nat.le_succ room) fun _ => ?_
  exact .pass _ fun _ => .andThen (hlist l) fun _ => .pass _ fun _ => .pass _ fun _ =>
    .last (idle_pure ()).level

/-- A statement takes a token unless none can start at the token ahead. -/
theorem within_statement (h : taken = 0 ∨ taken = 1 ∧ ∀ k, ahead k → k.isStatementStart = true) :
    Within room ahead taken (statement room node) := by
  have hle : taken ≤ 1 := by omega
  refine .step (idle_enter _).level fun _ => .peek fun tok hahead => ?_
  have hno : ∀ {k : Kind}, tok.kind = k → k ≠ .eofSym → ∀ k', k' = tok.kind → k' ≠ .eofSym := by
    rintro _ rfl hk _ rfl
    exact hk
  split
  · next hk =>
    refine .step (level_branch _ _) fun name => .step (level_mark _ _) fun _ =>
      .step (level_branch _ _) fun value => .step (level_mark _ _) fun _ =>
        .step (idle_derive _).level fun _ =>
          .seq (within_acceptIdentifier (.inr ⟨rfl, hno hk nofun⟩)) hle (Nat.le_succ room) fun _ => ?_
    exact .pass _ fun _ => .andThen (within_expression room) fun source =>
      .step (idle_act _).level fun destination => .step (idle_act _).level fun _ =>
        .pass _ fun _ => .last (idle_pure ()).level
  · next hk =>
    exact (within_enclosed (hno hk nofun) fun _ => within_idList room).mono (fun _ h => h) hle
  · next hk =>
    exact (within_enclosed (hno hk nofun) fun _ => within_exprList room).mono (fun _ h => h) hle
  · next hid hread hwrite =>
    have hzero : taken = 0 := by
      rcases h with hzero | ⟨_, hstart⟩
      · exact hzero
      · have htok := hstart _ hahead
        cases hk : tok.kind with
        | id => exact absurd hk hid
        | readSym => exact absurd hk hread
        | writeSym => exact absurd hk hwrite
        | _ => rw [hk] at htok; cases htok
    rw [hzero]
    exact .last (level_expected _ _)

theorem within_statementList : ∀ (bound : Nat) {node : Nat},
    Within bound anyKind 0 (statementList bound node)
  | 0, _ => fun _ hs => absurd hs.room (Nat.not_lt_zero _)
  | bound + 1, _ =>
    .step (idle_enter _).level fun _ => .step (level_branch _ _) fun _ =>
      .step (idle_derive _).level fun _ =>
        .tail (P := fun k => k.isStatementStart = true) (within_statement (.inl rfl))
          (within_statement (.inr ⟨rfl, fun _ h => h⟩)) (Nat.le_refl (bound + 1))
          (fun _ => .step (level_branch _ _) fun _ => .step (idle_derive _).level fun _ =>
            within_statementList bound)
          fun _ => (idle_pure ()).level

theorem within_program : Within room anyKind 0 (program room node) := by
  refine .step (idle_enter _).level fun _ => .step (level_mark _ _) fun _ =>
    .step (level_branch _ _) fun list => .step (level_mark _ _) fun _ =>
      .step (idle_derive _).level fun _ => .step (idle_act _).level fun _ => ?_
  exact .pass _ fun _ => .andThen (within_statementList room) fun _ => .pass _ fun _ =>
    .last (idle_pure ()).level

theorem within_systemGoal : Within room anyKind 0 (systemGoal room) := by
  refine .step (idle_enter _).level fun _ => .step (level_branch _ _) fun body =>
    .step (level_mark _ _) fun _ => .step (idle_derive _).level fun _ => ?_
  exact .andThen within_program fun _ => .pass _ fun _ => .last (idle_act _).level

/-- A parse of scanned tokens that ends early does so for a reason. -/
theorem dueTo_of_run_systemGoal {s s' : ParseState} {e : Abort} (h : s.stream.Scanned)
    (hrun : (systemGoal (s.stream.tokens.length + 1)).run s = .error e s') : e.DueTo s.stream := by
  have hbounded := within_systemGoal s ⟨h, Nat.lt_succ_self _, fun _ _ => trivial⟩
  rw [hrun] at hbounded
  obtain _ | hdue := hbounded
  exact hdue

/-- It is never too deep. -/
theorem run_systemGoal_ne_tooDeep {s s' : ParseState} (h : s.stream.Scanned) :
    (systemGoal (s.stream.tokens.length + 1)).run s ≠ .error .tooDeep s' := by
  intro hrun
  cases dueTo_of_run_systemGoal h hrun

end MicroLang
