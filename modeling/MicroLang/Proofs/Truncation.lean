import MicroLang.Tree.Render
import MicroLang.Proofs.Preorder

/-!
# Renderings cut short

A derivation and a dump are made on a walk of the tree: a visitor writes what a node contributes, and
once a write has failed it writes nothing more, though the walk still comes to the siblings of all nodes
above.  `writeDerivation` and `writeDump` write the same texts from a list and stop there.  The two agree,
since a failure, once it is there, survives every visit.

Into a writer with room for `limit` bytes goes the beginning of the full rendering, of that length.  The
write that does not fit is the last one.
-/

namespace MicroLang

namespace Writer

/-- How the last write ended, and the writer after it. -/
abbrev Attempt : Type := Except WriteError Unit × Writer

/-! ### Writes one after the other -/

theorem writeAll_append (ts us : List Text) (w : Writer) (h : (w.writeAll ts).1 = .ok ()) :
    w.writeAll (ts ++ us) = (w.writeAll ts).2.writeAll us := by
  induction ts generalizing w with
  | nil => rfl
  | cons t ts ih =>
    rw [List.cons_append, writeAll, writeAll]
    rw [writeAll] at h
    cases hwrite : w.write t with
    | mk result w' =>
      rw [hwrite] at h
      cases result with
      | error e => cases h
      | ok _ => exact ih w' h

theorem writeAll_free (ts : List Text) (chunks : Array Text) :
    writeAll ts { chunks } = (.ok (), { chunks := chunks ++ ts.toArray }) := by
  induction ts generalizing chunks with
  | nil => simp only [writeAll, Array.append_empty]
  | cons t ts ih =>
    rw [writeAll]
    show writeAll ts { chunks := chunks.push t } = _
    rw [ih, List.push_append_toArray]

theorem writeAll_of_fits (ts : List Text) {room : Nat} (chunks : Array Text)
    (h : ts.flatten.length ≤ room) : writeAll ts { room := some room, chunks } =
      (.ok (), { room := some (room - ts.flatten.length), chunks := chunks ++ ts.toArray }) := by
  induction ts generalizing room chunks with
  | nil => simp only [writeAll, List.flatten_nil, List.length_nil, Nat.sub_zero, Array.append_empty]
  | cons t ts ih =>
    rw [List.flatten_cons, List.length_append] at h
    have hwrite : write t { room := some room, chunks } =
        (.ok (), { room := some (room - t.length), chunks := chunks.push t }) := by
      simp only [write]
      rw [if_pos (by omega)]
    rw [writeAll, hwrite]
    show writeAll ts _ = _
    rw [ih (chunks.push t) (by omega), List.push_append_toArray, List.flatten_cons, List.length_append,
      Nat.sub_sub]

/-- Of texts that do not fit as a whole there is a first one that does not. -/
theorem exists_overflow {ts : List Text} {room : Nat} (h : room < ts.flatten.length) :
    ∃ whole piece rest, ts = whole ++ piece :: rest ∧ whole.flatten.length ≤ room ∧
      room < whole.flatten.length + piece.length := by
  induction ts generalizing room with
  | nil => exact absurd h (Nat.not_lt_zero room)
  | cons t ts ih =>
    rw [List.flatten_cons, List.length_append] at h
    by_cases ht : t.length ≤ room
    · obtain ⟨whole, piece, rest, rfl, hwhole, hpiece⟩ := ih (show room - t.length < _ by omega)
      refine ⟨t :: whole, piece, rest, rfl, ?_, ?_⟩
      · rw [List.flatten_cons, List.length_append]
        omega
      · rw [List.flatten_cons, List.length_append]
        omega
    · exact ⟨[], t, ts, rfl, Nat.zero_le room, by simpa using ht⟩

theorem writeAll_of_overflow {whole : List Text} {piece : Text} {room : Nat} (rest : List Text)
    (chunks : Array Text) (hwhole : whole.flatten.length ≤ room)
    (hpiece : room < whole.flatten.length + piece.length) :
    writeAll (whole ++ piece :: rest) { room := some room, chunks } =
      (.error .full, {
        room := some 0
        chunks := (chunks ++ whole.toArray).push (piece.take (room - whole.flatten.length)) }) := by
  have hfits := writeAll_of_fits whole chunks hwhole
  rw [writeAll_append _ _ _ (by rw [hfits]), hfits, writeAll]
  have hwrite : ∀ chunks, write piece { room := some (room - whole.flatten.length), chunks } =
      (.error .full, {
        room := some 0
        chunks := chunks.push (piece.take (room - whole.flatten.length)) }) := by
    intro chunks
    simp only [write]
    rw [if_neg (by omega)]
  rw [hwrite]

/-! ### Beginnings -/

/-- The second attempt is the first one with room for `limit` bytes: the writer holds a beginning of that
length, the failure is told exactly if something is missing, and the writes, of which each leaves a chunk,
are the same ones up to the one that does not fit, which is the last. -/
structure CutShort (limit : Nat) (full cut : Attempt) : Prop where
  full_ok : full.1 = .ok ()
  written : cut.2.written = full.2.written.take limit
  failed : cut.1 = .error .full ↔ limit < full.2.written.length
  complete : full.2.written.length ≤ limit → cut.1 = .ok () ∧ cut.2.chunks = full.2.chunks
  last : limit < full.2.written.length → ∃ whole piece rest,
    full.2.chunks.toList = whole ++ piece :: rest ∧ whole.flatten.length ≤ limit ∧
      limit < whole.flatten.length + piece.length ∧
      cut.2.chunks.toList = whole ++ [piece.take (limit - whole.flatten.length)]

theorem cutShort_writeAll (ts : List Text) (limit : Nat) :
    CutShort limit (writeAll ts {}) (writeAll ts { room := some limit }) := by
  have hfull : writeAll ts {} = (.ok (), { chunks := ts.toArray }) := by
    rw [writeAll_free, Array.empty_append]
  have hwritten : (writeAll ts {}).2.written = ts.flatten := by rw [hfull, written]
  by_cases hfits : ts.flatten.length ≤ limit
  · have hcut := writeAll_of_fits ts #[] hfits
    rw [Array.empty_append] at hcut
    refine ⟨by rw [hfull], ?_, ?_, fun _ => ?_, fun h => ?_⟩
    · rw [hwritten, hcut, List.take_of_length_le hfits, written]
    · rw [hwritten, hcut]
      simp only [reduceCtorEq, false_iff, Nat.not_lt]
      exact hfits
    · rw [hcut, hfull]
      exact ⟨rfl, rfl⟩
    · rw [hwritten] at h
      exact absurd hfits (Nat.not_le_of_lt h)
  · have hlimit := Nat.lt_of_not_le hfits
    obtain ⟨whole, piece, rest, rfl, hwhole, hpiece⟩ := exists_overflow hlimit
    have hcut := writeAll_of_overflow rest #[] hwhole hpiece
    rw [Array.empty_append] at hcut
    have hchunks : (writeAll (whole ++ piece :: rest) { room := some limit }).2.chunks.toList =
        whole ++ [piece.take (limit - whole.flatten.length)] := by
      rw [hcut, Array.toList_push]
    refine ⟨by rw [hfull], ?_, ?_, fun h => ?_, fun _ => ?_⟩
    · rw [written, hchunks, hwritten, List.flatten_append, List.flatten_append, List.flatten_singleton,
        List.flatten_cons, List.take_append, List.take_of_length_le hwhole,
        List.take_append_of_le_length (by omega)]
    · rw [hwritten, hcut]
      exact ⟨fun _ => hlimit, fun _ => rfl⟩
    · rw [hwritten] at h
      exact absurd h hfits
    · exact ⟨whole, piece, rest, by rw [hfull], hwhole, hpiece, hchunks⟩

/-! ### Writes that a failure stops -/

/-- Writes a text if nothing has failed so far. -/
def Attempt.offer (s : Attempt) (t : Text) : Attempt :=
  match s.1 with
  | .error _ => s
  | .ok () => s.2.write t

theorem Attempt.foldl_offer_of_error {s : Attempt} {e : WriteError} (h : s.1 = .error e) (ts : List Text) :
    ts.foldl offer s = s := by
  induction ts with
  | nil => rfl
  | cons t ts ih =>
    have hoffer : s.offer t = s := by
      unfold offer
      rw [h]
    rw [List.foldl_cons, hoffer, ih]

theorem Attempt.foldl_offer (ts : List Text) (w : Writer) : ts.foldl offer (.ok (), w) = w.writeAll ts := by
  induction ts generalizing w with
  | nil => rfl
  | cons t ts ih =>
    rw [List.foldl_cons, writeAll]
    show ts.foldl offer (w.write t) = _
    cases hwrite : w.write t with
    | mk result w' =>
      cases result with
      | error e => exact foldl_offer_of_error rfl ts
      | ok _ => exact ih w'

end Writer

namespace Tree

open Writer (Attempt)

variable {t : Tree}

/-! ### Visitors that write -/

/-- A visitor that offers what a node contributes, and that ends the walk below a node only when a write
has failed, writes the contributions of all nodes up to the first failure. -/
theorem Ordered.walked_offer_iff (h : t.Ordered) (hroot : root < t.size) (pieces : Node → Nat → List Text)
    {visit : Nat → Nat → Attempt → Bool × Attempt}
    (hvisit : ∀ i n, t.nodes[i]? = some n → ∀ depth s,
      (visit i depth s).2 = (pieces n depth).foldl Attempt.offer s)
    (hstop : ∀ i depth s, (visit i depth s).1 = false → ∃ e, (visit i depth s).2.1 = .error e)
    {w : Writer} {out : Attempt} : t.Walked visit 0 [root] (.ok (), w) out ↔
      out = w.writeAll (t.allNodes.flatMap fun (n, depth) => pieces n depth) := by
  rw [← Attempt.foldl_offer, allNodes_eq]
  refine h.walked_iff hroot (fun i depth s =>
    ((t.nodesAt depth i).flatMap fun (n, depth) => pieces n depth).foldl Attempt.offer s) ?_
  intro i hi depth s
  obtain ⟨n, hn⟩ := exists_node hi
  rw [h.nodesAt_eq hn, List.flatMap_cons, List.foldl_append, List.flatMap_assoc, children_of_getElem? hn]
  show ((n.children.flatMap _).foldl Attempt.offer ((pieces n depth).foldl Attempt.offer s)) = _
  rw [← hvisit i n hn]
  cases hgoesOn : (visit i depth s).1 with
  | false =>
    obtain ⟨e, he⟩ := hstop i depth s hgoesOn
    exact Attempt.foldl_offer_of_error he _
  | true =>
    rw [List.foldl_flatMap]
    rfl

/-- The visitor that writes the leaves.  It learns of a failure at the next node. -/
def visitLeaf (t : Tree) (i _depth : Nat) (s : Attempt) : Bool × Attempt :=
  match s.1, t.nodes[i]? with
  | .ok (), some n => (true, if n.children.isEmpty then s.offer (n.content.display ++ text " ") else s)
  | .ok (), none => (true, s)
  | .error _, _ => (false, s)

/-- The visitor that writes a line for every node, indented step by step. -/
def visitLine (t : Tree) (i depth : Nat) (s : Attempt) : Bool × Attempt :=
  let indented := (List.replicate depth (text "    ")).foldl Attempt.offer s
  let s := match t.nodes[i]? with
    | some n => indented.offer n.content.dumpLine
    | none => indented
  (match s.1 with
    | .ok () => true
    | .error _ => false, s)

theorem Ordered.walked_visitLeaf_iff (h : t.Ordered) (hroot : root < t.size) {w : Writer} {out : Attempt} :
    t.Walked t.visitLeaf 0 [root] (.ok (), w) out ↔ out = t.writeDerivation w := by
  have hpieces : t.derivationPieces = t.allNodes.flatMap fun (n, _) =>
      if n.children.isEmpty then [n.content.display ++ text " "] else [] := by
    rw [derivationPieces, List.filterMap_eq_flatMap_toList]
    apply List.flatMap_congr
    intro (n, _) _
    dsimp only
    split <;> rfl
  rw [writeDerivation, hpieces]
  refine h.walked_offer_iff hroot
    (fun n _ => if n.children.isEmpty then [n.content.display ++ text " "] else []) ?_ ?_
  · intro i n hn depth s
    unfold visitLeaf
    rw [hn]
    cases hs : s.1 with
    | error e => exact (Attempt.foldl_offer_of_error hs _).symm
    | ok _ =>
      dsimp only
      split <;> rfl
  · intro i depth s hfalse
    unfold visitLeaf at hfalse ⊢
    cases hs : s.1 with
    | error e =>
      rw [hs] at hfalse
      exact ⟨e, hs⟩
    | ok _ =>
      rw [hs] at hfalse
      cases hn : t.nodes[i]? <;> rw [hn] at hfalse <;> cases hfalse

theorem Ordered.walked_visitLine_iff (h : t.Ordered) (hroot : root < t.size) {w : Writer} {out : Attempt} :
    t.Walked t.visitLine 0 [root] (.ok (), w) out ↔ out = t.writeDump w := by
  refine h.walked_offer_iff hroot
    (fun n depth => List.replicate depth (text "    ") ++ [n.content.dumpLine]) ?_ ?_
  · intro i n hn depth s
    rw [List.foldl_append]
    unfold visitLine
    rw [hn]
    rfl
  · intro i depth s hfalse
    unfold visitLine at hfalse ⊢
    dsimp only at hfalse ⊢
    split at hfalse
    · cases hfalse
    · next e he => exact ⟨e, he⟩

/-! ### Full renderings and their beginnings -/

/-- However a tree was built, the walks that write its derivation and its dump end, with what
`writeDerivation` and `writeDump` say.  With room for `limit` bytes each writes the beginning of its full
rendering of that length, fails exactly if the rendering is longer, and does not write after the failure. -/
theorem rendering_cut_short (h : t.Built) (limit : Nat) :
    (∀ w out, t.Walked t.visitLeaf 0 [root] (.ok (), w) out ↔ out = t.writeDerivation w) ∧
      (∀ w out, t.Walked t.visitLine 0 [root] (.ok (), w) out ↔ out = t.writeDump w) ∧
      Writer.CutShort limit (t.writeDerivation {}) (t.writeDerivation { room := some limit }) ∧
      Writer.CutShort limit (t.writeDump {}) (t.writeDump { room := some limit }) :=
  ⟨fun _ _ => h.ordered.walked_visitLeaf_iff h.size_pos, fun _ _ => h.ordered.walked_visitLine_iff h.size_pos,
    Writer.cutShort_writeAll _ limit, Writer.cutShort_writeAll _ limit⟩

/-- A dump that fails within an indentation, with a grandchild and another child still to come. -/
theorem rendering_cut_short_in_indentation : ∃ t : Tree, t.Built ∧ t.size = 4 ∧
    (t.writeDump { room := some 5 }).2.chunks = #[text "a\n", text "   "] ∧
    (∃ out, t.Walked t.visitLine 0 [root] (.ok (), { room := some 5 }) out ∧ out.1 = .error .full) ∧
    Writer.CutShort 5 (t.writeDump {}) (t.writeDump { room := some 5 }) := by
  have hbuilt := (((Built.root (text "a")).attach (p := 0) (by decide) (.label (text "b"))).attach (p := 1)
    (by decide) (.token {})).attach (p := 0) (by decide) (.label (text "c"))
  have hcut := rendering_cut_short hbuilt 5
  exact ⟨_, hbuilt, rfl, by decide +kernel, ⟨_, (hcut.2.1 _ _).2 rfl, by decide +kernel⟩, hcut.2.2.2⟩

end Tree

end MicroLang
