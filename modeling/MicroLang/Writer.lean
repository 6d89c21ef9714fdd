import MicroLang.Text

/-!
# Writers with limited room

A writer takes bytes until its room is used up.  Of the write that does not fit any more it takes what
fits, and that write fails.  From then on every write fails that brings any bytes; the empty text always
fits.  A writer without a limit takes everything.
-/

namespace MicroLang

/-- Why a write failed. -/
inductive WriteError where
  /-- The room of the writer is used up. -/
  | full
deriving DecidableEq, Repr

def WriteError.message : WriteError → Text
  | .full => text "limit reached"

/-- The room left, where limited, and the writes taken so far. -/
structure Writer where
  room : Option Nat := none
  chunks : Array Text := #[]
deriving DecidableEq, Repr

namespace Writer

/-- All bytes taken so far. -/
def written (w : Writer) : Text := w.chunks.toList.flatten

/-- Offers a text to the writer. -/
def write (t : Text) (w : Writer) : Except WriteError Unit × Writer :=
  match w.room with
  | none => (.ok (), { w with chunks := w.chunks.push t })
  | some room =>
    if t.length ≤ room then
      (.ok (), { room := some (room - t.length), chunks := w.chunks.push t })
    else (.error .full, { room := some 0, chunks := w.chunks.push (t.take room) })

/-- Offers several texts in order and stops at the first failure. -/
def writeAll : List Text → Writer → Except WriteError Unit × Writer
  | [], w => (.ok (), w)
  | t :: ts, w =>
    match w.write t with
    | (.error e, w) => (.error e, w)
    | (.ok (), w) => writeAll ts w

theorem written_push (w : Writer) (room : Option Nat) (t : Text) :
    written { room, chunks := w.chunks.push t } = w.written ++ t := by
  simp only [written, Array.toList_push, List.flatten_append, List.flatten_cons, List.flatten_nil,
    List.append_nil]

theorem write_unlimited (t : Text) (w : Writer) (h : w.room = none) :
    (w.write t).1 = .ok () ∧ (w.write t).2.written = w.written ++ t ∧ (w.write t).2.room = none := by
  simp only [write, h, written_push, and_self]

/-- A writer without a limit takes all texts one after the other. -/
theorem writeAll_unlimited (ts : List Text) (w : Writer) (h : w.room = none) :
    (w.writeAll ts).1 = .ok () ∧ (w.writeAll ts).2.written = w.written ++ ts.flatten := by
  induction ts generalizing w with
  | nil => simp only [writeAll, List.flatten_nil, List.append_nil, and_self]
  | cons t ts ih =>
    have hw := write_unlimited t w h
    have hstep : w.write t = (.ok (), (w.write t).2) := Prod.ext hw.1 rfl
    have hrest := ih (w.write t).2 hw.2.2
    rw [writeAll, hstep]
    refine ⟨hrest.1, ?_⟩
    rw [hrest.2, hw.2.1, List.flatten_cons, List.append_assoc]

end Writer

end MicroLang
