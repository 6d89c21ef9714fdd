import MicroLang.Proofs.Descent
import MicroLang.Proofs.Growth
import MicroLang.Proofs.Offsets

/-!
# Every parse ends

A source is scanned by offsets and its tokens are parsed without a bound on the depth.  This has a result for
every source, with any tracker and with or without a trace, and the result is the parse.  So no loop of the
scanner and no recursion of the productions goes on for ever, no slice of the source and no walk of the tree
fails, and no node is added below a number that names none.  Only a lexical error can end a parse early, and
what was built of the tree until then is kept.
-/

namespace MicroLang

open Parse

theorem Tree.walkable_ofRoot (label : Text) : (ofRoot label).Walkable :=
  ⟨ordered_ofRoot label, Nat.zero_lt_one⟩

/-- A source that is scanned by offsets and then parsed without a bound has this outcome.  There is none if a
slice does not lie in the source, if the productions call each other for ever or if a walk of the tree does not
end. -/
def Descent.OfSource (filename src : Text) (tracker : Tracker) (tracing : Bool)
    (outcome : Except Abort Unit × ParseState) : Prop :=
  ∃ stream ∈ Stream.sliced? filename src,
    systemGoal.Ends Stream.source { stream, tracker, tracing, tracingActions := tracing } outcome

/-- It has the outcome of the parse and no other. -/
theorem Descent.ofSource_iff (filename src : Text) (tracker : Tracker) (tracing : Bool)
    (outcome : Except Abort Unit × ParseState) :
    OfSource filename src tracker tracing outcome ↔
      outcome = ofResult ((Parse.systemGoal
        ((ParseState.initial filename src tracker tracing).stream.tokens.length + 1)).run
          (.initial filename src tracker tracing)) := by
  have hends := (ends_systemGoal (s := .initial filename src tracker tracing)
    (Stream.scanned_ofSource filename src) (Tree.walkable_ofRoot _)).1
  constructor
  · rintro ⟨stream, hstream, houtcome⟩
    rw [Stream.sliced?_eq] at hstream
    cases hstream
    exact Ends.unique houtcome hends
  · rintro rfl
    exact ⟨_, Stream.sliced?_eq filename src, hends⟩

/-- A parse has an outcome, whatever the source, the tracker and the trace are: it runs to its end, or the
lexical error in which the source ends aborts it.  In both cases there is a tree, which has a root and in which
all numbers of children are those of later nodes. -/
theorem Parsed.always_ends (filename src : Text) (tracker : Tracker) (tracing : Bool) :
    (∃ result, (∀ outcome, Descent.OfSource filename src tracker tracing outcome ↔
        outcome = (result, (ofSource filename src tracker tracing).state)) ∧
      (result = .ok () ∧ (ofSource filename src tracker tracing).abort = none ∨
        ∃ e, result = .error (.lexical e) ∧
          (ofSource filename src tracker tracing).abort = some (.lexical e) ∧
          (Stream.ofSource filename src).ending = .fault e)) ∧
    (ofSource filename src tracker tracing).tree.Rooted ∧
    (ofSource filename src tracker tracing).tree.Ordered := by
  have hscanned := Stream.scanned_ofSource filename src
  have hgrowing := ParseState.growing_initial filename src tracker tracing
  have hsource : ofSource filename src tracker tracing = ofState (.initial filename src tracker tracing) := rfl
  have hwalkable : (ofState (.initial filename src tracker tracing)).tree.Walkable := by
    rw [tree, state_ofState]
    exact (Descent.ends_systemGoal hscanned (Tree.walkable_ofRoot _)).2
  have houtcome := Descent.ofSource_iff filename src tracker tracing
  rw [hsource]
  refine ⟨?_, (partialParse_ofState hscanned hgrowing rfl).1.rooted, hwalkable.ordered⟩
  rcases ofState_cases hscanned hgrowing with ⟨s', hrun, hparsed⟩ | ⟨e, s', hrun, hparsed, hfault⟩
  · rw [hrun] at houtcome
    rw [hparsed]
    exact ⟨.ok (), houtcome, .inl ⟨rfl, rfl⟩⟩
  · rw [hrun] at houtcome
    rw [hparsed]
    exact ⟨.error (.lexical e), houtcome, .inr ⟨e, rfl, rfl, hfault⟩⟩

end MicroLang
