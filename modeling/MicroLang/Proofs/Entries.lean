import Mathlib.Data.List.Nodup
import MicroLang.Proofs.Muting
import MicroLang.Proofs.Operands

/-!
# Entries of the table of symbols

A name gets into the table of symbols by being entered: by a caller of the table, by an action of the code
generator that mentions an identifier, or by one that needs a new temporary.  The first entry of a name
decides on its symbol and on its place, and later ones change nothing.  So the table records its entries:
the names in the order in which each came first, numbered from zero, and each with the kind of its first
entry.  One entry keeps this, and hence any number of them does.

Temporaries are numbered as well.  As long as callers pass no name with an ampersand in it, the names of
temporaries that are in the table are exactly those of the numbers given out, and the next one is new.
-/

namespace MicroLang

namespace SymbolTable

variable {t t' : SymbolTable} {name : Text} {kind : SymbolKind} {entries : List (Text × SymbolKind)}

/-- The table behind entries one after the other. -/
def enterAll (t : SymbolTable) (entries : List (Text × SymbolKind)) : SymbolTable :=
  entries.foldl (fun t e => (t.enter e.1 e.2).1) t

/-! ### One entry -/

theorem lookup?_add {s : Symbol} (h : t.lookup? s.name = none) (n : Text) :
    (t.add s h).lookup? n = if n = s.name then some s else t.lookup? n :=
  lookup_cons_ite n s.name s t.byName

/-- A symbol is found under its own name, and it is in the list. -/
theorem of_lookup? {s : Symbol} {n : Text} (h : t.lookup? n = some s) : s.name = n ∧ s ∈ t.symbols := by
  rw [lookup?_eq_find?] at h
  have hname := Array.find?_some h
  exact ⟨of_decide_eq_true hname, Array.mem_of_find?_eq_some h⟩

theorem mem_names_of_lookup? {s : Symbol} {n : Text} (h : t.lookup? n = some s) : n ∈ t.names := by
  obtain ⟨hname, hmem⟩ := of_lookup? h
  exact List.mem_map.2 ⟨s, Array.mem_toList_iff.2 hmem, hname⟩

theorem mem_names_enter (t : SymbolTable) (name : Text) (kind : SymbolKind) (x : Text) :
    x ∈ (t.enter name kind).1.names ↔ x ∈ t.names ∨ x = name := by
  cases hlookup : t.lookup? name with
  | some s =>
    have hknown := mem_names_of_lookup? hlookup
    rw [enter_of_lookup? hlookup]
    exact ⟨.inl, fun hx => hx.elim id fun hname => hname ▸ hknown⟩
  | none => rw [names_enter_of_new hlookup, List.mem_append, List.mem_singleton]

/-- What an entry is answered with: whether the name is new, and the symbol that it has from now on. -/
structure Answers (t : SymbolTable) (name : Text) (kind : SymbolKind) : Prop where
  added_iff : (t.enter name kind).2.2 = true ↔ t.lookup? name = none
  found : (t.enter name kind).1.lookup? name = some (t.enter name kind).2.1
  unchanged : ∀ s, t.lookup? name = some s → t.enter name kind = (t, s, false)

theorem answers (t : SymbolTable) (name : Text) (kind : SymbolKind) : t.Answers name kind := by
  cases hlookup : t.lookup? name with
  | some s =>
    refine ⟨?_, ?_, fun s h => enter_of_lookup? h kind⟩
    · simp [enter_of_lookup? hlookup kind, hlookup]
    · rw [enter_of_lookup? hlookup]
      exact hlookup
  | none =>
    refine ⟨?_, ?_, fun s h => enter_of_lookup? h kind⟩
    · simp [enter_of_new hlookup kind, hlookup]
    · rw [enter_of_new hlookup, lookup?_add]
      exact if_pos rfl

/-! ### Symbols are kept -/

/-- The second table has all symbols of the first, under the same names and in the same places. -/
structure Kept (t t' : SymbolTable) : Prop where
  lookup? : ∀ n s, t.lookup? n = some s → t'.lookup? n = some s
  getElem? : ∀ (i : Nat) s, t.symbols[i]? = some s → t'.symbols[i]? = some s

theorem kept_refl (t : SymbolTable) : t.Kept t := ⟨fun _ _ h => h, fun _ _ h => h⟩

theorem Kept.trans {t'' : SymbolTable} (h : t.Kept t') (h' : t'.Kept t'') : t.Kept t'' :=
  ⟨fun n s hs => h'.lookup? n s (h.lookup? n s hs), fun i s hs => h'.getElem? i s (h.getElem? i s hs)⟩

theorem kept_enter (t : SymbolTable) (name : Text) (kind : SymbolKind) : t.Kept (t.enter name kind).1 := by
  cases hlookup : t.lookup? name with
  | some s =>
    rw [enter_of_lookup? hlookup]
    exact kept_refl t
  | none =>
    rw [enter_of_new hlookup]
    constructor
    · intro n s hs
      rw [lookup?_add, if_neg, hs]
      rintro rfl
      cases hlookup.symm.trans hs
    · intro i s hs
      have hi : i < t.symbols.size := (Array.getElem?_eq_some_iff.1 hs).1
      show (t.symbols.push _)[i]? = some s
      rw [Array.getElem?_push, if_neg (Nat.ne_of_lt hi), hs]

theorem kept_enterAll (t : SymbolTable) (entries : List (Text × SymbolKind)) :
    t.Kept (t.enterAll entries) := by
  induction entries generalizing t with
  | nil => exact kept_refl t
  | cons e entries ih => exact (kept_enter t e.1 e.2).trans (ih _)

/-! ### The record of the entries -/

theorem lookup_concat (entries : List (Text × SymbolKind)) (name : Text) (kind : SymbolKind) (n : Text) :
    (entries ++ [(name, kind)]).lookup n = (entries.lookup n).or (if n = name then some kind else none) := by
  rw [List.lookup_append, lookup_cons_ite, List.lookup_nil]

theorem eraseDups_concat (l : List Text) (x : Text) :
    (l ++ [x]).eraseDups = if x ∈ l then l.eraseDups else l.eraseDups ++ [x] := by
  rw [List.eraseDups_append]
  by_cases hx : x ∈ l
  · simp [List.removeAll, hx]
  · simp [List.removeAll, hx, List.eraseDups_cons]

/-- The table is what entries, all from the first, have made of it. -/
structure Records (t : SymbolTable) (entries : List (Text × SymbolKind)) : Prop where
  kind_eq : ∀ n, (t.lookup? n).map Symbol.kind = entries.lookup n
  index_eq : ∀ (i : Nat) s, t.symbols[i]? = some s → s.index = i
  names_eq : t.names = (entries.map Prod.fst).eraseDups
  nodup_names : t.names.Nodup

theorem records_empty : empty.Records [] where
  kind_eq := fun _ => rfl
  index_eq := by
    intro i s hs
    simp [empty] at hs
  names_eq := rfl
  nodup_names := List.nodup_nil

namespace Records

theorem mem_names_iff (h : t.Records entries) (n : Text) : n ∈ t.names ↔ n ∈ entries.map Prod.fst := by
  rw [h.names_eq, List.mem_eraseDups]

/-- A name that is there already has its kind from an earlier entry. -/
theorem enter_known (h : t.Records entries) {s : Symbol} (hlookup : t.lookup? name = some s) :
    t.Records (entries ++ [(name, kind)]) where
  kind_eq := by
    intro n
    rw [lookup_concat, ← h.kind_eq n]
    by_cases hn : n = name
    · simp [hn, hlookup]
    · simp [hn]
  index_eq := h.index_eq
  names_eq := by
    have hknown := (h.mem_names_iff name).1 (mem_names_of_lookup? hlookup)
    rw [List.map_append, List.map_singleton, eraseDups_concat, if_pos hknown, h.names_eq]
  nodup_names := h.nodup_names

/-- A new name gets the next place and the kind that it is entered with. -/
theorem enter_new (h : t.Records entries) (hlookup : t.lookup? name = none) :
    (t.enter name kind).1.Records (entries ++ [(name, kind)]) where
  kind_eq := by
    intro n
    rw [enter_of_new hlookup, lookup?_add, lookup_concat, ← h.kind_eq n]
    by_cases hn : n = name
    · simp [hn, hlookup]
    · simp [hn]
  index_eq := by
    intro i s hs
    rw [enter_of_new hlookup] at hs
    simp only [add, Array.getElem?_push] at hs
    split at hs
    · next hi =>
      cases hs
      exact hi.symm
    · exact h.index_eq i s hs
  names_eq := by
    have hnew : name ∉ entries.map Prod.fst := by
      rw [← h.mem_names_iff]
      exact lookup?_eq_none_iff.1 hlookup
    rw [names_enter_of_new hlookup, List.map_append, List.map_singleton, eraseDups_concat, if_neg hnew,
      h.names_eq]
  nodup_names := by
    rw [names_enter_of_new hlookup, List.nodup_append]
    refine ⟨h.nodup_names, List.nodup_singleton name, ?_⟩
    rintro x hx y hy rfl
    exact lookup?_eq_none_iff.1 hlookup (List.mem_singleton.1 hy ▸ hx)

theorem enter (h : t.Records entries) (name : Text) (kind : SymbolKind) :
    (t.enter name kind).1.Records (entries ++ [(name, kind)]) := by
  cases hlookup : t.lookup? name with
  | some s =>
    rw [enter_of_lookup? hlookup]
    exact h.enter_known hlookup
  | none => exact h.enter_new hlookup

theorem enterAll (h : t.Records entries) (more : List (Text × SymbolKind)) :
    (t.enterAll more).Records (entries ++ more) := by
  induction more generalizing t entries with
  | nil =>
    rw [List.append_nil]
    exact h
  | cons e more ih =>
    have hmore := ih (h.enter e.1 e.2)
    rwa [List.append_assoc] at hmore

end Records

/-! ### The representation -/

/-- The list and the index have the same symbols.  Those are found that were entered, each has its own place
in the list for an index and the kind of the first entry of its name, and the list has the names in the
order in which they were first entered. -/
structure Represents (t : SymbolTable) (entries : List (Text × SymbolKind)) : Prop where
  found_iff : ∀ n, (∃ s, t.lookup? n = some s) ↔ n ∈ entries.map Prod.fst
  found : ∀ n s, t.lookup? n = some s →
    t.symbols[s.index]? = some s ∧ s.name = n ∧ entries.lookup n = some s.kind
  listed : ∀ (i : Nat) s, t.symbols[i]? = some s → s.index = i ∧ t.lookup? s.name = some s
  names_eq : t.names = (entries.map Prod.fst).eraseDups
  nodup_names : t.names.Nodup

theorem Records.represents (h : t.Records entries) : t.Represents entries where
  found_iff := by
    intro n
    rw [← h.mem_names_iff, ← Option.isSome_iff_exists, Option.isSome_iff_ne_none, Ne, lookup?_eq_none_iff,
      not_not]
  found := by
    intro n s hs
    obtain ⟨hname, hmem⟩ := of_lookup? hs
    obtain ⟨i, hi⟩ := Array.getElem?_of_mem hmem
    refine ⟨?_, hname, ?_⟩
    · rw [h.index_eq i s hi, hi]
    · rw [← h.kind_eq n, hs]
      rfl
  listed := by
    intro i s hi
    refine ⟨h.index_eq i s hi, ?_⟩
    have hmem : s ∈ t.symbols.toList := Array.mem_toList_iff.2 (Array.mem_of_getElem? hi)
    cases hlookup : t.lookup? s.name with
    | none => exact absurd (List.mem_map_of_mem hmem) (lookup?_eq_none_iff.1 hlookup)
    | some s' =>
      -- Names are distinct, so the symbol that is found can only be the one that is listed.
      obtain ⟨hname, hmem'⟩ := of_lookup? hlookup
      rw [List.inj_on_of_nodup_map h.nodup_names (Array.mem_toList_iff.2 hmem') hmem hname]
  names_eq := h.names_eq
  nodup_names := h.nodup_names

end SymbolTable

/-! ### Requests -/

/-- A call from outside: an entry in the table itself, or an action of the code generator, which may be
muted. -/
inductive Request where
  | enter (name : Text) (kind : SymbolKind)
  | act (muted : Bool) (action : Action)
deriving DecidableEq, Repr

/-- What a request enters in the table: a name that is passed with it, or the next temporary. -/
inductive Entry where
  | named (name : Text) (kind : SymbolKind)
  | temporary
deriving DecidableEq, Repr

def Request.entry? : Request → Option Entry
  | .enter name kind => some (.named name kind)
  | .act _ (.enterVariable name) => some (.named name .variable)
  | .act _ (.identifier name) => some (.named name .variable)
  | .act _ .newTemporary => some .temporary
  | .act _ (.combine _ _ _) => some .temporary
  | .act _ _ => none

namespace Entry

/-- No name with an ampersand in it is passed. -/
def Plain : Entry → Prop
  | .named name _ => 38 ∉ name
  | .temporary => True

instance : DecidablePred Plain
  | .named name _ => inferInstanceAs (Decidable (38 ∉ name))
  | .temporary => inferInstanceAs (Decidable True)

/-- The names of entries with their kinds, where some number of temporaries was given out before. -/
def spelled (given : Nat) : List Entry → List (Text × SymbolKind)
  | [] => []
  | .named name kind :: entries => (name, kind) :: spelled given entries
  | .temporary :: entries =>
    (Generator.temporaryName (given + 1), .temporary) :: spelled (given + 1) entries

end Entry

namespace Generator

variable {g : Generator} {r : Request}

/-- The generator behind a request. -/
def serve (g : Generator) : Request → Generator
  | .enter name kind => { g with symbols := (g.symbols.enter name kind).1 }
  | .act muted action => (action.perform muted g).generator

/-- The generator behind requests one after the other. -/
def serveAll (g : Generator) (requests : List Request) : Generator := requests.foldl serve g

/-- The generator that requests make of a new one. -/
def served (requests : List Request) : Generator := serveAll {} requests

/-- All entries of requests to a new generator. -/
def entered (requests : List Request) : List (Text × SymbolKind) :=
  Entry.spelled 0 (requests.filterMap Request.entry?)

/-- What a request does to the symbols and to the number of temporaries. -/
inductive Served (g g' : Generator) : Option Entry → Prop
  | idle : g'.symbols = g.symbols → g'.temporaries = g.temporaries → Served g g' none
  | named {name : Text} {kind : SymbolKind} : g'.symbols = (g.symbols.enter name kind).1 →
      g'.temporaries = g.temporaries → Served g g' (some (.named name kind))
  | temporary : g'.symbols = (g.symbols.enter (temporaryName (g.temporaries + 1)) .temporary).1 →
      g'.temporaries = g.temporaries + 1 → Served g g' (some .temporary)

theorem served_emit (muted : Bool) (i : Instruction) (g : Generator) :
    Served g (emit muted i g).generator none := .idle (symbols_emit muted i g) (temporaries_emit muted i g)

theorem served_declare (muted : Bool) (name : Text) (kind : SymbolKind) (g : Generator) :
    Served g (declare muted name kind g).generator (some (.named name kind)) := by
  have hshown := Impartial.shown_declaring name kind muted g
  exact .named hshown.symbols hshown.temporaries

theorem served_newTemporary (muted : Bool) (g : Generator) :
    Served g (newTemporary muted g).generator (some .temporary) := by
  have hshown := Impartial.shown_declaring (temporaryName (g.temporaries + 1)) .temporary muted
    { g with temporaries := g.temporaries + 1 }
  exact .temporary hshown.symbols hshown.temporaries

theorem served_serve (g : Generator) (r : Request) : Served g (g.serve r) r.entry? := by
  cases r with
  | enter name kind => exact .named rfl rfl
  | act muted action =>
    cases action with
    | start => exact .idle rfl rfl
    | finish => exact served_emit muted _ g
    | enterVariable name => exact served_declare muted name .variable g
    | identifier name => exact served_declare muted name .variable g
    | literal digits => exact .idle rfl rfl
    | newTemporary => exact served_newTemporary muted g
    | operation operator => exact .idle rfl rfl
    | combine left op right =>
      obtain _ | _ | ⟨hsymbols, htemporaries⟩ := served_newTemporary muted g
      refine .temporary ?_ ?_
      · exact (symbols_emit muted _ _).trans hsymbols
      · exact (temporaries_emit muted _ _).trans htemporaries
    | assign source destination => exact served_emit muted _ g
    | readInto operand => exact served_emit muted _ g
    | writeExpression operand => exact served_emit muted _ g

/-- All that requests do to the table is to make their entries. -/
theorem symbols_serveAll (g : Generator) (requests : List Request) :
    (g.serveAll requests).symbols =
      g.symbols.enterAll (Entry.spelled g.temporaries (requests.filterMap Request.entry?)) := by
  induction requests generalizing g with
  | nil => rfl
  | cons r requests ih =>
    show ((g.serve r).serveAll requests).symbols = _
    rw [ih, List.filterMap_cons]
    have hserved := served_serve g r
    -- What the request did follows from its entry, which is all that the right side reads of it.
    generalize r.entry? = entry at hserved
    cases hserved with
    | idle hsymbols htemporaries => rw [hsymbols, htemporaries]
    | named hsymbols htemporaries =>
      rw [hsymbols, htemporaries]
      rfl
    | temporary hsymbols htemporaries =>
      rw [hsymbols, htemporaries]
      rfl

/-! ### Numbers of temporaries -/

/-- The names of temporaries in the table are those of the numbers given out. -/
def Numbered (g : Generator) : Prop :=
  ∀ n, temporaryName n ∈ g.symbols.names ↔ 1 ≤ n ∧ n ≤ g.temporaries

theorem ampersand_mem_temporaryName (n : Nat) : 38 ∈ temporaryName n :=
  List.mem_append_left _ (by decide)

theorem Numbered.serve (h : g.Numbered) (hplain : ∀ e ∈ r.entry?, e.Plain) : (g.serve r).Numbered := by
  intro n
  have hserved := served_serve g r
  generalize r.entry? = entry at hserved hplain
  cases hserved with
  | idle hsymbols htemporaries => rw [hsymbols, htemporaries, h n]
  | @named name kind hsymbols htemporaries =>
    -- The name that was passed has no ampersand, so it is not that of a temporary.
    have hne : temporaryName n ≠ name := by
      intro hname
      have hname_plain : 38 ∉ name := hplain _ rfl
      exact hname_plain (hname ▸ ampersand_mem_temporaryName n)
    rw [hsymbols, htemporaries, SymbolTable.mem_names_enter, h n, or_iff_left hne]
  | temporary hsymbols htemporaries =>
    have hinj : temporaryName n = temporaryName (g.temporaries + 1) ↔ n = g.temporaries + 1 :=
      ⟨temporaryName_inj, congrArg temporaryName⟩
    rw [hsymbols, htemporaries, SymbolTable.mem_names_enter, h n, hinj]
    omega

theorem Numbered.serveAll (h : g.Numbered) {requests : List Request}
    (hplain : ∀ e ∈ requests.filterMap Request.entry?, e.Plain) : (g.serveAll requests).Numbered := by
  induction requests generalizing g with
  | nil => exact h
  | cons r requests ih =>
    refine ih (h.serve fun e he => hplain e ?_) fun e he => hplain e ?_
    · exact List.mem_filterMap.2 ⟨r, List.mem_cons_self, he⟩
    · obtain ⟨r', hr', he'⟩ := List.mem_filterMap.1 he
      exact List.mem_filterMap.2 ⟨r', List.mem_cons_of_mem r hr', he'⟩

theorem Numbered.fresh (h : g.Numbered) : g.Fresh := fun n hn => ((h n).1 hn).2

/-- A new generator has given out no number and has no names. -/
theorem numbered_new : Numbered {} := by
  intro n
  refine ⟨fun hn => absurd hn List.not_mem_nil, fun hn => ?_⟩
  exact absurd hn.2 (Nat.not_le_of_lt hn.1)

/-! ### The table of a new generator -/

/-- Behind any requests the table is that of the entries made and represents them, the next entry is answered
as it should be, and no request that comes later changes a symbol.  If no name with an ampersand in it was
passed, the next temporary has a new name. -/
theorem entries_keep_representation (requests later : List Request) :
    (served requests).symbols = SymbolTable.empty.enterAll (entered requests) ∧
      (served requests).symbols.Represents (entered requests) ∧
      (∀ name kind, (served requests).symbols.Answers name kind) ∧
      (served requests).symbols.Kept (served (requests ++ later)).symbols ∧
      ((∀ e ∈ requests.filterMap Request.entry?, e.Plain) → ∀ muted,
        (served requests).symbols.lookup? ((served requests).newTemporary muted).value = none) := by
  have hsymbols : (served requests).symbols = SymbolTable.empty.enterAll (entered requests) :=
    symbols_serveAll {} requests
  refine ⟨hsymbols, ?_, SymbolTable.answers _, ?_, ?_⟩
  · have hrecords := SymbolTable.records_empty.enterAll (entered requests)
    rw [hsymbols]
    exact hrecords.represents
  · have hlater : served (requests ++ later) = (served requests).serveAll later := List.foldl_append
    rw [hlater, symbols_serveAll]
    exact SymbolTable.kept_enterAll _ _
  · intro hplain muted
    have hnumbered : (served requests).Numbered := numbered_new.serveAll hplain
    exact SymbolTable.lookup?_eq_none_iff.2 hnumbered.fresh.not_mem

theorem entries_keep_representation_between_temporaries :
    ∃ requests : List Request, (∀ e ∈ requests.filterMap Request.entry?, e.Plain) ∧
      (served requests).symbols.names = [temporaryName 1, text "Temp"] ∧
      (served requests).symbols.lookup? (temporaryName 2) = none ∧
      (served (requests ++ [.enter (text "Temp") .temporary])).symbols.lookup? (text "Temp") =
        some { name := text "Temp", kind := .unknown 7, index := 1 } := by
  have hplain : ∀ e ∈ [Request.act true .newTemporary, .enter (text "Temp") (.unknown 7),
      .act false (.identifier (text "Temp"))].filterMap Request.entry?, e.Plain := by decide +kernel
  obtain ⟨-, -, -, hkept, hfresh⟩ := entries_keep_representation
    [.act true .newTemporary, .enter (text "Temp") (.unknown 7), .act false (.identifier (text "Temp"))]
    [.enter (text "Temp") .temporary]
  exact ⟨_, hplain, by decide +kernel, hfresh hplain false, hkept.lookup? _ _ (by decide +kernel)⟩

/-- A caller can take the name of a temporary away: the symbol found under it is then that of a variable. -/
example : ((served [.enter (text "Temp&1") .variable]).newTemporary false).generator.symbols.lookup?
    (temporaryName 1) = some { name := temporaryName 1, kind := .variable, index := 0 } := by decide +kernel

end Generator

end MicroLang
