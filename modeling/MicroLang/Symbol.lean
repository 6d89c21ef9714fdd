import MicroLang.Text

/-!
# Symbols

The names of a program live in one flat scope.  The table lists them in the order in which they were
first entered; entering a name again changes nothing.  Beside the list the table has an index, in which a
symbol is found by its name, and every table comes with the fact that the two agree.
-/

namespace MicroLang

inductive SymbolKind where
  | variable
  | temporary
  | unknown (code : Int)
deriving DecidableEq, Repr

namespace SymbolKind

/-- The symbol kind with the given code. -/
def ofCode (code : Int) : SymbolKind :=
  if code = 0 then .variable else if code = 1 then .temporary else .unknown code

def name : SymbolKind → Text
  | .variable => text "variable"
  | .temporary => text "temporary"
  | .unknown _ => text "unknown"

end SymbolKind

/-- A declared name with its place in the order of declaration. -/
structure Symbol where
  name : Text
  kind : SymbolKind
  index : Nat
deriving DecidableEq, Repr

/-- In an index by name the entry that came last is the one that counts. -/
theorem lookup_cons_ite {α : Type} (n name : Text) (a : α) (index : List (Text × α)) :
    ((name, a) :: index).lookup n = if n = name then some a else index.lookup n := by
  rw [List.lookup_cons]
  by_cases hn : n = name
  · simp [hn]
  · have hkey : (n == name) = false := beq_eq_false_iff_ne.2 hn
    simp only [hkey, if_neg hn]

/-- The symbols in the order of declaration, and the same symbols by name. -/
structure SymbolTable where
  symbols : Array Symbol
  byName : List (Text × Symbol)
  /-- A name leads to the symbol that is listed under it. -/
  agrees : ∀ name, byName.lookup name = symbols.find? fun s => s.name = name
deriving DecidableEq, Repr

namespace SymbolTable

/-- The table of a program that has no names yet. -/
def empty : SymbolTable := { symbols := #[], byName := [], agrees := fun _ => rfl }

def size (t : SymbolTable) : Nat := t.symbols.size

/-- The symbol with the given name. -/
def lookup? (t : SymbolTable) (name : Text) : Option Symbol := t.byName.lookup name

theorem lookup?_eq_find? (t : SymbolTable) (name : Text) :
    t.lookup? name = t.symbols.find? fun s => s.name = name := t.agrees name

/-- Lists a symbol behind all others.  Its name must be new: the index finds the symbol that came last, and
a search of the list the one that came first. -/
def add (t : SymbolTable) (s : Symbol) (h : t.lookup? s.name = none) : SymbolTable where
  symbols := t.symbols.push s
  byName := (s.name, s) :: t.byName
  agrees := by
    intro name
    rw [lookup_cons_ite, Array.find?_push, ← t.agrees name]
    by_cases hname : name = s.name
    · subst hname
      have hnew : t.byName.lookup s.name = none := h
      simp [hnew]
    · have hother : s.name ≠ name := fun hs => hname hs.symm
      simp [hname, hother]

/-- Enters a name unless it is there.  Returns its symbol and whether it is new. -/
def enter (t : SymbolTable) (name : Text) (kind : SymbolKind) : SymbolTable × Symbol × Bool :=
  match h : t.lookup? name with
  | some s => (t, s, false)
  | none =>
    let s : Symbol := { name, kind, index := t.size }
    (t.add s h, s, true)

/-- All names in the order of declaration. -/
def names (t : SymbolTable) : List Text := t.symbols.toList.map Symbol.name

theorem enter_of_lookup? {t : SymbolTable} {name : Text} {s : Symbol} (h : t.lookup? name = some s)
    (kind : SymbolKind) : t.enter name kind = (t, s, false) := by
  unfold enter
  split
  · next hfound => rw [Option.some.inj (hfound.symm.trans h)]
  · next hnone => cases hnone.symm.trans h

theorem enter_of_new {t : SymbolTable} {name : Text} (h : t.lookup? name = none) (kind : SymbolKind) :
    t.enter name kind =
      (t.add { name, kind, index := t.size } h, { name, kind, index := t.size }, true) := by
  unfold enter
  split
  · next hfound => cases hfound.symm.trans h
  · rfl

theorem names_enter_of_new {t : SymbolTable} {name : Text} (h : t.lookup? name = none)
    (kind : SymbolKind) : (t.enter name kind).1.names = t.names ++ [name] := by
  rw [enter_of_new h]
  simp only [add, names, Array.toList_push, List.map_append, List.map_cons, List.map_nil]

end SymbolTable

end MicroLang
