import Std.Data.TreeMap.Lemmas
import TwinLisp.Value.Basic

/-!
# Names

Every name that code uses is entered into a table once and is known by its position from then on.
Symbols and keywords share the table.

## Main definitions

* `SymbolTable.intern` enters a name, and `SymbolTable.find?` looks for it without entering it.
* `SymbolTable.name` is the name at a position.

## Main statements

* `SymbolTable.find?_intern`: a name that was entered is found.
* `SymbolTable.find?_eq_some_iff`: a name is found where it stands.
* `SymbolTable.name_of_find?`: what is found for a name has that name.
* `SymbolTable.find?_intern_of_find?`: entering a name leaves the symbols of other names alone.
-/

namespace TwinLisp

/-- The names known to a session. Names and positions correspond one to one. -/
structure SymbolTable where
  /-- The names by position. -/
  names : Array String
  /-- The positions by name. -/
  positions : Std.TreeMap String Nat
  /-- A name leads to the position where it stands, and to no other. -/
  coherent : ∀ (name : String) (i : Nat), positions[name]? = some i ↔ names[i]? = some name

namespace SymbolTable

/-- The table without names. -/
def empty : SymbolTable := ⟨#[], ∅, by simp⟩

/-- How many names there are. -/
def size (t : SymbolTable) : Nat := t.names.size

/-- The symbol with the given name, if the name is known. -/
def find? (t : SymbolTable) (name : String) : Option Symbol := t.positions[name]?.map Symbol.mk

theorem coherent_push (t : SymbolTable) {name : String} (h : t.find? name = none) (other : String)
    (i : Nat) : (t.positions.insert name t.names.size)[other]? = some i ↔
      (t.names.push name)[i]? = some other := by
  have absent : t.positions[name]? = none := by simpa [find?] using h
  rw [Std.TreeMap.getElem?_insert, Array.getElem?_push]
  by_cases e : compare name other = .eq
  · obtain rfl := Std.LawfulEqOrd.eq_of_compare e
    rw [if_pos Std.ReflOrd.compare_self]
    by_cases hi : i = t.names.size
    · simp [hi]
    · have : t.names[i]? ≠ some name := fun e => by
        rw [(t.coherent name i).2 e] at absent
        cases absent
      rw [if_neg hi]
      simp [this, Ne.symm hi]
  · have ne : name ≠ other := fun he => e (he ▸ Std.ReflOrd.compare_self)
    rw [if_neg e, t.coherent]
    by_cases hi : i = t.names.size
    · simp [hi, ne]
    · rw [if_neg hi]

/-- The symbol with the given name, which becomes known. -/
def intern (t : SymbolTable) (name : String) : SymbolTable × Symbol :=
  match h : t.find? name with
  | some s => (t, s)
  | none =>
    (⟨t.names.push name, t.positions.insert name t.names.size, t.coherent_push h⟩,
      ⟨t.names.size⟩)

/-- The name of a symbol. -/
def name (t : SymbolTable) (s : Symbol) : String := t.names[s.index]?.getD "?"

@[simp] theorem find?_empty (name : String) : empty.find? name = none := by
  simp [find?, empty]

theorem find?_intern (t : SymbolTable) (name : String) :
    (t.intern name).1.find? name = some (t.intern name).2 := by
  unfold intern
  split
  · assumption
  · simp [find?]

/-- A name is found where it stands. -/
theorem find?_eq_some_iff {t : SymbolTable} {name : String} {s : Symbol} :
    t.find? name = some s ↔ t.names[s.index]? = some name := by
  rw [← t.coherent, find?, Option.map_eq_some_iff]
  constructor
  · rintro ⟨i, hi, rfl⟩
    exact hi
  · exact fun h => ⟨s.index, h, rfl⟩

theorem name_of_find? {t : SymbolTable} {name : String} {s : Symbol} (h : t.find? name = some s) :
    t.name s = name := by
  simp [SymbolTable.name, find?_eq_some_iff.1 h]

theorem find?_intern_of_find? {t : SymbolTable} {other : String} {s : Symbol} (name : String)
    (h : t.find? other = some s) : (t.intern name).1.find? other = some s := by
  unfold intern
  split
  · exact h
  · next absent =>
    have ne : ¬ compare name other = .eq := fun e => by
      rw [Std.LawfulEqOrd.eq_of_compare e, h] at absent
      cases absent
    simpa [find?, Std.TreeMap.getElem?_insert, ne] using h

end SymbolTable

end TwinLisp
