/-!
# Dictionaries of the host

What a host calls a map: values by text. The entries are kept in the order in which their keys first
came in, and no two have the same key.

## Main definitions

* `Dictionary.insert` puts an entry in, in the place of the one with the same key if there is one.
* `Dictionary.ofEntries` puts entries in one after the other.

## Main statements

* `Dictionary.ofEntries_entries`: a dictionary is made of its entries.
-/

namespace TwinLisp

/-- Values by text. -/
@[ext] structure Dictionary (α : Type) where
  /-- The entries, in order of arrival. -/
  entries : List (String × α)
  /-- No two entries have the same key. -/
  nodup : (entries.map (·.1)).Nodup

namespace Dictionary

variable {α : Type}

/-- Put an entry into a list of entries. -/
def insertEntry (key : String) (a : α) : List (String × α) → List (String × α)
  | [] => [(key, a)]
  | e :: es => if e.1 == key then (key, a) :: es else e :: insertEntry key a es

theorem mem_keys_insertEntry {key k : String} {a : α} {es : List (String × α)} :
    k ∈ (insertEntry key a es).map (·.1) ↔ k = key ∨ k ∈ es.map (·.1) := by
  induction es with
  | nil => simp [insertEntry]
  | cons e es ih =>
    by_cases h : e.1 = key
    · simp [insertEntry, h]
    · simp only [insertEntry, beq_iff_eq, h, if_false, List.map_cons, List.mem_cons, ih]
      exact or_left_comm

theorem nodup_insertEntry {key : String} {a : α} {es : List (String × α)}
    (h : (es.map (·.1)).Nodup) : ((insertEntry key a es).map (·.1)).Nodup := by
  induction es with
  | nil => simp [insertEntry]
  | cons e es ih =>
    obtain ⟨head, tail⟩ := List.nodup_cons.1 h
    by_cases he : e.1 = key
    · simpa [insertEntry, he] using ⟨by simpa [he] using head, tail⟩
    · simp only [insertEntry, beq_iff_eq, he, if_false, List.map_cons, List.nodup_cons]
      refine ⟨?_, ih tail⟩
      rw [mem_keys_insertEntry]
      exact fun hk => hk.elim he head

theorem insertEntry_of_notMem {key : String} {a : α} {es : List (String × α)}
    (h : key ∉ es.map (·.1)) : insertEntry key a es = es ++ [(key, a)] := by
  induction es with
  | nil => rfl
  | cons e es ih =>
    simp only [List.map_cons, List.mem_cons, not_or] at h
    have he : ¬ e.1 = key := fun heq => h.1 heq.symm
    simp [insertEntry, he, ih h.2]

/-- The dictionary without entries. -/
def empty : Dictionary α := ⟨[], by simp⟩

/-- Put an entry in, in the place of the one with the same key if there is one. -/
def insert (d : Dictionary α) (key : String) (a : α) : Dictionary α :=
  ⟨insertEntry key a d.entries, nodup_insertEntry d.nodup⟩

/-- The dictionary with the given entries; of two with the same key the later one counts. -/
def ofEntries (es : List (String × α)) : Dictionary α :=
  es.foldl (fun d e => d.insert e.1 e.2) empty

theorem entries_foldl_insert (d : Dictionary α) (es : List (String × α))
    (h : ((d.entries ++ es).map (·.1)).Nodup) :
    (es.foldl (fun d e => d.insert e.1 e.2) d).entries = d.entries ++ es := by
  induction es generalizing d with
  | nil => simp
  | cons e es ih =>
    have fresh : e.1 ∉ d.entries.map (·.1) := by
      simp only [List.map_append, List.map_cons, List.nodup_append] at h
      exact fun hm => h.2.2 _ hm _ (by simp) rfl
    have step : (d.insert e.1 e.2).entries = d.entries ++ [e] := insertEntry_of_notMem fresh
    rw [List.foldl_cons, ih _ (by simpa [step] using h), step]
    simp

/-- A dictionary is made of its entries. -/
theorem ofEntries_entries (d : Dictionary α) : ofEntries d.entries = d := by
  have h := entries_foldl_insert empty d.entries (by simpa [empty] using d.nodup)
  exact Dictionary.ext (by simpa [empty, ofEntries] using h)

end Dictionary

end TwinLisp
