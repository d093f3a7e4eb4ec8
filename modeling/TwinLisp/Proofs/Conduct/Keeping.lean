import TwinLisp.Proofs.Conduct.Obeys
import TwinLisp.Proofs.Heap.Handles
import TwinLisp.Session.Printer

/-!
# What changes keep

Objects never change, atoms apart, and an address never comes to mean another object. So a value is written
in the same way as before as long as everything that is written for it is still there and its atoms hold
what they held.

## Main definitions

* `Session.Keeps`: what is on the heap stays what it is, except for some atoms.
* `Session.Shows`, `Session.Whole`: what is written for a value, and that it is all there.
* `Session.KeepsTexts`: what is kept is written in the same way.

## Main statements

* `Session.Change.keeps`, `Session.Strays.keeps`: what one change keeps, and any number of them.
* `Session.Strays.retains`: without collection, nothing is lost.
* `Session.textWithin_congr`, `Session.Keeps.texts`: texts stay what they are.
-/

namespace TwinLisp

theorem Heap.get?_congr {h g : Heap} (slots : g.slots = h.slots) (a : Address) : g.get? a = h.get? a := by
  unfold get?
  rw [slots]

theorem Heap.Known.congr {h g : Heap} {a : Address} (known : h.Known a) (slots : g.slots = h.slots) :
    g.Known a := by
  unfold Known at known ⊢
  rwa [slots]

namespace SymbolTable

/-- The symbol stands in the table. -/
def Has (t : SymbolTable) (name : Symbol) : Prop := name.index < t.size

theorem Has.intern {t : SymbolTable} {name : Symbol} (h : t.Has name) (text : String) :
    (t.intern text).1.Has name := by
  unfold SymbolTable.intern
  split
  · exact h
  · exact Nat.lt_of_lt_of_le h (by simp [size])

/-- Entering a name leaves the names of all symbols alone. -/
theorem name_intern {t : SymbolTable} {name : Symbol} (h : t.Has name) (text : String) :
    (t.intern text).1.name name = t.name name := by
  unfold SymbolTable.intern
  split
  · rfl
  · have other : name.index ≠ t.names.size := Nat.ne_of_lt h
    simp [SymbolTable.name, Array.getElem?_push, other]

end SymbolTable

/-- The object is the same one, or an atom that may be written. -/
inductive Object.Stays (writable : Prop) : Object → Object → Prop where
  | same (o : Object) : Stays writable o o
  | written (h : writable) (v w : Value) : Stays writable (.atom v) (.atom w)

namespace Object.Stays

variable {p q : Prop} {o o' o'' : Object}

theorem trans (h : Stays p o o') (h' : Stays p o' o'') : Stays p o o'' := by
  cases h with
  | same => exact h'
  | written hp v w =>
    cases h' with
    | same => exact .written hp v w
    | written _ _ u => exact .written hp v u

/-- An object that may not be written is the same. -/
theorem eq (h : Stays p o o') (hp : ¬ p) : o' = o := by
  cases h with
  | same => rfl
  | written h => exact absurd h hp

theorem imp (h : Stays p o o') (hpq : p → q) : Stays q o o' := by
  cases h with
  | same => exact .same _
  | written h v w => exact .written (hpq h) v w

end Object.Stays

namespace Session

variable {P : Policy} {W : Address → Prop} {s t u : Session}

/-- Objects that are still there are what they were, except for atoms in `W`, and keep their addresses to
themselves. Symbols keep their names. -/
structure Keeps (W : Address → Prop) (s t : Session) : Prop where
  object {a : Address} {o o' : Object} (h : s.heap.get? a = some o) (h' : t.heap.get? a = some o') :
    o.Stays (W a) o'
  known {a : Address} (h : s.heap.Known a) : t.heap.Known a
  /-- What is gone is gone for good. -/
  gone {a : Address} (h : s.heap.Known a) (dead : s.heap.get? a = none) : t.heap.get? a = none
  symbol {name : Symbol} (h : s.symbols.Has name) : t.symbols.Has name
  name {name : Symbol} (h : s.symbols.Has name) : t.symbols.name name = s.symbols.name name

/-- Every object is still there. -/
def Retains (s t : Session) : Prop := ∀ a, s.heap.isLive a = true → t.heap.isLive a = true

namespace Keeps

theorem refl (s : Session) : s.Keeps W s where
  object h h' := by
    rw [h] at h'
    cases h'
    exact .same _
  known := id
  gone _ := id
  symbol := id
  name _ := rfl

theorem trans (h : s.Keeps W t) (h' : t.Keeps W u) : s.Keeps W u where
  object {a o o'} ho ho' := by
    cases hm : t.heap.get? a with
    | none =>
      rw [h'.gone (h.known (Heap.known_of_get? ho)) hm] at ho'
      cases ho'
    | some p => exact (h.object ho hm).trans (h'.object hm ho')
  known hk := h'.known (h.known hk)
  gone hk dead := h'.gone (h.known hk) (h.gone hk dead)
  symbol hn := h'.symbol (h.symbol hn)
  name hn := (h'.name (h.symbol hn)).trans (h.name hn)

theorem of_coincides (h : s.Coincides t) : s.Keeps W t where
  object ho ho' := by
    rw [Heap.get?_congr h.slots, ho] at ho'
    cases ho'
    exact .same _
  known hk := hk.congr h.slots
  gone _ dead := by rw [Heap.get?_congr h.slots, dead]
  symbol hn := by rwa [h.symbols]
  name _ := by rw [h.symbols]

/-- The heap changes only in parts that do not matter. -/
theorem of_slots (hs : t.heap.slots = s.heap.slots) (hn : t.symbols = s.symbols) : s.Keeps W t :=
  have same : s.Coincides { t with scopes := s.scopes } := ⟨hs, hn, rfl⟩
  have kept := of_coincides (W := W) same
  ⟨kept.object, kept.known, kept.gone, kept.symbol, kept.name⟩

theorem imp {V : Address → Prop} (h : s.Keeps W t) (hW : ∀ a, W a → V a) : s.Keeps V t where
  object ho ho' := (h.object ho ho').imp (hW _)
  known := h.known
  gone := h.gone
  symbol := h.symbol
  name := h.name

end Keeps

/-! ### What one change keeps -/

/-- **A change keeps everything but the atoms that may be written.** A new object gets an address that no
object had before. -/
theorem Change.keeps (h : Change P s t) (hs : s.heap.Sound) : s.Keeps P.writes t := by
  cases h with
  | intern text =>
    have kept := Keeps.refl (W := P.writes) s
    exact ⟨kept.object, kept.known, kept.gone, fun hn => hn.intern text, fun hn =>
      SymbolTable.name_intern hn text⟩
  | @place o _ =>
    have same {a : Address} (known : s.heap.Known a) := Heap.get?_place_of_known o hs known
    refine ⟨fun ho ho' => ?_, fun hk => hk.place o hs, fun hk dead => ?_, id, fun _ => rfl⟩
    · rw [same (Heap.known_of_get? ho), ho] at ho'
      cases ho'
      exact .same _
    · exact (same hk).trans dead
  | @setAtom b w hw writable v =>
    refine ⟨fun {a o o'} ho ho' => ?_, fun hk => hk.set _ _, fun {a} _ dead => ?_, id, fun _ => rfl⟩
    · rw [Heap.get?_set] at ho'
      split at ho'
      · next e =>
        subst e
        rw [ho] at hw ho'
        cases hw
        cases ho'
        exact .written writable w v
      · rw [ho] at ho'
        cases ho'
        exact .same _
    · simp [Heap.get?_set, dead]
  | collect _ roots =>
    refine ⟨fun ho ho' => ?_, fun hk => hk.sweep _, fun {a} _ dead => ?_, id, fun _ => rfl⟩
    · rw [((Heap.get?_collect ..).1 ho').1] at ho
      cases ho
      exact .same _
    · cases hm : (s.collectGarbage roots).1.heap.get? a with
      | none => rfl
      | some o =>
        rw [((Heap.get?_collect ..).1 hm).1] at dead
        cases dead
  | _ => exact .of_slots rfl rfl

/-- **Only a collection loses objects.** -/
theorem Change.retains (h : Change P s t) (hs : s.heap.Sound) (quiet : P.quiet) : s.Retains t := by
  intro a live
  obtain ⟨o, ho⟩ := Option.isSome_iff_exists.1 live
  cases h with
  | @place p _ =>
    have same := Heap.get?_place_of_known p hs (Heap.known_of_get? ho)
    simp [Heap.isLive, same, ho]
  | setAtom _ _ v => simp [Heap.isLive, Heap.get?_set, ho, apply_ite]
  | collect loud => exact absurd quiet loud
  | _ => exact live

/-- Whatever changes, handles go on standing for what they stood for, or for nothing. -/
theorem Change.continues (h : Change P s t) : t.heap.Continues s.heap := by
  cases h with
  | place _ => exact .place s.heap _
  | setAtom _ _ v => exact .set s.heap _ _
  | embed v => exact .embed s.heap v
  | setFloor floor => exact .withFloor s.heap floor
  | collect _ roots => exact .collect s.heap s.scopes _
  | _ => exact .refl s.heap

/-! ### What any number of changes keeps -/

theorem Evolves.continues (h : Evolves P s t) : t.heap.Continues s.heap := by
  induction h with
  | refl => exact .refl s.heap
  | tail _ now ih => exact now.continues.trans ih

theorem Evolves.keeps (h : Evolves P s t) (hs : s.Sound P) : s.Keeps P.writes t := by
  induction h with
  | refl => exact .refl s
  | tail before now ih => exact ih.trans (now.keeps (hs.evolves before).heap)

theorem Evolves.retains (h : Evolves P s t) (hs : s.Sound P) (quiet : P.quiet) : s.Retains t := by
  induction h with
  | refl => exact fun _ => id
  | tail before now ih => exact fun a live => now.retains (hs.evolves before).heap quiet a (ih a live)

/-- **What is done before something is broken off keeps everything, too.** -/
theorem Strays.keeps (h : s.Strays P t) (hs : s.Sound P) : s.Keeps P.writes t := by
  obtain ⟨u, evolves, coincides⟩ := h
  exact (evolves.keeps hs).trans (.of_coincides coincides)

theorem Strays.retains (h : s.Strays P t) (hs : s.Sound P) (quiet : P.quiet) : s.Retains t := by
  obtain ⟨u, evolves, coincides⟩ := h
  intro a live
  have live := evolves.retains hs quiet a live
  rwa [Heap.isLive, Heap.get?_congr coincides.slots]

end Session

/-! ### Texts -/

/-- The values that are written as parts of an object. -/
def Object.parts : Object → List Value
  | .list items _ => items
  | .vector items _ => items
  | .map m => m.toList.flatMap fun e => [e.1, e.2]
  | .set members => members.toList
  | .atom v => [v]
  | .str _ => []
  | .function _ => []
  | .host _ => []

namespace Session

variable {W : Address → Prop} {s t : Session}

/-- Among what is written for the value `v` is what is written for `w`. -/
inductive Shows (s : Session) (v : Value) : Value → Prop where
  | self : Shows s v v
  | part {k : Kind} {a : Address} {o : Object} {w : Value} (before : Shows s v (.ref k a))
    (h : s.heap.get? a = some o) (hw : w ∈ o.parts) : Shows s v w

/-- What is written for a value first of all is there: its name, or its object with the name of that. -/
def Has (s : Session) : Value → Prop
  | .symbol name => s.symbols.Has name
  | .keyword name => s.symbols.Has name
  | .ref _ a => ∃ o, s.heap.get? a = some o ∧
    ∀ f name, o = .function f → f.name = some name → s.symbols.Has name
  | _ => True

/-- Everything that is written for a value is there. -/
def Whole (s : Session) (v : Value) : Prop := ∀ w, s.Shows v w → s.Has w

theorem Shows.trans {u v w : Value} (h : s.Shows u v) (h' : s.Shows v w) : s.Shows u w := by
  induction h' with
  | self => exact h
  | part _ ho hw ih => exact ih.part ho hw

/-- Two sessions write an object in the same way if they write its parts so. -/
theorem objectText_congr {o : Object} (readably : Bool) {f g f' g' : Value → String}
    (parts : ∀ w ∈ o.parts, f' w = f w ∧ g' w = g w)
    (named : ∀ h name, o = .function h → h.name = some name → t.symbols.name name = s.symbols.name name) :
    t.objectText readably f' g' o = s.objectText readably f g o := by
  cases o with
  | list items l | vector items l =>
    have same : items.map f' = items.map f := List.map_congr_left fun w hw => (parts w hw).1
    simp only [objectText, same]
  | set members =>
    have same : members.toList.map f' = members.toList.map f :=
      List.map_congr_left fun w hw => (parts w hw).1
    simp only [objectText, same]
  | map m =>
    have same : (m.toList.map fun e => f' e.1 ++ " " ++ f' e.2) =
        m.toList.map fun e => f e.1 ++ " " ++ f e.2 := by
      refine List.map_congr_left fun e he => ?_
      have part (w : Value) (hw : w ∈ [e.1, e.2]) := (parts w (List.mem_flatMap.2 ⟨e, he, hw⟩)).1
      rw [part e.1 (by simp), part e.2 (by simp)]
    simp only [objectText, same]
  | atom v => simp only [objectText, (parts v (List.mem_singleton_self v)).2]
  | function h =>
    simp only [objectText, functionText]
    cases hn : h.name with
    | none => rfl
    | some name => simp only [named h name rfl hn]
  | str _ => rfl
  | host _ => rfl

/-- **Two sessions write a value in the same way** if they have the same objects and names in all places that
are looked at. -/
theorem textWithin_congr (levels : Nat) (readably : Bool) {v : Value} (whole : s.Whole v)
    (objects : ∀ k a, s.Shows v (.ref k a) → t.heap.get? a = s.heap.get? a)
    (names : ∀ {name}, s.symbols.Has name → t.symbols.name name = s.symbols.name name) :
    t.textWithin levels readably v = s.textWithin levels readably v := by
  induction levels generalizing readably v with
  | zero => rfl
  | succ levels ih =>
    have here := whole v .self
    cases v with
    | symbol name => exact names here
    | keyword name => exact congrArg (":" ++ ·) (names here)
    | ref k a =>
      obtain ⟨o, ho, named⟩ := here
      unfold textWithin
      simp only [objects k a .self, ho]
      refine objectText_congr readably (fun w hw => ?_) fun f name hf hn => names (named f name hf hn)
      have below {w'} (h : s.Shows w w') : s.Shows (.ref k a) w' := (Shows.self.part ho hw).trans h
      have same (readably : Bool) := ih readably (v := w) (fun w' h => whole w' (below h))
        fun k' b h => objects k' b (below h)
      exact ⟨same readably, same true⟩
    | _ => rfl

/-- A value is written in the same way as before if everything that was written for it is still there, and
its atoms hold what they held. -/
def KeepsTexts (s t : Session) : Prop := ∀ v readably, s.Whole v →
  (∀ k a, s.Shows v (.ref k a) → t.heap.isLive a = true) →
  (∀ k a w, s.Shows v (.ref k a) → s.heap.get? a = some (.atom w) → t.heap.get? a = some (.atom w)) →
    t.text readably v = s.text readably v

/-- **What keeps objects keeps texts.** -/
theorem Keeps.texts (h : s.Keeps W t) : s.KeepsTexts t := by
  intro v readably whole live atoms
  refine textWithin_congr _ readably whole (fun k a shown => ?_) h.name
  obtain ⟨o, ho, -⟩ := whole _ shown
  obtain ⟨o', ho'⟩ := Option.isSome_iff_exists.1 (live k a shown)
  rw [ho, ho']
  cases h.object ho ho' with
  | same => rfl
  | written _ w w' => rw [← ho', atoms k a w shown ho]

end Session

end TwinLisp
