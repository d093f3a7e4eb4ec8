import TwinLisp.Host.Conversion
import TwinLisp.Proofs.Collection.Listing
import TwinLisp.Proofs.Engine.Immutability
import TwinLisp.Proofs.Heap.Equality
import TwinLisp.Proofs.Template.Data

/-!
# Host values there and back

A value of the host that is made into a value of the language is represented by it: by the value itself, by
objects on the heap, and by names. What is represented can be read off again as long as nothing is collected,
unless the type is one for which `nil` could mean two things.

Making the value only adds to a session. That is so as well where it fails midway, because a number is too great
or the heap is exhausted.

## Main definitions

* `HostType.Represents`: a value of the language stands for one of the host.
* `Session.Enriches`: something was added to a session, and `Eval.Converts`: a computation does no more than that.
* `HostType.NeverNil` and `HostType.Lossless`: the types whose values come back.

## Main statements

* `HostType.toValue_converts`: what is made represents what it was made of.
* `HostType.Represents.mono`: it goes on doing so while everything is still there.
* `HostType.Represents.ofValue_eq`: what is represented is what is read off.
* `HostType.ofValue_toValue`: there and back.
-/

namespace TwinLisp

/-! ### Names -/

/-- Symbols that keep their names are still found by them. -/
theorem Session.Keeps.find? {W : Address → Prop} {s t : Session} (h : s.Keeps W t) {text : String} {name : Symbol}
    (found : s.symbols.find? text = some name) : t.symbols.find? text = some name := by
  have has : s.symbols.Has name := (Array.getElem?_eq_some_iff.1 (SymbolTable.find?_eq_some_iff.1 found)).1
  have named : t.symbols.name name = text := (h.name has).trans (SymbolTable.name_of_find? found)
  have there : name.index < t.symbols.names.size := h.symbol has
  rw [SymbolTable.find?_eq_some_iff, Array.getElem?_eq_getElem there, ← named]
  simp [SymbolTable.name, there]

/-- What nothing is lost of is still there, if it is no atom. -/
theorem Session.Keeps.get?_of_retains {W : Address → Prop} {s t : Session} (h : s.Keeps W t) (all : s.Retains t)
    {a : Address} {o : Object} (data : ∀ v, o ≠ .atom v) (ho : s.heap.get? a = some o) :
    t.heap.get? a = some o := by
  obtain ⟨o', ho'⟩ := Option.isSome_iff_exists.1 (all a (by rw [Heap.isLive, ho]; rfl))
  rw [ho']
  cases h.object ho ho' with
  | same => rfl
  | written _ v => exact absurd rfl (data v)

/-! ### Representation -/

namespace HostType

/-- An entry of a map stands for one of a dictionary: its key is the keyword with that name, and its value stands for the
other in the given way. -/
def EntryRepresents {α : Type} (σ : SymbolTable) (part : α → Value → Prop) (e : String × α) (f : Value × Value) : Prop :=
  (∃ name, f.1 = .keyword name ∧ σ.find? e.1 = some name) ∧ part e.2 f.2

theorem EntryRepresents.mono {α : Type} {σ σ' : SymbolTable} {part part' : α → Value → Prop} {e : String × α}
    {f : Value × Value} (he : EntryRepresents σ part e f)
    (names : ∀ {text name}, σ.find? text = some name → σ'.find? text = some name)
    (parts : ∀ {a v}, part a v → part' a v) : EntryRepresents σ' part' e f :=
  ⟨he.1.imp fun _ key => ⟨key.1, names key.2⟩, parts he.2⟩

/-- The value stands for `x`, by what is on the heap and in the table of names. -/
def Represents (h : Heap) (σ : SymbolTable) : (t : HostType) → t.Carrier → Value → Prop
  | .unit, _, v => v = .nil
  | .bool, (b : Bool), v => v = .bool b
  | .int32, (n : Int32), v => v = .int n.toInt64
  | .int64, (n : Int64), v => v = .int n
  | .size, (n : UInt64), v => n.toNat < 2 ^ 63 ∧ v = .int n.toInt64
  | .double, (x : Double), v => v = .float x
  | .char, (c : Char), v => v = .char c
  | .string, (text : String), v => ∃ a, v = .ref .str a ∧ h.get? a = some (.str text)
  | .keyword, (k : KeywordName), v => ∃ name, v = .keyword name ∧ σ.find? k.text = some name
  | .value, (x : Value), v => v = x
  | .option _, none, v => v = .nil
  | .option t, some x, v => t.Represents h σ x v
  | .list t, (xs : List t.Carrier), v =>
    ∃ a items, v = .ref .vector a ∧ h.get? a = some (.vector items .unknown) ∧
      List.Forall₂ (t.Represents h σ) xs items
  | .dictionary t, (d : Dictionary t.Carrier), v =>
    ∃ a m, v = .ref .map a ∧ h.get? a = some (.map m) ∧
      List.Forall₂ (EntryRepresents σ (t.Represents h σ)) d.entries m.toList

/-- **What represents something goes on doing so** while the data is still there and names are found as before. -/
theorem Represents.mono {h h' : Heap} {σ σ' : SymbolTable}
    (objects : ∀ {a o}, (∀ v, o ≠ .atom v) → h.get? a = some o → h'.get? a = some o)
    (names : ∀ {text name}, σ.find? text = some name → σ'.find? text = some name)
    {t : HostType} {x : t.Carrier} {v : Value} (hv : t.Represents h σ x v) : t.Represents h' σ' x v := by
  induction t generalizing v with
  | string =>
    obtain ⟨a, rfl, ha⟩ := hv
    exact ⟨a, rfl, objects nofun ha⟩
  | keyword =>
    obtain ⟨name, rfl, found⟩ := hv
    exact ⟨name, rfl, names found⟩
  | option t ih =>
    cases x with
    | none => exact hv
    | some x => exact ih hv
  | list t ih =>
    obtain ⟨a, items, rfl, ha, parts⟩ := hv
    exact ⟨a, items, rfl, objects nofun ha, parts.imp fun _ _ => ih⟩
  | dictionary t ih =>
    obtain ⟨a, m, rfl, ha, parts⟩ := hv
    exact ⟨a, m, rfl, objects nofun ha, parts.imp fun _ _ part => part.mono names ih⟩
  | _ => exact hv

end HostType

/-! ### Adding to a session -/

/-- Something was added to a session: what was there is there as it was, and collection is held back as often. -/
structure Session.Enriches (s t : Session) : Prop where
  objects : ∀ {a o}, s.heap.get? a = some o → t.heap.get? a = some o
  names : ∀ {text name}, s.symbols.find? text = some name → t.symbols.find? text = some name
  sound : t.heap.Sound
  inhibited : t.inhibited = s.inhibited

namespace Session.Enriches

variable {s t u : Session}

theorem refl (hs : s.heap.Sound) : s.Enriches s := ⟨id, id, hs, rfl⟩

theorem trans (h : s.Enriches t) (h' : t.Enriches u) : s.Enriches u :=
  ⟨fun ho => h'.objects (h.objects ho), fun hn => h'.names (h.names hn), h'.sound, h'.inhibited.trans h.inhibited⟩

theorem represents (h : s.Enriches t) {T : HostType} {x : T.Carrier} {v : Value}
    (hv : T.Represents s.heap s.symbols x v) : T.Represents t.heap t.symbols x v :=
  hv.mono (fun _ => h.objects) h.names

end Session.Enriches

namespace Eval

variable {α β : Type}

/-- The computation only adds to the session. Its result has a property, or it fails because a number is too great or
the heap is exhausted. -/
def Converts (s : Session) (Q : α → Session → Prop) : EStateM.Result Stop Session α → Prop
  | .ok a t => s.Enriches t ∧ Q a t
  | .error e t => s.Enriches t ∧ ∃ f, e = .fault f ∧ (f.cause = .hostOverflow ∨ f.kind = .heapExhausted)

namespace Converts

variable {s : Session} {Q : α → Session → Prop} {R : β → Session → Prop}

theorem pure {a : α} (hs : s.heap.Sound) (ha : Q a s) : Converts s Q ((Pure.pure a : Eval α) s) := ⟨.refl hs, ha⟩

theorem imp {Q' : α → Session → Prop} {r : EStateM.Result Stop Session α} (h : Converts s Q r)
    (hQ : ∀ a t, s.Enriches t → Q a t → Q' a t) : Converts s Q' r := by
  cases r with
  | ok a t => exact ⟨h.1, hQ a t h.1 h.2⟩
  | error e t => exact h

theorem bind {x : Eval α} {f : α → Eval β} (hx : Converts s Q (x s))
    (hf : ∀ a t, s.Enriches t → Q a t → Converts t R (f a t)) : Converts s R ((x >>= f) s) := by
  cases ran : x s with
  | error e t =>
    rw [ran] at hx
    rw [bind_eq_of_error ran]
    exact hx
  | ok a t =>
    rw [ran] at hx
    rw [bind_eq_of_ok ran]
    have next := hf a t hx.1 hx.2
    cases ran' : f a t with
    | ok b u =>
      rw [ran'] at next
      exact ⟨hx.1.trans next.1, next.2⟩
    | error e u =>
      rw [ran'] at next
      exact ⟨hx.1.trans next.1, next.2⟩

/-- The items of a list are converted one after the other, and what was made of the earlier ones is still good in the
end. -/
theorem mapM {f : α → Eval β} {Q : α → β → Session → Prop}
    (h : ∀ a s, s.heap.Sound → Converts s (Q a) (f a s))
    (mono : ∀ {a b s t}, s.Enriches t → Q a b s → Q a b t) (as : List α) (hs : s.heap.Sound) :
    Converts s (fun bs t => List.Forall₂ (fun a b => Q a b t) as bs) (as.mapM f s) := by
  induction as generalizing s with
  | nil =>
    rw [List.mapM_nil]
    exact .pure hs .nil
  | cons a as ih =>
    rw [List.mapM_cons]
    refine (h a s hs).bind fun b t ht hb => ?_
    refine (ih ht.sound).bind fun bs u hu hbs => ?_
    exact .pure hu.sound (.cons (mono hu hb) hbs)

theorem withoutCollection {x : Eval α} (h : ∀ s, s.heap.Sound → Converts s Q (x s))
    (same : ∀ {a t n}, Q a t → Q a { t with inhibited := n }) (hs : s.heap.Sound) :
    Converts s Q (Eval.withoutCollection x s) := by
  have inner := h { s with inhibited := s.inhibited + 1 } hs
  have ran : Eval.withoutCollection x s =
      Eval.always (fun t => { t with inhibited := t.inhibited - 1 }) x { s with inhibited := s.inhibited + 1 } := rfl
  have back {t : Session} (ht : Session.Enriches { s with inhibited := s.inhibited + 1 } t) :
      s.Enriches { t with inhibited := t.inhibited - 1 } :=
    ⟨ht.objects, ht.names, ht.sound, by rw [ht.inhibited]; rfl⟩
  rw [ran, Eval.always]
  cases ended : x { s with inhibited := s.inhibited + 1 } with
  | ok a t =>
    rw [ended] at inner
    exact ⟨back inner.1, same inner.2⟩
  | error e t =>
    rw [ended] at inner
    exact ⟨back inner.1, inner.2⟩

theorem intern (hs : s.heap.Sound) (text : String) :
    Converts s (fun name t => t.symbols.find? text = some name) (Eval.intern text s) :=
  ⟨⟨id, fun found => s.symbols.find?_intern_of_find? text found, hs, rfl⟩, s.symbols.find?_intern text⟩

theorem new (hs : s.heap.Sound) (o : Object) :
    Converts s (fun v t => ∃ a, v = .ref o.kind a ∧ t.heap.get? a = some o) (Eval.new o s) := by
  rw [MakesData.new_eq]
  split
  · exact ⟨.refl hs, _, rfl, .inr rfl⟩
  split
  · exact ⟨⟨id, id, hs, rfl⟩, _, rfl, .inr rfl⟩
  · have placed : s.Enriches { s with heap := (s.heap.place o).1 } :=
      ⟨fun ho => by rwa [Heap.get?_place_of_known o hs (Heap.known_of_get? ho)], id, hs.place o, rfl⟩
    exact ⟨placed, _, rfl, s.heap.get?_place_self o hs⟩

end Converts

/-- Items that are read without a change to the session are read one after the other. -/
theorem mapM_eq_of_forall₂ {f : β → Eval α} {as : List α} {bs : List β} {s : Session}
    (h : List.Forall₂ (fun a b => f b s = .ok a s) as bs) : bs.mapM f s = .ok as s := by
  induction h with
  | nil =>
    rw [List.mapM_nil]
    rfl
  | cons here _ ih =>
    rw [List.mapM_cons, bind_eq_of_ok here, bind_eq_of_ok ih]
    rfl

theorem eq_ref_of_new {o : Object} {s t : Session} {v : Value} (h : Eval.new o s = .ok v t) :
    ∃ a, v = .ref o.kind a := by
  obtain ⟨a, _, -, made⟩ := of_bind_eq_ok h
  cases made
  exact ⟨a, rfl⟩

theorem of_withoutCollection_eq_ok {x : Eval α} {s t : Session} {a : α} (h : withoutCollection x s = .ok a t) :
    ∃ s' t', x s' = .ok a t' := by
  have ran : always (fun t => { t with inhibited := t.inhibited - 1 }) x { s with inhibited := s.inhibited + 1 } =
      .ok a t := h
  rw [always] at ran
  split at ran
  · next ran' =>
    cases ran
    exact ⟨_, _, ran'⟩
  · cases ran

/-! ### Maps -/

/-- Under keywords that belong to different texts, entries go into a map one behind the other. -/
theorem exists_insertEntries_eq {s : Session} {texts : List (String × α)} {entries : List (Value × Value)}
    (keys : List.Forall₂ (fun e f => ∃ name, f.1 = .keyword name ∧ s.symbols.find? e.1 = some name) texts entries)
    (nodup : (texts.map (·.1)).Nodup) {m : OrderedMap} {es : Listing (Value × Value)} (hm : m.Lists es)
    (fresh : ∀ e ∈ texts, ∀ name, s.symbols.find? e.1 = some name → Key.ofKeyword name ∉ es.map (·.1)) :
    ∃ m', insertEntries m entries s = .ok m' s ∧ m'.toList = m.toList ++ entries := by
  induction keys generalizing m es with
  | nil => exact ⟨m, rfl, (List.append_nil _).symm⟩
  | @cons e f texts entries key _ ih =>
    obtain ⟨name, hf, found⟩ := key
    obtain ⟨first, rest⟩ := List.nodup_cons.1 nodup
    have here := fresh e (List.mem_cons_self ..) name found
    have put := hm.insert (Key.ofKeyword name) f
    rw [Listing.put_of_notMem here] at put
    obtain ⟨m', ran, listed⟩ := ih rest put fun e' he' name' found' => by
      have other : Key.ofKeyword name' ≠ Key.ofKeyword name := fun same => by
        have again : e'.1 = e.1 := by
          rw [← SymbolTable.name_of_find? found', ← SymbolTable.name_of_find? found, Key.ofKeyword_inj.1 same]
        exact first (List.mem_map.2 ⟨e', he', again⟩)
      simpa [other] using fresh e' (List.mem_cons_of_mem _ he') name' found'
    refine ⟨m', ?_, by rw [listed, put.toList_eq, hm.toList_eq]; simp⟩
    have step : (do return m.insert (← keyOf f.1) f : Eval OrderedMap) s =
        .ok (m.insert (Key.ofKeyword name) f) s := by rw [hf]; rfl
    rw [insertEntries, List.foldlM_cons, bind_eq_of_ok step]
    exact ran

end Eval

/-! ### There -/

namespace HostType

open Eval

/-- **What is made represents what it was made of.** -/
theorem toValue_converts (t : HostType) (x : t.Carrier) {s : Session} (hs : s.heap.Sound) :
    Converts s (fun v u => t.Represents u.heap u.symbols x v) (t.toValue x s) := by
  induction t generalizing s with
  | size =>
    unfold toValue
    split
    · next small => exact .pure hs ⟨small, rfl⟩
    · exact ⟨.refl hs, _, rfl, .inl rfl⟩
  | string =>
    refine (Converts.new hs (.str x)).imp ?_
    rintro v u - ⟨a, rfl, ha⟩
    exact ⟨a, rfl, ha⟩
  | keyword =>
    refine (Converts.intern hs x.text).bind fun name u hu found => ?_
    exact .pure hu.sound ⟨name, rfl, found⟩
  | option t ih =>
    cases x with
    | none => exact .pure hs rfl
    | some x => exact ih x hs
  | list t ih =>
    refine Converts.withoutCollection (fun s hs => ?_) id hs
    refine (Converts.mapM (fun x s hs => ih x hs) (fun h hv => h.represents hv) x hs).bind fun items u hu parts => ?_
    refine (Converts.new hu.sound (.vector items .unknown)).imp ?_
    rintro v w hw ⟨a, rfl, ha⟩
    exact ⟨a, items, rfl, ha, parts.imp fun _ _ part => hw.represents part⟩
  | dictionary t ih =>
    refine Converts.withoutCollection (fun s hs => ?_) id hs
    let entry (e : String × t.Carrier) (f : Value × Value) (u : Session) : Prop :=
      EntryRepresents u.symbols (t.Represents u.heap u.symbols) e f
    have mono {e f u w} (h : Session.Enriches u w) (he : entry e f u) : entry e f w := he.mono h.names h.represents
    refine (Converts.mapM (Q := entry) (fun e s hs => ?_) mono x.entries hs).bind fun entries u hu parts => ?_
    · refine ((Converts.intern hs e.1).bind fun name u hu found => .pure hu.sound ⟨name, rfl, found⟩).bind
        (Q := fun k u => ∃ name, k = .keyword name ∧ u.symbols.find? e.1 = some name) ?_
      rintro k u hu ⟨name, rfl, found⟩
      refine (ih e.2 hu.sound).bind fun v w hw hv => ?_
      exact .pure hw.sound ⟨⟨name, rfl, hw.names found⟩, hv⟩
    · obtain ⟨m, ran, listed⟩ := exists_insertEntries_eq (parts.imp fun _ _ he => he.1) x.nodup .empty
        fun _ _ _ _ => List.not_mem_nil
      rw [newMap, bind_eq_of_ok ran]
      refine (Converts.new hu.sound (.map m)).imp ?_
      rintro v w hw ⟨a, rfl, ha⟩
      refine ⟨a, m, rfl, ha, ?_⟩
      rw [listed, Ordered.toList_empty, List.nil_append]
      exact parts.imp fun _ _ he => mono hw he
  | _ => exact .pure hs rfl

/-! ### And back -/

/-- No value of the type is made into `nil`. -/
def NeverNil (t : HostType) : Prop := ∀ (x : t.Carrier) {s u : Session} {v : Value}, t.toValue x s = .ok v u → v ≠ .nil

/-- Options may be `nil`, and so may the types that have nothing but `nil` or every value. All others are never. -/
theorem neverNil_iff {t : HostType} : t.NeverNil ↔ t ≠ .unit ∧ t ≠ .value ∧ ∀ t', t ≠ .option t' := by
  constructor
  · intro never
    refine ⟨?_, ?_, ?_⟩
    · rintro rfl
      exact never () (s := default) rfl rfl
    · rintro rfl
      exact never Value.nil (s := default) rfl rfl
    · rintro t rfl
      exact never none (s := default) rfl rfl
  · rintro ⟨unit, value, option⟩ x s u v made rfl
    cases t with
    | unit => exact unit rfl
    | value => exact value rfl
    | option t => exact option t rfl
    | size =>
      unfold toValue at made
      split at made <;> cases made
    | string =>
      obtain ⟨a, other⟩ := eq_ref_of_new made
      cases other
    | keyword => cases made
    | list t =>
      obtain ⟨s', u', made⟩ := of_withoutCollection_eq_ok made
      obtain ⟨items, t', -, made⟩ := of_bind_eq_ok made
      obtain ⟨a, other⟩ := eq_ref_of_new made
      cases other
    | dictionary t =>
      obtain ⟨s', u', made⟩ := of_withoutCollection_eq_ok made
      obtain ⟨entries, t', -, made⟩ := of_bind_eq_ok made
      obtain ⟨m, t', -, made⟩ := of_bind_eq_ok made
      obtain ⟨a, other⟩ := eq_ref_of_new made
      cases other
    | _ => cases made

/-- The types whose values come back: those of the host's own data, lists and dictionaries of them, and options of what
is never `nil`. -/
inductive Lossless : HostType → Prop where
  | bool : Lossless .bool
  | int32 : Lossless .int32
  | int64 : Lossless .int64
  | size : Lossless .size
  | double : Lossless .double
  | char : Lossless .char
  | string : Lossless .string
  | keyword : Lossless .keyword
  | list {t : HostType} (h : Lossless t) : Lossless (.list t)
  | dictionary {t : HostType} (h : Lossless t) : Lossless (.dictionary t)
  | option {t : HostType} (h : Lossless t) (never : t.NeverNil) : Lossless (.option t)

/-- What represents a value of a type that is never `nil` is not `nil`. -/
theorem Represents.ne_nil {h : Heap} {σ : SymbolTable} {t : HostType} {x : t.Carrier} {v : Value}
    (hv : t.Represents h σ x v) (never : t.NeverNil) : v ≠ .nil := by
  obtain ⟨unit, value, option⟩ := neverNil_iff.1 never
  rintro rfl
  cases t with
  | unit => exact unit rfl
  | value => exact value rfl
  | option t => exact option t rfl
  | size => cases hv.2
  | string =>
    obtain ⟨a, other, -⟩ := hv
    cases other
  | keyword =>
    obtain ⟨name, other, -⟩ := hv
    cases other
  | list t =>
    obtain ⟨a, items, other, -⟩ := hv
    cases other
  | dictionary t =>
    obtain ⟨a, m, other, -⟩ := hv
    cases other
  | _ => cases hv

/-- An integer of thirty-two bits is one of sixty-four, and goes back. -/
theorem ofValue_int32 (n : Int32) (s : Session) : int32.ofValue (.int n.toInt64) s = .ok n s := by
  have read : int32.ofValue (.int n.toInt64) = if n.toInt64.toInt32.toInt64 == n.toInt64 then
      (return n.toInt64.toInt32 : Eval Int32) else failWith (.tooLargeForInt32 n.toInt64.toInt) := rfl
  rw [read, Int32.toInt32_toInt64, if_pos (beq_self_eq_true _)]
  rfl

/-- A size is not negative as an integer, if it fits. -/
theorem toInt64_nonneg {n : UInt64} (small : n.toNat < 2 ^ 63) : 0 ≤ n.toInt64 := by
  have same : n.toInt64.toInt = n.toNat := BitVec.toInt_eq_toNat_of_lt (by change 2 * n.toNat < 2 ^ 64; omega)
  rw [Int64.le_iff_toInt_le, same]
  exact Int.natCast_nonneg _

theorem ofValue_size {n : UInt64} (small : n.toNat < 2 ^ 63) (s : Session) :
    size.ofValue (.int n.toInt64) s = .ok n s := by
  have read : size.ofValue (.int n.toInt64) = if 0 ≤ n.toInt64 then
      (return n.toInt64.toUInt64 : Eval UInt64) else failWith (.notASize n.toInt64.toInt) := rfl
  rw [read, if_pos (toInt64_nonneg small), UInt64.toUInt64_toInt64]
  rfl

/-- A dictionary is read off a map under whose keywords its parts are read off. -/
theorem ofValue_dictionary {t : HostType} {d : Dictionary t.Carrier} {a : Address} {m : OrderedMap} {s : Session}
    (ha : s.heap.get? a = some (.map m))
    (parts : List.Forall₂ (EntryRepresents s.symbols fun x v => t.ofValue v s = .ok x s) d.entries m.toList) :
    (dictionary t).ofValue (.ref .map a) s = .ok d s := by
  have found : map? (.ref .map a) s = .ok (some m) s := bind_eq_of_ok (object_eq_of_get? ha)
  have entries : m.toList.mapM (fun e => do return (← keyText e.1, ← t.ofValue e.2) :
      Value × Value → Eval (String × t.Carrier)) s = .ok d.entries s := by
    refine mapM_eq_of_forall₂ (parts.imp ?_)
    rintro e ⟨k, v⟩ ⟨⟨name, rfl, found⟩, hv⟩
    have named : keyText (.keyword name) s = .ok e.1 s :=
      congrArg (EStateM.Result.ok · s) (SymbolTable.name_of_find? found)
    exact (bind_eq_of_ok named).trans (bind_eq_of_ok hv)
  have made : (Pure.pure (.ofEntries d.entries) : Eval (Dictionary t.Carrier)) s = .ok d s := by
    rw [Dictionary.ofEntries_entries]
    rfl
  exact (bind_eq_of_ok found).trans ((bind_eq_of_ok entries).trans made)

/-- **What is represented is what is read off**, and reading changes nothing. -/
theorem Represents.ofValue_eq {t : HostType} (lossless : t.Lossless) {x : t.Carrier} {v : Value} {s : Session}
    (hv : t.Represents s.heap s.symbols x v) : t.ofValue v s = .ok x s := by
  induction lossless generalizing v with
  | int32 =>
    obtain rfl := hv
    exact ofValue_int32 x s
  | size =>
    obtain ⟨small, rfl⟩ := hv
    exact ofValue_size small s
  | string =>
    obtain ⟨a, rfl, ha⟩ := hv
    have found : string? (.ref .str a) s = .ok (some x) s := bind_eq_of_ok (object_eq_of_get? ha)
    exact bind_eq_of_ok found
  | keyword =>
    obtain ⟨name, rfl, found⟩ := hv
    have named : nameOf name s = .ok x.text s :=
      congrArg (EStateM.Result.ok · s) (SymbolTable.name_of_find? found)
    exact bind_eq_of_ok named
  | list _ ih =>
    obtain ⟨a, items, rfl, ha, parts⟩ := hv
    have found : items? (.ref .vector a) s = .ok (some items) s := bind_eq_of_ok (object_eq_of_get? ha)
    exact (bind_eq_of_ok found).trans (mapM_eq_of_forall₂ (parts.imp fun _ _ => ih))
  | dictionary _ ih =>
    obtain ⟨a, m, rfl, ha, parts⟩ := hv
    exact ofValue_dictionary ha (parts.imp fun _ _ part => part.mono id ih)
  | @option t _ never ih =>
    cases x with
    | none =>
      obtain rfl := hv
      rfl
    | some x =>
      have inner (hv : v ≠ .nil) : (HostType.option t).ofValue v = (do return some (← t.ofValue v)) := by
        cases v with
        | nil => exact absurd rfl hv
        | _ => rfl
      rw [inner (Represents.ne_nil (x := x) hv never), bind_eq_of_ok (ih hv)]
      rfl
  | _ =>
    obtain rfl := hv
    rfl

/-! ### There and back -/

/-- **Host values come back.** Making a value of the language out of one of the host changes no object and holds
collection back as often afterwards as before, however it ends; it fails only where a number is too great or the heap is
exhausted. If the type is lossless and the value is made, the same host value is read off it at once and whenever later,
as long as nothing was lost meanwhile, which is so as long as nothing was collected (`Session.Strays.retains`). -/
theorem ofValue_toValue (t : HostType) (x : t.Carrier) {s : Session} (hs : s.heap.Sound) :
    (∀ a o, s.heap.get? a = some o → ((t.toValue x).after s).heap.get? a = some o) ∧
    ((t.toValue x).after s).inhibited = s.inhibited ∧
    (∀ {e u}, t.toValue x s = .error e u → ∃ f, e = .fault f ∧ (f.cause = .hostOverflow ∨ f.kind = .heapExhausted)) ∧
    (t.Lossless → ∀ {v u}, t.toValue x s = .ok v u →
      ∀ {w : Session}, u.Keeps (fun _ => True) w → u.Retains w → t.ofValue v w = .ok x w) := by
  have converts := toValue_converts t x hs
  have enriches : s.Enriches ((t.toValue x).after s) := by
    unfold Eval.after
    cases ran : t.toValue x s <;> (rw [ran] at converts; exact converts.1)
  refine ⟨fun _ _ => enriches.objects, enriches.inhibited, fun failed => ?_, fun lossless v u made w keeps retains => ?_⟩
  · rw [failed] at converts
    exact converts.2
  · rw [made] at converts
    exact Represents.ofValue_eq lossless (converts.2.mono (keeps.get?_of_retains retains) keeps.find?)

/-- Lists of sizes, some of them missing, under two names. -/
theorem ofValue_toValue_nested :
    let t := HostType.dictionary (.list (.option .size))
    let x : Dictionary (List (Option UInt64)) := ⟨[("a", [some 3, none]), ("b", [])], by decide⟩
    ∃ v u, t.toValue x (.fresh {}) = .ok v u ∧ t.ofValue v u = .ok x u := by
  intro t x
  have lossless : t.Lossless :=
    .dictionary (.list (.option .size (neverNil_iff.2 ⟨nofun, nofun, nofun⟩)))
  obtain ⟨-, -, -, back⟩ := ofValue_toValue t x (s := .fresh {}) (Heap.sound_empty _)
  have made : ((t.toValue x).run' (.fresh {})).isSome = true := by decide +kernel
  cases ran : t.toValue x (.fresh {}) with
  | ok v u => exact ⟨v, u, rfl, back lossless ran (.refl _) fun _ => id⟩
  | error e u =>
    rw [EStateM.run', EStateM.run, ran] at made
    cases made

end HostType

end TwinLisp
