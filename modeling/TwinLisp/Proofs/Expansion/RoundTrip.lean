import TwinLisp.Proofs.Expansion.Shown

/-!
# Code through values and back

What becomes of code that is made into a value and back into code, as every macro does with its
arguments. As long as there is room on the heap, the form comes back as data: lists and vectors have
their locations, and whatever differs from its neighbours is there, in its place.

A map whose keys are not all different comes back smaller, and so does a set with equal members: of two
entries with equal keys the later one stays, of two equal members the earlier one. This is what such
collections do with all their items, and nothing else is ever lost.

## Main definitions

* `Session.Extends`: what was in a session is still there.
* `Eval.Places`: a computation puts things on the heap, or finds it full.

## Main statements

* `Eval.valueOfForm_places`: the value of a form shows it as data.
* `Eval.formOfValue_valueOfForm`: a form that was read comes back as data; if no keys and members in it
  are equal, it prints as before and has the same nodes.
* `Eval.formOfValue_valueOfForm_loses`: a map with equal keys does not print as before.
-/

namespace TwinLisp

/-- What was in a session is still there. -/
structure Session.Extends (s t : Session) : Prop where
  objects : ∀ {a o}, s.heap.get? a = some o → t.heap.get? a = some o
  names : ∀ {name x}, s.symbols.find? name = some x → t.symbols.find? name = some x
  sound : t.heap.Sound
  terminated : t.terminated = s.terminated

namespace Session.Extends

variable {s t u : Session}

theorem refl (hs : s.heap.Sound) : s.Extends s := ⟨id, id, hs, rfl⟩

theorem trans (h : s.Extends t) (h' : t.Extends u) : s.Extends u :=
  ⟨fun ho => h'.objects (h.objects ho), fun hx => h'.names (h.names hx), h'.sound,
    h'.terminated.trans h.terminated⟩

theorem shownBy (h : s.Extends t) {f : Form} {v : Value} (hv : f.ShownBy s.heap s.symbols v) :
    f.ShownBy t.heap t.symbols v :=
  hv.mono h.objects h.names

theorem allShownBy (h : s.Extends t) {fs : List Form} {vs : List Value}
    (hvs : List.Forall₂ (Form.ShownBy s.heap s.symbols) fs vs) :
    List.Forall₂ (Form.ShownBy t.heap t.symbols) fs vs :=
  hvs.imp fun _ _ => h.shownBy

end Session.Extends

/-- The session has ended, or its heap is full now. -/
def Session.Exhausts (s t : Session) : Prop := s.terminated = true ∨ t.heap.isFull = true

namespace Eval

variable {α β : Type}

/-- The computation leaves in place what is there, and its result has a property; or it fails because the
heap is exhausted. -/
def Places (s : Session) (Q : α → Session → Prop) : EStateM.Result Stop Session α → Prop
  | .ok a t => s.Extends t ∧ Q a t
  | .error e t => (∃ f : Fault, e = .fault f ∧ f.cause.kind = .heapExhausted) ∧ s.Exhausts t

namespace Places

variable {s : Session} {Q : α → Session → Prop} {R : β → Session → Prop}

theorem pure {a : α} (hs : s.heap.Sound) (ha : Q a s) : Places s Q ((Pure.pure a : Eval α) s) :=
  ⟨.refl hs, ha⟩

theorem bind {x : Eval α} {f : α → Eval β} (hx : Places s Q (x s))
    (hf : ∀ a t, s.Extends t → Q a t → Places t R (f a t)) : Places s R ((x >>= f) s) := by
  change Places s R (EStateM.bind x f s)
  unfold EStateM.bind
  cases hr : x s with
  | error e t =>
    rw [hr] at hx
    exact hx
  | ok a t =>
    rw [hr] at hx
    have next := hf a t hx.1 hx.2
    dsimp only
    cases hr' : f a t with
    | ok b u =>
      rw [hr'] at next
      exact ⟨hx.1.trans next.1, next.2⟩
    | error e u =>
      rw [hr'] at next
      exact ⟨next.1, next.2.imp_left fun ended => hx.1.terminated ▸ ended⟩

theorem imp {Q' : α → Session → Prop} {r : EStateM.Result Stop Session α} (h : Places s Q r)
    (hQ : ∀ a t, s.Extends t → Q a t → Q' a t) : Places s Q' r := by
  cases r with
  | ok a t => exact ⟨h.1, hQ a t h.1 h.2⟩
  | error e t => exact h

end Places

/-! ### Names and objects -/

variable {s : Session}

theorem intern_places (hs : s.heap.Sound) (name : String) :
    Places s (fun x t => t.symbols.find? name = some x) (intern name s) := by
  refine ⟨⟨id, fun h => ?_, hs, rfl⟩, ?_⟩
  · exact SymbolTable.find?_intern_of_find? name h
  · exact SymbolTable.find?_intern s.symbols name

theorem alloc_places (hs : s.heap.Sound) (o : Object) :
    Places s (fun a t => t.heap.get? a = some o ∧ t.symbols = s.symbols) (alloc o s) := by
  have alive : Places s (fun _ t => t = s) (checkAlive s) := by
    change Places s _ ((if s.terminated = true then failWith .terminated else Pure.pure PUnit.unit : Eval PUnit) s)
    split
    · next ended => exact ⟨⟨_, rfl, rfl⟩, .inl ended⟩
    · exact .pure hs rfl
  refine alive.bind ?_
  rintro - t - rfl
  dsimp only
  split
  · next full => exact ⟨⟨_, rfl, rfl⟩, .inr full⟩
  · refine ⟨⟨fun {a p} hp => ?_, id, hs.place o, rfl⟩, t.heap.get?_place_self o hs, rfl⟩
    rw [Heap.get?_place_of_known o hs (Heap.known_of_get? hp), hp]

/-- A new object shows what its contents show. -/
theorem new_places (hs : s.heap.Sound) {o : Object} {b : Bracket} {l : Location} {fs : List Form}
    (hg : o.group? = some (b, l)) (hfs : List.Forall₂ (Form.ShownBy s.heap s.symbols) fs o.contents) :
    Places s (fun v t => (Form.group b fs l).ShownBy t.heap t.symbols v) (new o s) := by
  refine (alloc_places hs o).bind fun a t ht ha => ?_
  exact .pure ht.sound (.group ha.1 hg (ht.allShownBy hfs))

/-! ### Collections -/

/-- A member of a set, with its key in the session, and the form that it shows, with its key. -/
def MemberShows (s : Session) (e : Key × Form) (e' : Key × Value) : Prop :=
  e.2.ShownBy s.heap s.symbols e'.2 ∧ e.1 = e.2.key ∧ e'.1 = e.2.keyBy s.symbols.numbering

/-- The same for an entry of a map, which is found by its first part. -/
def EntryShows (s : Session) (e : Key × (Form × Form)) (e' : Key × (Value × Value)) : Prop :=
  (e.2.1.ShownBy s.heap s.symbols e'.2.1 ∧ e.2.2.ShownBy s.heap s.symbols e'.2.2) ∧ e.1 = e.2.1.key ∧
    e'.1 = e.2.1.keyBy s.symbols.numbering

/-- A session tells apart what differs as data. -/
theorem key_eq_iff (s : Session) {f g : Form} {k k' l l' : Key} (hk : k = f.key)
    (hk' : k' = f.keyBy s.symbols.numbering) (hl : l = g.key) (hl' : l' = g.keyBy s.symbols.numbering) :
    k = l ↔ k' = l' := by
  rw [hk, hk', hl, hl', Form.keyBy_eq_iff s.symbols.numbering_injective]

theorem insertMembers_eq {fs : List Form} {vs : List Value}
    (hvs : List.Forall₂ (Form.ShownBy s.heap s.symbols) fs vs) {c : OrderedSet} {ms : Listing Form}
    {es : Listing Value} (hc : c.Lists es) (hes : List.Forall₂ (MemberShows s) ms es) :
    ∃ c' es', insertMembers c vs s = .ok c' s ∧ c'.Lists es' ∧
      List.Forall₂ (MemberShows s) (fs.foldl (fun l f => Listing.add f.key f l) ms) es' := by
  induction hvs generalizing c ms es with
  | nil => exact ⟨c, es, rfl, hc, hes⟩
  | @cons f v fs vs hv _ ih =>
    have one : MemberShows s (f.key, f) (f.keyBy s.symbols.numbering, v) := ⟨hv, rfl, rfl⟩
    have added := Listing.forall₂_add hes one fun e e' he =>
      key_eq_iff s he.2.1 he.2.2 rfl rfl
    obtain ⟨c', es', run, hc', hes'⟩ := ih (hc.insertIfNew _ v) added
    refine ⟨c', es', ?_, hc', hes'⟩
    have step : (do return c.insertIfNew (← keyOf v) v : Eval OrderedSet) s =
        .ok (c.insertIfNew (f.keyBy s.symbols.numbering) v) s :=
      bind_eq_of_ok hv.keyOf_eq
    rw [insertMembers, List.foldlM_cons, bind_eq_of_ok step]
    exact run

theorem insertEntries_eq {fs : List (Form × Form)} {vs : List (Value × Value)}
    (hvs : List.Forall₂ (fun f v => f.1.ShownBy s.heap s.symbols v.1 ∧ f.2.ShownBy s.heap s.symbols v.2) fs vs)
    {c : OrderedMap} {ms : Listing (Form × Form)} {es : Listing (Value × Value)} (hc : c.Lists es)
    (hes : List.Forall₂ (EntryShows s) ms es) :
    ∃ c' es', insertEntries c vs s = .ok c' s ∧ c'.Lists es' ∧
      List.Forall₂ (EntryShows s) (fs.foldl (fun l e => Listing.put e.1.key e l) ms) es' := by
  induction hvs generalizing c ms es with
  | nil => exact ⟨c, es, rfl, hc, hes⟩
  | @cons f v fs vs hv _ ih =>
    have one : EntryShows s (f.1.key, f) (f.1.keyBy s.symbols.numbering, v) := ⟨hv, rfl, rfl⟩
    have put := Listing.forall₂_put hes one fun e e' he =>
      key_eq_iff s he.2.1 he.2.2 rfl rfl
    obtain ⟨c', es', run, hc', hes'⟩ := ih (hc.insert _ v) put
    refine ⟨c', es', ?_, hc', hes'⟩
    have step : (do return c.insert (← keyOf v.1) v : Eval OrderedMap) s =
        .ok (c.insert (f.1.keyBy s.symbols.numbering) v) s :=
      bind_eq_of_ok hv.1.keyOf_eq
    rw [insertEntries, List.foldlM_cons, bind_eq_of_ok step]
    exact run

theorem newSet_places (hs : s.heap.Sound) {fs : List Form} {vs : List Value}
    (hvs : List.Forall₂ (Form.ShownBy s.heap s.symbols) fs vs) :
    Places s (fun v t => (Form.group .set (Form.mergeMembers fs) .unknown).ShownBy t.heap t.symbols v)
      (newSet vs s) := by
  obtain ⟨c, es, run, hc, hes⟩ := insertMembers_eq hvs .empty .nil
  rw [newSet, bind_eq_of_ok run]
  refine new_places hs rfl ?_
  change List.Forall₂ _ _ c.toList
  rw [hc.toList_eq, Form.mergeMembers, List.forall₂_map_left_iff, List.forall₂_map_right_iff]
  exact hes.imp fun _ _ he => he.1

theorem newMap_places (hs : s.heap.Sound) {fs : List (Form × Form)} {vs : List (Value × Value)}
    (hvs : List.Forall₂ (fun f v => f.1.ShownBy s.heap s.symbols v.1 ∧ f.2.ShownBy s.heap s.symbols v.2) fs vs) :
    Places s (fun v t => (Form.group .map ((Form.mergeEntries fs).flatMap fun e => [e.1, e.2])
      .unknown).ShownBy t.heap t.symbols v) (newMap vs s) := by
  obtain ⟨c, es, run, hc, hes⟩ := insertEntries_eq hvs .empty .nil
  rw [newMap, bind_eq_of_ok run]
  refine new_places hs rfl ?_
  change List.Forall₂ _ _ (c.toList.flatMap fun e => [e.1, e.2])
  rw [hc.toList_eq, Form.mergeEntries, List.flatMap_map, List.flatMap_map]
  exact List.rel_flatMap hes fun _ _ he => .cons he.1.1 (.cons he.1.2 .nil)

/-! ### Forms -/

theorem valueOfLeaf_places (hs : s.heap.Sound) {d : Leaf} (hd : ∀ n, d ≠ .object n) :
    Places s (fun v t => (Form.leaf d .unknown).ShownBy t.heap t.symbols v) (valueOfLeaf d s) := by
  cases d with
  | str text =>
    refine (alloc_places hs (.str text)).bind fun a t ht ha => ?_
    exact .pure ht.sound (.leaf ⟨a, rfl, ha.1⟩)
  | symbol name =>
    refine (intern_places hs name).bind fun x t ht hx => ?_
    exact .pure ht.sound (.leaf ⟨x, rfl, hx⟩)
  | keyword name =>
    refine (intern_places hs name).bind fun x t ht hx => ?_
    exact .pure ht.sound (.leaf ⟨x, rfl, hx⟩)
  | object n => exact absurd rfl (hd n)
  | _ => exact .pure hs (.leaf rfl)

theorem pairUp_eq (vs : List Value) : pairUp vs = pairsOr .nil vs := by
  fun_induction pairUp vs with
  | case1 => rfl
  | case2 k => rfl
  | case3 k v rest ih => rw [ih, pairsOr]

theorem valueOfGroup_places (hs : s.heap.Sound) (b : Bracket) (l : Location) {fs : List Form}
    {vs : List Value} (hvs : List.Forall₂ (Form.ShownBy s.heap s.symbols) fs vs) :
    Places s (fun v t => (Form.group b (Form.merge b fs) (Form.keep b l)).ShownBy t.heap t.symbols v)
      (valueOfGroup b vs l s) := by
  cases b with
  | list => exact new_places hs rfl hvs
  | vector => exact new_places hs rfl hvs
  | set => exact newSet_places hs hvs
  | map =>
    rw [valueOfGroup, pairUp_eq]
    exact newMap_places hs (forall₂_pairsOr (.leaf rfl) hvs)

theorem valuesOfForms_places (hs : s.heap.Sound) {fs : List Form}
    (h : ∀ f ∈ fs, ∀ s, s.heap.Sound →
      Places s (fun v t => f.asData.ShownBy t.heap t.symbols v) (valueOfForm f s)) :
    Places s (fun vs t => List.Forall₂ (Form.ShownBy t.heap t.symbols) (fs.map Form.asData) vs)
      (valuesOfForms fs s) := by
  induction fs generalizing s with
  | nil => exact .pure hs .nil
  | cons f fs ih =>
    obtain ⟨hf, hfs⟩ := List.forall_mem_cons.1 h
    refine (hf s hs).bind fun v t ht hv => ?_
    refine (ih ht.sound hfs).bind fun vs u hu hvs => ?_
    exact .pure hu.sound (.cons (hu.shownBy hv) hvs)

/-- **The value of a form shows it as data.** -/
theorem valueOfForm_places {f : Form} (hf : f.IsWritten) (s : Session) (hs : s.heap.Sound) :
    Places s (fun v t => f.asData.ShownBy t.heap t.symbols v) (valueOfForm f s) := by
  induction hf generalizing s with
  | leaf hd => exact valueOfLeaf_places hs hd
  | @group b fs l _ _ ih =>
    refine (valuesOfForms_places hs ih).bind fun vs t ht hvs => ?_
    rw [Form.asData, Form.allAsData_eq_map]
    exact valueOfGroup_places ht.sound b l hvs

/-! ### There and back -/

/-- **A form that was read comes back as data.** If no keys of a map and no members of a set in it are
equal, it prints as before and has the same nodes, of which the lists and vectors have their locations
and the others none. -/
theorem formOfValue_valueOfForm {source : String} {f : Form} (read : f ∈ (readForms source).forms)
    {s : Session} (hs : s.heap.Sound) :
    ((∃ t, (do formOfValue (← valueOfForm f)) s = .ok f.asData t) ∨
      ∃ e t, (do formOfValue (← valueOfForm f)) s = .error (.fault e) t ∧
        e.cause.kind = .heapExhausted ∧ s.Exhausts t) ∧
    (f.IsDistinct → f.asData.text = f.text ∧
      f.asData.outline Form.location = f.outline Form.keptLocation) := by
  have written := readForms_written source f read
  refine ⟨?_, fun distinct => ⟨Form.text_asData written distinct, Form.outline_asData written distinct⟩⟩
  have places := valueOfForm_places written s hs
  cases run : valueOfForm f s with
  | ok v t =>
    rw [run] at places
    left
    exact ⟨t, (bind_eq_of_ok run).trans places.2.formOfValue_eq⟩
  | error e t =>
    rw [run] at places
    obtain ⟨⟨fault, rfl, kind⟩, ended⟩ := places
    right
    exact ⟨fault, t, bind_eq_of_error run, kind, ended⟩

/-- A map with a key that stands there twice. -/
def repeatingForm : Form :=
  .group .map
    [.leaf (.keyword "a") ⟨1, 2⟩, .leaf (.int 1) ⟨1, 5⟩, .leaf (.keyword "a") ⟨1, 7⟩, .leaf (.int 2) ⟨1, 10⟩]
    ⟨1, 1⟩

/-- A map with two equal keys does not print as before: `{:a 1, :a 2}` comes back as `{:a 2}`. -/
theorem formOfValue_valueOfForm_loses :
    repeatingForm ∈ (readForms "\x7b:a 1 :a 2\x7d").forms ∧
      ∃ g t, (do formOfValue (← valueOfForm repeatingForm)) (Session.fresh {}) = .ok g t ∧
        repeatingForm.text = "\x7b:a 1, :a 2\x7d" ∧ g.text = "\x7b:a 2\x7d" := by
  constructor
  · have forms : (readForms "\x7b:a 1 :a 2\x7d").forms = [repeatingForm] := by rfl
    rw [forms]
    exact List.mem_singleton_self _
  · refine ⟨_, _, rfl, ?_⟩
    decide +kernel

end Eval

end TwinLisp
