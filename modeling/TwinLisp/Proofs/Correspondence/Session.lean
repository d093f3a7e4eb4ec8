import TwinLisp.Proofs.Correspondence.Object
import TwinLisp.Session.Basic

/-!
# Corresponding sessions

Two sessions correspond in a world if what the world relates is there on both sides and looks the
same, and if everything else that a program can observe is equal: the output, the counters, the
locations to blame and the limits that have nothing to do with the heap.

The second session is an ideal one: its heap never fills up, and it never collects. Or else it is the
first one, compared with itself, and then everything on the heap is whole: it leads to nothing that is
not there.

## Main definitions

* `Heap.Match` and `Session.Match`.

## Main statements

* `Session.Match.place`: new objects that correspond make sessions that do.
* `Session.Match.intern`, `Session.Match.embed`, `Session.Match.setAtom`: likewise for names,
  handles and the contents of atoms.
-/

namespace TwinLisp

/-- Two heaps correspond, the second of which has no limit or is the first one. -/
structure Heap.Match (S : Setting) (w : World) (h k : Heap) : Prop where
  eq : w.isSelf → h = k
  objects : ∀ {l a b}, w.live l a b → ∃ o o', h.get? a = some o ∧ k.get? b = some o' ∧ o.kind = l ∧
    o.Match S w o' ∧ (S.exact ∨ o.isIdentity → w.pair a b)
  known : ∀ {a b}, w.pair a b → h.Known a ∧ k.Known b
  handles : ∀ {n}, w.handle n → n < h.nextHandle ∧ ∃ v v', h.embedded? n = some v ∧
    k.embedded? n = some v' ∧ v.Match w v'
  nextHandle : h.nextHandle = k.nextHandle
  oldest : S.oldest ≤ h.nextHandle
  since : h.Continues S.since
  /-- A heap that is compared with itself is whole. -/
  whole : w.isSelf → ∀ {a o}, h.get? a = some o → w.live o.kind a a
  registered : w.isSelf → ∀ {n v}, h.embedded? n = some v → w.handle n
  soundLeft : h.Sound
  soundRight : k.Sound
  foundedLeft : h.Founded w.Left
  foundedRight : k.Founded w.Right
  unlimited : ¬ w.isSelf → k.capacity = none

/-- Two sessions correspond, the second of which is ideal or the first one. -/
structure Session.Match (S : Setting) (w : World) (s t : Session) : Prop where
  isSelf : S.isSelf → w.isSelf
  eq : w.isSelf → s = t
  unique : w.Unique
  symbols : s.symbols.Match w t.symbols
  scopes : S.scopes w s.symbols s.scopes t.symbols t.scopes
  heap : s.heap.Match S w t.heap
  callLimit : s.limits.callDepth = t.limits.callDepth
  formLimit : s.limits.formDepth = t.limits.formDepth
  macroLimit : s.limits.macroDepth = t.limits.macroDepth
  attribution : s.attribution = t.attribution
  pins : ∀ i : Nat, Option.Rel (Value.Match w) s.pins[i]? t.pins[i]?
  nextPin : s.nextPin = t.nextPin
  operands : Value.MatchAll w s.operands.toList t.operands.toList
  generated : s.generated = t.generated
  callDepth : s.callDepth = t.callDepth
  nesting : s.nesting = t.nesting
  output : s.output = t.output
  aliveLeft : s.terminated = false
  aliveRight : t.terminated = false
  inhibited : ¬ w.isSelf → t.inhibited = s.inhibited + 1

/-! ### Larger worlds -/

namespace World

/-- The world in which two objects of a kind correspond, too. -/
def withObject (w : World) (k : Kind) (a b : Address) (h : w.isSelf → a = b) : World :=
  { w with
    pair := fun x y => w.pair x y ∨ (x = a ∧ y = b)
    live := fun l x y => w.live l x y ∨ (l = k ∧ x = a ∧ y = b)
    pair_eq := fun hs _ _ hp => hp.elim (w.pair_eq hs) fun ⟨hx, hy⟩ => hx ▸ hy ▸ h hs
    live_eq := fun hs _ _ _ hl => hl.elim (w.live_eq hs) fun ⟨_, hx, hy⟩ => hx ▸ hy ▸ h hs }

/-- The world in which two names correspond, too. -/
def withSymbol (w : World) (x y : Symbol) (h : w.isSelf → x = y) : World :=
  { w with
    sym := fun u v => w.sym u v ∨ (u = x ∧ v = y)
    sym_eq := fun hs _ _ hn => hn.elim (w.sym_eq hs) fun ⟨hu, hv⟩ => hu ▸ hv ▸ h hs }

/-- The world with one more handle. -/
def withHandle (w : World) (n : Nat) : World := { w with handle := fun m => w.handle m ∨ m = n }

variable {w : World}

theorem le_withObject {k : Kind} {a b : Address} {h : w.isSelf → a = b} : w ≤ w.withObject k a b h :=
  ⟨.rfl, id, .inl, .inl, id, id⟩

theorem le_withSymbol {x y : Symbol} {h : w.isSelf → x = y} : w ≤ w.withSymbol x y h :=
  ⟨.rfl, .inl, id, id, id, id⟩

theorem le_withHandle {n : Nat} : w ≤ w.withHandle n := ⟨.rfl, id, id, id, id, .inl⟩

end World

/-! ### What corresponding heaps have in common -/

namespace Heap.Match

variable {S : Setting} {w : World} {h k : Heap}

/-- What data refers to corresponds. -/
theorem closed_left (hm : h.Match S w k) : h.Closed w.Left where
  isLive := by
    rintro a ⟨l, b, hb⟩
    obtain ⟨o, -, ho, -⟩ := hm.objects hb
    exact Option.isSome_of_eq_some ho
  contents := by
    rintro a p ⟨l, b, hb⟩ hp m c hc
    obtain ⟨o, o', ho, -, -, hoo, -⟩ := hm.objects hb
    rw [ho] at hp
    cases hp
    obtain ⟨v, -, hv⟩ := exists_of_forall₂ hoo.contents hc
    cases hv with
    | ref _ h => exact ⟨_, _, h⟩

theorem closed_right (hm : h.Match S w k) : k.Closed w.Right where
  isLive := by
    rintro b ⟨l, a, ha⟩
    obtain ⟨-, o', -, ho', -⟩ := hm.objects ha
    exact Option.isSome_of_eq_some ho'
  contents := by
    rintro b p ⟨l, a, ha⟩ hp m c hc
    obtain ⟨o, o', -, ho', -, hoo, -⟩ := hm.objects ha
    rw [ho'] at hp
    cases hp
    obtain ⟨v, -, hv⟩ := exists_of_forall₂_right hoo.contents hc
    cases hv with
    | ref _ h => exact ⟨_, _, h⟩

/-- In one heap, a new object is the same one. -/
theorem place_eq {o o' : Object} (hm : h.Match S w k) (ho : o.Match S w o') (hs : w.isSelf) :
    h.place o = k.place o' := by
  rw [hm.eq hs, ho.eq hs]

/-- A new object corresponds to a new object alone. -/
theorem place {o o' : Object} (hm : h.Match S w k) (ho : o.Match S w o') :
    (h.place o).1.Match S (w.withObject o.kind (h.place o).2 (k.place o').2
      fun hs => congrArg Prod.snd (hm.place_eq ho hs)) (k.place o').1 where
  eq hs := congrArg Prod.fst (hm.place_eq ho hs)
  objects {l a b} hl := by
    rcases hl with hl | ⟨rfl, rfl, rfl⟩
    · obtain ⟨p, p', hp, hp', hk, hpp, hpair⟩ := hm.objects hl
      refine ⟨p, p', ?_, ?_, hk, hpp.mono World.le_withObject, fun e => .inl (hpair e)⟩
      · rw [Heap.get?_place_of_known o hm.soundLeft (Heap.known_of_get? hp), hp]
      · rw [Heap.get?_place_of_known o' hm.soundRight (Heap.known_of_get? hp'), hp']
    · exact ⟨o, o', h.get?_place_self o hm.soundLeft, k.get?_place_self o' hm.soundRight, rfl,
        ho.mono World.le_withObject, fun _ => .inr ⟨rfl, rfl⟩⟩
  known {a b} hl := by
    rcases hl with hl | ⟨rfl, rfl⟩
    · exact ⟨(hm.known hl).1.place o hm.soundLeft, (hm.known hl).2.place o' hm.soundRight⟩
    · exact ⟨Heap.known_of_get? (h.get?_place_self o hm.soundLeft),
        Heap.known_of_get? (k.get?_place_self o' hm.soundRight)⟩
  handles {n} hn := by
    obtain ⟨lt, v, v', hv, hv', hvv⟩ := hm.handles hn
    refine ⟨by simpa using lt, v, v', ?_, ?_, hvv.mono World.le_withObject⟩
    · simpa [Heap.embedded?] using hv
    · simpa [Heap.embedded?] using hv'
  nextHandle := by simpa using hm.nextHandle
  oldest := by simpa using hm.oldest
  since := (Heap.Continues.place h o).trans hm.since
  whole hs {a p} hp := by
    rw [Heap.get?_place h o hm.soundLeft] at hp
    split at hp
    · next e =>
      cases hp
      exact .inr ⟨rfl, e, e.trans (congrArg Prod.snd (hm.place_eq ho hs))⟩
    · exact .inl (hm.whole hs hp)
  registered hs {n v} hv := hm.registered hs (by simpa [Heap.embedded?] using hv)
  soundLeft := hm.soundLeft.place o
  soundRight := hm.soundRight.place o'
  foundedLeft := by
    refine (hm.foundedLeft.place hm.soundLeft hm.closed_left o fun {l c} hc => ?_).imp fun a ha => ?_
    · obtain ⟨v, -, hv⟩ := exists_of_forall₂ ho.contents hc
      cases hv with
      | ref _ h => exact ⟨_, _, h⟩
    · obtain ⟨l, b, hb | ⟨-, rfl, -⟩⟩ := ha
      · exact .inl ⟨l, b, hb⟩
      · exact .inr rfl
  foundedRight := by
    refine (hm.foundedRight.place hm.soundRight hm.closed_right o' fun {l c} hc => ?_).imp
      fun b hb => ?_
    · obtain ⟨v, -, hv⟩ := exists_of_forall₂_right ho.contents hc
      cases hv with
      | ref _ h => exact ⟨_, _, h⟩
    · obtain ⟨l, a, ha | ⟨-, -, rfl⟩⟩ := hb
      · exact .inl ⟨l, a, ha⟩
      · exact .inr rfl
  unlimited hs := by simpa using hm.unlimited hs

/-- What corresponds goes on doing so in a larger world that has no more objects and handles. -/
theorem mono {w' : World} (hm : h.Match S w k) (hw : w ≤ w') (hp : w'.pair = w.pair)
    (hl : w'.live = w.live) (hh : w'.handle = w.handle) : h.Match S w' k where
  eq hs := hm.eq (hw.isSelf.1 hs)
  objects {l a b} hab := by
    obtain ⟨o, o', ho, ho', hk, hoo, hpair⟩ := hm.objects (hl ▸ hab)
    exact ⟨o, o', ho, ho', hk, hoo.mono hw, hp ▸ hpair⟩
  known hab := hm.known (hp ▸ hab)
  handles {n} hn := by
    obtain ⟨lt, v, v', hv, hv', hvv⟩ := hm.handles (hh ▸ hn)
    exact ⟨lt, v, v', hv, hv', hvv.mono hw⟩
  nextHandle := hm.nextHandle
  oldest := hm.oldest
  since := hm.since
  whole hs _ _ ho := hw.live (hm.whole (hw.isSelf.1 hs) ho)
  registered hs _ _ hv := hw.handle (hm.registered (hw.isSelf.1 hs) hv)
  soundLeft := hm.soundLeft
  soundRight := hm.soundRight
  foundedLeft := hm.foundedLeft.imp fun a ⟨l, b, hab⟩ => ⟨l, b, hl ▸ hab⟩
  foundedRight := hm.foundedRight.imp fun b ⟨l, a, hab⟩ => ⟨l, a, hl ▸ hab⟩
  unlimited hs := hm.unlimited fun h => hs (hw.isSelf.2 h)

/-- New handles are equal, and stand for values that correspond. -/
theorem embed {v v' : Value} (hm : h.Match S w k) (hv : v.Match w v') :
    (h.embed v).1.Match S (w.withHandle h.nextHandle) (k.embed v').1 where
  eq hs := by rw [hm.eq hs, hv.eq hs]
  objects {l a b} hab := by
    obtain ⟨o, o', ho, ho', hk, hoo, hpair⟩ := hm.objects hab
    exact ⟨o, o', ho, ho', hk, hoo.mono World.le_withHandle, hpair⟩
  known := hm.known
  handles {n} hn := by
    rw [Heap.embedded?_embed, Heap.embedded?_embed]
    rcases hn with hn | rfl
    · obtain ⟨lt, u, u', hu, hu', huu⟩ := hm.handles hn
      refine ⟨Nat.lt_succ_of_lt lt, u, u', ?_, ?_, huu.mono World.le_withHandle⟩
      · rw [if_neg (Nat.ne_of_gt lt), hu]
      · rw [if_neg (hm.nextHandle ▸ Nat.ne_of_gt lt), hu']
    · exact ⟨Nat.lt_succ_self _, v, v', if_pos rfl, if_pos hm.nextHandle.symm,
        hv.mono World.le_withHandle⟩
  nextHandle := congrArg (· + 1) hm.nextHandle
  oldest := Nat.le_succ_of_le hm.oldest
  since := (Heap.Continues.embed h v).trans hm.since
  whole hs _ _ ho := hm.whole hs ho
  registered hs {n u} hu := by
    rw [Heap.embedded?_embed] at hu
    split at hu
    · next e => exact .inr e.symm
    · exact .inl (hm.registered hs hu)
  soundLeft := ⟨hm.soundLeft.nodup, hm.soundLeft.empty_of_mem⟩
  soundRight := ⟨hm.soundRight.nodup, hm.soundRight.empty_of_mem⟩
  foundedLeft := hm.foundedLeft
  foundedRight := hm.foundedRight
  unlimited := hm.unlimited

/-- Atoms that correspond get contents that do. -/
theorem setAtom {a b : Address} {u v v' : Value} (hm : h.Match S w k) (hab : w.live .atom a b)
    (ha : h.get? a = some (.atom u)) (hu : w.Unique) (hv : v.Match w v') :
    (h.set a (.atom v)).Match S w (k.set b (.atom v')) := by
  obtain ⟨o, o', ho, ho', -, hoo, hpair⟩ := hm.objects hab
  rw [ha] at ho
  cases ho
  have pair : w.pair a b := hpair (.inr rfl)
  refine ⟨fun hs => ?_, fun {l c d} hcd => ?_,
    fun hcd => ⟨(hm.known hcd).1.set _ _, (hm.known hcd).2.set _ _⟩, hm.handles, hm.nextHandle, hm.oldest,
    (Heap.Continues.set ..).trans hm.since, fun hs {c p} hp => ?_, hm.registered, hm.soundLeft.set _ _,
    hm.soundRight.set _ _,
    hm.foundedLeft.set _ rfl, hm.foundedRight.set _ rfl, hm.unlimited⟩
  · rw [hm.eq hs, w.live_eq hs hab, hv.eq hs]
  rotate_left
  · rw [Heap.get?_set] at hp
    split at hp
    · next e =>
      obtain ⟨q, hq, rfl⟩ := Option.map_eq_some_iff.1 hp
      rw [e] at hq ⊢
      rw [ha] at hq
      cases hq
      have kind : w.live (Object.atom u).kind a a := hm.whole hs ha
      exact kind
    · exact hm.whole hs hp
  obtain ⟨p, p', hp, hp', hk, hpp, hcd'⟩ := hm.objects hcd
  rw [Heap.get?_set, Heap.get?_set, hp, hp']
  by_cases hca : c = a
  · -- Atoms are told apart by address, so the one on the other side is the same as well.
    subst hca
    rw [ha] at hp
    cases hp
    have hdb : d = b := hu.pair_right (hcd' (.inr rfl)) pair
    rw [if_pos rfl, if_pos hdb]
    exact ⟨_, _, rfl, rfl, hk, .atom hv, fun _ => hdb ▸ pair⟩
  · rw [if_neg hca]
    by_cases hdb : d = b
    · subst hdb
      rw [ho'] at hp'
      cases hp'
      have identity : p.isIdentity = true := by
        rw [hpp.isIdentity_eq]
        cases hoo
        rfl
      exact absurd (hu.pair_left (hcd' (.inr identity)) pair) hca
    · rw [if_neg hdb]
      exact ⟨p, p', rfl, rfl, hk, hpp, hcd'⟩

end Heap.Match

/-! ### Names -/

namespace SymbolTable

/-- The names after entering one. -/
theorem names_intern (σ : SymbolTable) (name : String) (i : Nat) (n : String) :
    (σ.intern name).1.names[i]? = some n ↔
      σ.names[i]? = some n ∨ (i = (σ.intern name).2.index ∧ n = name) := by
  unfold intern
  split
  · next x hx =>
    obtain ⟨j, hj, rfl⟩ := Option.map_eq_some_iff.1 hx
    refine ⟨.inl, fun h => h.elim id ?_⟩
    rintro ⟨rfl, rfl⟩
    exact (σ.coherent n _).1 hj
  · simp only [Array.getElem?_push]
    split
    · next hi =>
      have : σ.names[i]? = none := by simp [hi]
      rw [this]
      simp [hi, eq_comm]
    · next hi => simp [hi]

theorem eq_of_names {σ : SymbolTable} {i j : Nat} {n : String} (hi : σ.names[i]? = some n)
    (hj : σ.names[j]? = some n) : i = j := by
  have := (σ.coherent n i).2 hi
  rw [(σ.coherent n j).2 hj] at this
  cases this
  rfl

variable {w : World} {σ τ : SymbolTable}

theorem Match.sym_right (h : σ.Match w τ) {x y z : Symbol} (hy : w.sym x y) (hz : w.sym x z) :
    y = z := by
  obtain ⟨n, hx, hy⟩ := (h x y).1 hy
  obtain ⟨m, hx', hz⟩ := (h x z).1 hz
  rw [hx] at hx'
  cases hx'
  have := eq_of_names hy hz
  cases y
  cases z
  simp_all

theorem Match.sym_left (h : σ.Match w τ) {x y z : Symbol} (hx : w.sym x z) (hy : w.sym y z) :
    x = y := by
  obtain ⟨n, hx, hz⟩ := (h x z).1 hx
  obtain ⟨m, hy, hz'⟩ := (h y z).1 hy
  rw [hz] at hz'
  cases hz'
  have := eq_of_names hx hy
  cases x
  cases y
  simp_all

theorem Match.name_eq (h : σ.Match w τ) {x y : Symbol} (hxy : w.sym x y) : σ.name x = τ.name y := by
  obtain ⟨n, hx, hy⟩ := (h x y).1 hxy
  rw [name, name, hx, hy]

theorem sym_of_find? (h : σ.Match w τ) {n : String} {x y : Symbol} (hx : σ.find? n = some x)
    (hy : τ.find? n = some y) : w.sym x y :=
  (h x y).2 ⟨n, find?_eq_some_iff.1 hx, find?_eq_some_iff.1 hy⟩

/-- Where one of two names that correspond is found, so is the other. -/
theorem Match.find?_iff (h : σ.Match w τ) {n : String} {x y : Symbol} (hxy : w.sym x y) :
    σ.find? n = some x ↔ τ.find? n = some y := by
  obtain ⟨m, hx, hy⟩ := (h x y).1 hxy
  rw [find?_eq_some_iff, find?_eq_some_iff, hx, hy]

/-- A name that is entered on both sides corresponds. -/
theorem Match.intern (h : σ.Match w τ) (name : String)
    (he : w.isSelf → (σ.intern name).2 = (τ.intern name).2) :
    (σ.intern name).1.Match (w.withSymbol (σ.intern name).2 (τ.intern name).2 he)
      (τ.intern name).1 := by
  have here (ρ : SymbolTable) : (ρ.intern name).1.names[(ρ.intern name).2.index]? = some name :=
    (ρ.names_intern name _ _).2 (.inr ⟨rfl, rfl⟩)
  have same (ρ : SymbolTable) {i : Nat} (hi : ρ.names[i]? = some name) :
      i = (ρ.intern name).2.index :=
    eq_of_names ((ρ.names_intern name _ _).2 (.inl hi)) (here ρ)
  intro x y
  constructor
  · rintro (hxy | ⟨rfl, rfl⟩)
    · obtain ⟨n, hx, hy⟩ := (h x y).1 hxy
      exact ⟨n, (names_intern ..).2 (.inl hx), (names_intern ..).2 (.inl hy)⟩
    · exact ⟨name, here σ, here τ⟩
  · rintro ⟨n, hx, hy⟩
    have new : n = name → x = (σ.intern name).2 ∧ y = (τ.intern name).2 := by
      rintro rfl
      have hx := eq_of_names hx (here σ)
      have hy := eq_of_names hy (here τ)
      exact ⟨by cases x; simp_all, by cases y; simp_all⟩
    rcases (names_intern ..).1 hx with hx | ⟨-, e⟩
    · rcases (names_intern ..).1 hy with hy | ⟨-, e⟩
      · exact .inl ((h x y).2 ⟨n, hx, hy⟩)
      · exact .inr (new e)
    · exact .inr (new e)

end SymbolTable

/-! ### Sessions -/

namespace Session.Match

variable {S : Setting} {w : World} {s t : Session}

/-- Pinned values go on to correspond. -/
theorem pins_mono {w' : World} (h : s.Match S w t) (hw : w ≤ w') (i : Nat) :
    Option.Rel (Value.Match w') s.pins[i]? t.pins[i]? :=
  Option.Rel.imp (h.pins i) fun _ _ hv => hv.mono hw

theorem operands_mono {w' : World} (h : s.Match S w t) (hw : w ≤ w') :
    Value.MatchAll w' s.operands.toList t.operands.toList := Value.Match.all_mono h.operands hw

/-- New objects that correspond make sessions that do. -/
theorem place {o o' : Object} (h : s.Match S w t) (ho : o.Match S w o') :
    Session.Match S (w.withObject o.kind (s.heap.place o).2 (t.heap.place o').2
        fun hs => congrArg Prod.snd (h.heap.place_eq ho hs))
      { s with heap := (s.heap.place o).1 } { t with heap := (t.heap.place o').1 } :=
  { h with
    eq := fun hs => by rw [h.eq hs, ho.eq hs]
    pins := h.pins_mono World.le_withObject
    operands := h.operands_mono World.le_withObject
    unique := {
      sym_right := h.unique.sym_right
      sym_left := h.unique.sym_left
      pair_right := by
        rintro a b c (hb | ⟨rfl, rfl⟩) (hc | ⟨ha, rfl⟩)
        · exact h.unique.pair_right hb hc
        · exact absurd (h.heap.known hb).1 (ha ▸ s.heap.not_known_place o h.heap.soundLeft)
        · exact absurd (h.heap.known hc).1 (s.heap.not_known_place o h.heap.soundLeft)
        · rfl
      pair_left := by
        rintro a b c (ha | ⟨rfl, rfl⟩) (hb | ⟨rfl, hc⟩)
        · exact h.unique.pair_left ha hb
        · exact absurd (h.heap.known ha).2 (hc ▸ t.heap.not_known_place o' h.heap.soundRight)
        · exact absurd (h.heap.known hb).2 (t.heap.not_known_place o' h.heap.soundRight)
        · rfl }
    symbols := h.symbols
    scopes := S.scopes_mono World.le_withObject rfl h.scopes
    heap := h.heap.place ho }

/-- A name that is entered in both sessions corresponds. -/
theorem intern (h : s.Match S w t) (name : String) :
    Session.Match S (w.withSymbol (s.symbols.intern name).2 (t.symbols.intern name).2
        fun hs => by rw [h.eq hs])
      { s with symbols := (s.symbols.intern name).1 } { t with symbols := (t.symbols.intern name).1 } :=
  have entered := h.symbols.intern name fun hs => by rw [h.eq hs]
  { h with
    eq := fun hs => by rw [h.eq hs]
    pins := h.pins_mono World.le_withSymbol
    operands := h.operands_mono World.le_withSymbol
    unique := {
      sym_right := entered.sym_right
      sym_left := entered.sym_left
      pair_right := h.unique.pair_right
      pair_left := h.unique.pair_left }
    symbols := entered
    scopes := S.scopes_mono World.le_withSymbol rfl (S.scopes_intern name h.scopes)
    heap := h.heap.mono World.le_withSymbol rfl rfl rfl }

/-- Values that correspond are registered under the same handle. -/
theorem embed {v v' : Value} (h : s.Match S w t) (hv : v.Match w v') :
    Session.Match S (w.withHandle s.heap.nextHandle) { s with heap := (s.heap.embed v).1 }
      { t with heap := (t.heap.embed v').1 } :=
  { h with
    eq := fun hs => by rw [h.eq hs, hv.eq hs]
    pins := h.pins_mono World.le_withHandle
    operands := h.operands_mono World.le_withHandle
    unique := ⟨h.unique.sym_right, h.unique.sym_left, h.unique.pair_right, h.unique.pair_left⟩
    symbols := h.symbols
    scopes := S.scopes_mono World.le_withHandle rfl h.scopes
    heap := h.heap.embed hv }

/-- Atoms that correspond get contents that do. -/
theorem setAtom {a b : Address} {u v v' : Value} (h : s.Match S w t) (hab : w.live .atom a b)
    (ha : s.heap.get? a = some (.atom u)) (hv : v.Match w v') :
    Session.Match S w { s with heap := s.heap.set a (.atom v) }
      { t with heap := t.heap.set b (.atom v') } :=
  { h with
    eq := fun hs => by rw [h.eq hs, w.live_eq hs hab, hv.eq hs]
    heap := h.heap.setAtom hab ha h.unique hv }

end Session.Match

end TwinLisp
