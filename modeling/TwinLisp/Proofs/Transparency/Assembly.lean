import TwinLisp.Bytecode.Assembly
import TwinLisp.Proofs.Correspondence.Equality
import TwinLisp.Proofs.Transparency.Scope

/-!
# Code is assembled alike

Nothing is collected while a program is compiled. Both sides emit the same code and fill their tables in
the same order, so that the tables differ only in where the constants lie.

## Main definitions

* `CodeTables.Match` and `Assembly.Match`.
* `Assembles`: two computations that assemble code agree.

## Main statements

* `Assembles.addConstant`: a constant gets the same index on both sides.
* `Assembles.resolve`: a name denotes the same on both sides.
-/

namespace TwinLisp

/-- Two tables correspond. -/
structure CodeTables.Match (w : World) (t u : CodeTables) : Prop where
  constants : Value.MatchAll w t.constants.toList u.constants.toList
  sites : t.sites = u.sites
  prototypes : Prototype.AllMatch w t.prototypes.toList u.prototypes.toList

/-- Two assemblies correspond. -/
structure Assembly.Match (w : World) (a b : Assembly) : Prop where
  tables : a.tables.Match w b.tables
  captures : a.captures = b.captures

/-- Two computations that assemble code agree. -/
def Assembles (e : Terms) (w : World) {α β : Type} (x : Assemble α) (y : Assemble β)
    (R : Related α β) : Prop :=
  ∀ ⦃a b : Assembly⦄, a.Match w b →
    Sim (.transparent e) false w (x a) (y b) fun w r r' => R w r.1 r'.1 ∧ r.2.Match w r'.2

variable {e : Terms} {w w' : World}

/-! ### Tables -/

namespace Prototype.AllMatch

theorem forall₂ {ps qs : List Prototype} (h : Prototype.AllMatch w ps qs) :
    List.Forall₂ (Prototype.Match w) ps qs := by
  induction ps generalizing qs with
  | nil =>
    cases h
    exact .nil
  | cons p ps ih =>
    cases h with
    | cons h hs => exact .cons h (ih hs)

theorem of_forall₂ {ps qs : List Prototype} (h : List.Forall₂ (Prototype.Match w) ps qs) :
    Prototype.AllMatch w ps qs := by
  induction h with
  | nil => exact .nil
  | cons h _ ih => exact .cons h ih

theorem mono {ps qs : List Prototype} (h : Prototype.AllMatch w ps qs) (hw : w ≤ w') :
    Prototype.AllMatch w' ps qs :=
  .of_forall₂ (h.forall₂.imp fun _ _ h => h.mono hw)

end Prototype.AllMatch

theorem CodeTables.Match.mono {t u : CodeTables} (h : t.Match w u) (hw : w ≤ w') : t.Match w' u :=
  ⟨Value.Match.all_mono h.constants hw, h.sites, h.prototypes.mono hw⟩

theorem CodeTables.Match.empty : CodeTables.empty.Match w .empty := ⟨.nil, rfl, .nil⟩

theorem Assembly.Match.mono {a b : Assembly} (h : a.Match w b) (hw : w ≤ w') : a.Match w' b :=
  ⟨h.tables.mono hw, h.captures⟩

namespace Assembles

variable {α β γ δ : Type} {R : Related α β} {T : Related γ δ}

/-! ### Putting computations together -/

theorem pure {x : α} {y : β} (h : R w x y) : Assembles e w (pure x) (pure y) R :=
  fun _ _ hab => Sim.pure ⟨h, hab⟩

theorem bind {x : Assemble α} {y : Assemble β} {f : α → Assemble γ} {g : β → Assemble δ}
    (h : Assembles e w x y R)
    (hfg : ∀ {w' a b}, w ≤ w' → R w' a b → Assembles e w' (f a) (g b) T) :
    Assembles e w (x >>= f) (y >>= g) T :=
  fun _ _ hab => Sim.bind (h hab) fun hw hr => hfg hw hr.1 hr.2

theorem imp {Q : Related α β} {x : Assemble α} {y : Assemble β} (h : Assembles e w x y R)
    (hR : ∀ {w' a b}, w ≤ w' → R w' a b → Q w' a b) : Assembles e w x y Q :=
  fun _ _ hab => (h hab).imp fun hw hr => ⟨hR hw hr.1, hr.2⟩

theorem lift {x : Eval α} {y : Eval β} (h : Sim (.transparent e) false w x y R) :
    Assembles e w (StateT.lift x) (StateT.lift y) R :=
  fun _ _ hab => Sim.bind h fun hw hr => Sim.pure ⟨hr, hab.mono hw⟩

theorem get {f : Assembly → Assemble γ} {g : Assembly → Assemble δ}
    (h : ∀ {a b : Assembly}, a.Match w b → Assembles e w (f a) (g b) T) :
    Assembles e w (get >>= f) (get >>= g) T :=
  fun _ _ hab => h hab hab

theorem modify {f g : Assembly → Assembly}
    (h : ∀ {a b : Assembly}, a.Match w b → (f a).Match w (g b)) :
    Assembles e w (modify f : Assemble Unit) (modify g : Assemble Unit) Done :=
  fun _ _ hab => Sim.pure ⟨trivial, h hab⟩

theorem exceed (limit : CodeLimit) :
    Assembles e w (Assemble.exceed limit : Assemble α) (Assemble.exceed limit : Assemble β) R :=
  lift (.failWith _ rfl)

/-! ### Indices -/

theorem index (limit : CodeLimit) (n : Nat) :
    Assembles e w (Assemble.index limit n) (Assemble.index limit n) Same := by
  unfold Assemble.index
  split
  · exact pure rfl
  · exact exceed limit

theorem forward (n : Nat) : Assembles e w (Assemble.forward n) (Assemble.forward n) Same := by
  unfold Assemble.forward
  split
  · exact pure rfl
  · exact exceed _

theorem backward (offset target : Nat) :
    Assembles e w (Assemble.backward offset target) (Assemble.backward offset target) Same := by
  unfold Assemble.backward
  split
  · exact pure rfl
  · exact exceed _

theorem findIdx?_eq {vs vs' : List Value} {p p' : Value → Bool}
    (h : List.Forall₂ (fun v v' => p v = p' v') vs vs') : vs.findIdx? p = vs'.findIdx? p' := by
  induction h with
  | nil => rfl
  | cons h _ ih => rw [List.findIdx?_cons, List.findIdx?_cons, h, ih]

/-- **A constant gets the same index on both sides.** -/
theorem addConstant {v v' : Value} (hv : v.Match w v') :
    Assembles e w (Assemble.addConstant v) (Assemble.addConstant v') Same := by
  intro a b hab
  refine Sim.given fun {s t} hm => ?_
  refine get (T := Same) (fun {a b} hab => ?_) hab
  have found : a.tables.constants.findIdx? v.identical = b.tables.constants.findIdx? v'.identical := by
    rw [← a.tables.constants.toArray_toList, ← b.tables.constants.toArray_toList,
      List.findIdx?_toArray, List.findIdx?_toArray]
    exact findIdx?_eq (hab.tables.constants.imp fun _ _ hc =>
      hm.heap.identical_eq hm.unique trivial hv hc)
  have size : a.tables.constants.size = b.tables.constants.size := by
    simpa using hab.tables.constants.length_eq
  dsimp only
  rw [found, size]
  split
  · exact pure rfl
  · refine bind (index _ _) fun hw hi => ?_
    cases hi
    refine bind (modify fun hab => ⟨⟨?_, hab.tables.sites, hab.tables.prototypes⟩, hab.captures⟩)
      fun _ _ => pure rfl
    simpa using List.rel_append hab.tables.constants (.cons (hv.mono hw) .nil)

theorem addSite (locations : List Location) :
    Assembles e w (Assemble.addSite locations) (Assemble.addSite locations) Same := by
  refine get fun hab => ?_
  rw [hab.tables.sites]
  refine bind (index _ _) fun _ hi => ?_
  cases hi
  refine bind (modify fun hab => ⟨⟨hab.tables.constants, ?_, hab.tables.prototypes⟩, hab.captures⟩)
    fun _ _ => pure rfl
  exact congrArg (·.push locations) hab.tables.sites

theorem addPrototype {p q : Prototype} (h : p.Match w q) :
    Assembles e w (Assemble.addPrototype p) (Assemble.addPrototype q) Same := by
  refine get fun {a b} hab => ?_
  have size : a.tables.prototypes.size = b.tables.prototypes.size := by
    simpa using hab.tables.prototypes.forall₂.length_eq
  rw [size]
  refine bind (index _ _) fun hw hi => ?_
  cases hi
  refine bind (modify fun hab => ⟨⟨hab.tables.constants, hab.tables.sites, .of_forall₂ ?_⟩,
    hab.captures⟩) fun _ _ => pure rfl
  simpa using List.rel_append hab.tables.prototypes.forall₂ (.cons (h.mono hw) .nil)

/-! ### Functions within functions -/

theorem withTables {x : Assemble α} {y : Assemble β} (h : Assembles e w x y R) :
    Assembles e w (Assemble.withTables x) (Assemble.withTables y)
      fun w r r' => R w r.1 r'.1 ∧ r.2.Match w r'.2 := by
  refine get fun hab => ?_
  have outer := hab.tables
  intro a b hab
  refine Sim.bind (h ⟨.empty, hab.captures⟩) fun hw hr => ?_
  exact Sim.pure ⟨⟨hr.1, hr.2.tables⟩, outer.mono hw, hr.2.captures⟩

theorem withCaptures {x : Assemble α} {y : Assemble β} (h : Assembles e w x y R) :
    Assembles e w (Assemble.withCaptures x) (Assemble.withCaptures y)
      fun w r r' => R w r.1 r'.1 ∧ r.2 = r'.2 := by
  intro a b hab
  refine Sim.bind (h ⟨hab.tables, congrArg ([] :: ·) hab.captures⟩) fun hw hr => ?_
  exact Sim.pure ⟨⟨hr.1, by rw [hr.2.captures]⟩, hr.2.tables, congrArg (·.drop 1) hr.2.captures⟩

/-- A name denotes the same on both sides. -/
theorem resolve (functions : List FunctionNames) (name : String) :
    Assembles e w (Assemble.resolve functions name) (Assemble.resolve functions name) Same := by
  refine get fun hab => ?_
  rw [hab.captures]
  split
  · exact exceed _
  · exact bind (modify fun hab => ⟨hab.tables, rfl⟩) fun _ _ => pure rfl

end Assembles

end TwinLisp
