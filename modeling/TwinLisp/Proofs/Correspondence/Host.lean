import TwinLisp.Host.IntegerModule
import TwinLisp.Proofs.Correspondence.Native

/-!
# Conversions agree

Values that correspond are converted to host values that do, and back. When two host values correspond is
said along the type: values of the language in them do, and everything else is equal. So the functions of the
integer module, which do nothing else to a session, are faithful.

## Main definitions

* `HostType.Match`: what it is for two host values to correspond.

## Main statements

* `Sim.toValue`, `Sim.ofValue`: conversions in both directions.
* `IntegerModule.faithful`: all functions of the integer module are faithful.
-/

namespace TwinLisp

/-- Two entries of dictionaries have the same key and related values. -/
def Dictionary.Related {α β : Type} (R : α → β → Prop) (e : String × α) (e' : String × β) : Prop :=
  e.1 = e'.1 ∧ R e.2 e'.2

/-- Two host values correspond. -/
def HostType.Match (w : World) : (t : HostType) → t.Carrier → t.Carrier → Prop
  | .value, (v : Value), (v' : Value) => v.Match w v'
  | .option t, (x : Option t.Carrier), (y : Option t.Carrier) => Option.Rel (t.Match w) x y
  | .list t, (xs : List t.Carrier), (ys : List t.Carrier) => List.Forall₂ (t.Match w) xs ys
  | .dictionary t, (d : Dictionary t.Carrier), (d' : Dictionary t.Carrier) =>
    List.Forall₂ (Dictionary.Related (t.Match w)) d.entries d'.entries
  | .unit, x, y => x = y
  | .bool, x, y => x = y
  | .int32, x, y => x = y
  | .int64, x, y => x = y
  | .size, x, y => x = y
  | .double, x, y => x = y
  | .char, x, y => x = y
  | .string, x, y => x = y
  | .keyword, x, y => x = y

theorem HostType.Match.mono {w w' : World} (hw : w ≤ w') {t : HostType} {x y : t.Carrier}
    (h : t.Match w x y) : t.Match w' x y := by
  induction t with
  | value => exact Value.Match.mono h hw
  | option t ih => exact Option.Rel.imp h fun _ _ => ih
  | list t ih => exact List.Forall₂.imp (fun _ _ => ih) h
  | dictionary t ih => exact List.Forall₂.imp (fun _ _ h => ⟨h.1, ih h.2⟩) h
  | _ => exact h

/-! ### Dictionaries -/

namespace Dictionary

variable {α β : Type} {R : α → β → Prop}

theorem insertEntry_match (key : String) {a : α} {b : β} (hab : R a b) {es : List (String × α)}
    {es' : List (String × β)} (h : List.Forall₂ (Related R) es es') :
    List.Forall₂ (Related R) (insertEntry key a es) (insertEntry key b es') := by
  induction h with
  | nil => exact .cons ⟨rfl, hab⟩ .nil
  | cons he hs ih =>
    unfold insertEntry
    rw [he.1]
    split
    · exact .cons ⟨rfl, hab⟩ hs
    · exact .cons he ih

theorem ofEntries_match {es : List (String × α)} {es' : List (String × β)}
    (h : List.Forall₂ (Related R) es es') :
    List.Forall₂ (Related R) (ofEntries es).entries (ofEntries es').entries := by
  have folded {d : Dictionary α} {d' : Dictionary β}
      (hd : List.Forall₂ (Related R) d.entries d'.entries) :
      List.Forall₂ (Related R)
        (es.foldl (fun d e => d.insert e.1 e.2) d).entries
        (es'.foldl (fun d e => d.insert e.1 e.2) d').entries := by
    induction h generalizing d d' with
    | nil => exact hd
    | @cons e e' es es' he hs ih =>
      refine ih ?_
      obtain ⟨key, a⟩ := e
      obtain ⟨_, b⟩ := e'
      obtain ⟨rfl, hab⟩ := he
      exact insertEntry_match key hab hd
  exact folded .nil

end Dictionary

namespace Sim

variable {S : Setting} {q : Bool} {w : World} {v v' : Value}

/-! ### To the language -/

theorem toValue (t : HostType) {x y : t.Carrier} (h : t.Match w x y) :
    Sim S q w (t.toValue x) (t.toValue y) Value.Match := by
  induction t generalizing q w with
  | value => exact pure h
  | option t ih =>
    cases h with
    | none => exact pure .nil
    | some h => exact ih h
  | list t ih =>
    refine withoutCollection (bind ?_ fun _ h => newVector h)
    exact mapM (P := fun w => t.Match w) (fun hw h => h.mono hw) (fun hw h => h.mono hw) h fun _ h => ih h
  | dictionary t ih =>
    refine withoutCollection (bind ?_ fun _ h => newMap h)
    refine mapM (P := fun w => Dictionary.Related (t.Match w)) (T := Entry.Match)
      (fun hw h => ⟨h.1, h.2.mono hw⟩) (fun hw h => h.mono hw) h fun {_ e e'} _ h => ?_
    rw [h.1]
    exact bind (keyword _) fun hw hk => bind (ih (h.2.mono hw)) fun hw' hv => pure ⟨hk.mono hw', hv⟩
  | size =>
    cases h
    unfold HostType.toValue
    split
    · exact pure (.int _)
    · exact failWith _ rfl
  | unit => exact pure .nil
  | bool =>
    cases h
    exact pure (.bool _)
  | int32 =>
    cases h
    exact pure (.int _)
  | int64 =>
    cases h
    exact pure (.int _)
  | double =>
    cases h
    exact pure (.float _)
  | char =>
    cases h
    exact pure (.char _)
  | string =>
    cases h
    exact newString _
  | keyword =>
    cases h
    exact keyword _

/-! ### From the language -/

theorem convertRefused {α β : Type} {R : Related α β} (expected : String) (h : v.Match w v') :
    Sim S q w (HostType.refuse expected v : Eval α) (HostType.refuse expected v' : Eval β) R := by
  unfold HostType.refuse
  rw [h.typeName_eq]
  exact failWith _ rfl

theorem either {α β : Type} {R : Related α β} {c : Prop} [Decidable c] {x x' : Eval α} {y y' : Eval β}
    (h : Sim S q w x y R) (h' : Sim S q w x' y' R) :
    Sim S q w (if c then x else x') (if c then y else y') R := by
  split
  · exact h
  · exact h'

theorem integerOf (h : v.Match w v') : Sim S q w (HostType.integer v) (HostType.integer v') Same := by
  have refused := convertRefused (S := S) (q := q) (R := Same) (α := Int64) "integer" h
  cases h with
  | int n => exact pure rfl
  | _ => exact refused

theorem textOf (h : v.Match w v') : Sim S q w (HostType.text v) (HostType.text v') Same := by
  refine bind (string? h) fun {_ x y} hw hx => ?_
  cases hx
  cases x with
  | some text => exact pure rfl
  | none => exact convertRefused _ (h.mono hw)

theorem keyTextOf (h : v.Match w v') : Sim S q w (HostType.keyText v) (HostType.keyText v') Same := by
  have text := textOf (S := S) (q := q) h
  cases h with
  | keyword h => exact nameOf h
  | symbol h => exact nameOf h
  | _ => exact text

theorem ofValue (t : HostType) (h : v.Match w v') :
    Sim S q w (t.ofValue v) (t.ofValue v') fun w => t.Match w := by
  induction t generalizing w v v' with
  | value => exact pure h
  | int64 => exact integerOf h
  | string => exact textOf h
  | int32 =>
    refine bind (integerOf h) fun {_ n _} _ hn => ?_
    cases hn
    exact either (pure rfl) (failWith _ rfl)
  | size =>
    refine bind (integerOf h) fun {_ n _} _ hn => ?_
    cases hn
    exact either (pure rfl) (failWith _ rfl)
  | option t ih =>
    have some {v v' : Value} (h : v.Match w v') :
        Sim S q w (do let x ← t.ofValue v; return some x : Eval (Option t.Carrier))
          (do let x ← t.ofValue v'; return some x : Eval (Option t.Carrier))
          fun w => HostType.Match w (.option t) :=
      bind (ih h) fun _ hx => pure (.some hx)
    have found := some h
    cases h with
    | nil => exact pure .none
    | _ => exact found
  | list t ih =>
    have found := items? (S := S) (q := q) h
    have refused {w' : World} (hw : w ≤ w') := convertRefused (S := S) (q := q)
      (R := fun w => HostType.Match w (.list t)) (α := List t.Carrier) "vector or list" (h.mono hw)
    cases h with
    | nil => exact pure .nil
    | _ =>
      refine bind found fun hw hx => ?_
      cases hx with
      | none => exact refused hw
      | some hx =>
        exact mapM (P := Value.Match) (fun hw h => h.mono hw) (fun hw h => h.mono hw) hx fun _ h => ih h
  | dictionary t ih =>
    refine bind (map? h) fun {_ x y} hw hx => ?_
    cases hx with
    | none => exact convertRefused _ (h.mono hw)
    | some hx =>
      refine bind ?_ fun _ h => pure (Dictionary.ofEntries_match h)
      refine mapM (P := Entry.Match) (T := fun w => Dictionary.Related (t.Match w))
        (fun hw h => h.mono hw) (fun hw h => ⟨h.1, h.2.mono hw⟩) hx.toList fun {_ e e'} _ h => ?_
      refine bind (keyTextOf h.1) fun hw hk => bind (ih (h.2.mono hw)) fun _ hx => pure ⟨hk, hx⟩
  | keyword =>
    have refused := convertRefused (S := S) (q := q) (R := fun w => HostType.Match w .keyword)
      (α := KeywordName) "keyword" h
    cases h with
    | keyword h =>
      refine bind (nameOf h) fun _ hn => ?_
      cases hn
      exact pure rfl
    | _ => exact refused
  | unit =>
    have refused := convertRefused (S := S) (q := q) (R := fun w => HostType.Match w .unit)
      (α := Unit) "nil" h
    cases h with
    | nil => exact pure rfl
    | _ => exact refused
  | bool =>
    have refused := convertRefused (S := S) (q := q) (R := fun w => HostType.Match w .bool)
      (α := Bool) "boolean" h
    cases h with
    | bool b => exact pure rfl
    | _ => exact refused
  | double =>
    have refused := convertRefused (S := S) (q := q) (R := fun w => HostType.Match w .double)
      (α := Double) "number" h
    cases h with
    | float x => exact pure rfl
    | int n => exact pure rfl
    | _ => exact refused
  | char =>
    have refused := convertRefused (S := S) (q := q) (R := fun w => HostType.Match w .char)
      (α := Char) "character" h
    cases h with
    | char c => exact pure rfl
    | _ => exact refused

end Sim

/-! ### The integer module -/

namespace IntegerModule

variable {S : Setting}

theorem argument_match {q : Bool} {w : World} {v v' : Value} (h : v.Match w v') :
    Sim S q w (argument v) (argument v') Same :=
  (Sim.ofValue .int32 h).bind fun _ hx => by
    cases hx
    exact .pure rfl

theorem result_match {q : Bool} {w : World} (operation : String) (n : Option Int) :
    Sim S q w (result operation n) (result operation n) Value.Match := by
  cases n with
  | some n => exact .pure (.int _)
  | none => exact .failWith _ rfl

theorem faithful_unary (name : String) {f : Int → Eval Value}
    (hf : ∀ {q w} n, Sim S q w (f n) (f n) Value.Match) : (unary name f).Faithful S := by
  intro q w args args' h
  rcases h with _ | ⟨hv, _ | ⟨_, _⟩⟩
  · exact .pure .nil
  · refine (argument_match hv).bind fun _ hn => ?_
    cases hn
    exact hf _
  · exact .pure .nil

theorem faithful_binary (name : String) {f : Int → Int → Eval Value}
    (hf : ∀ {q w} m n, Sim S q w (f m n) (f m n) Value.Match) : (binary name f).Faithful S := by
  intro q w args args' h
  rcases h with _ | ⟨hu, _ | ⟨hv, _ | ⟨_, _⟩⟩⟩
  · exact .pure .nil
  · exact .pure .nil
  · refine (argument_match hu).bind fun hw hm => ?_
    cases hm
    refine (argument_match (hv.mono hw)).bind fun _ hn => ?_
    cases hn
    exact hf _ _
  · exact .pure .nil

/-- **The functions of the integer module are faithful.** -/
theorem faithful : ∀ h ∈ functions, h.Faithful S := by
  simp only [functions, List.forall_mem_cons]
  refine ⟨?_, ?_, ?_, ?_, ?_, ?_, List.forall_mem_nil _⟩
  · exact faithful_binary _ fun _ _ => result_match _ _
  · exact faithful_binary _ fun _ _ => result_match _ _
  · exact faithful_unary _ fun _ => result_match _ _
  · exact faithful_unary _ fun _ => result_match _ _
  · exact faithful_binary _ fun _ _ => .pure (.int _)
  · exact faithful_unary _ fun _ => .pure (.bool _)

end IntegerModule

end TwinLisp
