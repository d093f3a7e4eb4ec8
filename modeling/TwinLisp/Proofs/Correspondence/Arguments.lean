import TwinLisp.Library.Arguments
import TwinLisp.Proofs.Correspondence.Data

/-!
# Arguments of built-ins agree

## Main statements

* `Sim.settle`: a numeric result is the same on both sides.
* `Sim.elements`: sequences that correspond have elements that do.
-/

namespace TwinLisp

theorem Value.matchAll_chars {w : World} (cs : List Char) :
    Value.MatchAll w (cs.map .char) (cs.map .char) := by
  induction cs with
  | nil => exact .nil
  | cons c cs ih => exact .cons (.char c) ih

/-- A numeric operation yields results that satisfy `P`, or faults that are no loss of an object. -/
def Settles {α : Type} (P : α → Prop) : Except NumericFault α → Prop
  | .ok a => P a
  | .error e => e.cause.isLoss = false

theorem Settles.imp {α : Type} {P Q : α → Prop} {x : Except NumericFault α} (h : Settles P x)
    (hPQ : ∀ a, P a → Q a) : Settles Q x := by
  cases x with
  | error e => exact h
  | ok a => exact hPQ a h

theorem Settles.bind {α β : Type} {P : α → Prop} {Q : β → Prop} {x : Except NumericFault α}
    {f : α → Except NumericFault β} (hx : Settles P x) (hf : ∀ a, P a → Settles Q (f a)) :
    Settles Q (x >>= f) := by
  cases x with
  | error e => exact hx
  | ok a => exact hf a hx

namespace Sim

variable {S : Setting} {q : Bool} {w : World} {α β : Type} {R : Related α β}

theorem refuseCount (b : Builtin) (accepts : Accepts) {args args' : List Value}
    (h : Value.MatchAll w args args') :
    Sim S q w (Library.refuseCount b accepts args) (Library.refuseCount b accepts args') R := by
  rw [Library.refuseCount, Library.refuseCount, h.length_eq]
  exact failWith _ rfl

theorem refuse (b : Builtin) (i : Nat) (expected : String) {v v' : Value} (h : v.Match w v') :
    Sim S q w (Library.refuse b i expected v) (Library.refuse b i expected v') R := by
  rw [Library.refuse, Library.refuse, h.typeName_eq]
  exact failAt i _ rfl

theorem settle {R : Related α α} (i : Nat) {x : Except NumericFault α} (h : Settles (fun a => R w a a) x) :
    Sim S q w (Library.settle i x) (Library.settle i x) R := by
  match x, h with
  | .ok a, h => exact pure h
  | .error ⟨.operand _, _⟩, h => exact failAt _ _ h
  | .error ⟨.operation, _⟩, h =>
    refine bind callSite fun _ hl => ?_
    cases hl
    exact fail ((Fault.Match.of _ _ h).orAt _)

theorem settleOn {R : Related α α} (i : Nat) {x : Except NumericFault α} (h : Settles (fun a => R w a a) x) :
    Sim S q w (Library.settleOn i x) (Library.settleOn i x) R := by
  match x, h with
  | .ok a, h => exact pure h
  | .error ⟨_, _⟩, h => exact failAt _ _ h

theorem integer (b : Builtin) (i : Nat) {v v' : Value} (h : v.Match w v') :
    Sim S q w (Library.integer b i v) (Library.integer b i v') Same := by
  have refused : Sim S q w (Library.refuse b i "integer" v) (Library.refuse b i "integer" v')
      (Same (α := Int64)) := refuse b i _ h
  cases h with
  | int n => exact pure rfl
  | _ => exact refused

/-- **Sequences that correspond have elements that do.** -/
theorem elements (b : Builtin) (i : Nat) {v v' : Value} (h : v.Match w v') :
    Sim S q w (Library.elements b i v) (Library.elements b i v') Value.MatchAll := by
  have refused := refuse (S := S) (q := q) (R := Value.MatchAll) b i "sequence" h
  cases h with
  | nil => exact pure .nil
  | ref k h => cases k with
    | list => exact bind (items? (.ref .list h)) fun _ h => pure (h.getD .nil)
    | vector => exact bind (items? (.ref .vector h)) fun _ h => pure (h.getD .nil)
    | set => exact bind (set? (.ref .set h)) fun _ h => pure (h.getD .empty).toList
    | map =>
      refine bind (map? (.ref .map h)) fun _ h => ?_
      refine mapM (P := Entry.Match) (fun hw h => h.mono hw) (fun hw h => h.mono hw)
        (h.getD .empty).toList fun hw he => ?_
      exact newVector (.cons he.1 (.cons he.2 .nil))
    | str =>
      refine bind (string? (.ref .str h)) fun _ h => ?_
      cases h
      exact pure (Value.matchAll_chars _)
    | _ => exact refused
  | _ => exact refused

end Sim

end TwinLisp
