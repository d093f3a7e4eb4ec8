import TwinLisp.Library.Numbers
import TwinLisp.Library.Predicates
import TwinLisp.Proofs.Correspondence.Arguments

/-!
# Built-ins on numbers agree

What a numeric operation yields is decided by the operands alone, and it is a number or a fault that
mentions nothing but types. So operands that correspond lead to the same result.

## Main statements

* `Numeric.arith_eq` and its like: the kernel has the same results on both sides.
* `Sim.elements`: sequences that correspond have elements that do.
* One statement for each way in which a built-in goes through its arguments.
-/

namespace TwinLisp

/-! ### The kernel -/

namespace Numeric

variable {w : World} {a a' b b' : Value}

theorem checkNumber_eq (operation : String) (i : Nat) (ha : a.Match w a') :
    checkNumber operation i a = checkNumber operation i a' := by
  rw [checkNumber, checkNumber, ha.isNumber_eq, ha.typeName_eq]

theorem arith_eq (op : ArithOp) (ha : a.Match w a') (hb : b.Match w b') :
    arith op a b = arith op a' b' := by
  cases ha <;> cases hb <;> rfl

theorem compareNumbers_eq (op : CompareOp) (ha : a.Match w a') (hb : b.Match w b') :
    compareNumbers op a b = compareNumbers op a' b' := by
  cases ha <;> cases hb <;> rfl

theorem negate_eq (ha : a.Match w a') : negate a = negate a' := by
  cases ha <;> rfl

theorem divide_eq (op : DivisionOp) (ha : a.Match w a') (hb : b.Match w b') :
    divide op a b = divide op a' b' := by
  cases ha <;> cases hb <;> rfl

theorem toDouble_eq (ha : a.Match w a') : toDouble a = toDouble a' := by
  cases ha <;> rfl

theorem settles_checkNumber (operation : String) (i : Nat) (a : Value) :
    Settles (fun _ => True) (checkNumber operation i a) := by
  unfold checkNumber
  split
  · exact trivial
  · exact rfl

/-- An operation yields numbers only. -/
abbrev Numerical (x : Except NumericFault Value) : Prop := Settles (fun v => v.isNumber = true) x

theorem numerical_exact (operation : String) (n : Int) : Numerical (exact operation n) := by
  unfold exact
  split <;> exact rfl

theorem numerical_arithInt (op : ArithOp) (x y : Int64) : Numerical (arithInt op x y) := by
  cases op with
  | div =>
    simp only [arithInt]
    split
    · exact rfl
    · split
      · exact numerical_exact _ _
      · exact rfl
  | _ => exact numerical_exact _ _

theorem numerical_arith (op : ArithOp) (a b : Value) : Numerical (arith op a b) := by
  refine (settles_checkNumber ..).bind fun _ _ => (settles_checkNumber ..).bind fun _ _ => ?_
  split
  · exact numerical_arithInt op _ _
  · exact rfl

theorem settles_compareNumbers (op : CompareOp) (a b : Value) :
    Settles (fun _ => True) (compareNumbers op a b) :=
  (settles_checkNumber ..).bind fun _ _ => (settles_checkNumber ..).bind fun _ _ => trivial

theorem numerical_negate (a : Value) : Numerical (negate a) := by
  refine (settles_checkNumber ..).bind fun _ _ => ?_
  split
  · exact numerical_exact _ _
  · exact rfl

theorem numerical_divideInt (op : DivisionOp) (m n : Int) : Numerical (divideInt op m n) := by
  unfold divideInt
  cases n == 0 with
  | true => exact rfl
  | false =>
    refine (numerical_exact op.name (m.tdiv n)).bind fun quotient hq => ?_
    cases op with
    | quot => exact hq
    | rem => exact numerical_exact _ _
    | mod => exact numerical_exact _ _

theorem numerical_divide (op : DivisionOp) (a b : Value) : Numerical (divide op a b) := by
  refine (settles_checkNumber ..).bind fun _ _ => (settles_checkNumber ..).bind fun _ _ => ?_
  split
  · exact numerical_divideInt op _ _
  · dsimp only
    split <;> exact rfl

end Numeric

theorem Value.Match.of_isNumber {w : World} {v : Value} (h : v.isNumber = true) : v.Match w v := by
  cases v with
  | int n => exact .int n
  | float x => exact .float x
  | _ => cases h

namespace Sim

open Numeric

variable {S : Setting} {q : Bool} {w : World} {v v' : Value} {args args' : List Value}

/-! ### Single operations -/

theorem settleNumber (i : Nat) {x : Except NumericFault Value} (h : Numerical x) :
    Sim S q w (Library.settle i x) (Library.settle i x) Value.Match :=
  settle i (h.imp fun _ => .of_isNumber)

theorem settleNumberOn (i : Nat) {x : Except NumericFault Value} (h : Numerical x) :
    Sim S q w (Library.settleOn i x) (Library.settleOn i x) Value.Match :=
  settleOn i (h.imp fun _ => .of_isNumber)

theorem settleCheck (i j : Nat) (operation : String) (hv : v.Match w v') :
    Sim S q w (Library.settle i (checkNumber operation j v))
      (Library.settle i (checkNumber operation j v')) Done := by
  rw [checkNumber_eq operation j hv]
  exact settle i (settles_checkNumber operation j v')

theorem settleCheckOn (i j : Nat) (operation : String) (hv : v.Match w v') :
    Sim S q w (Library.settleOn i (checkNumber operation j v))
      (Library.settleOn i (checkNumber operation j v')) Done := by
  rw [checkNumber_eq operation j hv]
  exact settleOn i (settles_checkNumber operation j v')

theorem settleCompare (i : Nat) (op : CompareOp) {u u' : Value} (hv : v.Match w v') (hu : u.Match w u') :
    Sim S q w (Library.settle i (compareNumbers op v u)) (Library.settle i (compareNumbers op v' u'))
      Same := by
  rw [compareNumbers_eq op hv hu]
  exact settle i ((settles_compareNumbers op v' u').imp fun _ _ => rfl)

/-! ### The ways through the arguments -/

theorem foldFrom (op : ArithOp) (i : Nat) (hv : v.Match w v') (h : Value.MatchAll w args args') :
    Sim S q w (Library.foldFrom op v i args) (Library.foldFrom op v' i args') Value.Match := by
  induction args generalizing w v v' i args' with
  | nil =>
    cases h
    exact pure hv
  | cons x xs ih =>
    obtain ⟨y, ys, hx, hs, rfl⟩ := List.forall₂_cons_left_iff.1 h
    rw [Library.foldFrom, Library.foldFrom, arith_eq op hv hx]
    refine bind (settleNumber _ (numerical_arith _ _ _)) fun hw hv => ?_
    exact ih _ hv (Value.Match.all_mono hs hw)

theorem fold (op : ArithOp) (hv : v.Match w v') (h : Value.MatchAll w args args') :
    Sim S q w (Library.fold op v args) (Library.fold op v' args') Value.Match :=
  bind (settleCheck _ _ _ hv) fun hw _ => foldFrom op 1 (hv.mono hw) (Value.Match.all_mono h hw)

theorem extremumFrom (b : Builtin) (better : CompareOp) (i : Nat) (hv : v.Match w v')
    (h : Value.MatchAll w args args') :
    Sim S q w (Library.extremumFrom b better v i args) (Library.extremumFrom b better v' i args')
      Value.Match := by
  induction args generalizing w v v' i args' with
  | nil =>
    cases h
    exact pure hv
  | cons x xs ih =>
    obtain ⟨y, ys, hx, hs, rfl⟩ := List.forall₂_cons_left_iff.1 h
    refine bind (settleCheckOn _ _ _ hx) fun hw₁ _ => ?_
    refine bind (settleCompare _ _ (hx.mono hw₁) (hv.mono hw₁)) fun {_ r _} hw₂ hr => ?_
    cases hr
    have hw := hw₁.trans hw₂
    cases r with
    | true => exact ih _ (hx.mono hw) (Value.Match.all_mono hs hw)
    | false => exact ih _ (hv.mono hw) (Value.Match.all_mono hs hw)

theorem chainFrom (op : CompareOp) (i : Nat) (hv : v.Match w v') (h : Value.MatchAll w args args') :
    Sim S q w (Library.chainFrom op i v args) (Library.chainFrom op i v' args') Same := by
  induction args generalizing w v v' i args' with
  | nil =>
    cases h
    exact pure rfl
  | cons x xs ih =>
    obtain ⟨y, ys, hx, hs, rfl⟩ := List.forall₂_cons_left_iff.1 h
    refine bind (settleCompare _ _ hv hx) fun hw hr => ?_
    cases hr
    refine bind (ih _ (hx.mono hw) (Value.Match.all_mono hs hw)) fun _ hr => ?_
    cases hr
    exact pure rfl

/-! ### The built-ins -/

theorem add (h : Value.MatchAll w args args') :
    Sim S q w (Library.add args) (Library.add args') Value.Match :=
  match h with
  | .nil => pure (.int 0)
  | .cons hx hs => fold .add hx hs

theorem mul (h : Value.MatchAll w args args') :
    Sim S q w (Library.mul args) (Library.mul args') Value.Match :=
  match h with
  | .nil => pure (.int 1)
  | .cons hx hs => fold .mul hx hs

theorem sub (h : Value.MatchAll w args args') :
    Sim S q w (Library.sub args) (Library.sub args') Value.Match := by
  rcases h with _ | ⟨hx, _ | ⟨hy, hs⟩⟩
  · exact refuseCount _ _ .nil
  · rw [Library.sub, Library.sub, negate_eq hx]
    exact settleNumberOn _ (numerical_negate _)
  · exact fold .sub hx (.cons hy hs)

theorem div (h : Value.MatchAll w args args') :
    Sim S q w (Library.div args) (Library.div args') Value.Match := by
  rcases h with _ | ⟨hx, _ | ⟨hy, hs⟩⟩
  · exact refuseCount _ _ .nil
  · rw [Library.div, Library.div, arith_eq .div (.int 1) hx]
    exact settleNumberOn _ (numerical_arith _ _ _)
  · exact fold .div hx (.cons hy hs)

theorem divided (b : Builtin) (op : DivisionOp) (h : Value.MatchAll w args args') :
    Sim S q w (Library.divided b op args) (Library.divided b op args') Value.Match := by
  have refused := refuseCount (S := S) (q := q) (R := Value.Match) b (.exactly 2) h
  rcases h with _ | ⟨hx, _ | ⟨hy, _ | ⟨hz, hs⟩⟩⟩
  · exact refused
  · exact refused
  · rw [Library.divided, Library.divided, divide_eq op hx hy]
    exact settleNumber _ (numerical_divide _ _ _)
  · exact refused

theorem step (b : Builtin) (op : ArithOp) (h : Value.MatchAll w args args') :
    Sim S q w (Library.step b op args) (Library.step b op args') Value.Match := by
  have refused := refuseCount (S := S) (q := q) (R := Value.Match) b (.exactly 1) h
  rcases h with _ | ⟨hx, _ | ⟨hy, hs⟩⟩
  · exact refused
  · rw [Library.step, Library.step, arith_eq op hx (.int 1)]
    exact bind (settleCheckOn _ _ _ hx) fun _ _ => settleNumber _ (numerical_arith _ _ _)
  · exact refused

theorem extremum (b : Builtin) (better : CompareOp) (h : Value.MatchAll w args args') :
    Sim S q w (Library.extremum b better args) (Library.extremum b better args') Value.Match :=
  match h with
  | .nil => refuseCount _ _ .nil
  | .cons hx hs => bind (settleCheckOn _ _ _ hx) fun hw _ =>
    extremumFrom b better 1 (hx.mono hw) (Value.Match.all_mono hs hw)

theorem chain (b : Builtin) (op : CompareOp) (h : Value.MatchAll w args args') :
    Sim S q w (Library.chain b op args) (Library.chain b op args') Value.Match := by
  match h with
  | .nil => exact refuseCount _ _ .nil
  | .cons hx hs =>
    refine bind (settleCheck _ _ _ hx) fun hw _ => ?_
    refine bind (chainFrom op 0 (hx.mono hw) (Value.Match.all_mono hs hw)) fun _ hr => ?_
    cases hr
    exact pure (.bool _)

theorem signTest (b : Builtin) (test : Ordering → Bool) (h : Value.MatchAll w args args') :
    Sim S q w (Library.signTest b test args) (Library.signTest b test args') Value.Match := by
  have refused := refuseCount (S := S) (q := q) (R := Value.Match) b (.exactly 1) h
  rcases h with _ | ⟨hx, _ | ⟨hy, hs⟩⟩
  · exact refused
  · rw [Library.signTest, Library.signTest, toDouble_eq hx]
    exact bind (settleCheckOn _ _ _ hx) fun _ _ => pure (.bool _)
  · exact refused

theorem parity (b : Builtin) (even : Bool) (h : Value.MatchAll w args args') :
    Sim S q w (Library.parity b even args) (Library.parity b even args') Value.Match := by
  have refused := refuseCount (S := S) (q := q) (R := Value.Match) b (.exactly 1) h
  rcases h with _ | ⟨hx, _ | ⟨hy, hs⟩⟩
  · exact refused
  · refine bind (integer b 0 hx) fun _ hn => ?_
    cases hn
    exact pure (.bool _)
  · exact refused

theorem matchAll_rangeFrom {w : World} (stop step : Int64) {items : Array Value}
    (h : Value.MatchAll w items.toList items.toList) (i : Int64) :
    Value.MatchAll w (Library.rangeFrom stop step items i).toList (Library.rangeFrom stop step items i).toList := by
  have further {items : Array Value} {i : Int64} (h : Value.MatchAll w items.toList items.toList) :
      Value.MatchAll w (items.push (.int i)).toList (items.push (.int i)).toList := by
    rw [Array.toList_push]
    exact List.rel_append h (.cons (.int i) .nil)
  fun_induction Library.rangeFrom stop step items i with
  | case1 _ _ _ _ _ _ _ ih => exact ih (further h)
  | case2 => exact further h
  | case3 => exact h

theorem rangeBounds (h : Value.MatchAll w args args') :
    Sim S q w (Library.rangeBounds args) (Library.rangeBounds args') Same := by
  have refused := refuseCount (S := S) (q := q) (R := Same (α := Int64 × Int64 × Int64)) .range
    (.between 1 3) h
  rcases h with _ | ⟨hx, _ | ⟨hy, _ | ⟨hz, _ | ⟨_, _⟩⟩⟩⟩
  · exact refused
  · exact bind (integer .range 0 hx) fun _ hn => hn ▸ pure rfl
  · refine bind (integer .range 0 hx) fun hw hn => ?_
    cases hn
    exact bind (integer .range 1 (hy.mono hw)) fun _ hn => hn ▸ pure rfl
  · refine bind (integer .range 0 hx) fun hw hn => ?_
    cases hn
    refine bind (integer .range 1 (hy.mono hw)) fun hw' hn => ?_
    cases hn
    exact bind (integer .range 2 ((hz.mono hw).mono hw')) fun _ hn => hn ▸ pure rfl
  · exact refused

theorem range (h : Value.MatchAll w args args') :
    Sim S q w (Library.range args) (Library.range args') Value.Match := by
  refine bind (rangeBounds h) fun {_ b _} _ hb => ?_
  cases hb
  obtain ⟨start, stop, step⟩ := b
  dsimp only
  split
  · exact bind (R := Done) (failAt 2 .zeroStep rfl) fun _ _ => newList (matchAll_rangeFrom _ _ .nil _)
  · exact newList (matchAll_rangeFrom _ _ .nil _)

end Sim

end TwinLisp
