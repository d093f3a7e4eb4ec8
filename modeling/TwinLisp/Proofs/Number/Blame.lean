import TwinLisp.Proofs.Correspondence.Numbers
import TwinLisp.Proofs.Machine.Inline

/-!
# Blame in core operators

The built-in function of a core operator takes its arguments in from left to right. It fails at the first one
that cannot be taken in, and blames that argument, as far as arguments have places of their own. Only an
overflow is blamed on the call.

## Main definitions

* `CoreOp.Objects`: what is wrong with an argument, after the ones before it.
* `CoreOp.FailsFrom`: the first argument with which something is wrong.
* `Fault.atArgument`: the failure that is reported then.
* `CoreOp.Blames`: an answer is that failure if there is one.

## Main statements

* `CoreOp.takeIn_eq_error_iff`: an argument is taken in unless something is wrong with it.
* `CoreOp.blames_attributed`: a call of the built-in function blames the first such argument.
-/

namespace TwinLisp

open Numeric

/-! ### What goes wrong -/

/-- The exact result of the operation on integers, where it is an integer. -/
def ArithOp.integer? : ArithOp → Int → Int → Option Int
  | .add, m, n => some (m + n)
  | .sub, m, n => some (m - n)
  | .mul, m, n => some (m * n)
  | .div, m, n => if n ≠ 0 ∧ n ∣ m then some (m / n) else none

/-- What is wrong with the argument `x`, when the arguments before it came to `acc`. -/
inductive CoreOp.Objects : CoreOp → Option Value → Value → Cause → Prop where
  /-- It is not a number. -/
  | notANumber {op : CoreOp} {acc : Option Value} {x : Value} (other : x.isNumber = false) :
    Objects op acc x (.typeMismatch op.name "number" x.typeName)
  /-- It is the integer zero, by which an integer is to be divided. -/
  | zeroDivisor {m : Int64} : Objects (.arith .div) (some (.int m)) (.int 0) .divideByZero
  /-- The result is an integer that sixty-four bits do not hold. -/
  | overflow {op : ArithOp} {m n : Int64} {r : Int} (result : op.integer? m.toInt n.toInt = some r)
    (beyond : r < -2 ^ 63 ∨ 2 ^ 63 ≤ r) :
    Objects (.arith op) (some (.int m)) (.int n) (.overflow op.name)

/-- What the arguments come to with one more: an operation computes on, and a comparison remembers the last
argument. The first argument has to be a number. -/
def CoreOp.takeIn (op : CoreOp) : Option Value → Value → Except NumericFault Value
  | none, x => (checkNumber op.name 0 x).map fun _ => x
  | some acc, x =>
    match op with
    | .arith op => Numeric.arith op acc x
    | .compare op => (compareNumbers op acc x).map fun _ => x

/-- Of the arguments from position `i` on, when those before it came to `acc`, the one at position `j` is the
first that cannot be taken in. -/
inductive CoreOp.FailsFrom (op : CoreOp) : Option Value → Nat → List Value → Nat → Cause → Prop where
  | here {acc : Option Value} {i : Nat} {x : Value} {xs : List Value} {c : Cause} (objects : op.Objects acc x c) :
    FailsFrom op acc i (x :: xs) i c
  | later {acc : Option Value} {i j : Nat} {x r : Value} {xs : List Value} {c : Cause}
    (taken : op.takeIn acc x = .ok r) (fails : FailsFrom op (some r) (i + 1) xs j c) :
    FailsFrom op acc i (x :: xs) j c

/-- What a failure at argument `i` is blamed on. -/
def Cause.blame (i : Nat) : Cause → Blame
  | .overflow _ => .operation
  | _ => .operand i

/-- The failure of a call at `site` because of its argument `i`. Eight arguments have places of their own. -/
def Fault.atArgument (site : Location) (arguments : List Location) (i : Nat) (c : Cause) : Fault :=
  let l :=
    match c.blame i with
    | .operation => site
    | .operand i => if i < 8 then arguments[i]?.getD site else site
  ⟨c, some l, none⟩

/-- The answer is the failure at the first argument that cannot be taken in. If there is none, the answer is a
value. -/
structure CoreOp.Blames {α : Type} (op : CoreOp) (fault : Nat → Cause → Fault) (acc : Option Value) (i : Nat)
    (xs : List Value) (answer : Except Fault α) : Prop where
  fails {j : Nat} {c : Cause} : op.FailsFrom acc i xs j c → answer = .error (fault j c)
  returns : (∀ j c, ¬ op.FailsFrom acc i xs j c) → ∃ v, answer = .ok v

/-! ### Taking in one argument -/

theorem Numeric.toInt64?_eq_none_iff {n : Int} : toInt64? n = none ↔ n < -2 ^ 63 ∨ 2 ^ 63 ≤ n := by
  have low : Int64.minValue.toInt = -2 ^ 63 := rfl
  have high : Int64.maxValue.toInt = 2 ^ 63 - 1 := rfl
  unfold toInt64?
  rw [low, high]
  split <;> simp <;> omega

theorem Numeric.exact_eq_error_iff {operation : String} {n : Int} {e : NumericFault} :
    exact operation n = .error e ↔ (n < -2 ^ 63 ∨ 2 ^ 63 ≤ n) ∧ e = ⟨.operation, .overflow operation⟩ := by
  rw [← toInt64?_eq_none_iff]
  unfold exact
  cases toInt64? n with
  | some m => simp
  | none => simp [eq_comm]

/-- An exact result is the result, if it fits. -/
theorem Numeric.arithInt_of_exact {op : ArithOp} {m n : Int64} {r : Int}
    (h : op.integer? m.toInt n.toInt = some r) : arithInt op m n = exact op.name r := by
  unfold arithInt
  cases op with
  | add | sub | mul => cases h; rfl
  | div =>
    simp only [ArithOp.integer?, Option.ite_none_right_eq_some, Option.some.injEq] at h
    obtain ⟨⟨nonzero, even⟩, rfl⟩ := h
    simp [nonzero, Int.tmod_eq_zero_of_dvd even, Int.tdiv_eq_ediv_of_dvd even]

/-- An operation on integers fails if the divisor is zero, or as its exact result does. -/
theorem Numeric.of_arithInt_eq_error {op : ArithOp} {m n : Int64} {e : NumericFault}
    (h : arithInt op m n = .error e) : op = .div ∧ n = 0 ∧ e = divisionByZero ∨
      ∃ r, op.integer? m.toInt n.toInt = some r ∧ exact op.name r = .error e := by
  cases op with
  | add | sub | mul => exact .inr ⟨_, rfl, h⟩
  | div =>
    simp only [arithInt] at h
    split at h
    · next zero =>
      cases h
      exact .inl ⟨rfl, Int64.toInt_inj.1 (eq_of_beq zero), rfl⟩
    · next nonzero =>
      split at h
      · next even =>
        have dvd := Int.dvd_of_tmod_eq_zero (eq_of_beq even)
        refine .inr ⟨_, ?_, h⟩
        rw [ArithOp.integer?, if_pos ⟨by simpa using nonzero, dvd⟩, Int.tdiv_eq_ediv_of_dvd dvd]
      · cases h

namespace CoreOp

variable {op : CoreOp} {acc : Option Value} {x y : Value} {e : NumericFault}

/-- Integers are computed with unless the divisor is zero or the result does not fit. -/
theorem arithInt_eq_error_iff {op : ArithOp} {m n : Int64} : arithInt op m n = .error e ↔
    Objects (.arith op) (some (.int m)) (.int n) e.cause ∧ e.blame = e.cause.blame 1 := by
  constructor
  · intro h
    obtain ⟨rfl, rfl, rfl⟩ | ⟨r, exact, h⟩ := of_arithInt_eq_error h
    · exact ⟨.zeroDivisor, rfl⟩
    · obtain ⟨beyond, rfl⟩ := exact_eq_error_iff.1 h
      exact ⟨.overflow exact beyond, rfl⟩
  · obtain ⟨blame, cause⟩ := e
    rintro ⟨objects, blamed⟩
    obtain rfl : blame = cause.blame 1 := blamed
    cases (objects : Objects (.arith op) (some (.int m)) (.int n) cause) with
    | notANumber other => cases other
    | zeroDivisor => rfl
    | overflow exact beyond =>
      rw [arithInt_of_exact exact]
      exact exact_eq_error_iff.2 ⟨beyond, rfl⟩

/-- What is not a number is refused. -/
theorem takeIn_of_other (numbers : ∀ v ∈ acc, v.isNumber = true) (other : x.isNumber = false) :
    op.takeIn acc x =
      .error ⟨.operand (acc.elim 0 fun _ => 1), .typeMismatch op.name "number" x.typeName⟩ := by
  have refused (operation : String) (i : Nat) : checkNumber operation i x =
      .error ⟨.operand i, .typeMismatch operation "number" x.typeName⟩ :=
    if_neg (by simp [other])
  cases acc with
  | none => simp only [takeIn, refused]; rfl
  | some acc =>
    have accepted (operation : String) : checkNumber operation 0 acc = .ok () := if_pos (numbers acc rfl)
    cases op with
    | arith op => simp only [takeIn, Numeric.arith, accepted, refused]; rfl
    | compare op => simp only [takeIn, compareNumbers, accepted, refused]; rfl

/-- With a number something is wrong only if integers are computed with. -/
theorem Objects.integers {c : Cause} (objects : op.Objects acc x c) (number : x.isNumber = true) :
    ∃ op' m n, op = .arith op' ∧ acc = some (.int m) ∧ x = .int n := by
  cases objects with
  | notANumber other => rw [number] at other; cases other
  | zeroDivisor => exact ⟨_, _, _, rfl, rfl, rfl⟩
  | overflow => exact ⟨_, _, _, rfl, rfl, rfl⟩

/-- What is no number is of the wrong type; what goes wrong with a number is an error of arithmetic. -/
theorem Objects.kind_eq {c : Cause} (objects : op.Objects acc x c) :
    c.kind = if x.isNumber then .arithmeticError else .typeMismatch := by
  cases objects with
  | notANumber other => rw [other]; rfl
  | zeroDivisor | overflow => rfl

/-- Otherwise a number is taken in. -/
theorem takeIn_of_number (numbers : ∀ v ∈ acc, v.isNumber = true) (number : x.isNumber = true)
    (other : ¬ ∃ op' m n, op = .arith op' ∧ acc = some (.int m) ∧ x = .int n) :
    ∃ r, op.takeIn acc x = .ok r := by
  have accepted {v : Value} (hv : v.isNumber = true) (operation : String) (i : Nat) :
      checkNumber operation i v = .ok () := if_pos hv
  cases acc with
  | none => exact ⟨x, by simp only [takeIn, accepted number]; rfl⟩
  | some acc =>
    have known := numbers acc rfl
    cases op with
    | compare op => exact ⟨x, by simp only [takeIn, compareNumbers, accepted known, accepted number]; rfl⟩
    | arith op =>
      cases x with
      | int n =>
        cases acc with
        | int m => exact absurd ⟨_, _, _, rfl, rfl, rfl⟩ other
        | float y => exact ⟨_, rfl⟩
        | _ => cases known
      | float y =>
        cases acc with
        | int m | float z => exact ⟨_, rfl⟩
        | _ => cases known
      | _ => cases number

/-- **An argument is taken in unless something is wrong with it.** -/
theorem takeIn_eq_error_iff (numbers : ∀ v ∈ acc, v.isNumber = true) : op.takeIn acc x = .error e ↔
    op.Objects acc x e.cause ∧ e.blame = e.cause.blame (acc.elim 0 fun _ => 1) := by
  cases number : x.isNumber with
  | false =>
    rw [takeIn_of_other numbers number]
    constructor
    · rintro ⟨⟩
      exact ⟨.notANumber number, rfl⟩
    · obtain ⟨blame, cause⟩ := e
      rintro ⟨objects, blamed⟩
      obtain rfl : blame = cause.blame _ := blamed
      cases (objects : op.Objects acc x cause) with
      | notANumber => rfl
      | zeroDivisor | overflow => cases number
  | true =>
    by_cases integers : ∃ op' m n, op = .arith op' ∧ acc = some (.int m) ∧ x = .int n
    · obtain ⟨op, m, n, rfl, rfl, rfl⟩ := integers
      exact arithInt_eq_error_iff
    · obtain ⟨r, taken⟩ := takeIn_of_number numbers number integers
      rw [taken]
      exact ⟨nofun, fun h => absurd (h.1.integers number) integers⟩

theorem Objects.takeIn_eq_error {c : Cause} (objects : op.Objects acc x c)
    (numbers : ∀ v ∈ acc, v.isNumber = true) :
    op.takeIn acc x = .error ⟨c.blame (acc.elim 0 fun _ => 1), c⟩ :=
  (takeIn_eq_error_iff numbers).2 ⟨objects, rfl⟩

/-- What numbers come to is a number. -/
theorem isNumber_of_takeIn (numbers : ∀ v ∈ acc, v.isNumber = true) {r : Value}
    (taken : op.takeIn acc x = .ok r) : r.isNumber = true := by
  cases number : x.isNumber with
  | false =>
    rw [takeIn_of_other numbers number] at taken
    cases taken
  | true =>
    match op, acc, taken with
    | op, none, taken =>
      simp only [takeIn, checkNumber, number] at taken
      cases taken
      exact number
    | .arith op, some acc, taken =>
      have numerical := numerical_arith op acc x
      rw [show Numeric.arith op acc x = .ok r from taken] at numerical
      exact numerical
    | .compare op, some acc, taken =>
      simp only [takeIn] at taken
      cases compared : compareNumbers op acc x with
      | error e => rw [compared] at taken; cases taken
      | ok b =>
        rw [compared] at taken
        cases taken
        exact number

/-! ### Taking in all arguments -/

namespace Blames

variable {α β : Type} {fault : Nat → Cause → Fault} {i : Nat} {xs : List Value} {answer : Except Fault α}

theorem nothing (v : α) : op.Blames fault acc i [] (.ok v) where
  fails := nofun
  returns _ := ⟨v, rfl⟩

theorem here (numbers : ∀ v ∈ acc, v.isNumber = true) (refused : op.takeIn acc x = .error e) :
    op.Blames fault acc i (x :: xs) (.error (fault i e.cause) : Except Fault α) where
  fails h := by
    cases h with
    | here objects =>
      cases refused.symm.trans (objects.takeIn_eq_error numbers)
      rfl
    | later taken => cases refused.symm.trans taken
  returns none := absurd (.here ((takeIn_eq_error_iff numbers).1 refused).1) (none i e.cause)

theorem later (numbers : ∀ v ∈ acc, v.isNumber = true) {r : Value} (taken : op.takeIn acc x = .ok r)
    (rest : op.Blames fault (some r) (i + 1) xs answer) : op.Blames fault acc i (x :: xs) answer where
  fails h := by
    cases h with
    | here objects => cases taken.symm.trans (objects.takeIn_eq_error numbers)
    | later taken' fails =>
      cases taken.symm.trans taken'
      exact rest.fails fails
  returns none := rest.returns fun j c fails => none j c (.later taken fails)

theorem map (f : α → β) (h : op.Blames fault acc i xs answer) : op.Blames fault acc i xs (answer.map f) where
  fails hf := by rw [h.fails hf]; rfl
  returns none := by
    obtain ⟨v, rfl⟩ := h.returns none
    exact ⟨f v, rfl⟩

theorem eq_fault {f : Fault} (h : op.Blames fault acc i xs (.error f : Except Fault α)) :
    ∃ j c, f = fault j c := by
  by_cases some : ∃ j c, op.FailsFrom acc i xs j c
  · obtain ⟨j, c, fails⟩ := some
    cases h.fails fails
    exact ⟨j, c, rfl⟩
  · obtain ⟨v, hv⟩ := h.returns fun j c fails => some ⟨j, c, fails⟩
    cases hv

end Blames

end CoreOp

/-! ### Locations -/

namespace Attribution

theorem site_foldl (t : Attribution) (ls : List (Location × Nat)) :
    (ls.foldl (fun t a => t.record a.2 a.1) t).site = t.site := by
  induction ls generalizing t with
  | nil => rfl
  | cons a ls ih => exact ih (t.record a.2 a.1)

/-- Locations are recorded in a row, as far as there are places for them. -/
theorem arguments_foldl (t : Attribution) (ls : List Location) (k i : Nat) :
    ((ls.zipIdx k).foldl (fun t a => t.record a.2 a.1) t).arguments[i]? =
      if k ≤ i ∧ i < k + ls.length ∧ i < t.arguments.size then ls[i - k]? else t.arguments[i]? := by
  induction ls generalizing t k with
  | nil => rw [if_neg (by simp; omega)]; rfl
  | cons l ls ih =>
    rw [List.zipIdx_cons, List.foldl_cons, ih, record, Array.size_setIfInBounds, Array.getElem?_setIfInBounds,
      List.length_cons]
    by_cases first : k = i
    · subst first
      by_cases fits : k < t.arguments.size <;> simp [fits]
    · rw [if_neg first]
      by_cases beyond : k < i
      · obtain ⟨j, rfl⟩ : ∃ j, i = k + 1 + j := ⟨i - (k + 1), by omega⟩
        have shifted : k + 1 + j - k = j + 1 := by omega
        have same : (k + 1 ≤ k + 1 + j ∧ k + 1 + j < k + 1 + ls.length ∧ k + 1 + j < t.arguments.size) ↔
            (k ≤ k + 1 + j ∧ k + 1 + j < k + (ls.length + 1) ∧ k + 1 + j < t.arguments.size) := by omega
        simp only [same, shifted, Nat.add_sub_cancel_left, List.getElem?_cons_succ]
      · rw [if_neg (by omega), if_neg (by omega)]

/-- The location to blame for an argument is its own, if it has a place. -/
theorem argument_ofArguments (site : Location) {ls : List Location} (known : ∀ l ∈ ls, l.isKnown = true)
    {i : Nat} (hi : i < ls.length) :
    (ofArguments site ls).argument i = if i < 8 then ls[i]?.getD site else site := by
  have places : (ofCall site).arguments.size = 8 := rfl
  rw [argument, ofArguments, site_foldl, arguments_foldl, places, Nat.sub_zero, List.getElem?_eq_getElem hi]
  by_cases tracked : i < 8
  · rw [if_pos (by omega), if_pos tracked]
    exact Location.orElse_of_isKnown (known _ (List.getElem_mem hi)) _
  · rw [if_neg (by omega), if_neg tracked]
    exact argument_of_tracked_le site (Nat.not_lt.1 tracked)

end Attribution

/-- A native call is in progress at `site`, with arguments that stand somewhere. -/
structure Session.Calls (s : Session) (site : Location) (arguments : List Location) : Prop where
  attribution : s.attribution = .ofArguments site arguments
  site : site.isKnown = true
  arguments : ∀ l ∈ arguments, l.isKnown = true

/-! ### The built-in functions -/

namespace Library

variable {s : Session} (site : Location) {arguments : List Location}

variable {site} in
/-- A numeric fault becomes the failure at the argument that its operand is. -/
theorem settle_error {α : Type} (hs : s.Calls site arguments) (first : Nat) {e : NumericFault} {i : Nat}
    (blamed : e.blame = e.cause.blame i) (hi : first + i < arguments.length) :
    settle first (.error e : Except NumericFault α) s =
      .error (.fault (.atArgument site arguments (first + i) e.cause)) s := by
  obtain ⟨blame, cause⟩ := e
  obtain rfl : blame = cause.blame i := blamed
  have unknown (l : Location) (hl : l.isKnown = true) : (Fault.of cause).orAt l = ⟨cause, some l, none⟩ := by
    simp [Fault.orAt, Fault.of, hl]
  have place := Attribution.argument_ofArguments site hs.arguments hi
  have known : (if first + i < 8 then arguments[first + i]?.getD site else site).isKnown = true := by
    split
    · rw [List.getElem?_eq_getElem hi]
      exact hs.arguments _ (List.getElem_mem hi)
    · exact hs.site
  obtain whole | part : (∀ i, cause.blame i = .operation) ∨ ∀ i, cause.blame i = .operand i := by
    cases cause <;> simp [Cause.blame]
  · have at_site : s.attribution.site = site := by
      rw [hs.attribution, Attribution.ofArguments, Attribution.site_foldl]
      rfl
    have settled : settle first (.error ⟨cause.blame i, cause⟩ : Except NumericFault α) s =
        .error (.fault ((Fault.of cause).orAt s.attribution.site)) s := by rw [whole]; rfl
    rw [settled, at_site, unknown site hs.site]
    simp only [Fault.atArgument, whole]
  · have settled : settle first (.error ⟨cause.blame i, cause⟩ : Except NumericFault α) s =
        .error (.fault ((Fault.of cause).orAt (s.attribution.argument (first + i)))) s := by rw [part]; rfl
    rw [settled, hs.attribution, place, unknown _ known]
    simp only [Fault.atArgument, part]

/-- **A fold blames the first argument that cannot be taken in.** -/
theorem blames_foldFrom (op : ArithOp) {xs : List Value} {acc : Value} {i : Nat}
    (number : acc.isNumber = true) (places : i + 1 + xs.length ≤ arguments.length) :
    ∃ answer, (CoreOp.arith op).Blames (.atArgument site arguments) (some acc) (i + 1) xs answer ∧
      ∀ s : Session, s.Calls site arguments → foldFrom op acc (i + 1) xs s = Eval.ofExcept answer s := by
  have numbers : ∀ v ∈ some acc, v.isNumber = true := by simpa using number
  induction xs generalizing acc i with
  | nil => exact ⟨.ok acc, .nothing acc, fun _ _ => rfl⟩
  | cons x xs ih =>
    rw [List.length_cons] at places
    unfold foldFrom
    have step : (CoreOp.arith op).takeIn (some acc) x = Numeric.arith op acc x := rfl
    cases taken : Numeric.arith op acc x with
    | error e =>
      have objects := (CoreOp.takeIn_eq_error_iff numbers).1 (step.trans taken)
      refine ⟨_, .here numbers taken, fun s hs => ?_⟩
      exact Eval.bind_eq_of_error (settle_error hs i objects.2 (show i + 1 < _ by omega))
    | ok r =>
      have number := CoreOp.isNumber_of_takeIn numbers (step.trans taken)
      obtain ⟨answer, blames, rest⟩ := ih (i := i + 1) number (by omega) (by simpa using number)
      exact ⟨answer, blames.later numbers taken, rest⟩

/-- **So does a chain of comparisons.** -/
theorem blames_chainFrom (op : CompareOp) {xs : List Value} {previous : Value} {i : Nat}
    (number : previous.isNumber = true) (places : i + 1 + xs.length ≤ arguments.length) :
    ∃ answer, (CoreOp.compare op).Blames (.atArgument site arguments) (some previous) (i + 1) xs answer ∧
      ∀ s : Session, s.Calls site arguments → chainFrom op i previous xs s = Eval.ofExcept answer s := by
  have numbers : ∀ v ∈ some previous, v.isNumber = true := by simpa using number
  induction xs generalizing previous i with
  | nil => exact ⟨.ok true, .nothing true, fun _ _ => rfl⟩
  | cons x xs ih =>
    rw [List.length_cons] at places
    have taken : (CoreOp.compare op).takeIn (some previous) x = (compareNumbers op previous x).map fun _ => x :=
      rfl
    unfold chainFrom
    cases compared : compareNumbers op previous x with
    | error e =>
      rw [compared] at taken
      have objects := (CoreOp.takeIn_eq_error_iff numbers).1 taken
      refine ⟨_, .here numbers taken, fun s hs => ?_⟩
      exact Eval.bind_eq_of_error (settle_error hs i objects.2 (show i + 1 < _ by omega))
    | ok b =>
      rw [compared] at taken
      have number := CoreOp.isNumber_of_takeIn numbers taken
      obtain ⟨answer, blames, rest⟩ := ih (i := i + 1) number (by omega) (by simpa using number)
      refine ⟨answer.map (b && ·), (blames.map _).later numbers taken, fun s hs => ?_⟩
      change (chainFrom op (i + 1) x xs >>= fun rest => pure (b && rest)) s = _
      have ran := rest s hs
      cases answer with
      | ok v => exact Eval.bind_eq_of_ok ran
      | error f => exact Eval.bind_eq_of_error ran

/-- The first argument is checked before the others are taken in. -/
theorem blames_first {α : Type} (op : CoreOp) {x : Value} {xs : List Value} {f : Eval α}
    (places : 0 < arguments.length)
    (rest : x.isNumber = true →
      ∃ answer, op.Blames (.atArgument site arguments) (some x) 1 xs answer ∧
        ∀ s : Session, s.Calls site arguments → f s = Eval.ofExcept answer s) :
    ∃ answer, op.Blames (.atArgument site arguments) none 0 (x :: xs) answer ∧
      ∀ s : Session, s.Calls site arguments →
        (do settle 0 (checkNumber op.name 0 x); f) s = Eval.ofExcept answer s := by
  have numbers : ∀ v ∈ (none : Option Value), v.isNumber = true := nofun
  have taken : op.takeIn none x = (checkNumber op.name 0 x).map fun _ => x := rfl
  cases checked : checkNumber op.name 0 x with
  | error e =>
    rw [checked] at taken
    have objects := (CoreOp.takeIn_eq_error_iff numbers).1 taken
    refine ⟨_, .here numbers taken, fun s hs => ?_⟩
    exact Eval.bind_eq_of_error (settle_error hs 0 objects.2 (by simpa using places))
  | ok u =>
    rw [checked] at taken
    obtain ⟨answer, blames, ran⟩ := rest (CoreOp.isNumber_of_takeIn numbers taken)
    exact ⟨answer, blames.later numbers taken, ran⟩

theorem blames_fold (op : ArithOp) {x : Value} {xs : List Value} (places : xs.length + 1 ≤ arguments.length) :
    ∃ answer, (CoreOp.arith op).Blames (.atArgument site arguments) none 0 (x :: xs) answer ∧
      ∀ s : Session, s.Calls site arguments → fold op x xs s = Eval.ofExcept answer s :=
  blames_first site (.arith op) (by omega) fun number =>
    blames_foldFrom site op (i := 0) number (by rw [Nat.zero_add, Nat.add_comm]; exact places)

theorem blames_chain (b : Builtin) (op : CompareOp) {x : Value} {xs : List Value}
    (places : xs.length + 1 ≤ arguments.length) :
    ∃ answer, (CoreOp.compare op).Blames (.atArgument site arguments) none 0 (x :: xs) answer ∧
      ∀ s : Session, s.Calls site arguments → chain b op (x :: xs) s = Eval.ofExcept answer s := by
  refine blames_first site (.compare op) (by omega) fun number => ?_
  obtain ⟨answer, blames, chained⟩ := @blames_chainFrom site arguments op xs x 0 number
    (by rw [Nat.zero_add, Nat.add_comm]; exact places)
  refine ⟨answer.map .bool, blames.map _, fun s hs => ?_⟩
  have ran := chained s hs
  cases answer with
  | ok v => exact Eval.bind_eq_of_ok ran
  | error f => exact Eval.bind_eq_of_error ran

/-- **The built-in function of a core operator blames the first argument that cannot be taken in.** -/
theorem blames_run (op : CoreOp) {vs : List Value} (many : 2 ≤ vs.length)
    (places : vs.length ≤ arguments.length) :
    ∃ answer, op.Blames (.atArgument site arguments) none 0 vs answer ∧
      ∀ (call : Caller) (s : Session), s.Calls site arguments →
        run call op.builtin vs s = Eval.ofExcept answer s := by
  match vs, many with
  | x :: y :: rest, _ =>
    cases op with
    | arith op =>
      obtain ⟨answer, blames, ran⟩ := blames_fold site op places
      refine ⟨answer, blames, fun call => ?_⟩
      cases op <;> exact ran
    | compare op =>
      obtain ⟨answer, blames, ran⟩ :=
        blames_chain site (CoreOp.compare op).builtin op (x := x) places
      refine ⟨answer, blames, fun call => ?_⟩
      cases op <;> exact ran

end Library

/-- A computation that does not look at what forbids collection may forbid it. -/
theorem Eval.withoutCollection_eq {α : Type} {x : Eval α} {answer : Except Fault α} {s : Session}
    (h : x { s with inhibited := s.inhibited + 1 } =
      Eval.ofExcept answer { s with inhibited := s.inhibited + 1 }) :
    Eval.withoutCollection x s = Eval.ofExcept answer s := by
  have ran : Eval.withoutCollection x s =
      Eval.always (fun s => { s with inhibited := s.inhibited - 1 }) x { s with inhibited := s.inhibited + 1 } :=
    rfl
  rw [ran, Eval.always, h]
  cases answer <;> rfl

/-- **A call of the built-in function of a core operator blames the first argument that cannot be taken in**,
whatever else the session holds. The session is left as it was. -/
theorem CoreOp.blames_attributed (op : CoreOp) {site : Location} {arguments : List Location} {vs : List Value}
    (known : site.isKnown = true) (placed : ∀ l ∈ arguments, l.isKnown = true) (many : 2 ≤ vs.length)
    (places : vs.length = arguments.length) :
    ∃ answer, op.Blames (.atArgument site arguments) none 0 vs answer ∧
      ∀ (hosts : HostTable) (call : Caller) (s : Session),
        Eval.attributed site arguments (Eval.runNative hosts call (.builtin op.builtin) vs) s =
          Eval.ofExcept answer s := by
  obtain ⟨answer, blames, ran⟩ := Library.blames_run site op many (Nat.le_of_eq places)
  refine ⟨answer, blames, fun hosts call s => ?_⟩
  have native : Eval.runNative hosts call (.builtin op.builtin) vs
      { s with attribution := .ofArguments site arguments } =
        Eval.ofExcept answer { s with attribution := .ofArguments site arguments } :=
    Eval.withoutCollection_eq (ran call _ ⟨rfl, known, placed⟩)
  have attributed : Eval.attributed site arguments (Eval.runNative hosts call (.builtin op.builtin) vs) s =
      Eval.always (fun t => { t with attribution := s.attribution })
        (Eval.blaming site (Eval.runNative hosts call (.builtin op.builtin) vs))
        { s with attribution := .ofArguments site arguments } := rfl
  rw [attributed, Eval.always, Eval.blaming, Eval.mapFault, native]
  cases answer with
  | ok v => rfl
  | error f =>
    -- The failure is blamed on something already.
    obtain ⟨j, c, rfl⟩ := blames.eq_fault
    rfl

end TwinLisp
