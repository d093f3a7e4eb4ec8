import TwinLisp.Proofs.Number.Blame
import TwinLisp.Proofs.Template.Data

/-!
# Ranges

The built-in `range` goes in equal steps from one integer to another. It compares before each step and leaves off
where the next number would not fit sixty-four bits. Nothing is lost by that: the end fits, so a number that does not
fit is beyond it.

## Main definitions

* `IsProgression`: numbers are the terms of an arithmetic progression up to its end.
* `Eval.callRange`: a call of `range`.
* `Eval.YieldsList`: a computation makes a list, if there is room for one more object.

## Main statements

* `Library.exists_rangeFrom_eq`: the loop appends the progression from where it stands.
* `Library.callRange_progression`: what a call of `range` comes to.
-/

namespace TwinLisp

open Numeric

/-! ### Progressions -/

/-- The numbers are the terms of the progression that starts with `first` and goes in steps of `step`, in order and
without a gap, as long as the terms have not come to `stop`. -/
def IsProgression (stop step first : Int) (numbers : List Int64) : Prop :=
  ∀ k : Nat, numbers[k]?.map Int64.toInt =
    if 0 < step ∧ first + k * step < stop ∨ step < 0 ∧ stop < first + k * step then some (first + k * step)
    else none

namespace Library

variable {stop step i : Int}

theorem comesBefore_iff : comesBefore stop step i = true ↔ 0 < step ∧ i < stop ∨ step < 0 ∧ stop < i := by
  simp [comesBefore]

/-- Beyond the end the progression does not come back. -/
theorem comesBefore_of_later (k : Nat) (h : comesBefore stop step (i + k * step) = true) :
    comesBefore stop step i = true := by
  rw [comesBefore_iff] at h ⊢
  rcases h with ⟨sign, h⟩ | ⟨sign, h⟩
  · have : 0 ≤ k * step := Int.mul_nonneg (Int.natCast_nonneg k) (Int.le_of_lt sign)
    omega
  · have : k * step ≤ 0 := Int.mul_nonpos_of_nonneg_of_nonpos (Int.natCast_nonneg k) (Int.le_of_lt sign)
    omega

/-- A number that does not fit is not before the end, which fits. -/
theorem not_comesBefore_of_beyond (stop : Int64) {step i : Int64} (beyond : toInt64? (i.toInt + step.toInt) = none) :
    ¬ comesBefore stop.toInt step.toInt (i.toInt + step.toInt) = true := by
  rw [toInt64?_eq_none_iff] at beyond
  rw [comesBefore_iff]
  have := stop.le_toInt
  have := stop.toInt_lt
  have := i.le_toInt
  have := i.toInt_lt
  omega

end Library

namespace IsProgression

open Library

variable {stop step first : Int} {numbers : List Int64}

theorem nil (past : ¬ comesBefore stop step first = true) : IsProgression stop step first [] := by
  intro k
  rw [if_neg fun h => past (comesBefore_of_later k (comesBefore_iff.2 h))]
  rfl

/-- One step: a number before the end, and after it the progression from the next number on. -/
theorem cons {n : Int64} (before : comesBefore stop step n.toInt = true)
    (rest : IsProgression stop step (n.toInt + step) numbers) : IsProgression stop step n.toInt (n :: numbers) := by
  intro k
  cases k with
  | zero =>
    rw [Int.natCast_zero, Int.zero_mul, Int.add_zero, if_pos (comesBefore_iff.1 before)]
    rfl
  | succ k =>
    have shifted : n.toInt + (k + 1 : Nat) * step = n.toInt + step + k * step := by
      rw [Int.natCast_add, Int.natCast_one, Int.add_mul, Int.one_mul]
      omega
    rw [List.getElem?_cons_succ, shifted]
    exact rest k

/-- There is only one way to list the terms. -/
theorem unique {others : List Int64} (h : IsProgression stop step first numbers)
    (h' : IsProgression stop step first others) : numbers = others := by
  refine List.ext_getElem? fun k => ?_
  exact Option.map_injective (fun _ _ => Int64.toInt_inj.1) ((h k).trans (h' k).symm)

end IsProgression

/-! ### The loop -/

namespace Library

/-- **The loop appends the progression from where it stands.** -/
theorem exists_rangeFrom_eq (stop step : Int64) (items : Array Value) (i : Int64) :
    ∃ numbers, IsProgression stop.toInt step.toInt i.toInt numbers ∧
      (rangeFrom stop step items i).toList = items.toList ++ numbers.map .int := by
  fun_induction rangeFrom stop step items i with
  | case1 items i before items' j next _ ih =>
    obtain ⟨numbers, progression, rest⟩ := ih
    rw [toInt_of_toInt64? next] at progression
    exact ⟨i :: numbers, progression.cons before, by simp [rest, items']⟩
  | case2 items i before items' beyond =>
    -- The next number does not fit, so it would not have been taken anyway.
    have past := IsProgression.nil (not_comesBefore_of_beyond stop beyond)
    exact ⟨[i], past.cons before, by simp [items']⟩
  | case3 items i past => exact ⟨[], .nil past, by simp⟩

end Library

/-! ### The call -/

/-- A call of `range` at `site`, with arguments that stand at the given locations. -/
def Eval.callRange (hosts : HostTable) (call : Caller) (site : Location) (locations : List Location)
    (args : List Value) : Eval Value :=
  attributed site locations (runNative hosts call (.builtin .range) args)

/-- The computation makes a list of the items, if the session goes on and there is room for one more object.
Otherwise it fails for that reason. -/
structure Eval.YieldsList (x : Eval Value) (items : List Value) : Prop where
  yields {s : Session} (sound : s.heap.Sound) (going : s.terminated = false) (room : s.heap.isFull = false) :
    ∃ a t, x s = .ok (.ref .list a) t ∧ t.heap.get? a = some (.list items .unknown)
  refused {s : Session} (h : s.terminated = true ∨ s.heap.isFull = true) :
    ∃ f t, x s = .error (.fault f) t ∧ (f.cause = .terminated ∨ ∃ live, f.cause = .heapFull live)

namespace Eval

/-- Inside a native call an object is made, or refused, as outside. -/
theorem new_inside (o : Object) (s : Session) (A : Attribution) (n : Nat) (os : Array Value) :
    new o (s.inside A n os) =
      match new o s with
      | .ok v t => .ok v (t.inside A n os)
      | .error e t => .error e (t.inside A n os) := by
  rw [MakesData.new_eq o s, MakesData.new_eq]
  by_cases ended : s.terminated = true
  · rw [if_pos ended, if_pos (show (s.inside A n os).terminated = true from ended)]
  rw [if_neg ended, if_neg (show ¬ (s.inside A n os).terminated = true from ended)]
  by_cases full : s.heap.isFull = true
  · rw [if_pos full, if_pos (show (s.inside A n os).heap.isFull = true from full)]
    rfl
  · rw [if_neg full, if_neg (show ¬ (s.inside A n os).heap.isFull = true from full)]
    rfl

/-- A native call that makes a list makes it in the session of the caller. -/
theorem attributed_newList (site : Location) (locations : List Location) (items : List Value) :
    attributed site locations (withoutCollection (newList items)) = blaming site (newList items) := by
  funext s
  have call : attributed site locations (withoutCollection (newList items)) s =
      always (fun t => { t with attribution := s.attribution })
        (blaming site (always (fun t => { t with inhibited := t.inhibited - 1 }) (newList items)))
        (s.inside (.ofArguments site locations) (s.inhibited + 1) s.operands) := rfl
  have inner := new_inside (.list items .unknown) s (.ofArguments site locations) (s.inhibited + 1) s.operands
  have back := new_inside (.list items .unknown) s s.attribution s.inhibited s.operands
  change new (.list items .unknown) s = _ at back
  rw [call, always, blaming, blaming, mapFault, mapFault, always, newList, inner]
  cases made : new (.list items .unknown) s with
  | ok v t =>
    rw [made] at back
    exact congrArg (EStateM.Result.ok v) (EStateM.Result.ok.inj back).2.symm
  | error e t =>
    rw [made] at back
    have same := (EStateM.Result.error.inj back).2.symm
    cases e with
    | fault f => exact congrArg (EStateM.Result.error (Stop.fault (f.orAt site))) same
    | outOfFuel => exact congrArg (EStateM.Result.error Stop.outOfFuel) same

/-- A native call that fails because of an argument blames it, if it has a location. -/
theorem attributed_failAt {α : Type} (site : Location) (locations : List Location) (i : Nat) (c : Cause)
    (s : Session) : attributed site locations (withoutCollection (failAt i c : Eval α)) s =
      .error (.fault (((Fault.of c).orAt ((Attribution.ofArguments site locations).argument i)).orAt site)) s :=
  rfl

theorem YieldsList.blaming_newList (site : Location) (items : List Value) :
    (blaming site (newList items)).YieldsList items where
  yields {s} sound going room := by
    refine ⟨_, { s with heap := _ }, ?_, Heap.get?_place_self s.heap (.list items .unknown) sound⟩
    rw [blaming, mapFault, newList, MakesData.new_eq, going, room]
    rfl
  refused {s} h := by
    rw [blaming, mapFault, newList, MakesData.new_eq]
    by_cases ended : s.terminated = true
    · rw [if_pos ended]
      exact ⟨_, _, rfl, .inl (Fault.cause_orAt ..)⟩
    · rw [if_neg ended, if_pos (h.resolve_left ended)]
      exact ⟨_, _, rfl, .inr ⟨_, Fault.cause_orAt ..⟩⟩

end Eval

namespace Library

/-- With three integers, the step is looked at and then the loop runs. -/
theorem range_int (start stop step : Int64) : range [.int start, .int stop, .int step] =
    if step = 0 then Eval.failAt 2 .zeroStep else Eval.newList (rangeFrom stop step #[] start).toList := by
  change (if (step == 0) = true then _ else _ : Eval Value) = _
  by_cases zero : step = 0
  · rw [if_pos zero, if_pos (beq_iff_eq.2 zero)]
    rfl
  · rw [if_neg zero, if_neg (mt beq_iff_eq.1 zero)]

/-- What is not an integer is refused where it stands. -/
theorem integer_cases (v : Value) : (∃ n, v = .int n) ∨
    ∀ b i, integer b i v = Eval.failAt i (.typeMismatch b.name "integer" v.typeName) := by
  cases v with
  | int n => exact .inl ⟨n, rfl⟩
  | _ => exact .inr fun _ _ => rfl

theorem range_of_refused {args : List Value} {i : Nat} {c : Cause} (h : rangeBounds args = Eval.failAt i c) :
    range args = Eval.failAt i c := by
  rw [range, h]
  rfl

section

variable (hosts : HostTable) (call : Caller) (site : Location)

theorem callRange_eq (locations : List Location) (args : List Value) :
    Eval.callRange hosts call site locations args =
      Eval.attributed site locations (Eval.withoutCollection (range args)) := rfl

/-- Wherever the arguments stand, the list is the same. -/
theorem callRange_int {start stop step : Int64} (nonzero : step ≠ 0) (locations : List Location) :
    Eval.callRange hosts call site locations [.int start, .int stop, .int step] =
      Eval.blaming site (Eval.newList (rangeFrom stop step #[] start).toList) := by
  rw [callRange_eq, range_int, if_neg nonzero, Eval.attributed_newList]

/-- Calls that refuse arguments for the same cause and at the same location do the same. -/
theorem callRange_congr {ls ls' : List Location} {args args' : List Value} {i j : Nat} {c : Cause}
    (h : rangeBounds args = Eval.failAt i c) (h' : rangeBounds args' = Eval.failAt j c)
    (place : (Attribution.ofArguments site ls).argument i = (Attribution.ofArguments site ls').argument j) :
    Eval.callRange hosts call site ls args = Eval.callRange hosts call site ls' args' := by
  funext s
  rw [callRange_eq, callRange_eq, range_of_refused h, range_of_refused h', Eval.attributed_failAt,
    Eval.attributed_failAt, place]

/-- **A range is an exact arithmetic progression.** A call of `range` with three integers comes to an end. Unless the
step is zero it makes the list of all terms before the end, if the heap permits, whatever the integers are. If the step is
zero, that is an error of arithmetic at the location of the step. With fewer arguments the start is zero and the step
is one, and what is wrong with an argument is blamed on it as it would be with three. -/
theorem callRange_progression :
    (∀ start stop step : Int64, step ≠ 0 →
      ∃ numbers, IsProgression stop.toInt step.toInt start.toInt numbers ∧ ∀ locations,
        (Eval.callRange hosts call site locations [.int start, .int stop, .int step]).YieldsList (numbers.map .int)) ∧
    (∀ (start stop : Int64) (l₀ l₁ l₂ : Location), l₂.isKnown = true → ∀ s, ∃ f,
      Eval.callRange hosts call site [l₀, l₁, l₂] [.int start, .int stop, .int 0] s = .error (.fault f) s ∧
        f.kind = .arithmeticError ∧ f.location = some l₂) ∧
    (∀ l₀ l₁ l₂ v, Eval.callRange hosts call site [l₁] [v] =
      Eval.callRange hosts call site [l₀, l₁, l₂] [.int 0, v, .int 1]) ∧
    ∀ l₀ l₁ l₂ v w, Eval.callRange hosts call site [l₀, l₁] [v, w] =
      Eval.callRange hosts call site [l₀, l₁, l₂] [v, w, .int 1] := by
  refine ⟨fun start stop step nonzero => ?_, fun start stop l₀ l₁ l₂ known s => ?_, fun l₀ l₁ l₂ v => ?_,
    fun l₀ l₁ l₂ v w => ?_⟩
  · obtain ⟨numbers, progression, items⟩ := exists_rangeFrom_eq stop step #[] start
    refine ⟨numbers, progression, fun locations => ?_⟩
    rw [callRange_int hosts call site nonzero, items]
    exact .blaming_newList site _
  · have place : (Attribution.ofArguments site [l₀, l₁, l₂]).argument 2 = l₂ := Location.orElse_of_isKnown known site
    rw [callRange_eq, range_int, if_pos rfl, Eval.attributed_failAt, place, Fault.orAt_orAt,
      Location.orElse_of_isKnown known]
    exact ⟨_, rfl, by simp [Fault.kind, Fault.of, Cause.kind], by simp [Fault.orAt, Fault.of, known]⟩
  · obtain ⟨n, rfl⟩ | other := integer_cases v
    · have shorter : range [.int n] = range [.int 0, .int n, .int 1] := rfl
      rw [callRange_eq, shorter, ← callRange_eq hosts call, callRange_int hosts call site (by decide),
        callRange_int hosts call site (by decide)]
    · exact callRange_congr hosts call site (i := 0) (j := 1) (by rw [rangeBounds, other]; rfl)
        (by rw [rangeBounds, other]; rfl) rfl
  · obtain ⟨m, rfl⟩ | other := integer_cases v
    · obtain ⟨n, rfl⟩ | other := integer_cases w
      · have shorter : range [.int m, .int n] = range [.int m, .int n, .int 1] := rfl
        rw [callRange_eq, shorter, ← callRange_eq hosts call, callRange_int hosts call site (by decide),
          callRange_int hosts call site (by decide)]
      · exact callRange_congr hosts call site (i := 1) (j := 1) (by rw [rangeBounds, other]; rfl)
          (by rw [rangeBounds, other]; rfl) rfl
    · exact callRange_congr hosts call site (i := 0) (j := 0) (by rw [rangeBounds, other]; rfl)
        (by rw [rangeBounds, other]; rfl) rfl

end

/-- Three steps before the greatest integer, where a fourth would be beyond it, and a step of zero. -/
theorem callRange_below_greatest :
    (∃ a t, Eval.callRange #[] (fun _ _ => throw .outOfFuel) ⟨1, 1⟩ [⟨1, 8⟩, ⟨1, 28⟩, ⟨1, 48⟩]
        [.int 9223372036854775800, .int 9223372036854775807, .int 3] (.fresh {}) = .ok (.ref .list a) t ∧
      t.heap.get? a = some (.list
        [.int 9223372036854775800, .int 9223372036854775803, .int 9223372036854775806] .unknown)) ∧
    ∃ f, Eval.callRange #[] (fun _ _ => throw .outOfFuel) ⟨1, 1⟩ [⟨1, 8⟩, ⟨1, 28⟩, ⟨1, 48⟩]
        [.int 9223372036854775800, .int 9223372036854775807, .int 0] (.fresh {}) = .error (.fault f) (.fresh {}) ∧
      f.kind = .arithmeticError ∧ f.location = some ⟨1, 48⟩ := by
  obtain ⟨progressions, zero, -, -⟩ := callRange_progression #[] (fun _ _ => throw .outOfFuel) ⟨1, 1⟩
  obtain ⟨numbers, progression, lists⟩ :=
    progressions 9223372036854775800 9223372036854775807 3 (by decide)
  have terms : IsProgression (Int64.toInt 9223372036854775807) (Int64.toInt 3) (Int64.toInt 9223372036854775800)
      [9223372036854775800, 9223372036854775803, 9223372036854775806] := by
    refine .cons (by decide) (.cons (n := 9223372036854775803) (by decide) ?_)
    exact .cons (n := 9223372036854775806) (by decide) (.nil (by decide))
  obtain rfl := progression.unique terms
  exact ⟨(lists _).yields (Heap.sound_empty _) rfl rfl, zero _ _ _ _ _ rfl _⟩

end Library

end TwinLisp
