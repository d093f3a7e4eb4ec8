import TwinLisp.Proofs.Number.Blame

/-!
# Exact integers

An operation on integers yields its exact result, and reports an overflow if sixty-four bits do not hold it. There is
one case in which a division is refused although its result fits: the least integer has no quotient by minus one, and
then it has no remainder either.

## Main definitions

* `Numeric.Exact`: a result, or its overflow.
* `ArithOp.Answers` and `DivisionOp.Answers`: what operations on integers come to.
* `Division`: division with a remainder of a given sign.

## Main statements

* `Numeric.answers_arith`, `Numeric.exact_negate`, `Numeric.answers_divide`: what the operations do.
* `Division.unique`: there is one quotient and one remainder only.
-/

namespace TwinLisp

/-! ### Division with remainder -/

/-- The quotient and the remainder of `m` by `n`, where the remainder has the sign of `leader` or is zero. -/
structure Division (leader m n quotient remainder : Int) : Prop where
  whole : quotient * n + remainder = m
  small : remainder.natAbs < n.natAbs
  nonneg : 0 ≤ leader → 0 ≤ remainder
  nonpos : leader ≤ 0 → remainder ≤ 0

namespace Division

variable {leader m n q r q' r' : Int}

/-- There is one quotient and one remainder only. -/
theorem unique (h : Division leader m n q r) (h' : Division leader m n q' r') : q = q' ∧ r = r' := by
  have multiple : (q - q') * n = r' - r := by
    have := h.whole.trans h'.whole.symm
    rw [Int.sub_mul]
    omega
  have close : (r' - r).natAbs < n.natAbs := by
    have := h.small
    have := h'.small
    rcases Int.le_total 0 leader with sign | sign
    · have := h.nonneg sign
      have := h'.nonneg sign
      omega
    · have := h.nonpos sign
      have := h'.nonpos sign
      omega
  have same : r' - r = 0 := Int.eq_zero_of_dvd_of_natAbs_lt_natAbs (Dvd.intro_left _ multiple) close
  rw [same] at multiple
  have nonzero : n ≠ 0 := fun e => by rw [e] at close; exact Nat.not_lt_zero _ close
  have := (Int.mul_eq_zero.1 multiple).resolve_right nonzero
  omega

/-- Rounded towards zero the remainder has the sign of the dividend. -/
theorem tdiv (nonzero : n ≠ 0) : Division m m n (m.tdiv n) (m.tmod n) where
  whole := Int.tdiv_mul_add_tmod m n
  small := by
    rw [Int.natAbs_tmod]
    exact Nat.mod_lt _ (Int.natAbs_pos.2 nonzero)
  nonneg := Int.tmod_nonneg n
  nonpos h := by
    have := Int.tmod_nonneg n (Int.neg_nonneg_of_nonpos h)
    rw [Int.neg_tmod] at this
    omega

/-- Rounded down the remainder has the sign of the divisor. -/
theorem fdiv (nonzero : n ≠ 0) : Division n m n (m.fdiv n) (m.fmod n) := by
  have range : 0 < n ∧ 0 ≤ m.fmod n ∧ m.fmod n < n ∨ n < 0 ∧ n < m.fmod n ∧ m.fmod n ≤ 0 := by
    rcases Int.lt_or_gt_of_ne nonzero with sign | sign
    · have low := Int.fmod_nonneg_of_pos (-m) (Int.neg_pos_of_neg sign)
      have high := Int.fmod_lt_of_pos (-m) (Int.neg_pos_of_neg sign)
      rw [Int.neg_fmod_neg] at low high
      omega
    · exact .inl ⟨sign, Int.fmod_nonneg_of_pos m sign, Int.fmod_lt_of_pos m sign⟩
  exact
    { whole := Int.fdiv_mul_add_fmod m n
      small := by omega
      nonneg := fun _ => by omega
      nonpos := fun _ => by omega }

/-- A remainder is no greater than the divisor, so that it fits. -/
theorem not_beyond {n : Int64} (h : Division leader m n.toInt q r) : ¬ (r < -2 ^ 63 ∨ 2 ^ 63 ≤ r) := by
  have := h.small
  have := n.le_toInt
  have := n.toInt_lt
  omega

end Division

/-- The quotient of two integers fits unless the least one is divided by minus one. -/
theorem tdiv_beyond_iff {m n : Int64} (nonzero : n.toInt ≠ 0) :
    (m.toInt.tdiv n.toInt < -2 ^ 63 ∨ 2 ^ 63 ≤ m.toInt.tdiv n.toInt) ↔ m.toInt = -2 ^ 63 ∧ n.toInt = -1 := by
  have low := m.le_toInt
  have high := m.toInt_lt
  generalize m.toInt = m at low high ⊢
  generalize n.toInt = n at nonzero ⊢
  constructor
  · intro beyond
    have size : (m.tdiv n).natAbs = m.natAbs / n.natAbs := Int.natAbs_tdiv m n
    -- A quotient that is as great as the dividend can be has a divisor of one or minus one.
    have one : n.natAbs = 1 := by
      by_contra other
      have half : m.natAbs / n.natAbs ≤ m.natAbs / 2 := Nat.div_le_div_left (by omega) (by decide)
      omega
    rcases Int.natAbs_eq n with e | e
    · rw [e, one, Int.natCast_one, Int.tdiv_one] at beyond
      omega
    · rw [e, one, Int.natCast_one, Int.tdiv_neg, Int.tdiv_one] at beyond
      omega
  · rintro ⟨rfl, rfl⟩
    exact .inr (by decide)

/-! ### Answers -/

/-- The answer is the integer `r`, or an overflow if sixty-four bits do not hold it. -/
inductive Numeric.Exact (operation : String) (r : Int) : Except NumericFault Value → Prop where
  | fits {i : Int64} (value : i.toInt = r) : Exact operation r (.ok (.int i))
  | overflow (beyond : r < -2 ^ 63 ∨ 2 ^ 63 ≤ r) : Exact operation r (.error ⟨.operation, .overflow operation⟩)

/-- What an arithmetic operator comes to on integers. -/
inductive ArithOp.Answers (op : ArithOp) (m n : Int64) : Except NumericFault Value → Prop where
  /-- There is an exact result. -/
  | exact {r : Int} {answer : Except NumericFault Value} (result : op.integer? m.toInt n.toInt = some r)
    (settled : Numeric.Exact op.name r answer) : Answers op m n answer
  /-- The division does not come out even. -/
  | inexact {x : Double} (division : op = .div) (uneven : ¬ n.toInt ∣ m.toInt) : Answers op m n (.ok (.float x))
  | zeroDivisor (division : op = .div) (zero : n.toInt = 0) : Answers op m n (.error Numeric.divisionByZero)

/-- Whether `r` is what the operator is to yield. -/
def DivisionOp.Yields (op : DivisionOp) (m n r : Int) : Prop :=
  match op with
  | .quot => ∃ remainder, Division m m n r remainder
  | .rem => ∃ quotient, Division m m n quotient r
  | .mod => ∃ quotient, Division n m n quotient r

/-- What a division with remainder comes to on integers. -/
inductive DivisionOp.Answers (op : DivisionOp) (m n : Int64) : Except NumericFault Value → Prop where
  | value {i : Int64} (result : op.Yields m.toInt n.toInt i.toInt) (other : ¬ (m.toInt = -2 ^ 63 ∧ n.toInt = -1)) :
    Answers op m n (.ok (.int i))
  | overflow (least : m.toInt = -2 ^ 63) (divisor : n.toInt = -1) :
    Answers op m n (.error ⟨.operation, .overflow op.name⟩)
  | zeroDivisor (zero : n.toInt = 0) : Answers op m n (.error Numeric.divisionByZero)

namespace Numeric

theorem exact_exact (operation : String) (r : Int) : Exact operation r (exact operation r) := by
  unfold Numeric.exact
  cases fits : toInt64? r with
  | some i => exact .fits (toInt_of_toInt64? fits)
  | none => exact .overflow (toInt64?_eq_none_iff.1 fits)

theorem exact_of_fits (operation : String) {r : Int} (inside : ¬ (r < -2 ^ 63 ∨ 2 ^ 63 ≤ r)) :
    ∃ i : Int64, exact operation r = .ok (.int i) ∧ i.toInt = r := by
  generalize answered : exact operation r = answer
  have settled := exact_exact operation r
  rw [answered] at settled
  cases settled with
  | fits value => exact ⟨_, rfl, value⟩
  | overflow beyond => exact absurd beyond inside

/-- **Negation is exact or refused.** -/
theorem exact_negate (n : Int64) : Exact "-" (-n.toInt) (negate (.int n)) :=
  exact_exact "-" (-n.toInt)

/-- **Arithmetic is exact or refused**, and only a division that does not come out even yields a float. -/
theorem answers_arith (op : ArithOp) (m n : Int64) : op.Answers m n (arith op (.int m) (.int n)) := by
  change op.Answers m n (arithInt op m n)
  cases result : op.integer? m.toInt n.toInt with
  | some r =>
    refine .exact result ?_
    rw [arithInt_of_exact result]
    exact exact_exact op.name r
  | none =>
    cases op with
    | add | sub | mul => cases result
    | div =>
      have uneven : ¬ (n.toInt ≠ 0 ∧ n.toInt ∣ m.toInt) := by simpa [ArithOp.integer?] using result
      simp only [arithInt]
      by_cases zero : n.toInt = 0
      · rw [if_pos (beq_iff_eq.2 zero)]
        exact .zeroDivisor rfl zero
      · have remains : ¬ n.toInt ∣ m.toInt := fun dvd => uneven ⟨zero, dvd⟩
        rw [if_neg (mt beq_iff_eq.1 zero), if_neg fun even => remains (Int.dvd_of_tmod_eq_zero (eq_of_beq even))]
        exact .inexact rfl remains

theorem answers_of_yields {op : DivisionOp} {m n : Int64} {r : Int} (result : op.Yields m.toInt n.toInt r)
    (inside : ¬ (r < -2 ^ 63 ∨ 2 ^ 63 ≤ r)) (other : ¬ (m.toInt = -2 ^ 63 ∧ n.toInt = -1)) :
    op.Answers m n (exact op.name r) := by
  obtain ⟨i, computed, rfl⟩ := exact_of_fits op.name inside
  rw [computed]
  exact .value result other

/-- **Division with remainder is exact or refused.** -/
theorem answers_divide (op : DivisionOp) (m n : Int64) : op.Answers m n (divide op (.int m) (.int n)) := by
  change op.Answers m n (divideInt op m.toInt n.toInt)
  unfold divideInt
  by_cases zero : n.toInt = 0
  · rw [zero]
    exact .zeroDivisor zero
  rw [if_neg (mt beq_iff_eq.1 zero)]
  by_cases corner : m.toInt = -2 ^ 63 ∧ n.toInt = -1
  · rw [exact_eq_error_iff.2 ⟨(tdiv_beyond_iff zero).2 corner, rfl⟩]
    exact .overflow corner.1 corner.2
  · have inside := mt (tdiv_beyond_iff zero).1 corner
    obtain ⟨q, quotient, -⟩ := exact_of_fits op.name inside
    cases op with
    | quot =>
      rw [bind_pure]
      exact answers_of_yields ⟨_, .tdiv zero⟩ inside corner
    | rem =>
      rw [quotient]
      exact answers_of_yields ⟨_, .tdiv zero⟩ (Division.tdiv zero).not_beyond corner
    | mod =>
      rw [quotient]
      exact answers_of_yields ⟨_, .fdiv zero⟩ (Division.fdiv zero).not_beyond corner

/-- The least integer has the remainder zero by minus one, and still it is refused. -/
example : divide .rem (.int Int64.minValue) (.int (-1)) = .error ⟨.operation, .overflow "rem"⟩ := by decide

end Numeric

end TwinLisp
