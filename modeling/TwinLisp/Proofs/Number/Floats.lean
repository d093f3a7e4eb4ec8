import Mathlib
import TwinLisp.Collection.Key

/-!
# Keys of floats

Two floats that are numbers are equal if their bits are, or if both are zero. Keys take the bits, except that
both zeros have the same key, so that they tell numbers apart just as equality does.

## Main statements

* `Key.ofFloat_eq_iff`: numbers have the same key if they are equal.
-/

namespace TwinLisp

/-- Equality of floats that are numbers: they are the same, or zeros of different signs. -/
theorem float_beq_iff {x y : Float} (hx : (x == x) = true) (hy : (y == y) = true) :
    (x == y) = true ↔ x = y ∨ x = 0 ∧ y = -0 ∨ x = -0 ∧ y = 0 := by
  rw [Float.beq_iff_ne_nan_and_eq, and_iff_right (Float.beq_self_iff.1 hx),
    and_iff_right (Float.beq_self_iff.1 hy)]

/-- The zeros. -/
theorem float_beq_zero_iff {x : Float} (hx : (x == x) = true) :
    (x == 0.0) = true ↔ x = 0 ∨ x = -0 := by
  have zero : (0.0 : Float) = 0 := by
    rw [← Float.toBits_inj]
    decide +kernel
  have notNan : ((0 : Float) == 0) = true := by decide +kernel
  have signs : (0 : Float) ≠ -0 := by
    rw [Ne, ← Float.toBits_inj]
    decide +kernel
  rw [zero, float_beq_iff hx notNan]
  simp [signs]

namespace Key

/-- **Numbers have the same key if they are equal.** -/
theorem ofFloat_eq_iff {x y : Double} (hx : x.eq x = true) (hy : y.eq y = true) :
    ofFloat x = ofFloat y ↔ x.eq y = true := by
  cases x with
  | notANumber => cases hx
  | number x =>
    cases y with
    | notANumber => cases hy
    | number y =>
      have hx : (x == x) = true := hx
      have hy : (y == y) = true := hy
      have zeroBits : (0 : Float).toBits.toNat = 0 := by decide +kernel
      have sameBits {z w : Float} : z.toBits.toNat = w.toBits.toNat ↔ z = w := by
        rw [UInt64.toNat_inj, Float.toBits_inj]
      -- Nothing but the positive zero has the bits that stand for both zeros.
      have positive {z : Float} (hz : z.toBits.toNat = 0) : z = 0 := sameBits.1 (hz.trans zeroBits.symm)
      simp only [ofFloat, tagged, pair.injEq, num.injEq, true_and]
      show (if (x == 0.0) = true then 0 else x.toBits.toNat) =
        (if (y == 0.0) = true then 0 else y.toBits.toNat) ↔ (x == y) = true
      simp only [float_beq_zero_iff hx, float_beq_zero_iff hy, float_beq_iff hx hy]
      have px := @positive x
      have py := @positive y
      have bits := @sameBits x y
      split <;> split <;> grind

end Key

end TwinLisp
