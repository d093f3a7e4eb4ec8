import Mathlib.Data.Nat.Digits.Defs
import Mathlib.Tactic.Ring
import TwinLisp.Text.Digits

/-!
# Numerals

A run of digits stands for the number that positional notation gives it. Letters of either case count on from ten.

A number that is written behind a text can be read off it, unless the text ends in a digit itself: `x1` with `3` behind
is `x` with `13` behind.

## Main definitions

* `Text.IsDigit`: the digits of a radix.
* `Text.numeral`: the number that a run of digits stands for.
* `Text.EndsInDigit`: the last character is a digit.
* `Text.Absorbs`: one text is another one with the first digits of a number behind.

## Main statements

* `Text.readNat?_eq_some_iff`: what is read is the number that the digits stand for.
* `Text.append_toString_eq_iff`: when two texts with different numbers behind are the same.
* `Text.eq_of_append_toString`: the number behind a text that does not end in a digit is determined.
-/

namespace TwinLisp.Text

/-- The number that a digit stands for. -/
def digitNumber (c : Char) : Nat :=
  if c.isDigit then c.toNat - '0'.toNat else if c.isLower then c.toNat - 'a'.toNat + 10 else c.toNat - 'A'.toNat + 10

/-- The digits of a radix: ASCII digits and letters that stand for numbers below it. -/
def IsDigit (radix : Nat) (c : Char) : Prop := c.isAlphanum ∧ digitNumber c < radix

/-- The number that the digits `ds` stand for. -/
def numeral (radix : Nat) (ds : List Char) : Nat := Nat.ofDigits radix (ds.reverse.map digitNumber)

variable {radix : Nat} {c : Char} {ds : List Char}

theorem numeral_append_singleton (ds : List Char) (c : Char) :
    numeral radix (ds ++ [c]) = numeral radix ds * radix + digitNumber c := by
  rw [numeral, List.reverse_append, List.reverse_singleton, List.singleton_append, List.map_cons, Nat.ofDigits_cons,
    ← numeral]
  ring

/-! ### Classes of characters -/

theorem isAsciiDigit_eq (c : Char) : isAsciiDigit c = c.isDigit := rfl

theorem isLower_eq (c : Char) : ('a' ≤ c && c ≤ 'z') = c.isLower := rfl

theorem isUpper_eq (c : Char) : ('A' ≤ c && c ≤ 'Z') = c.isUpper :=
  (Bool.decide_and ('A' ≤ c) (c ≤ 'Z')).symm

theorem isAlphanum_eq (c : Char) : c.isAlphanum = (c.isUpper || c.isLower || c.isDigit) := rfl

theorem isAsciiAlphanumeric_eq (c : Char) : isAsciiAlphanumeric c = c.isAlphanum := by
  rw [isAsciiAlphanumeric, isAsciiLetter, isAsciiDigit_eq, isLower_eq, isUpper_eq, isAlphanum_eq,
    Bool.or_comm c.isLower]

/-! ### Reading digits -/

/-- The value of a character as a digit is the number that the digit stands for. -/
theorem digitValue?_eq_some_iff {d : Nat} : digitValue? radix c = some d ↔ IsDigit radix c ∧ digitNumber c = d := by
  unfold digitValue? IsDigit digitNumber
  rw [isAsciiDigit_eq, isLower_eq, isUpper_eq, isAlphanum_eq]
  cases c.isDigit <;> cases c.isLower <;> cases c.isUpper <;> simp [Option.filter_eq_some_iff] <;> grind

/-- The digits of radix ten are the decimal digits. -/
theorem isDigit_ten : IsDigit 10 c ↔ c.isDigit = true := by
  unfold IsDigit digitNumber
  split
  · next digit =>
    have range : 48 ≤ c.toNat ∧ c.toNat ≤ 57 := by
      simpa [Char.isDigit, UInt32.le_iff_toNat_le] using digit
    simp only [digit, isAlphanum_eq, Bool.or_true, true_and, iff_true]
    change c.toNat - 48 < 10
    omega
  · next other =>
    refine iff_of_false (fun h => ?_) other
    have small := h.2
    split at small <;> omega

theorem readDigits?_eq_some_iff {before : List Char} {n : Nat} :
    readDigits? radix (numeral radix before) ds = some n ↔
      (∀ c ∈ ds, IsDigit radix c) ∧ numeral radix (before ++ ds) = n := by
  induction ds generalizing before with
  | nil => simp [readDigits?]
  | cons c ds ih =>
    rw [readDigits?]
    cases value : digitValue? radix c with
    | none =>
      have notDigit : ¬ IsDigit radix c := fun h => by
        rw [digitValue?_eq_some_iff.2 ⟨h, rfl⟩] at value
        cases value
      simp [notDigit]
    | some d =>
      obtain ⟨digit, rfl⟩ := digitValue?_eq_some_iff.1 value
      dsimp only
      rw [← numeral_append_singleton, ih, List.forall_mem_cons, and_iff_right digit, List.append_assoc]
      rfl

/-- **What is read is the number that the digits stand for.** -/
theorem readNat?_eq_some_iff {n : Nat} :
    readNat? radix ds = some n ↔ ds ≠ [] ∧ (∀ c ∈ ds, IsDigit radix c) ∧ numeral radix ds = n := by
  unfold readNat?
  split
  · simp
  · next c cs =>
    rw [and_iff_right (List.cons_ne_nil c cs)]
    exact @readDigits?_eq_some_iff radix (c :: cs) [] n

/-! ### Numbers behind texts -/

/-- The last character is a digit. -/
def EndsInDigit (a : String) : Prop := a.toList.getLast?.any Char.isDigit = true

instance (a : String) : Decidable (EndsInDigit a) := inferInstanceAs (Decidable (_ = true))

/-- `a` is `b` with the first digits of `n` behind, and the other digits of `n` are those of `m`. -/
def Absorbs (a b : String) (m n : Nat) : Prop :=
  ∃ ds ≠ [], a.toList = b.toList ++ ds ∧ Nat.toDigits 10 n = ds ++ Nat.toDigits 10 m

variable {a b : String} {m n : Nat}

theorem endsInDigit_of_digits {front ds : List Char} (some : ds ≠ []) (digits : ∀ c ∈ ds, c.isDigit = true)
    (h : a.toList = front ++ ds) : EndsInDigit a := by
  rw [EndsInDigit, h, List.getLast?_append, List.getLast?_eq_some_getLast some]
  exact digits _ (List.getLast_mem some)

theorem endsInDigit_append (a : String) (some : b.toList ≠ []) : EndsInDigit (a ++ b) ↔ EndsInDigit b := by
  have last : (a ++ b).toList.getLast? = b.toList.getLast? := by
    rw [String.toList_append, List.getLast?_append, List.getLast?_eq_some_getLast some]
    rfl
  rw [EndsInDigit, last, EndsInDigit]

theorem toDigits_inj (h : Nat.toDigits 10 m = Nat.toDigits 10 n) : m = n := by
  rw [← Nat.ofDigitChars_toDigits (b := 10) (n := m) (by decide) (by decide), h,
    Nat.ofDigitChars_toDigits (by decide) (by decide)]

theorem isDigit_of_mem_toDigits {c : Char} (h : c ∈ Nat.toDigits 10 n) : c.isDigit = true :=
  Nat.isDigit_of_mem_toDigits (by decide) (by decide) h

theorem toList_append_toString (a : String) (n : Nat) : (a ++ toString n).toList = a.toList ++ Nat.toDigits 10 n := by
  rw [String.toList_append, Nat.toString_eq_repr, Nat.toList_repr]

theorem endsInDigit_append_toString (a : String) (n : Nat) : EndsInDigit (a ++ toString n) := by
  exact endsInDigit_of_digits Nat.toDigits_ne_nil (fun c => isDigit_of_mem_toDigits) (toList_append_toString a n)

theorem append_toString_eq_iff_toList :
    a ++ toString m = b ++ toString n ↔ a.toList ++ Nat.toDigits 10 m = b.toList ++ Nat.toDigits 10 n := by
  rw [← String.toList_inj, toList_append_toString, toList_append_toString]

/-- What is absorbed are digits. -/
theorem Absorbs.endsInDigit (h : Absorbs a b m n) : EndsInDigit a := by
  obtain ⟨ds, some, front, digits⟩ := h
  refine endsInDigit_of_digits some (fun c hc => isDigit_of_mem_toDigits (n := n) ?_) front
  rw [digits]
  exact List.mem_append_left _ hc

theorem Absorbs.append_toString_eq (h : Absorbs a b m n) : a ++ toString m = b ++ toString n := by
  obtain ⟨ds, -, front, digits⟩ := h
  rw [append_toString_eq_iff_toList, front, digits, List.append_assoc]

/-- **Two texts with different numbers behind are the same exactly if one of the texts takes up the first digits of the
number behind the other.** -/
theorem append_toString_eq_iff (ne : m ≠ n) :
    a ++ toString m = b ++ toString n ↔ Absorbs a b m n ∨ Absorbs b a n m := by
  have different {k l : Nat} {ds : List Char} (ne : k ≠ l) (h : Nat.toDigits 10 k = ds ++ Nat.toDigits 10 l) :
      ds ≠ [] := fun none => ne (toDigits_inj (by rw [h, none, List.nil_append]))
  constructor
  · intro same
    obtain ⟨ds, front, digits⟩ | ⟨ds, front, digits⟩ :=
      List.append_eq_append_iff.1 (append_toString_eq_iff_toList.1 same)
    · exact .inr ⟨ds, different ne digits, front, digits⟩
    · exact .inl ⟨ds, different ne.symm digits, front, digits⟩
  · rintro (h | h)
    · exact h.append_toString_eq
    · exact h.append_toString_eq.symm

example : "x1" ++ toString 3 = "x" ++ toString 13 := rfl

/-- **A number behind a text that does not end in a digit can be read off.** -/
theorem eq_of_append_toString (ha : ¬ EndsInDigit a) (hb : ¬ EndsInDigit b)
    (h : a ++ toString m = b ++ toString n) : m = n := by
  by_contra ne
  obtain absorbed | absorbed := (append_toString_eq_iff ne).1 h
  · exact ha absorbed.endsInDigit
  · exact hb absorbed.endsInDigit

end TwinLisp.Text
