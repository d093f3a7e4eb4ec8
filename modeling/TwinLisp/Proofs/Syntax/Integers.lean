import TwinLisp.Proofs.Text.Numerals
import TwinLisp.Syntax.Token.Scan

/-!
# Integers as they are written

A sign, a marker for the radix and digits write a number. The scanner takes all of them, and yields that very number or
a fault. It is a fault if sixty-four bits do not hold the number. Hexadecimal digits are read before their sign is
looked at, so that the least integer is refused as well when it is written with them.

## Main definitions

* `Numeral`: a number as it is written.
* `Numeral.Denotes`: what becomes of it.

## Main statements

* `Numeral.denotes_numberToken`: the number that is written is the number that is read.
* `Numeral.scanToken_text`: a numeral that stands alone is one token.
-/

namespace TwinLisp

open TwinLisp.Text

/-- The sign of a number as it is written. -/
inductive Sign where
  | none
  | plus
  | minus
  deriving DecidableEq

namespace Sign

/-- The sign as written in source. -/
def text : Sign → List Char
  | none => []
  | plus => ['+']
  | minus => ['-']

/-- Whether the sign makes a number negative. -/
def isMinus : Sign → Bool
  | none => false
  | plus => false
  | minus => true

/-- The number with the sign and a magnitude. -/
def apply : Sign → Nat → Int
  | none, n => n
  | plus, n => n
  | minus, n => -n

end Sign

/-- What tells the radix of digits. -/
inductive Marker where
  | decimal
  | hex
  | capitalHex
  deriving DecidableEq

namespace Marker

/-- The marker as written in source. -/
def text : Marker → List Char
  | decimal => []
  | hex => ['0', 'x']
  | capitalHex => ['0', 'X']

/-- The radix that the marker tells. -/
def radix : Marker → Nat
  | decimal => 10
  | hex => 16
  | capitalHex => 16

end Marker

/-- A number as it is written. -/
structure Numeral where
  /-- The sign in front. -/
  sign : Sign
  /-- The marker in front of the digits. -/
  marker : Marker
  /-- The digits. -/
  digits : List Char
  full : digits ≠ []
  all : ∀ c ∈ digits, IsDigit marker.radix c

namespace Numeral

/-- The characters of the numeral. -/
def text (w : Numeral) : List Char := w.sign.text ++ (w.marker.text ++ w.digits)

/-- The number without its sign. -/
def magnitude (w : Numeral) : Nat := numeral w.marker.radix w.digits

/-- The number that the numeral writes. -/
def value (w : Numeral) : Int := w.sign.apply w.magnitude

/-- Whether the numeral writes the least integer in hexadecimal digits. -/
def IsLeastHex (w : Numeral) : Prop := w.marker ≠ .decimal ∧ w.value = -2 ^ 63

/-- Why a numeral is refused. -/
def refusal (w : Numeral) : ReadError.Cause :=
  match w.marker with
  | .decimal => .integerOutOfRange (String.ofList w.text)
  | _ => .invalidNumber (String.ofList w.text)

/-- What becomes of a numeral: an integer is the number that is written, and otherwise the numeral is refused. -/
inductive Denotes (w : Numeral) : Except ReadError.Cause Token → Prop where
  | exact {i : Int64} (value : i.toInt = w.value) (plain : ¬ w.IsLeastHex) : Denotes w (.ok (.int i))
  | refused (beyond : w.value < -2 ^ 63 ∨ 2 ^ 63 ≤ w.value ∨ w.IsLeastHex) : Denotes w (.error w.refusal)

end Numeral

/-! ### Digits -/

namespace Literal

variable {bound : Nat} {ds : List Char}

theorem numeral_le_append (before ds : List Char) : numeral 10 before ≤ numeral 10 (before ++ ds) := by
  induction ds generalizing before with
  | nil => rw [List.append_nil]
  | cons c ds ih =>
    have step : numeral 10 (before ++ [c]) = _ := numeral_append_singleton before c
    have rest := ih (before ++ [c])
    rw [List.append_assoc, List.singleton_append] at rest
    omega

theorem continueInteger_eq {before : List Char} (digits : ∀ c ∈ ds, IsDigit 10 c) (inside : numeral 10 before ≤ bound) :
    continueInteger bound (numeral 10 before) ds =
      if numeral 10 (before ++ ds) ≤ bound then .ok (numeral 10 (before ++ ds)) else .error .tooLarge := by
  induction ds generalizing before with
  | nil => rw [List.append_nil, if_pos inside, continueInteger]
  | cons c ds ih =>
    obtain ⟨digit, others⟩ := List.forall_mem_cons.1 digits
    have more : before ++ c :: ds = before ++ [c] ++ ds := by rw [List.append_assoc, List.singleton_append]
    rw [continueInteger, digitValue?_eq_some_iff.2 ⟨digit, rfl⟩]
    dsimp only
    rw [← numeral_append_singleton, more]
    split
    · next beyond => rw [if_neg fun h => absurd (numeral_le_append (before ++ [c]) ds) (by omega)]
    · next inside => exact ih others (Nat.le_of_not_lt inside)

/-- Decimal digits are read as the number that they stand for, if it is within the bound. -/
theorem readInteger_eq (full : ds ≠ []) (digits : ∀ c ∈ ds, IsDigit 10 c) :
    readInteger bound ds = if numeral 10 ds ≤ bound then .ok (numeral 10 ds) else .error .tooLarge := by
  cases ds with
  | nil => exact absurd rfl full
  | cons c ds => exact @continueInteger_eq bound _ [] digits (Nat.zero_le _)

/-- Hexadecimal digits are read as the number that they stand for, if it is an integer. -/
theorem readHex?_eq (full : ds ≠ []) (digits : ∀ c ∈ ds, IsDigit 16 c) :
    readHex? ds = if numeral 16 ds ≤ maxInt then some (numeral 16 ds) else none := by
  rw [readHex?, readNat?_eq_some_iff.2 ⟨full, digits, rfl⟩, Option.filter_some]
  simp only [decide_eq_true_eq]

theorem maxInt_eq : maxInt = 2 ^ 63 - 1 := rfl

variable {s : Sign} {n : Nat}

/-- The integer of a sign and a magnitude that fit. -/
theorem toInt_integer (fits : -2 ^ 63 ≤ s.apply n ∧ s.apply n < 2 ^ 63) : (integer s.isMinus n).toInt = s.apply n := by
  have reduced : integer s.isMinus n = .ofInt (s.apply n) := by cases s <;> rfl
  rw [reduced]
  exact Int64.toInt_ofInt_of_le fits.1 fits.2

/-- With the sign at hand the bound on the magnitude says whether the number fits. -/
theorem le_bound_iff : n ≤ (if s.isMinus then maxInt + 1 else maxInt) ↔ -2 ^ 63 ≤ s.apply n ∧ s.apply n < 2 ^ 63 := by
  cases s <;> simp only [Sign.isMinus, Sign.apply, maxInt_eq, if_true, Bool.false_eq_true, if_false] <;> omega

/-- A bound for all signs leaves the least integer out. -/
theorem le_maxInt_iff : n ≤ maxInt ↔ (-2 ^ 63 ≤ s.apply n ∧ s.apply n < 2 ^ 63) ∧ s.apply n ≠ -2 ^ 63 := by
  cases s <;> simp only [Sign.apply, maxInt_eq] <;> omega

end Literal

/-! ### Numerals -/

namespace Numeral

open Literal

variable {w : Numeral}

/-- Behind its sign a numeral starts with a decimal digit, and goes on with digits and letters. -/
theorem exists_digit (w : Numeral) :
    ∃ c cs, w.marker.text ++ w.digits = c :: cs ∧ isAsciiDigit c = true ∧ ∀ d ∈ cs, isAsciiAlphanumeric d = true := by
  obtain ⟨s, m, ds, full, all⟩ := w
  have letters : ∀ d ∈ ds, isAsciiAlphanumeric d = true := fun d hd => (isAsciiAlphanumeric_eq d).trans (all d hd).1
  cases m with
  | decimal =>
    cases ds with
    | nil => exact absurd rfl full
    | cons c cs =>
      obtain ⟨digit, -⟩ := List.forall_mem_cons.1 all
      exact ⟨c, cs, rfl, isDigit_ten.1 digit, (List.forall_mem_cons.1 letters).2⟩
  | hex => exact ⟨'0', 'x' :: ds, rfl, rfl, List.forall_mem_cons.2 ⟨rfl, letters⟩⟩
  | capitalHex => exact ⟨'0', 'X' :: ds, rfl, rfl, List.forall_mem_cons.2 ⟨rfl, letters⟩⟩

theorem splitSign_text (w : Numeral) : splitSign w.text = (w.sign.isMinus, w.marker.text ++ w.digits) := by
  obtain ⟨c, cs, e, digit, -⟩ := w.exists_digit
  rw [text, e]
  cases w.sign with
  | plus | minus => rfl
  | none =>
    unfold splitSign
    split
    · next e => cases e; cases digit
    · next e => cases e; cases digit
    · rfl

theorem hexDigits?_decimal {ds : List Char} (digits : ∀ c ∈ ds, IsDigit 10 c) : hexDigits? ds = none := by
  unfold hexDigits?
  split
  · exact absurd (isDigit_ten.1 (digits 'x' (by simp))) (by decide)
  · exact absurd (isDigit_ten.1 (digits 'X' (by simp))) (by decide)
  · rfl

theorem any_point_decimal {ds : List Char} (digits : ∀ c ∈ ds, IsDigit 10 c) :
    (ds.any fun c => c == '.' || c == 'e' || c == 'E') = false := by
  rw [List.any_eq_false]
  intro c hc point
  have digit := isDigit_ten.1 (digits c hc)
  simp only [Bool.or_eq_true, beq_iff_eq] at point
  rcases point with (rfl | rfl) | rfl <;> exact absurd digit (by decide)

/-- **The number that is written is the number that is read**, or the numeral is refused. -/
theorem denotes_numberToken (w : Numeral) : w.Denotes (numberToken w.text) := by
  have split := w.splitSign_text
  obtain ⟨s, m, ds, full, all⟩ := w
  unfold numberToken
  rw [split]
  cases m with
  | decimal =>
    simp only [Marker.text, List.nil_append, hexDigits?_decimal all, any_point_decimal all, readInteger_eq full all,
      Bool.false_eq_true, if_false]
    by_cases fits : numeral 10 ds ≤ (if s.isMinus then maxInt + 1 else maxInt)
    · rw [if_pos fits]
      exact .exact (toInt_integer (le_bound_iff.1 fits)) fun least => least.1 rfl
    · rw [if_neg fits]
      refine .refused ?_
      rw [le_bound_iff] at fits
      dsimp only [value, magnitude, Marker.radix]
      omega
  | hex | capitalHex =>
    simp only [Marker.text, List.cons_append, List.nil_append, hexDigits?, readHex?_eq full all]
    by_cases fits : numeral 16 ds ≤ maxInt
    · rw [if_pos fits]
      obtain ⟨fits, other⟩ := le_maxInt_iff.1 fits
      exact .exact (toInt_integer fits) fun least => other least.2
    · rw [if_neg fits]
      refine .refused ?_
      rw [le_maxInt_iff (s := s)] at fits
      simp only [IsLeastHex, value, magnitude, Marker.radix, ne_eq, reduceCtorEq, not_false_eq_true, true_and]
      omega

end Numeral

/-! ### Scanning -/

namespace Scan

/-- Whether a number literal goes on with `c` after `previous`. -/
def continues (previous c : Char) : Bool :=
  isAsciiAlphanumeric c || c == '.' || (c == '+' || c == '-') && (previous == 'e' || previous == 'E')

/-- Digits and letters are taken to the last one. -/
theorem numberRun_append {cs rest : List Char} (letters : ∀ c ∈ cs, isAsciiAlphanumeric c = true) {previous : Char}
    {l : Location} (ends : ∀ c ∈ rest.head?, continues (cs.getLastD previous) c = false) :
    numberRun previous l (cs ++ rest) = (cs, ⟨cs.foldl .after l, rest⟩) := by
  induction cs generalizing previous l with
  | nil =>
    cases rest with
    | nil => rfl
    | cons c rest =>
      have stops : continues previous c = false := ends c rfl
      rw [List.nil_append, numberRun]
      exact if_neg (by simpa [continues] using stops)
  | cons c cs ih =>
    obtain ⟨letter, letters⟩ := List.forall_mem_cons.1 letters
    rw [List.cons_append, numberRun, letter]
    dsimp only
    rw [Bool.true_or, Bool.true_or, if_pos rfl, ih letters (by rwa [List.getLastD_cons] at ends)]
    rfl

/-- Whether the characters behind a number literal leave it alone. -/
def Ends (literal rest : List Char) : Prop := ∀ c ∈ rest.head?, continues (literal.getLastD ' ') c = false

theorem numberLiteral_append {first : Char} {cs rest : List Char} (letters : ∀ c ∈ cs, isAsciiAlphanumeric c = true)
    (l : Location) (ends : Ends (first :: cs) rest) : numberLiteral first (l.after first) (cs ++ rest) =
      settle (Literal.numberToken (first :: cs)) ⟨(first :: cs).foldl .after l, rest⟩ := by
  rw [Ends, List.getLastD_cons] at ends
  rw [numberLiteral, numberRun_append letters ends]
  rfl

theorem tokenFrom_digit {c : Char} (digit : isAsciiDigit c = true) (l : Location) (cs : List Char) :
    tokenFrom l c cs = numberLiteral c (l.after c) cs := by
  unfold tokenFrom
  dsimp only
  split
  case h_15 =>
    rw [if_neg, if_pos digit]
    intro sign
    simp only [Bool.or_eq_true, beq_iff_eq] at sign
    rcases sign with rfl | rfl <;> cases digit
  all_goals cases digit

theorem tokenFrom_sign {c : Char} (digit : isAsciiDigit c = true) (l : Location) (cs : List Char) :
    tokenFrom l '+' (c :: cs) = numberLiteral '+' (l.after '+') (c :: cs) ∧
      tokenFrom l '-' (c :: cs) = numberLiteral '-' (l.after '-') (c :: cs) :=
  ⟨if_pos digit, if_pos digit⟩

end Scan

namespace Numeral

/-- **A numeral that stands alone is one token**, and the scanner stands behind it. -/
theorem scanToken_text (w : Numeral) (l : Location) {rest : List Char} (ends : Scan.Ends w.text rest) :
    ∃ token, w.Denotes token ∧ scanToken ⟨l, w.text ++ rest⟩ = Scan.settle token ⟨w.text.foldl .after l, rest⟩ := by
  refine ⟨_, w.denotes_numberToken, ?_⟩
  obtain ⟨c, cs, e, digit, letters⟩ := w.exists_digit
  have signed : ∀ d ∈ c :: cs, isAsciiAlphanumeric d = true :=
    List.forall_mem_cons.2 ⟨by rw [isAsciiAlphanumeric, digit, Bool.or_true], letters⟩
  rw [text, e] at ends ⊢
  generalize w.sign = s at ends ⊢
  cases s with
  | none => exact (Scan.tokenFrom_digit digit l _).trans (Scan.numberLiteral_append letters l ends)
  | plus => exact (Scan.tokenFrom_sign digit l _).1.trans (Scan.numberLiteral_append signed l ends)
  | minus => exact (Scan.tokenFrom_sign digit l _).2.trans (Scan.numberLiteral_append signed l ends)

end Numeral

end TwinLisp
