import Std.Data.TreeMap.Lemmas
import TwinLisp.Value.Basic

/-!
# Keys

The canonical form of a value's contents, by which maps and sets find their entries. Two values have
the same key when they are equal as data: lists and vectors with equal elements share a key, maps and
sets are compared without regard to order, and the two zeros coincide. Functions, atoms and host
objects are told apart by their address.

A key is a binary tree over natural numbers. Each kind of value has its own first number, so that
keys of different kinds never coincide. Trees are ordered lexicographically, which gives the entries
of maps and the members of sets one order to be sorted into.

## Main statements

* `Key.compare_eq_iff`: only equal keys compare as equal.
* The instances `Std.TransOrd Key` and `Std.LawfulEqOrd Key`: the order is a total order.
-/

namespace TwinLisp

/-- A canonical form: a binary tree over natural numbers. -/
inductive Key where
  /-- A number. -/
  | num (n : Nat)
  /-- Two keys in sequence. -/
  | pair (first second : Key)
  deriving DecidableEq, Inhabited

namespace Key

/-! ### The order -/

/-- Numbers come before pairs; pairs are compared lexicographically. -/
def compare : Key → Key → Ordering
  | .num m, .num n => Ord.compare m n
  | .num _, .pair _ _ => .lt
  | .pair _ _, .num _ => .gt
  | .pair a b, .pair c d => (compare a c).then (compare b d)

instance : Ord Key := ⟨compare⟩

theorem compare_num (m n : Nat) : compare (.num m) (.num n) = Ord.compare m n := by
  simp [compare]

theorem compare_pair (a b c d : Key) :
    compare (.pair a b) (.pair c d) = (compare a c).then (compare b d) := by
  simp [compare]

theorem compare_swap (a b : Key) : (compare a b).swap = compare b a := by
  induction a generalizing b with
  | num m =>
    cases b with
    | num n => simp only [compare_num]; exact Std.OrientedOrd.eq_swap.symm
    | pair _ _ => simp [compare]
  | pair a₁ a₂ ih₁ ih₂ =>
    cases b with
    | num n => simp [compare]
    | pair b₁ b₂ => simp [compare_pair, Ordering.swap_then, ih₁, ih₂]

theorem compare_eq_iff (a b : Key) : compare a b = .eq ↔ a = b := by
  induction a generalizing b with
  | num m =>
    cases b with
    | num n => simp [compare_num]
    | pair _ _ => simp [compare]
  | pair a₁ a₂ ih₁ ih₂ =>
    cases b with
    | num n => simp [compare]
    | pair b₁ b₂ => simp [compare_pair, Ordering.then_eq_eq, ih₁, ih₂]

theorem compare_lt_trans {a b c : Key} (h₁ : compare a b = .lt) (h₂ : compare b c = .lt) :
    compare a c = .lt := by
  induction a generalizing b c with
  | num m =>
    cases b with
    | num n =>
      cases c with
      | num k =>
        simp only [compare_num, Nat.compare_eq_lt] at *
        exact Nat.lt_trans h₁ h₂
      | pair _ _ => simp [compare]
    | pair _ _ =>
      cases c with
      | num k => simp [compare] at h₂
      | pair _ _ => simp [compare]
  | pair a₁ a₂ ih₁ ih₂ =>
    cases b with
    | num n => simp [compare] at h₁
    | pair b₁ b₂ =>
      cases c with
      | num k => simp [compare] at h₂
      | pair c₁ c₂ =>
        simp only [compare_pair, Ordering.then_eq_lt] at *
        rcases h₁ with h₁ | ⟨e₁, h₁⟩ <;> rcases h₂ with h₂ | ⟨e₂, h₂⟩
        · exact .inl (ih₁ h₁ h₂)
        · rw [compare_eq_iff] at e₂; subst e₂; exact .inl h₁
        · rw [compare_eq_iff] at e₁; subst e₁; exact .inl h₂
        · rw [compare_eq_iff] at e₁ e₂
          subst e₁ e₂
          exact .inr ⟨(compare_eq_iff _ _).2 rfl, ih₂ h₁ h₂⟩

instance : Std.OrientedOrd Key where
  eq_swap {a b} := (compare_swap b a).symm

instance : Std.TransOrd Key where
  isLE_trans {a b c} h₁ h₂ := by
    change (compare a b).isLE = true at h₁
    change (compare b c).isLE = true at h₂
    change (compare a c).isLE = true
    rw [Ordering.isLE_iff_eq_lt_or_eq_eq] at *
    rcases h₁ with h₁ | h₁ <;> rcases h₂ with h₂ | h₂
    · exact .inl (compare_lt_trans h₁ h₂)
    · rw [compare_eq_iff] at h₂; subst h₂; exact .inl h₁
    · rw [compare_eq_iff] at h₁; subst h₁; exact .inl h₂
    · rw [compare_eq_iff] at h₁ h₂; subst h₁ h₂; exact .inr ((compare_eq_iff _ _).2 rfl)

instance : Std.LawfulEqOrd Key where
  compare_self {a} := (compare_eq_iff a a).2 rfl
  eq_of_compare {a b} h := (compare_eq_iff a b).1 h

/-! ### Sequences -/

/-- Keys in sequence, as one key. -/
def ofList : List Key → Key
  | [] => .num 0
  | k :: ks => .pair k (ofList ks)

theorem ofList_inj {xs ys : List Key} (h : ofList xs = ofList ys) : xs = ys := by
  induction xs generalizing ys with
  | nil => cases ys <;> simp_all [ofList]
  | cons x xs ih =>
    cases ys with
    | nil => simp [ofList] at h
    | cons y ys =>
      simp only [ofList, Key.pair.injEq] at h
      rw [h.1, ih h.2]

/-- `k` in its place among keys that are in order. -/
def insertSorted (k : Key) : List Key → List Key
  | [] => [k]
  | x :: xs => if (compare k x).isLE then k :: x :: xs else x :: insertSorted k xs

/-- Keys in increasing order. -/
def sort : List Key → List Key
  | [] => []
  | k :: ks => insertSorted k (sort ks)

/-! ### The keys of values -/

/-- The key of a value of the kind numbered `tag`, with the given contents. -/
def tagged (tag : Nat) (contents : Key) : Key := .pair (.num tag) contents

/-- The key of `nil`. -/
def ofNil : Key := tagged 0 (.num 0)

/-- The key of a boolean. -/
def ofBool (b : Bool) : Key := tagged 1 (.num b.toNat)

/-- The key of an integer. -/
def ofInt (n : Int64) : Key := tagged 2 (.num n.toUInt64.toNat)

/-- The key of a float: its representation, except that both zeros have the same. -/
def ofFloat (x : Double) : Key :=
  tagged 3 (.num (if x.eq (.number 0.0) then 0 else x.toBits.toNat))

/-- The key of a character. -/
def ofChar (c : Char) : Key := tagged 4 (.num c.toNat)

/-- The key of a symbol. -/
def ofSymbol (s : Symbol) : Key := tagged 5 (.num s.index)

/-- The key of a keyword. -/
def ofKeyword (s : Symbol) : Key := tagged 6 (.num s.index)

/-- The key of a string. -/
def ofString (s : String) : Key := tagged 7 (ofList (s.toList.map fun c => .num c.toNat))

/-- The key of a list or a vector, from the keys of its elements. -/
def ofSequence (items : List Key) : Key := tagged 8 (ofList items)

/-- The key of a map, from the keys of its entries. -/
def ofMap (entries : List (Key × Key)) : Key :=
  tagged 9 (ofList (sort (entries.map fun e => .pair e.1 e.2)))

/-- The key of a set, from the keys of its members. -/
def ofSet (members : List Key) : Key := tagged 10 (ofList (sort members))

/-- The key of an object that is compared by address. -/
def ofAddress (a : Address) : Key := tagged 11 (.pair (.num a.index) (.num a.generation))

end Key

end TwinLisp
