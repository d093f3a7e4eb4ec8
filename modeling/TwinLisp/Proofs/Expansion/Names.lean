import TwinLisp.Library.Reflection
import TwinLisp.Proofs.Template.Plan

/-!
# Generated names

The function `gensym` and templates ask for fresh names. All names of a session are numbered together, and the number is
part of the name. So names that templates ask for are different from all others. Names that `gensym` asks for can be
the same all the same, as the text in front of the number is not kept apart from it.

## Main definitions

* `NameRequest`: what asks for a fresh name.
* `NameRequest.Generates`: the names that are generated one after another.

## Main statements

* `NameRequest.name_eq_iff`: when names with different numbers are the same.
* `NameRequest.Generates.nodup`: generated names are different from each other, if no start ends in a digit.
-/

namespace TwinLisp

/-- What asks for a fresh name. -/
inductive NameRequest where
  /-- The function `gensym`, for a name that starts with `start`. -/
  | plain (start : String)
  /-- A template, for a name in place of `base` and `#`. -/
  | template (base : String)

namespace NameRequest

open Template (FreshNames)
open Text (Absorbs EndsInDigit)

/-- Generate the name that is asked for. -/
def generate : NameRequest → Eval String
  | plain start => Eval.generateName start
  | template base => return (← Eval.generateName (base ++ "__")) ++ "__auto__"

/-- The name with the given number. -/
def name : NameRequest → Nat → String
  | plain start, n => start ++ toString n
  | template base, n => FreshNames.numbered base n

variable {r q : NameRequest} {s t : Session} {m n : Nat}

/-- A name is generated under the next number. -/
theorem generate_run (r : NameRequest) (s : Session) :
    r.generate s = .ok (r.name (s.generated + 1)) { s with generated := s.generated + 1 } := by
  cases r <;> rfl

theorem gensym_eq (args : List Value) :
    Library.gensym args = (do Eval.symbol (← (plain (← Library.nameStart args)).generate)) := rfl

/-- A template asks for a name once for each base. -/
theorem freshName_eq {base : String} {names : FreshNames} (new : names.lookup base = none) :
    Template.freshName base names =
      (do let name ← (template base).generate; return (name, (base, name) :: names)) := by
  change StateT.run (Template.freshName base) names = _
  rw [Template.freshName, StateT.run_bind, StateT.run_get, pure_bind]
  dsimp only
  rw [new]
  rfl

/-! ### Equal names -/

/-- A name that `gensym` asks for ends in a digit, and one that a template asks for does not. -/
theorem name_plain_ne_template (start base : String) (m n : Nat) : (plain start).name m ≠ (template base).name n := by
  intro same
  have digit : EndsInDigit ((plain start).name m) := Text.endsInDigit_append_toString start m
  rw [same, name, FreshNames.numbered, Text.endsInDigit_append _ (by decide)] at digit
  exact absurd digit (by decide)

/-- **Names with different numbers are the same exactly if `gensym` asked for both of them, and the start of one takes
up the first digits of the number of the other.** -/
theorem name_eq_iff (ne : m ≠ n) : r.name m = q.name n ↔
    ∃ a b, r = plain a ∧ q = plain b ∧ (Absorbs a b m n ∨ Absorbs b a n m) := by
  cases r with
  | plain a =>
    cases q with
    | plain b =>
      refine ⟨fun same => ⟨a, b, rfl, rfl, (Text.append_toString_eq_iff ne).1 same⟩, ?_⟩
      rintro ⟨_, _, ⟨⟩, ⟨⟩, absorbed⟩
      exact (Text.append_toString_eq_iff ne).2 absorbed
    | template b => exact iff_of_false (name_plain_ne_template a b m n) (by rintro ⟨_, _, -, ⟨⟩, -⟩)
  | template a =>
    refine iff_of_false (fun same => ?_) (by rintro ⟨_, _, ⟨⟩, -⟩)
    cases q with
    | plain b => exact name_plain_ne_template b a n m same.symm
    | template b => exact ne (FreshNames.numbered_inj same)

/-- The start of the name does not end in a digit. -/
def Guarded : NameRequest → Prop
  | plain start => ¬ EndsInDigit start
  | template _ => True

theorem name_ne (hr : r.Guarded) (hq : q.Guarded) (ne : m ≠ n) : r.name m ≠ q.name n := by
  rw [Ne, name_eq_iff ne]
  rintro ⟨a, b, rfl, rfl, absorbed | absorbed⟩
  · exact hr absorbed.endsInDigit
  · exact hq absorbed.endsInDigit

/-! ### One after another -/

/-- The names are generated one after another on the way from one session to another, for permitted requests. In between
the session may change in any way that gives no number back. -/
inductive Generates (permitted : NameRequest → Prop) : Session → List String → Session → Prop where
  | none {s t : Session} (grown : s.generated ≤ t.generated) : Generates permitted s [] t
  | next {s t u v : Session} {r : NameRequest} {name : String} {names : List String} (hr : permitted r)
    (grown : s.generated ≤ t.generated) (asked : r.generate t = .ok name u) (rest : Generates permitted u names v) :
    Generates permitted s (name :: names) v

namespace Generates

variable {permitted : NameRequest → Prop} {names : List String}

/-- All names have numbers that were not used before. -/
theorem numbered (h : Generates permitted s names t) {name : String} (hn : name ∈ names) :
    ∃ r, permitted r ∧ ∃ k > s.generated, name = r.name k := by
  induction h with
  | none => cases hn
  | @next s t u v r first _ hr grown asked _ ih =>
    cases (generate_run r t).symm.trans asked
    obtain rfl | later := List.mem_cons.1 hn
    · exact ⟨r, hr, t.generated + 1, by omega, rfl⟩
    · obtain ⟨q, hq, k, above, named⟩ := ih later
      exact ⟨q, hq, k, by dsimp at above; omega, named⟩

/-- **Generated names are different from each other**, as long as no start ends in a digit. -/
theorem nodup (h : Generates Guarded s names t) : names.Nodup := by
  induction h with
  | none => exact .nil
  | @next s t u v r first _ hr grown asked rest ih =>
    refine List.nodup_cons.2 ⟨fun again => ?_, ih⟩
    cases (generate_run r t).symm.trans asked
    obtain ⟨q, hq, k, above, named⟩ := rest.numbered again
    exact name_ne hr hq (by dsimp at above; omega) named

end Generates

end NameRequest

end TwinLisp
