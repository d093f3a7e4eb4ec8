import TwinLisp.Host.IntegerModule
import TwinLisp.Proofs.Conduct.Native

/-!
# Conversions obey

Values are converted from and to the types of the host in obedient ways. So the functions of the integer
module, which do nothing else to a session, are tidy.

## Main statements

* `Obeys.toValue`, `Obeys.ofValue`: conversions in both directions.
* `IntegerModule.tidy`: all functions of the integer module are tidy.
-/

namespace TwinLisp

variable {P : Policy}

namespace Obeys

theorem toValue (t : HostType) (x : t.Carrier) : Obeys P (t.toValue x) ⊤ := by
  induction t with
  | size =>
    unfold HostType.toValue
    split
    · exact done _
    · exact failWith (P.ordinary trivial)
  | string => exact newString _
  | keyword => exact keyword _
  | option t ih =>
    cases x with
    | none => exact done _
    | some x => exact ih x
  | list t ih => exact withoutCollection ((mapEach ih _).andThen fun _ => newVector _)
  | dictionary t ih =>
    refine withoutCollection ((mapEach (fun e => ?_) _).andThen fun _ => newMap _)
    exact (keyword _).andThen fun _ => (ih e.2).andThen fun _ => done _
  | _ => exact done _

theorem either {α : Type} {Q : α → Prop} {c : Prop} [Decidable c] {x y : Eval α} (hx : Obeys P x Q)
    (hy : Obeys P y Q) : Obeys P (if c then x else y) Q := by
  split
  · exact hx
  · exact hy

theorem convertRefused {α : Type} {Q : α → Prop} (expected : String) (v : Value) :
    Obeys P (HostType.refuse expected v : Eval α) Q := failWith (P.ordinary trivial)

theorem integerOf (v : Value) : Obeys P (HostType.integer v) ⊤ := by
  unfold HostType.integer
  split
  · exact done _
  · exact convertRefused _ _

theorem textOf (v : Value) : Obeys P (HostType.text v) ⊤ := by
  refine (string? v).andThen fun found => ?_
  cases found with
  | some text => exact done _
  | none => exact convertRefused _ _

theorem keyTextOf (v : Value) : Obeys P (HostType.keyText v) ⊤ := by
  unfold HostType.keyText
  split
  · exact nameOf _
  · exact nameOf _
  · exact textOf _

theorem ofValue (t : HostType) (v : Value) : Obeys P (t.ofValue v) ⊤ := by
  induction t generalizing v with
  | int32 => exact (integerOf v).andThen fun n => either (done _) (failWith (P.ordinary trivial))
  | int64 => exact integerOf v
  | size => exact (integerOf v).andThen fun n => either (done _) (failWith (P.ordinary trivial))
  | string => exact textOf v
  | value => exact done _
  | option t ih =>
    cases v with
    | nil => exact done _
    | _ => exact (ih _).andThen fun _ => done _
  | list t ih =>
    cases v with
    | nil => exact done _
    | _ =>
      refine (items? _).andThen fun found => ?_
      cases found with
      | some items => exact mapEach ih items
      | none => exact convertRefused _ _
  | dictionary t ih =>
    refine (map? v).andThen fun found => ?_
    cases found with
    | some m =>
      refine (mapEach (fun e => ?_) _).andThen fun _ => done _
      exact (keyTextOf _).andThen fun _ => (ih e.2).andThen fun _ => done _
    | none => exact convertRefused _ _
  | keyword =>
    cases v with
    | keyword name => exact (nameOf _).andThen fun _ => done _
    | _ => exact convertRefused _ _
  | unit =>
    cases v with
    | nil => exact done _
    | _ => exact convertRefused _ _
  | bool =>
    cases v with
    | bool b => exact done _
    | _ => exact convertRefused _ _
  | double =>
    cases v with
    | float x => exact done _
    | int n => exact done _
    | _ => exact convertRefused _ _
  | char =>
    cases v with
    | char c => exact done _
    | _ => exact convertRefused _ _

end Obeys

namespace IntegerModule

theorem obeys_argument (v : Value) : Obeys P (argument v) ⊤ :=
  (Obeys.ofValue .int32 v).andThen fun _ => .done _

theorem obeys_result (operation : String) (n : Option Int) : Obeys P (result operation n) ⊤ := by
  cases n with
  | some n => exact .done _
  | none => exact .failWith (P.ordinary trivial)

theorem tidy_unary (name : String) {f : Int → Eval Value} (hf : ∀ Q n, Obeys Q (f n) ⊤) :
    (unary name f).Tidy P := by
  intro args
  unfold unary
  dsimp only
  split
  · exact (obeys_argument _).andThen fun n => hf _ n
  · exact .done _

theorem tidy_binary (name : String) {f : Int → Int → Eval Value} (hf : ∀ Q m n, Obeys Q (f m n) ⊤) :
    (binary name f).Tidy P := by
  intro args
  unfold binary
  dsimp only
  split
  · exact (obeys_argument _).andThen fun m => (obeys_argument _).andThen fun n => hf _ m n
  · exact .done _

/-- **The functions of the integer module are tidy.** -/
theorem tidy : ∀ h ∈ functions, h.Tidy P := by
  simp only [functions, List.forall_mem_cons]
  refine ⟨?_, ?_, ?_, ?_, ?_, ?_, List.forall_mem_nil _⟩
  · exact tidy_binary _ fun _ _ _ => obeys_result _ _
  · exact tidy_binary _ fun _ _ _ => obeys_result _ _
  · exact tidy_unary _ fun _ _ => obeys_result _ _
  · exact tidy_unary _ fun _ _ => obeys_result _ _
  · exact tidy_binary _ fun _ _ _ => .done _
  · exact tidy_unary _ fun _ _ => .done _

end IntegerModule

end TwinLisp
