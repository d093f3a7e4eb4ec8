import TwinLisp.Expansion.Template
import TwinLisp.Proofs.Correspondence.Code

/-!
# Templates agree

The code that a template stands for depends on nothing in a session but the number of names that were
generated. So both sides get the same code, which mentions no more objects than the template does.

## Main statements

* `Sim.builder`.
-/

namespace TwinLisp

namespace Template

/-- A computation that has the same result on both sides, which satisfies `R`. -/
def Determined (S : Setting) (q : Bool) {α : Type} (x : Naming α) (R : α → Prop) : Prop :=
  ∀ (w : World) (names : FreshNames), Sim S q w (x names) (x names) fun _ a b => a = b ∧ R a.1

namespace Determined

variable {S : Setting} {q : Bool} {α β : Type} {R : α → Prop} {Q : β → Prop}

theorem pure {a : α} (h : R a) : Determined S q (Pure.pure a) R := fun _ _ => Sim.pure ⟨rfl, h⟩

theorem bind {x : Naming α} {f : α → Naming β} (h : Determined S q x R)
    (hf : ∀ a, R a → Determined S q (f a) Q) : Determined S q (x >>= f) Q := by
  intro w names
  refine Sim.bind (h w names) fun {w' a b} _ hab => ?_
  obtain ⟨rfl, ha⟩ := hab
  exact hf a.1 ha w' a.2

theorem reject (form : String) (what : Malformation) (l : Location) :
    Determined S q (Template.reject form what l : Naming α) R := by
  intro w names
  refine Sim.bind (R := fun _ _ _ => False) (Sim.fail ?_) fun _ h => h.elim
  exact (Fault.Match.of w _ (by rfl)).located l

theorem get : Determined S q (get : Naming FreshNames) fun _ => True :=
  fun _ _ => Sim.pure ⟨rfl, trivial⟩

theorem modify (f : FreshNames → FreshNames) :
    Determined S q (modify f : Naming PUnit) fun _ => True :=
  fun _ _ => Sim.pure ⟨rfl, trivial⟩

theorem generateName (start : String) :
    Determined S q (StateT.lift (Eval.generateName start) : Naming String) fun _ => True := by
  intro w names
  refine Sim.bind (Sim.generateName start) fun _ h => ?_
  cases h
  exact Sim.pure ⟨rfl, trivial⟩

theorem freshName (base : String) : Determined S q (Template.freshName base) fun _ => True := by
  refine bind get fun names _ => ?_
  split
  · exact pure trivial
  · exact bind (generateName _) fun _ _ => bind (modify _) fun _ _ => pure trivial

theorem quoteSymbol (name : String) (l : Location) (P : Nat → Prop) :
    Determined S q (Template.quoteSymbol name l) (Form.Mentions P) := by
  have code (name : String) : (Form.call "quote" [.symbol name l] l).Mentions P := by simp
  unfold Template.quoteSymbol
  cases freshBase? name with
  | some base => exact bind (freshName base) fun name _ => pure (code name)
  | none => exact bind (R := fun _ => True) (pure trivial) fun name _ => pure (code name)

theorem build {P : Nat → Prop} {parts : List Form} (h : Form.MentionsAll P parts) (b : Bracket)
    (l : Location) : (Template.build b parts l).Mentions P := by
  cases b <;> simp [Template.build, applied, h]

mutual

theorem builderWith {P : Nat → Prop} {again : Form → Naming Form}
    (ha : ∀ f, f.Mentions P → Determined S q (again f) (Form.Mentions P)) :
    (f : Form) → f.Mentions P → Determined S q (Template.builderWith again f) (Form.Mentions P)
  | .leaf d l, h => by
    cases d with
    | symbol name =>
      rw [Template.builderWith]
      exact quoteSymbol name l P
    | _ =>
      rw [Template.builderWith]
      · exact pure h
      · exact nofun
  | .group .list [] l, _ => by
    rw [Template.builderWith]
    exact pure (by simp)
  | .group .list [head, inner] l, h => by
    have parts := partsWith ha l [head, inner] (Form.mentions_group.1 h)
    have inner' : inner.Mentions P := by simp_all
    rw [Template.builderWith]
    split
    · exact pure inner'
    · exact reject _ _ _
    · exact bind (builderWith ha inner inner') ha
    · exact bind parts fun _ hp => pure (build hp _ _)
  | .group .list (head :: second :: third :: rest) l, h => by
    have parts := partsWith ha l (head :: second :: third :: rest) (Form.mentions_group.1 h)
    rw [Template.builderWith]
    · split
      · exact reject _ _ _
      · exact reject _ _ _
      · exact bind parts fun _ hp => pure (build hp _ _)
    · simp
  | .group .list [head] l, h => by
    have parts := partsWith ha l [head] (Form.mentions_group.1 h)
    rw [Template.builderWith]
    · split
      · exact reject _ _ _
      · exact reject _ _ _
      · exact bind parts fun _ hp => pure (build hp _ _)
    · simp
  | .group .vector items l, h => by
    rw [Template.builderWith] <;> try simp
    exact bind (partsWith ha l items (Form.mentions_group.1 h)) fun _ hp => pure (build hp _ _)
  | .group .map items l, h => by
    rw [Template.builderWith] <;> try simp
    exact bind (partsWith ha l items (Form.mentions_group.1 h)) fun _ hp => pure (build hp _ _)
  | .group .set items l, h => by
    rw [Template.builderWith] <;> try simp
    exact bind (partsWith ha l items (Form.mentions_group.1 h)) fun _ hp => pure (build hp _ _)

theorem partsWith {P : Nat → Prop} {again : Form → Naming Form}
    (ha : ∀ f, f.Mentions P → Determined S q (again f) (Form.Mentions P)) (l : Location) :
    (fs : List Form) → Form.MentionsAll P fs →
      Determined S q (Template.partsWith again l fs) (Form.MentionsAll P)
  | [], _ => by
    rw [Template.partsWith]
    exact pure Form.mentionsAll_nil
  | item :: rest, h => by
    obtain ⟨hi, hr⟩ := Form.mentionsAll_cons.1 h
    rw [Template.partsWith]
    have others (first : Form) (hf : first.Mentions P) : Determined S q
        (do return first :: (← Template.partsWith again l rest)) (Form.MentionsAll P) :=
      bind (partsWith ha l rest hr) fun _ ho => pure (Form.mentionsAll_cons.2 ⟨hf, ho⟩)
    have parts {head inner : Form} (e : item.items = [head, inner]) : inner.Mentions P := by
      have := hi.items
      rw [e] at this
      simp_all
    split
    · next e => exact others _ (parts e)
    · next e => exact others _ (by simpa using parts e)
    · exact bind (builderWith ha item hi) fun code hc => others _ (by simpa using hc)

end

theorem builderWithin {P : Nat → Prop} (n : Nat) {f : Form} (h : f.Mentions P) :
    Determined S q (Template.builderWithin n f) (Form.Mentions P) := by
  induction n generalizing f with
  | zero => exact builderWith (fun _ => pure) f h
  | succ n ih => exact builderWith (fun _ => ih) f h

end Determined

end Template

/-- **A template stands for the same code on both sides.** -/
theorem Sim.builder {S : Setting} {q : Bool} {w : World} {f : Form} (h : f.Mentions (S.Usable w)) :
    Sim S q w (Template.builder f) (Template.builder f) (SameForm S) := by
  refine bind (Template.Determined.builderWithin _ h w []) fun {w' a b} hw hab => ?_
  obtain ⟨rfl, ha⟩ := hab
  exact pure ⟨rfl, ha.later hw⟩

end TwinLisp
