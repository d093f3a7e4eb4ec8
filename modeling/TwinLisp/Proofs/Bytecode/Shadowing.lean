import TwinLisp.Bytecode.Compile
import TwinLisp.Proofs.Bytecode.Assembling

/-!
# Names that nothing binds

A name that no function around binds is a root binding, unless it has been captured before. It never is: what is
captured while a form is compiled is bound by a function around, or in the form itself. In the latter case the
functions in the form capture it, and their captures are gone when they have been compiled.

## Main definitions

* `FunctionNames.Lacks` and `CaptureTable.Lacks`: a name means nothing in a function.
* `CompilePlace.Frees`: nothing around a place binds a name.

## Main statements

* `Compiler.spares_within`: a name that nothing around binds is not captured.
* `CompilePlace.Frees.resolve`: it is a root binding.
-/

namespace TwinLisp

/-- The name denotes no local, and it is not the name of the function. -/
def FunctionNames.Lacks (F : FunctionNames) (name : String) : Prop := F.locals.lookup name = none ∧ F.self ≠ some name

/-- The name is not captured. -/
def CaptureTable.Lacks (t : CaptureTable) (name : String) : Prop := Assemble.position? t name = none

/-- The computation captures no name for the functions around the innermost `k` ones that nothing in `outer`
binds, which are the functions around those. -/
def Assemble.Spares (k : Nat) (outer : List FunctionNames) {α : Type} (x : Assemble α) : Prop :=
  ∀ ⦃a b : Assembly⦄ ⦃s t : Session⦄ ⦃r : α⦄, x a s = .ok (r, b) t → ∀ name, (∀ F ∈ outer, F.Lacks name) →
    (∀ u ∈ a.captures.drop k, u.Lacks name) → ∀ u ∈ b.captures.drop k, u.Lacks name

namespace Assemble

variable {k : Nat} {outer : List FunctionNames} {α β : Type}

/-! ### What is captured for a name -/

/-- A name that nothing binds and nobody has captured is a root binding. -/
theorem resolveIn_global {name : String} {fs : List FunctionNames} {tables : List CaptureTable}
    (free : ∀ F ∈ fs, F.Lacks name) (clear : ∀ u ∈ tables, u.Lacks name) :
    resolveIn name fs tables = .ok (.global, tables) := by
  induction fs generalizing tables with
  | nil => rfl
  | cons f outer ih =>
    obtain ⟨⟨unbound, other⟩, free⟩ := List.forall_mem_cons.1 free
    have uncaptured : position? (tables.head?.getD []) name = none := by
      cases tables with
      | nil => rfl
      | cons u us => exact clear u (List.mem_cons_self ..)
    have rest : resolveIn name outer (tables.drop 1) = .ok (.global, tables.drop 1) :=
      ih free fun u hu => clear u (List.mem_of_mem_drop hu)
    unfold resolveIn
    rw [unbound]
    dsimp only
    rw [if_neg (by simpa using other), uncaptured, rest]

theorem lacks_append {table : CaptureTable} {name other : String} (h : table.Lacks other) (ne : name ≠ other)
    (c : Capture) : CaptureTable.Lacks (table ++ [(name, c)]) other := by
  unfold CaptureTable.Lacks position? at h ⊢
  simp only [List.findIdx?_append, h, Option.none_or]
  simp [ne]

/-- Only names that something further out binds are captured. -/
theorem lacks_of_resolveIn {name other : String} {fs : List FunctionNames} {tables tables' : List CaptureTable}
    {r : Referent} (h : resolveIn name fs tables = .ok (r, tables')) (k : Nat)
    (free : ∀ F ∈ fs.drop (k + 1), F.Lacks other) (clear : ∀ u ∈ tables.drop k, u.Lacks other) :
    ∀ u ∈ tables'.drop k, u.Lacks other := by
  induction fs generalizing tables tables' r k with
  | nil =>
    cases h
    exact clear
  | cons f outer ih =>
    have captured {found : Referent} {c : Capture} {rest : List CaptureTable} (bound : found ≠ .global)
        (inner : resolveIn name outer (tables.drop 1) = .ok (found, rest))
        (h : (if (tables.head?.getD []).length ≤ maxIndex then
          Except.ok (.captured (tables.head?.getD []).length, (tables.head?.getD [] ++ [(name, c)]) :: rest)
          else Except.error CodeLimit.tooManyLocals) = Except.ok (r, tables')) :
        ∀ u ∈ tables'.drop k, u.Lacks other := by
      split at h
      · cases h
        cases k with
        | zero =>
          refine List.forall_mem_cons.2 ⟨lacks_append ?_ (fun same => bound ?_) c, ?_⟩
          · cases tables with
            | nil => rfl
            | cons u us => exact clear u (List.mem_cons_self ..)
          · have global : resolveIn name outer (tables.drop 1) = .ok (.global, tables.drop 1) :=
              resolveIn_global (same ▸ free) fun u hu => same ▸ clear u (List.mem_of_mem_drop hu)
            cases inner.symm.trans global
            rfl
          · exact ih inner 0 (fun F hF => free F (List.mem_of_mem_drop hF)) fun u hu => clear u (List.mem_of_mem_drop hu)
        | succ j =>
          refine ih inner j free fun u hu => clear u ?_
          rwa [List.drop_drop, Nat.add_comm] at hu
      · cases h
    unfold resolveIn at h
    split at h
    · cases h
      exact clear
    · split at h
      · cases h
        exact clear
      · dsimp only at h
        split at h
        · cases h
          exact clear
        · cases inner : resolveIn name outer (tables.drop 1) with
          | error e =>
            rw [inner] at h
            cases h
          | ok found =>
            obtain ⟨found, rest⟩ := found
            rw [inner] at h
            cases found with
            | global =>
              cases h
              exact clear
            | slot i => exact captured (fun same => by cases same) inner h
            | captured i => exact captured (fun same => by cases same) inner h

/-! ### Computations that capture no such name -/

/-- Something is true of every result. -/
def Yields (x : Assemble α) (Q : α → Prop) : Prop :=
  ∀ ⦃a b : Assembly⦄ ⦃s t : Session⦄ ⦃r : α⦄, x a s = .ok (r, b) t → Q r

theorem get_bind (f : Assembly → Assemble β) (a : Assembly) (s : Session) :
    ((get : Assemble Assembly) >>= f) a s = f a a s := rfl

namespace Spares

theorem pure (r : α) : Spares k outer (Pure.pure r) := by
  intro a b s t r' h name _ clear
  cases h
  exact clear

/-- What is known of the first result may be used to go on. -/
theorem andThen {x : Assemble α} {Q : α → Prop} {f : α → Assemble β} (hx : Spares k outer x) (known : x.Yields Q)
    (hf : ∀ r, Q r → Spares k outer (f r)) : Spares k outer (x >>= f) := by
  intro a b s t r h name free clear
  obtain ⟨v, a', s', first, rest⟩ := of_bind_eq_ok h
  exact hf v (known first) rest name free (hx first name free clear)

theorem bind {x : Assemble α} {f : α → Assemble β} (hx : Spares k outer x) (hf : ∀ r, Spares k outer (f r)) :
    Spares k outer (x >>= f) :=
  hx.andThen (Q := fun _ => True) (fun _ _ _ _ _ _ => trivial) fun r _ => hf r

/-- Nothing at all is captured. -/
theorem of_unchanged {x : Assemble α} (h : ∀ a b s t r, x a s = .ok (r, b) t → b.captures = a.captures) :
    Spares k outer x := by
  intro a b s t r ran name _ clear
  rwa [h a b s t r ran]

theorem lift (x : Eval α) : Spares k outer (StateT.lift x) := by
  refine of_unchanged fun a b s t r h => ?_
  change EStateM.bind x _ s = _ at h
  unfold EStateM.bind at h
  split at h <;> cases h
  rfl

theorem tables (t : Assembly → CodeTables) :
    Spares k outer (modify fun a => { a with tables := t a } : Assemble PUnit) :=
  of_unchanged fun a b s u r h => by
    cases h
    rfl

theorem get {f : Assembly → Assemble β} (h : ∀ a, Spares k outer (f a)) : Spares k outer (MonadState.get >>= f) :=
  fun a _ _ _ _ ran => h a ran

theorem mapM {γ : Type} {f : γ → Assemble α} {xs : List γ} (h : ∀ x, Spares k outer (f x)) :
    Spares k outer (xs.mapM f) := by
  induction xs with
  | nil => exact pure _
  | cons x xs ih =>
    rw [List.mapM_cons]
    exact (h x).bind fun _ => ih.bind fun _ => pure _

theorem index (limit : CodeLimit) (n : Nat) : Spares k outer (Assemble.index limit n) := by
  unfold Assemble.index
  split
  · exact pure _
  · exact lift _

theorem forward (n : Nat) : Spares k outer (Assemble.forward n) := by
  unfold Assemble.forward
  split
  · exact pure _
  · exact lift _

theorem backward (offset target : Nat) : Spares k outer (Assemble.backward offset target) := by
  unfold Assemble.backward
  split
  · exact pure _
  · exact lift _

theorem addConstant (v : Value) : Spares k outer (Assemble.addConstant v) := by
  refine get fun a => ?_
  dsimp only
  split
  · exact pure _
  · exact (index _ _).bind fun i => (tables _).bind fun _ => pure _

theorem addSite (locations : List Location) : Spares k outer (Assemble.addSite locations) :=
  get fun _ => (index _ _).bind fun _ => (tables _).bind fun _ => pure _

theorem addPrototype (p : Prototype) : Spares k outer (Assemble.addPrototype p) :=
  get fun _ => (index _ _).bind fun _ => (tables _).bind fun _ => pure _

theorem withTables {x : Assemble α} (h : Spares k outer x) : Spares k outer (Assemble.withTables x) :=
  get fun _ => (tables _).bind fun _ => h.bind fun _ => get fun _ => (tables _).bind fun _ => pure _

/-- The captures of a function are gone when it has been compiled. -/
theorem withCaptures {x : Assemble α} (h : Spares (k + 1) outer x) : Spares k outer (Assemble.withCaptures x) := by
  intro a b s t r ran name free clear
  change EStateM.bind (x ⟨a.tables, [] :: a.captures⟩) _ s = _ at ran
  unfold EStateM.bind at ran
  split at ran
  · next p s' inner =>
    cases ran
    intro u hu
    change u ∈ (p.2.captures.drop 1).drop k at hu
    rw [List.drop_drop, Nat.add_comm] at hu
    exact h inner name free clear u hu
  · cases ran

theorem resolve (fs : List FunctionNames) (name : String) :
    Spares k (fs.drop (k + 1)) (Assemble.resolve fs name) := by
  intro a b s t r ran other free clear
  unfold Assemble.resolve at ran
  rw [get_bind] at ran
  cases found : resolveIn name fs a.captures with
  | error limit =>
    rw [found] at ran
    cases ran
  | ok answer =>
    rw [found] at ran
    cases ran
    exact lacks_of_resolveIn found k free clear

end Spares

end Assemble

/-! ### The compiler -/

/-- Compiling a form captures no name that nothing around binds. -/
def Compiler.Spares (c : Compiler) : Prop :=
  ∀ (k : Nat) (p : CompilePlace) (f : Form), Assemble.Spares k (p.outer.drop k) (c p f)

namespace Compiler

open Assemble.Spares

section

variable (k : Nat) (p : CompilePlace)

theorem spares_constant (v : Value) : Assemble.Spares k (p.outer.drop k) (constant p v) :=
  (addConstant v).bind fun _ => .pure _

theorem spares_named (name : String) : Assemble.Spares k (p.outer.drop k) (named p name) := by
  refine (resolve p.functions name).bind fun d => ?_
  cases d with
  | slot i => exact .pure _
  | captured i => exact .pure _
  | global => exact (lift _).bind fun _ => (addConstant _).bind fun _ => .pure _

theorem spares_leaf (d : Leaf) : Assemble.Spares k (p.outer.drop k) (leaf p d) := by
  have literal : Assemble.Spares k (p.outer.drop k) (do constant p (← StateT.lift (Eval.valueOfLeaf d))) :=
    (lift _).bind fun v => spares_constant k p v
  cases d with
  | nil => exact .pure _
  | bool b => cases b <;> exact .pure _
  | symbol name => exact spares_named k p name
  | _ => exact literal

theorem spares_inline? (name : String) (args : List Form) :
    Assemble.Spares k (p.outer.drop k) (inline? p name args) := by
  unfold inline?
  split
  · refine (resolve p.functions name).bind fun d => ?_
    cases d <;> exact .pure _
  · exact .pure _

theorem spares_parameters (outer : List FunctionNames) (names : List String) :
    Assemble.Spares k outer (parameters p names) := by
  induction names generalizing p with
  | nil => exact .pure _
  | cons name names ih => exact (index _ _).bind fun _ => ih _

theorem parameters_outer (names : List String) : (parameters p names).Yields fun q => q.outer = p.outer := by
  induction names generalizing p with
  | nil =>
    intro a b s t r h
    cases h
    rfl
  | cons name names ih =>
    intro a b s t r h
    obtain ⟨slot, _, _, -, rest⟩ := Assemble.of_bind_eq_ok h
    exact ih ((p.naming name slot).skip 0 1) rest

theorem spares_define (name : String) : Assemble.Spares k (p.outer.drop k) (define p name) :=
  (lift _).bind fun _ => (addConstant _).bind fun _ => .pure _

end

namespace Spares

variable {c : Compiler} (hc : c.Spares) (k : Nat)
include hc

theorem values (p : CompilePlace) (fs : List Form) : Assemble.Spares k (p.outer.drop k) (c.values p fs) := by
  induction fs generalizing p with
  | nil => exact .pure _
  | cons f fs ih => exact (hc k p f).bind fun code => (ih (p.after code)).bind fun _ => .pure _

theorem body (p : CompilePlace) (fs : List Form) : Assemble.Spares k (p.outer.drop k) (c.body p fs) := by
  induction fs generalizing p with
  | nil => exact .pure _
  | cons f fs ih =>
    cases fs with
    | nil => exact hc k p f
    | cons g gs => exact (hc k p f).bind fun code => (ih (p.skip (code.length + 1) 0)).bind fun _ => .pure _

theorem collection (p : CompilePlace) (items : List Form) (build : Nat → Instruction) :
    Assemble.Spares k (p.outer.drop k) (c.collection p items build) :=
  (values hc k p items).bind fun _ => (index _ _).bind fun _ => .pure _

theorem inlined (p : CompilePlace) (op : CoreOp) (args : List Form) :
    Assemble.Spares k (p.outer.drop k) (c.inlined p op args) :=
  (values hc k p args).bind fun _ => (addSite _).bind fun _ => .pure _

theorem call (p : CompilePlace) (head : Form) (args : List Form) :
    Assemble.Spares k (p.outer.drop k) (c.call p head args) :=
  (values hc k p (head :: args)).bind fun _ => (addSite _).bind fun _ => (index _ _).bind fun _ => .pure _

/-- A function in the form stands in one more function. -/
theorem overload (p : CompilePlace) (self : Option String) (o : OverloadShape) :
    Assemble.Spares (k + 1) (p.outer.drop k) (c.overload p self o) := by
  refine (withTables ?_).bind fun _ => .pure _
  refine (spares_parameters (k + 1) _ _ _).andThen (parameters_outer _ _) fun inner outer => ?_
  refine (index _ _).bind fun slots => ?_
  have body : Assemble.Spares (k + 1) (inner.outer.drop (k + 1))
      (c.body { inner with target := some ⟨0, 1, slots⟩ } o.body) := body hc (k + 1) _ o.body
  rw [show inner.outer.drop (k + 1) = p.outer.drop k by rw [outer]; rfl] at body
  exact body.bind fun _ => .pure _

theorem prototype (p : CompilePlace) (name : Option String) (os : List OverloadShape) :
    Assemble.Spares k (p.outer.drop k) (c.prototype p name os) := by
  refine (withCaptures (.mapM fun o => overload hc k p name o)).bind fun ⟨arities, captures⟩ => ?_
  cases name with
  | none => exact .pure _
  | some n =>
    dsimp only
    rw [Option.mapM_some, map_eq_pure_bind, bind_assoc]
    exact (lift _).bind fun _ => .pure _

theorem conditional (p : CompilePlace) (args : List Form) :
    Assemble.Spares k (p.outer.drop k) (c.conditional p args) := by
  refine (hc k p _).bind fun test => (hc k (p.skip _ _) _).bind fun yes => (forward _).bind fun _ => ?_
  cases args[2]? with
  | none => exact (Assemble.Spares.pure _).bind fun _ => (forward _).bind fun _ => .pure _
  | some f => exact (hc k _ f).bind fun _ => (forward _).bind fun _ => .pure _

theorem bind (p : CompilePlace) (bs : List Binding) : Assemble.Spares k (p.outer.drop k) (c.bind p bs) := by
  induction bs generalizing p with
  | nil => exact .pure _
  | cons b bs ih =>
    exact (hc k p b.2).bind fun code => (index _ _).bind fun slot =>
      (ih ((p.after code).naming b.1 slot)).bind fun _ => .pure _

omit hc in
theorem bind_outer (p : CompilePlace) (bs : List Binding) : (c.bind p bs).Yields fun r => r.2.outer = p.outer := by
  induction bs generalizing p with
  | nil =>
    intro a b s t r h
    cases h
    rfl
  | cons b bs ih =>
    intro a a' s t r h
    obtain ⟨code, _, _, -, rest⟩ := Assemble.of_bind_eq_ok h
    obtain ⟨slot, _, _, -, rest⟩ := Assemble.of_bind_eq_ok rest
    obtain ⟨q, _, _, bound, last⟩ := Assemble.of_bind_eq_ok rest
    cases last
    have outer := ih ((p.after code).naming b.1 slot) bound
    exact outer

theorem binding (p : CompilePlace) (isLoop : Bool) (f : Form) :
    Assemble.Spares k (p.outer.drop k) (c.binding p isLoop f) := by
  refine (lift _).bind fun bs => (index _ _).bind fun firstSlot => ?_
  refine (bind hc k p bs).andThen (bind_outer p bs) fun ⟨init, q⟩ outer => (index _ _).bind fun slots => ?_
  have body := body hc k (if isLoop then { q with target := some ⟨q.offset, firstSlot, slots⟩ } else q)
    (Shape.bindingBody f)
  rw [show (if isLoop then { q with target := some ⟨q.offset, firstSlot, slots⟩ } else q).outer = p.outer by
    cases isLoop <;> exact outer] at body
  exact body.bind fun _ => .pure _

theorem recur (p : CompilePlace) (args : List Form) : Assemble.Spares k (p.outer.drop k) (c.recur p args) := by
  unfold Compiler.recur
  split
  · exact lift _
  · exact (values hc k p args).bind fun _ => (backward _ _).bind fun _ => .pure _

theorem handled (p : CompilePlace) (shape : AttemptShape) :
    Assemble.Spares k (p.outer.drop k) (c.handled p shape) := by
  unfold Compiler.handled
  split
  · exact body hc k p shape.body
  · next name forms _ =>
    refine (body hc k (p.skip 1 0) shape.body).bind fun inner => (forward _).bind fun _ =>
      (index _ _).bind fun slot => ?_
    exact (body hc k ((p.skip (inner.length + 3) 1).naming name slot) forms).bind fun _ =>
      (forward _).bind fun _ => .pure _

theorem attempt (p : CompilePlace) (f : Form) : Assemble.Spares k (p.outer.drop k) (c.attempt p f) := by
  refine (lift _).bind fun shape => ?_
  cases shape.cleanup with
  | none => exact handled hc k p shape
  | some forms =>
    refine (handled hc k (p.skip 1 0) shape).bind fun inner => ?_
    refine (body hc k (p.skip (inner.length + 2) 1) forms).bind fun usual => (forward _).bind fun _ => ?_
    exact (body hc k (p.skip (inner.length + usual.length + 4) 0) forms).bind fun _ => (forward _).bind fun _ => .pure _

theorem special (p : CompilePlace) (kind : SpecialForm) (f : Form) :
    Assemble.Spares k (p.outer.drop k) (c.special p kind f) := by
  cases kind with
  | quote => exact (lift _).bind fun v => spares_constant k p v
  | conditional => exact conditional hc k p _
  | sequence => exact body hc k p _
  | letBinding => exact binding hc k p false f
  | loop => exact binding hc k p true f
  | recur => exact recur hc k p _
  | function =>
    exact (lift _).bind fun shape => (prototype hc k p _ _).bind fun q => (addPrototype q).bind fun _ => .pure _
  | definition =>
    refine (lift _).bind fun ⟨name, value⟩ => ?_
    cases value with
    | none => exact (Assemble.Spares.pure _).bind fun _ => (spares_define k p name).bind fun _ => .pure _
    | some f => exact (hc k p f).bind fun _ => (spares_define k p name).bind fun _ => .pure _
  | macroDefinition =>
    exact (lift _).bind fun ⟨name, _⟩ => (prototype hc k p _ _).bind fun q => (addPrototype q).bind fun _ =>
      (spares_define k p name).bind fun _ => .pure _
  | raise => exact (hc k p _).bind fun _ => .pure _
  | attempt => exact attempt hc k p f
  | template => exact lift _
  | handler => exact lift _
  | cleanup => exact lift _

/-- **No name is captured that nothing around binds**, if that is so for the parts of a form. -/
theorem step : Compiler.Spares c.step := by
  intro k p f
  cases f with
  | leaf d l => exact spares_leaf k (p.within l) d
  | group b items l =>
    cases b with
    | vector => exact collection hc k (p.within l) _ _
    | map => exact collection hc k (p.within l) _ _
    | set => exact collection hc k (p.within l) _ _
    | list =>
      cases items with
      | nil => exact .pure _
      | cons head args =>
        unfold Compiler.step
        dsimp only
        cases head.symbolName? with
        | none => exact call hc k (p.within l) head args
        | some name =>
          dsimp only
          cases SpecialForm.ofName? name with
          | some kind => exact special hc k (p.within l) kind _
          | none =>
            refine (spares_inline? k (p.within l) name args).bind fun op => ?_
            cases op with
            | some op => exact inlined hc k (p.within l) op args
            | none => exact call hc k (p.within l) head args

end Spares

/-- **No name is captured that nothing around binds.** -/
theorem spares_within (levels : Nat) : (within levels).Spares := by
  induction levels with
  | zero =>
    intro k p f a b s t r h
    cases h
  | succ levels ih => exact ih.step

end Compiler

/-! ### Free names -/

/-- Nothing around the place binds the name, and it has not been captured there. -/
structure CompilePlace.Frees (p : CompilePlace) (a : Assembly) (name : String) : Prop where
  functions : ∀ F ∈ p.functions, F.Lacks name
  captures : ∀ u ∈ a.captures, u.Lacks name

namespace CompilePlace.Frees

variable {p : CompilePlace} {a b : Assembly} {name : String}

/-- What nothing around binds is a root binding. -/
theorem resolve (h : p.Frees a name) (s : Session) : Assemble.resolve p.functions name a s = .ok (.global, a) s := by
  unfold Assemble.resolve
  rw [Assemble.get_bind, Assemble.resolveIn_global h.functions h.captures]
  rfl

/-- Nothing around binds the name behind a form, either. -/
theorem compiled (h : p.Frees a name) {levels : Nat} {f : Form} {code : Code} {s t : Session}
    (ran : Compiler.within levels p f a s = .ok (code, b) t) : p.Frees b name :=
  ⟨h.functions, Compiler.spares_within levels 0 p f ran name
    (fun F hF => h.functions F (List.mem_cons_of_mem _ hF)) h.captures⟩

end CompilePlace.Frees

end TwinLisp
