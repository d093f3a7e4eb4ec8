import TwinLisp.Bytecode.Compile
import TwinLisp.Proofs.Bytecode.Assembling
import TwinLisp.Proofs.Conduct.Expansion
import TwinLisp.Proofs.Special.Accepted

/-!
# Checked programs are compiled to well-formed code

The code of a checked form leads from the height of the operand stack that the compiler assumes to one more.
Compiling a checked form fails only if the code would be too large.

The frame may have handlers installed and failures held around a form. The compiler does not know about
them, and the code of a form leaves them as they are; they are called the *region* of the form.

## Main definitions

* `Region`, and `Stands`: what is known of the place where a form is compiled.
* `Compiler.Certifies`: a compiler makes certified code of accepted forms.

## Main statements

* `Compiler.Certifies.step`: every rule of the compiler keeps to that.
* `Obeys.compileProgram`: a checked program is compiled to a prototype of well-formed code.
-/

namespace TwinLisp

/-! ### Places -/

/-- What is installed in the frame around a form. -/
structure Region where
  /-- The handlers, the innermost first. -/
  handlers : List HandlerShape
  /-- The number of held failures. -/
  held : Nat

namespace Region

/-- The level with so many operands. -/
def level (r : Region) (height : Nat) : Level := ⟨height, r.handlers, r.held, false⟩

/-- All handlers were installed with at most so many operands. -/
def Nested (r : Region) (height : Nat) : Prop := HandlerShape.Nested r.handlers height r.held

/-- Inside of a `try`. -/
def trying (r : Region) (kind : HandlerKind) (height : Nat) : Region :=
  ⟨⟨kind, height, r.held⟩ :: r.handlers, r.held⟩

/-- In a cleanup that holds a failure. -/
def holding (r : Region) : Region := { r with held := r.held + 1 }

variable {r : Region} {height n : Nat}

theorem Nested.mono {height' : Nat} (h : r.Nested height) (hh : height ≤ height') : r.Nested height' :=
  HandlerShape.Nested.mono h hh (Nat.le_refl _)

theorem Nested.trying (h : r.Nested height) (kind : HandlerKind) : (r.trying kind height).Nested height :=
  ⟨Nat.le_refl _, Nat.le_refl _, h⟩

theorem Nested.holding (h : r.Nested height) : r.holding.Nested height :=
  HandlerShape.Nested.mono h (Nat.le_refl _) (Nat.le_succ _)

theorem Nested.has (h : r.Nested n) {pops : Nat} (hn : n + pops ≤ height) : (r.level height).Has pops :=
  ⟨by simp only [level]; omega, h.mono (by simp only [level]; omega)⟩

end Region

/-- What is known of a place: its names denote slots that are there, and a `recur` has its target, if it is
to have one. -/
structure Stands (target : Option RecurTarget) (p : CompilePlace) (ds : List Nat) (r : Region) : Prop where
  names : List.Forall₂ FunctionNames.Below p.functions (p.depth :: ds)
  nested : r.Nested p.depth
  target {t : RecurTarget} : target = some t → ∃ j, p.target = some j ∧ j.slots = t.slots ∧
    j.firstSlot + j.slots ≤ p.depth ∧ j.firstSlot + j.slots ≤ Assemble.maxIndex + 1 ∧
    r.Nested (j.firstSlot + j.slots)

/-- The level is known where a `recur` jumps to. -/
def Knows (target : Option RecurTarget) (p : CompilePlace) (r : Region) (H : Levels) : Prop :=
  ∀ t j, target = some t → p.target = some j → H j.start = some (r.level (j.firstSlot + j.slots))

theorem Knows.of_none {p : CompilePlace} {r : Region} {H : Levels} : Knows none p r H := nofun

/-- The code leads from the place to the one with `n` more operands. -/
def Leaves (X : CodeContext) (target : Option RecurTarget) (p : CompilePlace) (r : Region) (n : Nat)
    (code : Code) : Prop :=
  Certified X (Knows target p r) p.offset (r.level p.depth) code (r.level (p.depth + n))

/-- The compiler makes certified code of accepted forms. -/
def Compiler.Certifies (P : Policy) (c : Compiler) : Prop :=
  ∀ {target : Option RecurTarget} {isLast : Bool} {f : Form} {p : CompilePlace} {ds : List Nat}
    {r : Region}, f.Accepted target isLast → Stands target p ds r →
      Builds P ds (c p f) fun X code => Leaves X target p r 1 code

namespace Stands

variable {target : Option RecurTarget} {p : CompilePlace} {ds : List Nat} {r : Region}

theorem below (h : Stands target p ds r) : p.names.Below p.depth := (List.forall₂_cons.1 h.names).1

theorem outer (h : Stands target p ds r) : List.Forall₂ FunctionNames.Below p.outer ds :=
  (List.forall₂_cons.1 h.names).2

theorem within (h : Stands target p ds r) (l : Location) : Stands target (p.within l) ds r :=
  ⟨h.names, h.nested, h.target⟩

theorem skip (h : Stands target p ds r) (n pushed : Nat) : Stands target (p.skip n pushed) ds r where
  names := .cons ⟨Nat.lt_of_lt_of_le h.below.1 (Nat.le_add_right ..),
    fun e he => Nat.lt_of_lt_of_le (h.below.2 e he) (Nat.le_add_right ..)⟩ h.outer
  nested := h.nested.mono (Nat.le_add_right ..)
  target ht := by
    obtain ⟨j, hj, slots, depth, rest⟩ := h.target ht
    exact ⟨j, hj, slots, Nat.le_trans depth (Nat.le_add_right ..), rest⟩

theorem naming (h : Stands target p ds r) (name : String) {i : Nat} (hi : i < p.depth) :
    Stands target (p.naming name i) ds r where
  names := .cons ⟨h.below.1, List.forall_mem_cons.2 ⟨hi, h.below.2⟩⟩ h.outer
  nested := h.nested
  target := h.target

/-- Where no `recur` may stand, the target does not matter. -/
theorem anywhere (h : Stands target p ds r) : Stands none p ds r := ⟨h.names, h.nested, nofun⟩

/-- In another region of the same frame. -/
theorem inside (h : Stands none p ds r) {r' : Region} (hr : r'.Nested p.depth) : Stands none p ds r' :=
  ⟨h.names, hr, nofun⟩

end Stands

/-! ### Single instructions -/

/-- Control goes on behind the instruction, and only the operands change. -/
def Instruction.IsPlain (i : Instruction) : Prop :=
  ∀ (H : Levels) (next : Nat) (L : Level), i.LeadsTo H next L ↔ H next = some (L.moved i.pops i.pushes)

/-- A plain instruction changes the height. -/
theorem Region.emit {X : CodeContext} {K : Levels → Prop} {o n height height' : Nat} {r : Region}
    {i : Instruction} {l : Location} (plain : i.IsPlain) (hr : r.Nested n) (hn : n + i.pops ≤ height)
    (range : i.InRange X (r.level height)) (hh : height' + i.pops = height + i.pushes) :
    Certified X K o (r.level height) [(i, l)] (r.level height') := by
  refine .single range (hr.has hn) fun H _ hH => (plain H _ _).2 ?_
  rw [hH]
  have : height' = height - i.pops + i.pushes := by omega
  rw [this]
  rfl

namespace Leaves

variable {X : CodeContext} {target : Option RecurTarget} {p : CompilePlace} {r : Region} {code : Code}

/-- An instruction that leaves one value and takes none off. -/
theorem emit {ds : List Nat} (h : Stands target p ds r) {i : Instruction} (plain : i.IsPlain)
    (hi : i.pops = 0 ∧ i.pushes = 1) (range : i.InRange X (r.level p.depth)) :
    Leaves X target p r 1 (p.emit i) :=
  Region.emit plain h.nested (by omega) range (by omega)

theorem nothing {ds : List Nat} (h : Stands target p ds r) : Leaves X target p r 1 (p.emit .pushNil) :=
  emit h (fun _ _ _ => Iff.rfl) ⟨rfl, rfl⟩ trivial

/-- An instruction after the code for its operands. -/
theorem operate {ds : List Nat} (h : Stands target p ds r) {n : Nat} (hc : Leaves X target p r n code)
    {i : Instruction} (plain : i.IsPlain) (hi : i.pops = n ∧ i.pushes = 1)
    (range : i.InRange X (r.level (p.depth + n))) : Leaves X target p r 1 (code ++ p.emit i) :=
  Certified.append' hc rfl (Region.emit plain h.nested (by omega) range (by omega))

/-! ### Code with branches -/

theorem conditional {test yes no : Code} (hr : r.Nested p.depth) (ht : Leaves X target p r 1 test)
    (hy : Leaves X target (p.skip (test.length + 1) 0) r 1 yes)
    (hn : Leaves X target ((p.skip (test.length + 1) 0).skip (yes.length + 1) 0) r 1 no) :
    Leaves X target p r 1 (test ++ p.emit (.popJumpIfFalse ((yes.length + 1 : Nat) : Int)) ++ yes ++
      p.emit (.jump no.length) ++ no) := by
  have no' : p.offset + (test.length + 1) + (yes.length + 1) = p.offset + (test ++
      p.emit (.popJumpIfFalse ((yes.length + 1 : Nat) : Int)) ++ yes ++ p.emit (.jump no.length)).length := by
    simp [CompilePlace.emit]
    omega
  have has {n : Nat} : (r.level (p.depth + n)).Has n := hr.has (Nat.le_refl _)
  refine Certified.ending rfl (Certified.append no' ?_ (hn.mono fun _ hH => hH.1.1))
  refine Certified.append' (Certified.append' (Certified.append' (ht.mono fun _ hH => hH.1.1) rfl ?_)
    ?_ (hy.mono fun _ hH => hH.1.1)) rfl ?_
  · refine .single trivial has fun H hH next => ⟨next, _, ?_, hH.2⟩
    push_cast
    omega
  · simp [CompilePlace.emit, CompilePlace.skip]
  · refine .single trivial (hr.has (Nat.le_succ _)) fun H hH _ => ⟨_, ?_, hH.1.2⟩
    simp only [CompilePlace.emit, List.length_append, List.length_cons, List.length_nil]
    push_cast
    omega

/-- A body under `n` new names, whose slots go away behind it. The body may know where it starts. -/
theorem scope {init body : Code} {n : Nat} (hr : r.Nested p.depth) (hi : Leaves X target p r n init)
    (hb : Certified X (fun H => Knows target p r H ∧
        H (p.offset + init.length) = some (r.level (p.depth + n)))
      (p.offset + init.length) (r.level (p.depth + n)) body (r.level (p.depth + n + 1))) :
    Leaves X target p r 1 (init ++ body ++ if n == 0 then [] else p.emit (.endScope n)) := by
  have inner := Certified.append rfl (hi.mono fun _ hH => hH.1) hb
  cases n with
  | zero =>
    unfold Leaves
    simpa using inner
  | succ n =>
    refine Certified.append' inner rfl (Region.emit (fun _ _ _ => Iff.rfl) hr ?_ trivial ?_)
    · simp only [Instruction.pops]
      omega
    · simp only [Instruction.pops, Instruction.pushes]
      omega

/-- Storing `n` values takes them off. -/
theorem store {K : Levels → Prop} {o firstSlot n : Nat} (hr : r.Nested p.depth)
    (h : firstSlot + n ≤ p.depth) :
    Certified X K o (r.level (p.depth + n)) (Compiler.store p firstSlot n) (r.level p.depth) := by
  induction n generalizing o with
  | zero => exact .nil
  | succ n ih =>
    have first : Compiler.store p firstSlot (n + 1) =
        p.emit (.storeLocal (firstSlot + n)) ++ Compiler.store p firstSlot n := by
      simp [Compiler.store, List.range_succ]
    rw [first]
    refine Certified.append' (Region.emit (fun _ _ _ => Iff.rfl) hr ?_ ?_ rfl) rfl (ih (by omega))
    · simp only [Instruction.pops]
      omega
    · simp only [Instruction.InRange, Region.level]
      omega

/-- The new values are stored, the stack is cut down to them, and control goes back. -/
theorem recur {j : JumpTarget} {t : RecurTarget} (ht : target = some t) (hj : p.target = some j)
    (hr : r.Nested p.depth) (hb : r.Nested (j.firstSlot + j.slots))
    (depth : j.firstSlot + j.slots ≤ p.depth) (bound : j.firstSlot + j.slots ≤ Assemble.maxIndex + 1)
    {values : Code} (hv : Leaves X target p r j.slots values) {back : Code}
    (hback : back = values ++ Compiler.store p j.firstSlot j.slots ++
      p.emit (.truncate (Assemble.wrapped (j.firstSlot + j.slots)))) :
    Leaves X target p r 1
      (back ++ p.emit (.jump ((j.start : Int) - (((p.offset + back.length : Nat) : Int) + 1)))) := by
  have cut : Certified X (Knows target p r) p.offset (r.level p.depth) back
      (r.level (j.firstSlot + j.slots)) := by
    subst hback
    refine Certified.append' (Certified.append' hv rfl (store hr depth)) rfl ?_
    refine .single trivial (hr.has (Nat.le_refl _)) fun H _ next =>
      ⟨j.firstSlot + j.slots, depth, ?_, hb, ?_⟩
    · unfold Assemble.wrapped
      rcases Nat.lt_or_eq_of_le bound with h | h
      · exact .inl (Nat.mod_eq_of_lt h)
      · exact .inr (by rw [h, Nat.mod_self])
    · rw [next]
      simp [Level.moved, Region.level]
  refine Certified.append' cut rfl (.single trivial (hb.has (Nat.le_refl _)) fun H hH _ => ?_)
  refine ⟨j.start, ?_, hH t j ht hj⟩
  push_cast
  omega

/-- A body with a handler. -/
theorem handled {inner handler : Code} {name : String} {slot : Nat} (hr : r.Nested p.depth)
    (hi : Leaves X none (p.skip 1 0) (r.trying .catching p.depth) 1 inner)
    (hh : Leaves X none ((p.skip (inner.length + 3) 1).naming name slot) r 1 handler) :
    Leaves X target p r 1 (p.emit (.pushCatch ((inner.length + 2 : Nat) : Int)) ++ inner ++
      p.emit .popHandler ++ p.emit (.jump ((handler.length + 1 : Nat) : Int)) ++ handler ++
      p.emit (.endScope 1)) := by
  have inside := hr.trying .catching
  refine Certified.ending rfl (Certified.append' (Certified.append (m := r.level (p.depth + 1))
    (show p.offset + (inner.length + 3) = _ from ?_) ?_ (hh.mono fun _ _ => .of_none)) rfl ?_)
  · simp [CompilePlace.emit]
  · refine Certified.append' (m := r.level (p.depth + 1)) (Certified.append' (Certified.append' ?_ rfl
      (hi.mono fun _ _ => .of_none)) rfl ?_) rfl ?_
    · refine .single trivial (hr.has (Nat.le_refl _)) fun H hH next => ⟨_, ?_, hH.2, next⟩
      push_cast
      omega
    · exact .single trivial (inside.has (Nat.le_succ _)) fun H _ next => ⟨_, _, rfl, next⟩
    · refine .single trivial (hr.has (Nat.le_succ _)) fun H hH _ => ⟨_, ?_, hH.1.2⟩
      simp only [CompilePlace.emit, List.length_append, List.length_cons, List.length_nil]
      push_cast
      omega
  · exact Region.emit (fun _ _ _ => Iff.rfl) hr (Nat.le_refl _) trivial rfl

/-- A body with a cleanup. -/
theorem attempt {inner usual failing : Code} (hr : r.Nested p.depth)
    (hi : Leaves X none (p.skip 1 0) (r.trying .cleanup p.depth) 1 inner)
    (hu : Leaves X none (p.skip (inner.length + 2) 1) r 1 usual)
    (hf : Leaves X none (p.skip (inner.length + usual.length + 4) 0) r.holding 1 failing) :
    Leaves X target p r 1 (p.emit (.pushFinally ((inner.length + usual.length + 3 : Nat) : Int)) ++ inner ++
      p.emit .popHandler ++ usual ++ p.emit .pop ++ p.emit (.jump ((failing.length + 2 : Nat) : Int)) ++
      failing ++ p.emit .pop ++ p.emit .rethrow) := by
  have inside := hr.trying .cleanup
  refine Certified.ending rfl (Certified.append' (m := r.holding.level p.depth) (Certified.append'
    (Certified.append (m := r.holding.level p.depth)
      (show p.offset + (inner.length + usual.length + 4) = _ from ?_) ?_ (hf.mono fun _ _ => .of_none))
    rfl ?_) rfl ?_)
  · simp [CompilePlace.emit]
    omega
  · refine Certified.append' (m := r.level (p.depth + 1)) (Certified.append' (Certified.append'
      (Certified.append' (Certified.append' ?_ rfl (hi.mono fun _ _ => .of_none)) rfl ?_) ?_
      (hu.mono fun _ _ => .of_none)) rfl ?_) rfl ?_
    · refine .single trivial (hr.has (Nat.le_refl _)) fun H hH next => ⟨_, ?_, hH.2, next⟩
      push_cast
      omega
    · exact .single trivial (inside.has (Nat.le_succ _)) fun H _ next => ⟨_, _, rfl, next⟩
    · simp [CompilePlace.emit, CompilePlace.skip]
    · exact Region.emit (fun _ _ _ => Iff.rfl) hr (Nat.le_succ _) trivial rfl
    · refine .single trivial (hr.has (Nat.le_succ _)) fun H hH _ => ⟨_, ?_, hH.1.2⟩
      simp only [CompilePlace.emit, List.length_append, List.length_cons, List.length_nil]
      push_cast
      omega
  · exact Region.emit (fun _ _ _ => Iff.rfl) hr.holding (Nat.le_refl _) trivial rfl
  · exact .single trivial (hr.holding.has (Nat.le_refl _)) fun H _ _ => ⟨_, rfl, hr⟩

end Leaves

variable {P : Policy} {c : Compiler} {target : Option RecurTarget} {isLast : Bool} {p : CompilePlace}
variable {ds : List Nat} {r : Region} {f : Form} {fs : List Form}

theorem Builds.nothing (hp : Stands target p ds r) :
    Builds P ds (Pure.pure (p.emit .pushNil)) fun X code => Leaves X target p r 1 code :=
  .pure fun _ _ => .nothing hp

variable (hP : ∀ limit, P.mayFail (.codeTooLarge limit))

namespace Compiler.Certifies

/-! ### Several forms -/

section

variable (hc : c.Certifies P)
include hc

theorem values (h : ∀ f ∈ fs, f.Accepted target false) (hp : Stands target p ds r) :
    Builds P ds (c.values p fs) fun X code => Leaves X target p r fs.length code := by
  induction fs generalizing p with
  | nil => exact .pure fun _ _ => .nil
  | cons f fs ih =>
    obtain ⟨hf, hfs⟩ := List.forall_mem_cons.1 h
    refine (hc hf hp).bind fun code _ _ => (ih hfs (hp.skip code.length 1)).bind fun more _ _ => ?_
    refine .pure fun X _ rest first => ?_
    have height : p.depth + (fs.length + 1) = (p.after code).depth + fs.length := by
      simp only [CompilePlace.after, CompilePlace.skip]
      omega
    unfold Leaves
    rw [List.length_cons, height]
    exact Certified.append' first rfl rest

theorem body (h : Acceptance.Body Form.Accepted target isLast fs) (hp : Stands target p ds r) :
    Builds P ds (c.body p fs) fun X code => Leaves X target p r 1 code := by
  induction fs generalizing p with
  | nil => exact .nothing hp
  | cons f fs ih =>
    cases fs with
    | nil => exact hc h hp
    | cons g gs =>
      refine (hc h.1 hp).bind fun code _ _ => (ih h.2 (hp.skip (code.length + 1) 0)).bind fun more _ _ => ?_
      refine .pure fun X _ rest first => ?_
      have dropped : Certified X (Knows target p r) p.offset (r.level p.depth) (code ++ p.emit .pop)
          (r.level p.depth) :=
        Certified.append' first rfl
          (Region.emit (fun _ _ _ => Iff.rfl) hp.nested (Nat.le_refl _) trivial rfl)
      exact Certified.append' dropped (by simp [CompilePlace.skip, CompilePlace.emit]) rest

/-! ### Calls and collections -/

include hP

theorem collection (h : ∀ f ∈ fs, f.Accepted target false) (hp : Stands target p ds r)
    {build : Nat → Instruction} (plain : ∀ n, (build n).IsPlain)
    (hb : ∀ n, (build n).pops = n ∧ (build n).pushes = 1) (range : ∀ n X L, (build n).InRange X L) :
    Builds P ds (c.collection p fs build) fun X code => Leaves X target p r 1 code := by
  refine (hc.values h hp).bind fun code _ _ => (Builds.index hP _ _).bind fun n _ hn => ?_
  obtain ⟨rfl, -⟩ := hn
  exact .pure fun X _ _ values => values.operate hp (plain _) (hb _) (range _ _ _)

theorem inlined {args : List Form} (h : ∀ f ∈ args, f.Accepted target false) (h2 : args.length = 2)
    (hp : Stands target p ds r) (op : CoreOp) :
    Builds P ds (c.inlined p op args) fun X code => Leaves X target p r 1 code := by
  refine (hc.values h hp).bind fun code _ _ => (Builds.addSite hP _).bind fun site _ _ => ?_
  refine .pure fun X _ range values => ?_
  rw [h2] at values
  cases op with
  | arith op => exact values.operate hp (fun _ _ _ => Iff.rfl) ⟨rfl, rfl⟩ range
  | compare op => exact values.operate hp (fun _ _ _ => Iff.rfl) ⟨rfl, rfl⟩ range

theorem call {head : Form} {args : List Form} (h : ∀ f ∈ head :: args, f.Accepted target false)
    (hp : Stands target p ds r) :
    Builds P ds (c.call p head args) fun X code => Leaves X target p r 1 code := by
  refine (hc.values h hp).bind fun code _ _ => (Builds.addSite hP _).bind fun site _ _ => ?_
  refine (Builds.index hP _ _).bind fun argc _ hn => ?_
  obtain ⟨rfl, -⟩ := hn
  exact .pure fun X _ _ range values => values.operate hp (fun _ _ _ => Iff.rfl) ⟨rfl, rfl⟩ range

end

/-! ### Leaves -/

section

include hP

theorem constant (hp : Stands target p ds r) (v : Value) :
    Builds P ds (Compiler.constant p v) fun X code => Leaves X target p r 1 code := by
  refine (Builds.addConstant hP v).bind fun i _ _ => .pure fun X _ found => ?_
  obtain ⟨w, hw, -⟩ := found
  exact .emit hp (fun _ _ _ => Iff.rfl) ⟨rfl, rfl⟩ (Array.getElem?_eq_some_iff.1 hw).1

theorem named (hp : Stands target p ds r) (name : String) :
    Builds P ds (Compiler.named p name) fun X code => Leaves X target p r 1 code := by
  refine (Builds.resolve hP hp.names name).bind fun referent _ _ => ?_
  cases referent with
  | slot i => exact .pure fun X _ found => .emit hp (fun _ _ _ => Iff.rfl) ⟨rfl, rfl⟩ found
  | captured i => exact .pure fun X _ found => .emit hp (fun _ _ _ => Iff.rfl) ⟨rfl, rfl⟩ found
  | global =>
    refine (Builds.lift (.symbol name)).bind fun v _ hv => ?_
    obtain ⟨symbol, rfl, -⟩ := hv
    refine (Builds.addSymbol hP symbol).bind fun i _ _ => .pure fun X _ found _ _ => ?_
    exact .emit hp (fun _ _ _ => Iff.rfl) ⟨rfl, rfl⟩ ⟨symbol, found⟩

theorem leaf (hp : Stands target p ds r) (d : Leaf) :
    Builds P ds (Compiler.leaf p d) fun X code => Leaves X target p r 1 code := by
  have literal : Builds P ds (do Compiler.constant p (← StateT.lift (Eval.valueOfLeaf d)))
      fun X code => Leaves X target p r 1 code :=
    (Builds.lift (.valueOfLeaf d)).bind fun v _ _ => (constant hP hp v).imp fun _ _ h _ => h
  have plain {i : Instruction} (hi : i.IsPlain) (hn : i.pops = 0 ∧ i.pushes = 1)
      (range : ∀ X L, i.InRange X L) : Builds P ds (Pure.pure (p.emit i))
        fun X code => Leaves X target p r 1 code := .pure fun X _ => .emit hp hi hn (range _ _)
  cases d with
  | nil => exact plain (fun _ _ _ => Iff.rfl) ⟨rfl, rfl⟩ fun _ _ => trivial
  | bool b => cases b <;> exact plain (fun _ _ _ => Iff.rfl) ⟨rfl, rfl⟩ fun _ _ => trivial
  | symbol name => exact named hP hp name
  | _ => exact literal

theorem inline? (hp : Stands target p ds r) (name : String) (args : List Form) :
    Builds P ds (Compiler.inline? p name args) fun _ op => op.isSome = true → args.length = 2 := by
  unfold Compiler.inline?
  split
  · refine (Builds.resolve hP hp.names name).bind fun referent _ _ => ?_
    cases referent <;> exact .pure fun _ _ _ _ => rfl
  · exact .pure fun _ _ => nofun

/-! ### Functions -/

theorem parameters {names : List String}
    (hp : List.Forall₂ FunctionNames.Below p.functions (p.depth :: ds))
    (hd : p.depth ≤ Assemble.maxIndex + 1) :
    Builds P ds (Compiler.parameters p names) fun _ q =>
      List.Forall₂ FunctionNames.Below q.functions (q.depth :: ds) ∧ q.offset = p.offset ∧
        q.depth = p.depth + names.length ∧ q.depth ≤ Assemble.maxIndex + 1 := by
  induction names generalizing p with
  | nil => exact .pure fun _ _ => ⟨hp, rfl, rfl, hd⟩
  | cons name names ih =>
    refine (Builds.index hP _ _).bind fun slot _ hslot => ?_
    obtain ⟨rfl, bound⟩ := hslot
    obtain ⟨below, outer⟩ := List.forall₂_cons.1 hp
    have next : List.Forall₂ FunctionNames.Below ((p.naming name p.depth).skip 0 1).functions
        ((p.depth + 1) :: ds) := by
      refine .cons ⟨Nat.succ_pos _, List.forall_mem_cons.2 ⟨Nat.lt_succ_self _, fun e he => ?_⟩⟩ outer
      exact Nat.lt_succ_of_lt (below.2 e he)
    refine (ih next (Nat.succ_le_succ bound)).imp fun _ q hq _ => ?_
    obtain ⟨names, offset, depth, bound⟩ := hq
    refine ⟨names, offset, ?_, bound⟩
    rw [depth, List.length_cons]
    simp only [CompilePlace.skip, CompilePlace.naming]
    omega

variable (hc : c.Certifies P)
include hc

/-- The code for one parameter list is well formed. -/
theorem overload (hp : Stands target p ds r) (self : Option String) {o : OverloadShape}
    (h : Acceptance.Body Form.Accepted (some ⟨o.names.length, o.rest.isSome⟩) true o.body) :
    Builds P (p.depth :: ds) (c.overload p self o) fun X a => a.Typed X.guarded X.captures ∧
      ∀ q ∈ a.prototypes, q.Each (ArityCode.Typed P.guarded) := by
  let start : CompilePlace := ⟨p.cursor, 0, 1, ⟨self, []⟩, p.functions, none⟩
  -- The frame of the call starts without handlers and without held failures.
  let bare : Region := ⟨[], 0⟩
  have compiled : Builds P (p.depth :: ds) (do
      let inner ← Compiler.parameters start o.names
      let slots ← Assemble.index .tooManyLocals o.names.length
      let code ← c.body { inner with target := some ⟨0, 1, slots⟩ } o.body
      return code ++ p.emit .ret) fun X code => ∃ body, code = body ++ [(.ret, p.cursor)] ∧
        Certified X (fun _ => True) 0 (bare.level (1 + o.names.length)) body
          (bare.level (1 + o.names.length + 1)) := by
    have names : List.Forall₂ FunctionNames.Below start.functions (start.depth :: p.depth :: ds) :=
      .cons ⟨Nat.one_pos, nofun⟩ hp.names
    refine (parameters hP names (Nat.succ_le_succ (Nat.zero_le _))).bind fun inner _ hi => ?_
    obtain ⟨below, offset, depth, bound⟩ := hi
    refine (Builds.index hP _ _).bind fun slots _ hs => ?_
    obtain ⟨rfl, -⟩ := hs
    have stands : Stands (some ⟨o.names.length, o.rest.isSome⟩)
        { inner with target := some ⟨0, 1, o.names.length⟩ } (p.depth :: ds) bare := by
      refine ⟨below, trivial, fun {t} ht => ⟨_, rfl, ?_, ?_, ?_, trivial⟩⟩
      · cases ht
        rfl
      · exact Nat.le_of_eq depth.symm
      · exact depth ▸ bound
    refine (hc.body h stands).bind fun code _ _ => .pure fun X _ certified _ _ => ⟨code, rfl, ?_⟩
    unfold Leaves at certified
    rw [depth, offset] at certified
    refine Certified.starting (certified.mono fun H hH t j ht hj => ?_)
    cases hj
    exact hH.2
  refine (Builds.withTables compiled).bind fun result _ _ => .pure fun X _ holds => ?_
  obtain ⟨⟨body, full, certified⟩, inner⟩ := holds
  refine ⟨Certified.typed certified ?_ rfl rfl ?_ ?_ full rfl rfl, fun q hq => inner q (by simpa using hq)⟩
  · have nested : bare.Nested 0 := trivial
    exact nested.has (by omega)
  · simp [ArityCode.context]
  · simp only [ArityCode.entry, OverloadShape.names, List.length_append, Region.level, bare]
    cases o.rest <;> simp [Nat.add_assoc]

/-- **The prototype of a function is well formed**, and what it captures is there. -/
theorem prototype (hp : Stands target p ds r) (name : Option String) {os : List OverloadShape}
    (h : Acceptance.Overloads Form.Accepted os) : Builds P ds (c.prototype p name os) fun X q =>
      q.Each (ArityCode.Typed P.guarded) ∧ ∀ k ∈ q.captures, k.FitsIn p.depth X.captures := by
  refine (Builds.withCaptures (Builds.mapM fun o ho => overload hP hc hp name (h o ho))).bind
    fun result _ _ => ?_
  have interned : Builds P ds (name.mapM fun n => StateT.lift (Eval.intern n)) fun _ _ => True := by
    cases name with
    | none => exact .pure fun _ _ => trivial
    | some name =>
      rw [Option.mapM_some, map_eq_pure_bind]
      exact (Builds.lift (Obeys.intern name)).bind fun _ _ _ => .pure fun _ _ _ => trivial
  refine interned.bind fun symbol _ _ => .pure fun X hX _ holds => ?_
  obtain ⟨captured, t, arities⟩ := holds
  refine ⟨.intro (fun a ha => ?_) fun a ha => (arities a ha).2, fun k hk => ?_⟩
  · have typed := (arities a ha).1
    rw [hX] at typed
    simpa [Prototype.captures] using typed
  · obtain ⟨e, he, rfl⟩ := List.mem_map.1 hk
    exact captured e he

/-! ### Branches -/

theorem conditional {args : List Form} {test yes : Form} {rest : List Form}
    (hi : args = test :: yes :: rest) (ht : test.Accepted target false)
    (hb : ∀ g ∈ yes :: rest, g.Accepted target isLast) (hp : Stands target p ds r) :
    Builds P ds (c.conditional p args) fun X code => Leaves X target p r 1 code := by
  subst hi
  refine (hc ht hp).bind fun test _ _ => ?_
  refine (hc (hb _ List.mem_cons_self) (hp.skip _ _)).bind fun yes _ _ => ?_
  refine (Builds.forward hP _).bind fun toElse _ hElse => ?_
  subst hElse
  have behind := (hp.skip (test.length + 1) 0).skip (yes.length + 1) 0
  dsimp only
  split
  · next g hg =>
    have mem : g ∈ rest := List.mem_of_getElem? (i := 0) (by simpa using hg)
    refine (hc (hb g (List.mem_cons_of_mem _ mem)) behind).bind fun no _ _ => ?_
    refine (Builds.forward hP _).bind fun toEnd _ hEnd => ?_
    subst hEnd
    exact .pure fun X _ _ no _ yes test => Leaves.conditional hp.nested test yes no
  · refine (Builds.nothing behind).bind fun no _ _ => ?_
    refine (Builds.forward hP _).bind fun toEnd _ hEnd => ?_
    subst hEnd
    exact .pure fun X _ _ no _ yes test => Leaves.conditional hp.nested test yes no

/-! ### Bindings -/

theorem bind {bs : List Binding} (h : ∀ b ∈ bs, b.2.Accepted target false) (hp : Stands target p ds r)
    (hd : p.depth ≤ Assemble.maxIndex + 1) : Builds P ds (c.bind p bs) fun X q =>
      Stands target q.2 ds r ∧ q.2.target = p.target ∧ q.2.offset = p.offset + q.1.length ∧
        q.2.depth = p.depth + bs.length ∧ q.2.depth ≤ Assemble.maxIndex + 1 ∧
        Leaves X target p r bs.length q.1 := by
  induction bs generalizing p with
  | nil => exact .pure fun _ _ => ⟨hp, rfl, rfl, rfl, hd, .nil⟩
  | cons b bs ih =>
    obtain ⟨hb, hbs⟩ := List.forall_mem_cons.1 h
    refine (hc hb hp).bind fun code _ _ => (Builds.index hP _ _).bind fun slot _ hslot => ?_
    obtain ⟨rfl, bound⟩ := hslot
    have next : Stands target ((p.after code).naming b.1 p.depth) ds r :=
      (hp.skip code.length 1).naming b.1 (Nat.lt_succ_self _)
    refine (ih hbs next (Nat.succ_le_succ bound)).bind fun q _ _ => .pure fun X _ hq _ first => ?_
    obtain ⟨stands, target, offset, depth, bound, rest⟩ := hq
    have height : p.depth + (bs.length + 1) = p.depth + 1 + bs.length := by omega
    refine ⟨stands, target, ?_, ?_, bound, ?_⟩
    · rw [offset, List.length_append]
      simp only [CompilePlace.naming, CompilePlace.after, CompilePlace.skip]
      omega
    · rw [depth, List.length_cons, height]
      rfl
    · unfold Leaves
      rw [List.length_cons, height]
      exact Certified.append' first rfl rest

theorem letBinding {bs : List Binding} (hs : Shape.bindings "let" f = .ok bs)
    (hv : ∀ b ∈ bs, b.2.Accepted target false)
    (hb : Acceptance.Body Form.Accepted target isLast (Shape.bindingBody f)) (hp : Stands target p ds r) :
    Builds P ds (c.binding p false f) fun X code => Leaves X target p r 1 code := by
  refine Builds.known hs ((Builds.index hP _ _).bind fun firstSlot _ first => ?_)
  refine (bind hP hc hv hp (Nat.le_succ_of_le first.2)).bind fun q _ hq => ?_
  refine (Builds.index hP _ _).bind fun slots _ hslots => ?_
  obtain ⟨rfl, -⟩ := hslots
  refine (hc.body hb hq.1).bind fun body _ _ => .pure fun X _ body _ hq _ => ?_
  obtain ⟨-, same, offset, depth, -, init⟩ := hq
  unfold Leaves at body
  rw [offset, depth] at body
  refine Leaves.scope hp.nested init (body.mono fun H hH => ?_)
  unfold Knows
  rw [same]
  exact hH.1

theorem loop {bs : List Binding} (hs : Shape.bindings "loop" f = .ok bs)
    (hv : ∀ b ∈ bs, b.2.Accepted target false)
    (hb : Acceptance.Body Form.Accepted (some ⟨bs.length, false⟩) true (Shape.bindingBody f))
    (hp : Stands target p ds r) :
    Builds P ds (c.binding p true f) fun X code => Leaves X target p r 1 code := by
  refine Builds.known hs ((Builds.index hP _ _).bind fun firstSlot _ first => ?_)
  obtain ⟨rfl, bound⟩ := first
  refine (bind hP hc hv hp (Nat.le_succ_of_le bound)).bind fun q _ hq => ?_
  refine (Builds.index hP _ _).bind fun slots _ hslots => ?_
  obtain ⟨rfl, -⟩ := hslots
  obtain ⟨stands, -, offset, depth, bound, -⟩ := hq
  have inner : Stands (some ⟨bs.length, false⟩) { q.2 with target := some ⟨q.2.offset, p.depth, bs.length⟩ }
      ds r := by
    refine ⟨stands.names, stands.nested, fun {t} ht => ⟨_, rfl, ?_, Nat.le_of_eq depth.symm, ?_, ?_⟩⟩
    · cases ht
      rfl
    · exact depth ▸ bound
    · exact hp.nested.mono (Nat.le_add_right ..)
  refine (hc.body hb inner).bind fun body _ _ => .pure fun X _ body _ hq _ => ?_
  obtain ⟨-, -, -, -, -, init⟩ := hq
  unfold Leaves at body
  rw [offset, depth] at body
  refine Leaves.scope hp.nested init (body.mono fun H hH t j ht hj => ?_)
  cases hj
  exact hH.2

/-! ### Starting over and failing -/

theorem recur {args : List Form} {t : RecurTarget} (ht : target = some t) (hn : args.length = t.slots)
    (h : ∀ g ∈ args, g.Accepted target false) (hp : Stands target p ds r) :
    Builds P ds (c.recur p args) fun X code => Leaves X target p r 1 code := by
  obtain ⟨j, hj, slots, depth, bound, nested⟩ := hp.target ht
  have slots : args.length = j.slots := hn.trans slots.symm
  unfold Compiler.recur
  rw [hj, slots]
  refine (hc.values h hp).bind fun values _ _ => (Builds.backward hP _ _).bind fun back _ hback => ?_
  subst hback
  refine .pure fun X _ _ values => ?_
  rw [slots] at values
  exact Leaves.recur ht hj hp.nested nested depth bound values rfl

theorem handled {shape : AttemptShape} (body : ∀ g ∈ shape.body, g.Accepted none false)
    (handlers : ∀ h ∈ shape.handlers, ∀ g ∈ h.2, g.Accepted none false) (hp : Stands none p ds r) :
    Builds P ds (c.handled p shape) fun X code => Leaves X none p r 1 code := by
  unfold Compiler.handled
  split
  · exact hc.body (.of_forall body) hp
  · next name forms hh =>
    have inside : Stands none (p.skip 1 0) ds (r.trying .catching p.depth) :=
      (hp.skip 1 0).inside (hp.nested.trying _)
    refine (hc.body (.of_forall body) inside).bind fun inner _ _ => ?_
    refine (Builds.forward hP _).bind fun toHandler _ hHandler => ?_
    refine (Builds.index hP _ _).bind fun slot _ hslot => ?_
    obtain ⟨rfl, -⟩ := hslot
    subst hHandler
    have handler : Stands none ((p.skip (inner.length + 3) 1).naming name p.depth) ds r :=
      (hp.skip _ _).naming name (Nat.lt_succ_self _)
    refine (hc.body (.of_forall (handlers _ (List.mem_of_mem_head? hh))) handler).bind fun code _ _ => ?_
    refine (Builds.forward hP _).bind fun toEnd _ hEnd => ?_
    subst hEnd
    exact .pure fun X _ _ handler _ _ inner => Leaves.handled hp.nested inner handler

theorem attempt {shape : AttemptShape} (hs : Shape.attempt f = .ok shape)
    (body : ∀ g ∈ shape.body, g.Accepted none false)
    (handlers : ∀ h ∈ shape.handlers, ∀ g ∈ h.2, g.Accepted none false)
    (cleanup : ∀ forms, shape.cleanup = some forms → ∀ g ∈ forms, g.Accepted none false)
    (hp : Stands target p ds r) :
    Builds P ds (c.attempt p f) fun X code => Leaves X target p r 1 code := by
  have hp : Stands none p ds r := hp.anywhere
  refine Builds.known hs ?_
  split
  · exact (handled hP hc body handlers hp).imp fun X code h => h.mono fun _ _ => .of_none
  · next forms hf =>
    have forms : Acceptance.Body Form.Accepted none false forms := .of_forall (cleanup forms hf)
    have inside : Stands none (p.skip 1 0) ds (r.trying .cleanup p.depth) :=
      (hp.skip 1 0).inside (hp.nested.trying _)
    refine (handled hP hc body handlers inside).bind fun inner _ _ => ?_
    refine (hc.body forms (hp.skip _ _)).bind fun usual _ _ => ?_
    refine (Builds.forward hP _).bind fun toCleanup _ hCleanup => ?_
    subst hCleanup
    have failing : Stands none (p.skip (inner.length + usual.length + 4) 0) ds r.holding :=
      (hp.skip _ _).inside hp.nested.holding
    refine (hc.body forms failing).bind fun failing _ _ => ?_
    refine (Builds.forward hP _).bind fun toEnd _ hEnd => ?_
    subst hEnd
    exact .pure fun X _ _ failing _ usual inner => Leaves.attempt hp.nested inner usual failing

/-! ### Definitions -/

omit hc in
/-- What is on top of the stack is bound to a name, which is not guarded unless it is a macro. -/
theorem define (name : String) : Builds P ds (Compiler.define p name) fun X code =>
    ∀ {K : Levels → Prop} {o : Nat} {isMacro : Bool},
      (isMacro = false → CoreOp.ofName? name = none) → r.Nested p.depth →
        Certified X K o { r.level (p.depth + 1) with isMacro } code (r.level (p.depth + 1)) := by
  refine (Builds.lift (.symbol name)).bind fun v _ hv => ?_
  obtain ⟨symbol, rfl, plain⟩ := hv
  refine (Builds.addSymbol hP symbol).bind fun i _ _ => .pure fun X hX found _ K o isMacro h hr => ?_
  refine .single ⟨symbol, found, fun flagged => ?_⟩ ?_ fun H _ next => next
  · rw [hX]
    exact plain (h flagged)
  · have has : (r.level (p.depth + 1)).Has 1 := hr.has (Nat.le_refl _)
    exact has

theorem definition {name : String} {value : Option Form} (hs : Shape.definition f = .ok (name, value))
    (core : CoreOp.ofName? name = none) (hv : ∀ g, value = some g → g.Accepted target false)
    (hp : Stands target p ds r) :
    Builds P ds (c.special p .definition f) fun X code => Leaves X target p r 1 code := by
  have defined (code : Code) : Builds P ds (do return code ++ (← Compiler.define p name)) fun X full =>
      Leaves X target p r 1 code → Leaves X target p r 1 full :=
    (define hP name).bind fun more _ _ => .pure fun X _ define first =>
      Certified.append' first rfl (define (fun _ => core) hp.nested)
  refine Builds.known hs ?_
  cases value with
  | some g => exact (hc (hv g rfl) hp).bind fun code _ _ => defined code
  | none => exact (Builds.nothing hp).bind fun code _ _ => defined code

theorem macroDefinition {name : String} {os : List OverloadShape}
    (hs : Shape.macroDefinition f = .ok (name, os)) (h : Acceptance.Overloads Form.Accepted os)
    (hp : Stands target p ds r) :
    Builds P ds (c.special p .macroDefinition f) fun X code => Leaves X target p r 1 code := by
  refine Builds.known hs ((prototype hP hc hp _ h).bind fun q _ hq => ?_)
  refine (Builds.addPrototype hP hq.1).bind fun i _ _ => (define (r := r) hP name).bind fun more _ _ => ?_
  refine .pure fun X _ define found hq => ?_
  refine Certified.append' (.single ⟨q, found, hq.2⟩ (hp.nested.has (Nat.le_refl _)) fun H _ next => next)
    rfl (define (fun h : true = false => Bool.noConfusion h) hp.nested)

/-! ### Forms -/

theorem special {kind : SpecialForm} (hk : f.special? = some kind) (hf : f.Accepted target isLast)
    (hp : Stands target p ds r) :
    Builds P ds (c.special p kind f) fun X code => Leaves X target p r 1 code := by
  have parts := hf.special hk
  cases kind with
  | quote =>
    exact (Builds.lift (.valueOfForm _)).bind fun v _ _ => (constant hP hp v).imp fun _ _ h _ => h
  | conditional =>
    obtain ⟨test, yes, rest, hi, -, ht, branches⟩ := parts
    exact conditional hP hc hi ht branches hp
  | sequence => exact hc.body parts hp
  | letBinding =>
    obtain ⟨bindings, hb, hv, body⟩ := parts
    exact letBinding hP hc hb hv body hp
  | loop =>
    obtain ⟨bindings, hb, hv, body⟩ := parts
    exact loop hP hc hb hv body hp
  | recur =>
    obtain ⟨-, ⟨t, ht, count⟩, values⟩ := parts
    exact recur hP hc ht count values hp
  | function =>
    obtain ⟨shape, hs, bodies⟩ := parts
    refine Builds.known hs ((prototype hP hc hp _ bodies).bind fun q _ hq => ?_)
    refine (Builds.addPrototype hP hq.1).bind fun i _ _ => .pure fun X _ found hq => ?_
    exact .emit hp (fun _ _ _ => Iff.rfl) ⟨rfl, rfl⟩ ⟨q, found, hq.2⟩
  | definition =>
    obtain ⟨name, value, hs, core, hv⟩ := parts
    exact definition hP hc hs core hv hp
  | macroDefinition =>
    obtain ⟨shape, hs, bodies⟩ := parts
    exact macroDefinition hP hc hs bodies hp
  | raise =>
    obtain ⟨value, hi, hv⟩ := parts
    unfold Compiler.special
    dsimp only
    rw [hi]
    refine (hc hv hp).bind fun code _ _ => .pure fun X _ value => ?_
    exact Certified.append' value rfl (.single trivial (hp.nested.has (Nat.le_refl _)) fun _ _ _ => trivial)
  | attempt =>
    obtain ⟨shape, hs, body, handlers, cleanup⟩ := parts
    exact attempt hP hc hs body handlers cleanup hp
  | template => exact parts.elim
  | handler => exact parts.elim
  | cleanup => exact parts.elim

/-- **Every rule of the compiler makes certified code**, if the parts of the form are compiled to such. -/
theorem step : Compiler.Certifies P c.step := by
  intro target isLast f p ds r hf hp
  cases f with
  | leaf d l => exact leaf hP (hp.within l) d
  | group b items l =>
    have collected (hs : Form.special? (.group b items l) = none) {build : Nat → Instruction}
        (plain : ∀ n, (build n).IsPlain) (hb : ∀ n, (build n).pops = n ∧ (build n).pushes = 1)
        (range : ∀ n X L, (build n).InRange X L) :
        Builds P ds (c.collection (p.within l) items build) fun X code => Leaves X target p r 1 code :=
      collection hP hc (hf.items hs) (hp.within l) plain hb range
    cases b with
    | vector => exact collected rfl (fun _ _ _ _ => Iff.rfl) (fun _ => ⟨rfl, rfl⟩) fun _ _ _ => trivial
    | set => exact collected rfl (fun _ _ _ _ => Iff.rfl) (fun _ => ⟨rfl, rfl⟩) fun _ _ _ => trivial
    | map => exact collected rfl (fun _ _ _ _ => Iff.rfl) (fun _ => ⟨rfl, rfl⟩) fun _ _ _ => trivial
    | list => cases items with
      | nil => exact .pure fun X _ => .emit (hp.within l) (fun _ _ _ => Iff.rfl) ⟨rfl, rfl⟩ trivial
      | cons head args =>
        have head? := Form.special?_list head args l
        unfold Compiler.step
        dsimp only
        split
        · next hn =>
          rw [hn] at head?
          exact call hP hc (hf.items head?) (hp.within l)
        · next name hn =>
          rw [hn] at head?
          split
          · next kind hk => exact special hP hc (head?.trans hk) hf (hp.within l)
          · next hk =>
            have items := hf.items (head?.trans hk)
            refine (inline? hP (hp.within l) name args).bind fun op _ two => ?_
            cases op with
            | some op =>
              refine (inlined hP hc (List.forall_mem_cons.1 items).2 (two rfl) (hp.within l) op).imp ?_
              exact fun _ _ h _ => h
            | none => exact (call hP hc items (hp.within l)).imp fun _ _ h _ => h

end

end Compiler.Certifies

include hP in
/-- Compiling with a bound on the nesting makes certified code. -/
theorem Compiler.certifies_within (levels : Nat) : Compiler.Certifies P (Compiler.within levels) := by
  induction levels with
  | zero => exact fun _ _ _ _ => .outOfFuel
  | succ levels ih => exact Certifies.step hP ih

/-- The prototype of a program takes no arguments and captures nothing. -/
structure Prototype.IsProgram (q : Prototype) : Prop where
  captures : q.captures = []
  arities : ∃ c : ArityCode Prototype, q.arities = [c] ∧ c.params = 0 ∧ c.hasRest = false

include hP in
/-- **A checked program is compiled to well-formed code**, unless that would be too large. -/
theorem Obeys.compileProgram (hf : f.Accepted none false) : Obeys P (TwinLisp.compileProgram f) fun q =>
    q.Each (ArityCode.Typed P.guarded) ∧ q.IsProgram := by
  let start : CompilePlace := ⟨.unknown, 0, 1, ⟨none, []⟩, [], none⟩
  let bare : Region := ⟨[], 0⟩
  have empty : (⟨.empty, [[]]⟩ : Assembly).Fits P [] := ⟨rfl, fun q hq => by simp [CodeTables.empty] at hq⟩
  have stands : Stands none start [] bare :=
    ⟨.cons ⟨Nat.one_pos, fun _ h => absurd h List.not_mem_nil⟩ .nil, trivial, fun h => by cases h⟩
  refine Obeys.bind (Compiler.certifies_within hP f.height hf stands _ empty) fun compiled h => ?_
  obtain ⟨code, a⟩ := compiled
  obtain ⟨-, fits, holds⟩ := h
  have covers : CodeContext.Covers P ⟨P.guarded, a.tables, 0⟩ a := by
    refine ⟨rfl, .refl _, fun {t} ht => ?_⟩
    have fit := fits.captures
    cases hc : a.captures with
    | nil =>
      rw [hc] at ht
      cases ht
    | cons u us =>
      rw [hc] at fit ht
      cases us with
      | nil =>
        cases ht
        exact Nat.le_of_eq (congrArg List.length fit)
      | cons _ _ => exact fit.elim
  have nested : bare.Nested 0 := trivial
  have certified := (holds _ covers).mono fun _ (_ : True) => .of_none
  refine .pure ⟨.intro (fun c hc => ?_) (fun c hc q hq => ?_), rfl, ⟨_, rfl, rfl, rfl⟩⟩
  · obtain rfl := List.mem_singleton.1 hc
    refine Certified.typed certified (nested.has (Nat.succ_le_succ (Nat.zero_le _))) rfl rfl ?_ rfl rfl rfl rfl
    simp [ArityCode.context]
  · obtain rfl := List.mem_singleton.1 hc
    exact fits.prototypes q (by simpa using hq)

end TwinLisp
