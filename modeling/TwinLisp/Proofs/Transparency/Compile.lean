import TwinLisp.Bytecode.Compile
import TwinLisp.Proofs.Correspondence.Template
import TwinLisp.Proofs.Transparency.Assembly

/-!
# Programs are compiled alike

Both sides compile the same forms, and the code depends on nothing else. So it is the same on both
sides, and the constants correspond.

## Main definitions

* `Compiler.Even`: a compiler that compiles forms alike on both sides.

## Main statements

* `Compiler.Even.step`: every rule keeps to that.
* `compileProgram_match`: a program is compiled to prototypes that correspond.
-/

namespace TwinLisp

variable {e : Terms} {w : World}

/-- A compiler that compiles forms alike on both sides. -/
def Compiler.Even (e : Terms) (c : Compiler) : Prop :=
  ∀ {w : World} {p : CompilePlace} {f : Form}, f.Mentions w.handle → Assembles e w (c p f) (c p f) Same

namespace Assembles

/-- The same function goes on with the same result on both sides. -/
theorem andThen {α γ δ : Type} {T : Related γ δ} {x y : Assemble α} {f : α → Assemble γ}
    {g : α → Assemble δ} (h : Assembles e w x y Same)
    (hfg : ∀ {w'} (a : α), w ≤ w' → Assembles e w' (f a) (g a) T) :
    Assembles e w (x >>= f) (y >>= g) T :=
  h.bind fun {_ a _} hw hab => by
    cases hab
    exact hfg a hw

theorem same {α : Type} (a : α) : Assembles e w (Pure.pure a) (Pure.pure a) Same := pure rfl

/-- Both sides go on with the parts of a form, or fail alike. -/
theorem parts {α β γ : Type} {R : Related β γ} {Q : α → Prop} {x : Except Fault α}
    {f : α → Assemble β} {g : α → Assemble γ} (hx : Parts Q x)
    (h : ∀ a, Q a → Assembles e w (f a) (g a) R) :
    Assembles e w (StateT.lift (Eval.ofExcept x) >>= f) (StateT.lift (Eval.ofExcept x) >>= g) R := by
  intro a b hab
  cases hx with
  | ok ha => exact h _ ha hab
  | malformed => exact fun s t hm _ => .fault (.refl _ _ _) hm (.malformed ..)


theorem constant (p : CompilePlace) {v v' : Value} (hv : v.Match w v') :
    Assembles e w (Compiler.constant p v) (Compiler.constant p v') Same :=
  (addConstant hv).andThen fun _ _ => .same _

theorem named (p : CompilePlace) (name : String) : Assembles e w (Compiler.named p name) (Compiler.named p name) Same := by
  refine (resolve p.functions name).andThen fun d _ => ?_
  cases d with
  | slot i => exact .same _
  | captured i => exact .same _
  | global =>
    refine (lift (Sim.symbol name)).bind fun _ hv => ?_
    exact (addConstant hv).andThen fun _ _ => .same _

theorem leaf (p : CompilePlace) {d : Leaf} {l : Location} (h : (Form.leaf d l).Mentions w.handle) :
    Assembles e w (Compiler.leaf p d) (Compiler.leaf p d) Same := by
  have literal : Assembles e w
      (do Compiler.constant p (← StateT.lift (Eval.valueOfLeaf d)))
      (do Compiler.constant p (← StateT.lift (Eval.valueOfLeaf d))) Same :=
    (lift (Sim.valueOfLeaf (Form.mentions_leaf.1 h))).bind fun _ hv => constant p hv
  cases d with
  | nil => exact .same _
  | bool b => cases b <;> exact .same _
  | symbol name => exact named p name
  | _ => exact literal

theorem inline? (p : CompilePlace) (name : String) (args : List Form) :
    Assembles e w (Compiler.inline? p name args) (Compiler.inline? p name args) Same := by
  unfold Compiler.inline?
  split
  · refine (resolve p.functions name).andThen fun d _ => ?_
    cases d <;> exact .same _
  · exact .same _

theorem parameters (names : List String) (p : CompilePlace) :
    Assembles e w (Compiler.parameters p names) (Compiler.parameters p names) Same := by
  induction names generalizing w p with
  | nil => exact .same _
  | cons name names ih => exact (index _ _).andThen fun _ _ => ih _

theorem define (p : CompilePlace) (name : String) :
    Assembles e w (Compiler.define p name) (Compiler.define p name) Same := by
  refine (lift (Sim.symbol name)).bind fun _ hv => ?_
  exact (addConstant hv).andThen fun _ _ => .same _

end Assembles

namespace Compiler

namespace Even

variable {c : Compiler} (hc : c.Even e)
include hc

/-! ### Several forms -/

theorem values {fs : List Form} (p : CompilePlace) (h : Form.MentionsAll w.handle fs) :
    Assembles e w (c.values p fs) (c.values p fs) Same := by
  induction fs generalizing w p with
  | nil => exact .same _
  | cons f fs ih =>
    obtain ⟨hf, hs⟩ := Form.mentionsAll_cons.1 h
    refine (hc hf).andThen fun code hw => ?_
    exact (ih _ (hs.mono hw)).andThen fun _ _ => .same _

theorem body {fs : List Form} (p : CompilePlace) (h : Form.MentionsAll w.handle fs) :
    Assembles e w (c.body p fs) (c.body p fs) Same := by
  induction fs generalizing w p with
  | nil => exact .same _
  | cons f fs ih =>
    obtain ⟨hf, hs⟩ := Form.mentionsAll_cons.1 h
    cases fs with
    | nil => exact hc hf
    | cons g gs =>
      refine (hc hf).andThen fun code hw => ?_
      exact (ih _ (hs.mono hw)).andThen fun _ _ => .same _

theorem collection {items : List Form} (p : CompilePlace) (build : Nat → Instruction)
    (h : Form.MentionsAll w.handle items) :
    Assembles e w (c.collection p items build) (c.collection p items build) Same :=
  (hc.values p h).andThen fun _ _ => (Assembles.index _ _).andThen fun _ _ => .same _

theorem inlined {args : List Form} (p : CompilePlace) (op : CoreOp)
    (h : Form.MentionsAll w.handle args) : Assembles e w (c.inlined p op args) (c.inlined p op args) Same :=
  (hc.values p h).andThen fun _ _ => (Assembles.addSite _).andThen fun _ _ => .same _

theorem call {head : Form} {args : List Form} (p : CompilePlace)
    (h : Form.MentionsAll w.handle (head :: args)) :
    Assembles e w (c.call p head args) (c.call p head args) Same :=
  (hc.values p h).andThen fun _ _ => (Assembles.addSite _).andThen fun _ _ =>
    (Assembles.index _ _).andThen fun _ _ => .same _

/-! ### Functions -/

theorem overload (p : CompilePlace) (self : Option String) {o : OverloadShape}
    (h : Form.MentionsAll w.handle o.body) :
    Assembles e w (c.overload p self o) (c.overload p self o)
      fun w a b => Prototype.ArityMatch w [a] [b] := by
  refine (Assembles.withTables (R := Same) ?_).bind fun {_ r r'} _ hr => ?_
  · refine (Assembles.parameters _ _).andThen fun inner hw => ?_
    refine (Assembles.index _ _).andThen fun slots hw' => ?_
    exact (hc.body _ ((h.mono hw).mono hw')).andThen fun _ _ => .same _
  · obtain ⟨code, tables⟩ := r
    obtain ⟨code', tables'⟩ := r'
    obtain ⟨rfl, ht⟩ := hr
    dsimp only at ht ⊢
    rw [ht.sites]
    exact .pure (.cons ht.constants ht.prototypes .nil)

theorem overloads (p : CompilePlace) (self : Option String) {os : List OverloadShape}
    (h : ∀ o ∈ os, Form.MentionsAll w.handle o.body) :
    Assembles e w (os.mapM (c.overload p self)) (os.mapM (c.overload p self))
      Prototype.ArityMatch := by
  induction os generalizing w with
  | nil => exact .pure .nil
  | cons o os ih =>
    obtain ⟨ho, hs⟩ := List.forall_mem_cons.1 h
    rw [List.mapM_cons]
    refine (hc.overload p self ho).bind fun hw ha => ?_
    refine (ih fun o ho => (hs o ho).mono hw).bind fun hw' has => .pure ?_
    cases ha.mono hw' with
    | cons hc hp _ => exact .cons hc hp has

theorem prototype (p : CompilePlace) (name : Option String) {os : List OverloadShape}
    (h : ∀ o ∈ os, Form.MentionsAll w.handle o.body) :
    Assembles e w (c.prototype p name os) (c.prototype p name os) Prototype.Match := by
  refine (Assembles.withCaptures (hc.overloads p name h)).bind fun {w₁ r r'} _ hr => ?_
  obtain ⟨arities, captures⟩ := r
  obtain ⟨arities', captures'⟩ := r'
  obtain ⟨ha, hcap⟩ := hr
  dsimp only at ha hcap ⊢
  subst hcap
  cases name with
  | none => exact .pure (.mk nofun ha)
  | some n =>
    rw [Option.mapM_some, map_eq_pure_bind, bind_assoc, bind_assoc]
    refine (Assembles.lift (Sim.internSame n)).bind fun hw hx => ?_
    obtain ⟨rfl, hx⟩ := hx
    exact .pure (.mk (fun _ h => by cases h; exact hx) (ha.mono hw))

/-! ### Special forms -/

theorem conditional {args : List Form} (p : CompilePlace) (h : Form.MentionsAll w.handle args) :
    Assembles e w (c.conditional p args) (c.conditional p args) Same := by
  have part {w' : World} (hw : w ≤ w') (i : Nat) : (args[i]?.getD default).Mentions w'.handle := by
    cases hi : args[i]? with
    | none => exact Form.mentions_default
    | some f => exact (h f (List.mem_of_getElem? hi)).mono hw
  unfold Compiler.conditional
  rw [List.head?_eq_getElem?]
  refine (hc (part le_rfl 0)).andThen fun test hw₁ => ?_
  refine (hc (part hw₁ 1)).andThen fun yes hw₂ => ?_
  refine (Assembles.forward _).andThen fun toElse hw₃ => ?_
  have hw := (hw₁.trans hw₂).trans hw₃
  have ending {w : World} (no : Code) := (Assembles.forward (e := e) (w := w) no.length).andThen
    fun toEnd _ => Assembles.same (test ++ p.emit (.popJumpIfFalse toElse) ++ yes ++
      p.emit (.jump toEnd) ++ no)
  cases hi : args[2]? with
  | none => exact (Assembles.same _).andThen fun _ _ => ending _
  | some f => exact (hc ((h f (List.mem_of_getElem? hi)).mono hw)).andThen fun _ _ => ending _

theorem bind {bs : List Binding} (p : CompilePlace) (h : ∀ b ∈ bs, b.2.Mentions w.handle) :
    Assembles e w (c.bind p bs) (c.bind p bs) Same := by
  induction bs generalizing w p with
  | nil => exact .same _
  | cons b bs ih =>
    obtain ⟨hb, hs⟩ := List.forall_mem_cons.1 h
    refine (hc hb).andThen fun code hw => ?_
    refine (Assembles.index _ _).andThen fun slot hw' => ?_
    exact (ih _ fun b hb => ((hs b hb).mono hw).mono hw').andThen fun _ _ => .same _

theorem binding {f : Form} (p : CompilePlace) (isLoop : Bool) (h : f.Mentions w.handle) :
    Assembles e w (c.binding p isLoop f) (c.binding p isLoop f) Same := by
  refine Assembles.parts (Shape.parts_bindings _ h) fun bs hb => ?_
  refine (Assembles.index _ _).andThen fun firstSlot hw₁ => ?_
  refine (hc.bind p fun b hm => (hb b hm).mono hw₁).andThen fun init hw₂ => ?_
  refine (Assembles.index _ _).andThen fun slots hw₃ => ?_
  have body := (Shape.mentionsAll_bindingBody h).mono ((hw₁.trans hw₂).trans hw₃)
  exact (hc.body _ body).andThen fun _ _ => .same _

theorem recur {args : List Form} (p : CompilePlace) (h : Form.MentionsAll w.handle args) :
    Assembles e w (c.recur p args) (c.recur p args) Same := by
  unfold Compiler.recur
  split
  · exact .lift (.failWith _ rfl)
  · exact (hc.values p h).andThen fun _ _ => (Assembles.backward _ _).andThen fun _ _ => .same _

theorem handled (p : CompilePlace) {shape : AttemptShape} (h : Form.MentionsAll w.handle shape.body)
    (hh : ∀ h ∈ shape.handlers, Form.MentionsAll w.handle h.2) :
    Assembles e w (c.handled p shape) (c.handled p shape) Same := by
  unfold Compiler.handled
  split
  · exact hc.body p h
  · next name forms hs =>
    refine (hc.body _ h).andThen fun inner hw₁ => ?_
    refine (Assembles.forward _).andThen fun toHandler hw₂ => ?_
    refine (Assembles.index _ _).andThen fun slot hw₃ => ?_
    have forms := (hh _ (List.mem_of_mem_head? hs)).mono ((hw₁.trans hw₂).trans hw₃)
    exact (hc.body _ forms).andThen fun _ _ => (Assembles.forward _).andThen fun _ _ => .same _

theorem attempt {f : Form} (p : CompilePlace) (h : f.Mentions w.handle) :
    Assembles e w (c.attempt p f) (c.attempt p f) Same := by
  refine Assembles.parts (Shape.parts_attempt h) fun shape hs => ?_
  obtain ⟨body, handlers, cleanup⟩ := hs
  cases hf : shape.cleanup with
  | none => exact hc.handled p body handlers
  | some forms =>
    have cleanup := cleanup forms hf
    refine (hc.handled _ body handlers).andThen fun inner hw₁ => ?_
    refine (hc.body _ (cleanup.mono hw₁)).andThen fun usual hw₂ => ?_
    refine (Assembles.forward _).andThen fun toCleanup hw₃ => ?_
    refine (hc.body _ (cleanup.mono ((hw₁.trans hw₂).trans hw₃))).andThen fun failing _ => ?_
    exact (Assembles.forward _).andThen fun _ _ => .same _

theorem special {f : Form} (p : CompilePlace) (kind : SpecialForm) (h : f.Mentions w.handle) :
    Assembles e w (c.special p kind f) (c.special p kind f) Same := by
  have args := h.items.sublist (List.drop_sublist 1 _)
  have first : ((f.items.drop 1).head?.getD default).Mentions w.handle := by
    cases hd : f.items.drop 1 with
    | nil => exact Form.mentions_default
    | cons g gs => exact (Form.mentionsAll_cons.1 (hd ▸ args)).1
  have misplaced : Assembles e w
      (StateT.lift (Eval.failWith (.malformed (f.headSymbol?.getD "") .misplaced)) : Assemble Code)
      (StateT.lift (Eval.failWith (.malformed (f.headSymbol?.getD "") .misplaced))) Same :=
    .lift (.failWith _ rfl)
  cases kind with
  | quote =>
    exact (Assembles.lift (Sim.valueOfForm _ first)).bind fun _ hv => Assembles.constant p hv
  | conditional => exact hc.conditional p args
  | sequence => exact hc.body p args
  | letBinding => exact hc.binding p false h
  | loop => exact hc.binding p true h
  | recur => exact hc.recur p args
  | function =>
    refine Assembles.parts (Shape.parts_function h) fun shape hs => ?_
    refine (hc.prototype p shape.name hs).bind fun _ hp => ?_
    exact (Assembles.addPrototype hp).andThen fun _ _ => .same _
  | definition =>
    refine Assembles.parts (Shape.parts_definition h) fun d hd => ?_
    obtain ⟨name, value⟩ := d
    cases value with
    | none => exact (Assembles.define p name).andThen fun _ _ => .same _
    | some f => exact (hc (hd f rfl)).andThen fun _ _ => (Assembles.define p name).andThen fun _ _ => .same _
  | macroDefinition =>
    refine Assembles.parts (Shape.parts_macroDefinition h) fun d hd => ?_
    refine (hc.prototype p _ hd).bind fun _ hp => ?_
    exact (Assembles.addPrototype hp).andThen fun _ _ => (Assembles.define p d.1).andThen fun _ _ => .same _
  | raise => exact (hc first).andThen fun _ _ => .same _
  | attempt => exact hc.attempt p h
  | template => exact misplaced
  | handler => exact misplaced
  | cleanup => exact misplaced

/-- **Every form is compiled alike**, if its parts are. -/
theorem step {f : Form} (p : CompilePlace) (h : f.Mentions w.handle) :
    Assembles e w (Compiler.step c p f) (Compiler.step c p f) Same := by
  cases f with
  | leaf d l => exact .leaf _ h
  | group b items l =>
    have hi := Form.mentions_group.1 h
    cases b with
    | vector => exact hc.collection _ _ hi
    | map => exact hc.collection _ _ hi
    | set => exact hc.collection _ _ hi
    | list =>
      cases items with
      | nil => exact .same _
      | cons head args =>
        unfold Compiler.step
        dsimp only
        cases head.symbolName? with
        | none => exact hc.call _ hi
        | some name =>
          dsimp only
          cases SpecialForm.ofName? name with
          | some kind => exact hc.special _ kind h
          | none =>
            refine (Assembles.inline? _ name args).andThen fun op hw => ?_
            cases op with
            | some op => exact hc.inlined _ op ((Form.mentionsAll_cons.1 hi).2.mono hw)
            | none => exact hc.call _ (hi.mono hw)

end Even

theorem even_within (levels : Nat) : (within levels).Even e := by
  induction levels with
  | zero => exact fun _ _ _ _ _ _ hm _ => .outOfFuel hm.eq
  | succ levels ih => exact fun h => Even.step ih _ h

end Compiler

/-- **Programs are compiled alike.** -/
theorem compileProgram_match {f : Form} (h : f.Mentions w.handle) :
    Sim (.transparent e) false w (compileProgram f) (compileProgram f) Prototype.Match := by
  have start : Assembly.Match w ⟨.empty, [[]]⟩ ⟨.empty, [[]]⟩ := ⟨.empty, rfl⟩
  refine Sim.bind (Compiler.even_within f.height h start) fun {_ r r'} _ hr => ?_
  obtain ⟨code, a⟩ := r
  obtain ⟨code', a'⟩ := r'
  obtain ⟨rfl, ha⟩ := hr
  dsimp only at ha ⊢
  rw [ha.tables.sites]
  exact .pure (.mk nofun (.cons ha.tables.constants ha.tables.prototypes .nil))

end TwinLisp
