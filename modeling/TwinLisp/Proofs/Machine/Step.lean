import TwinLisp.Proofs.Conduct.Native
import TwinLisp.Proofs.Machine.Stack

/-!
# A step of the machine

Every instruction of well-formed code does what its level says. Unless heights are not exact, it finds its
operands; it finds what it refers to in any case. A step never stops with a failure of its own: failures are
handed to the machine.

## Main definitions

* `Policy.Runs`: a policy that lets the machine run.
* `Progress.Fits`: what is known after a step.

## Main statements

* `Machine.Running.step`: a step of a running machine fits.
-/

namespace TwinLisp

/-- The functions that the policy allows are those that the machine makes. Operands are left as they are if
heights are exact. -/
structure Policy.Runs (P : Policy) (exact : Prop) : Prop where
  admits (f : Function) : P.admits f ↔ f.IsCompiled P.guarded exact
  missing : ¬ exact → P.mayFail (.defect .stackUnderflow)
  restores : P.restores ↔ exact

/-- What is known after a step of the machine `m`. -/
def Progress.Fits (P : Policy) (exact : Prop) (base : Nat) (under : Array Value) (m : Machine) (t : Session) :
    Progress → Prop
  | .running m' => ∃ ls L, m'.Running P exact base under t ls L
  | .finished m' _ => m.callers = [] ∧ m.handlers = [] ∧ m.held = [] ∧ t.callDepth = base ∧
      (exact → m'.operands = under)
  | .failed m' f => (∃ ls shapes n, m'.Failing P exact base under t ls shapes n) ∧ P.mayFail f.cause

/-- The machine runs an instruction that was fetched at level `L`, in a call that is `depth` levels deep. -/
structure Machine.Fetched (P : Policy) (exact : Prop) (base depth : Nat) (under : Array Value) (ls : List Level)
    (L : Level) (m : Machine) : Prop where
  around : Around P.guarded exact base under ls L.handlers L.held m.top m.callers m.handlers m.held.length depth
  floor : m.floor = under.size
  operands : exact → Stacked under m.top.bottom L.height m.operands
  causes : ∀ f ∈ m.held, P.mayFail f.cause

variable {P : Policy} {exact : Prop} {base depth : Nat} {under : Array Value} {s t : Session} {ls : List Level}
variable {L L' : Level} {m m₀ : Machine} {α : Type} {Q : α → Prop}

/-! ### Ways for a step to end -/

/-- What is known of the step of a machine that ends in some way. -/
abbrev StepFits (P : Policy) (exact : Prop) (base : Nat) (under : Array Value) (m : Machine) (s : Session)
    (r : EStateM.Result Stop Session Progress) : Prop :=
  Lands P s (fun p t => p.Fits P exact base under m t) (fun _ _ => False) r

namespace Machine.Fetched

variable (hm : m.Fetched P exact base depth under ls L)
include hm

/-- The machine goes on at another level of the frame. -/
theorem go (ht : t.callDepth = depth) {ip : Nat} {operands : Array Value}
    (level : ls[ip]? = some L') (handlers : L'.handlers = L.handlers) (held : L'.held = L.held)
    (plain : L'.isMacro = false) (stacked : exact → Stacked under m.top.bottom L'.height operands) :
    (Progress.running { m with top := { m.top with ip }, operands }).Fits P exact base under m₀ t := by
  refine ⟨ls, L', ?_, level, hm.floor, stacked, fun h => ?_, hm.causes⟩
  · rw [handlers, held, ht]
    exact hm.around.move rfl rfl rfl rfl
  · rw [plain] at h
    cases h

/-- The machine has failed, after it has taken off no more operands than it may. -/
theorem fail (ht : t.callDepth = depth) {pops ip height : Nat} (has : L.Has pops) {operands : Array Value}
    (low : L.height - pops ≤ height) (stacked : exact → Stacked under m.top.bottom height operands) {f : Fault}
    (hf : P.mayFail f.cause) :
    (Progress.failed { m with top := { m.top with ip }, operands } f).Fits P exact base under m₀ t := by
  refine ⟨⟨ls, L.handlers, L.held, ?_, ⟨L.height - pops, has.2, fun e => ?_⟩, hm.floor,
    fun e => (stacked e).started, hm.causes⟩, hf⟩
  · rw [ht]
    exact hm.around.move rfl rfl rfl rfl
  · rw [(stacked e).size]
    exact Nat.add_le_add_left low _

/-- Operands are missing, which does not happen if heights are exact. -/
theorem broken (hP : P.Runs exact) (hd : s.callDepth = depth) {pops : Nat} (has : L.Has pops) (he : ¬ exact) :
    StepFits P exact base under m₀ s (.ok (m.broken .stackUnderflow) s) :=
  .ok (.refl s) (hm.fail hd has (Nat.sub_le ..) (fun e => absurd e he) (hP.missing he))

/-! ### Taking operands off -/

theorem pop (h : 1 ≤ L.height) :
    (∃ v, m.pop? = some (v, m.withOperands m.operands.pop) ∧ m.operands.back? = some v ∧
      (exact → Stacked under m.top.bottom (L.height - 1) m.operands.pop)) ∨ (m.pop? = none ∧ ¬ exact) := by
  unfold Machine.pop?
  cases hb : m.operands.back? with
  | some v => exact .inl ⟨v, rfl, rfl, fun e => (hm.operands e).pop h⟩
  | none =>
    refine .inr ⟨rfl, fun e => ?_⟩
    have size := (hm.operands e).size
    have empty : m.operands.size = 0 := by simpa using hb
    omega

theorem topmost {n : Nat} (h : n ≤ L.height) :
    (∃ vs, m.topmost? n = some vs ∧ vs.length = n) ∨ (m.topmost? n = none ∧ ¬ exact) := by
  unfold Machine.topmost?
  dsimp only
  split
  · next hn =>
    refine .inl ⟨_, rfl, ?_⟩
    simp
    omega
  · next hn =>
    refine .inr ⟨rfl, fun e => hn ?_⟩
    rw [(hm.operands e).size]
    omega

theorem popMany {n : Nat} (h : n ≤ L.height) :
    (∃ vs, m.popMany? n = some (vs, m.drop n) ∧ vs.length = n) ∨ (m.popMany? n = none ∧ ¬ exact) := by
  unfold Machine.popMany?
  rcases hm.topmost h with ⟨vs, hvs, count⟩ | ⟨none, he⟩
  · rw [hvs]
    exact .inl ⟨vs, rfl, count⟩
  · rw [none]
    exact .inr ⟨rfl, he⟩

end Machine.Fetched

/-! ### Running a computation -/

/-- The machine runs a computation and goes on with its result. -/
theorem StepFits.landing {x : Eval α} {next : Machine → α → Progress} {S : α → Session → Prop}
    {F : Fault → Session → Prop} (hx : Lands P s S F (x s))
    (ok : ∀ a t, S a t → (next m a).Fits P exact base under m₀ t)
    (error : ∀ f t, F f t → (Progress.failed m f).Fits P exact base under m₀ t) :
    StepFits P exact base under m₀ s (m.trying x next s) := by
  unfold Machine.trying
  cases hr : x s with
  | ok a t =>
    have attempted : Eval.attempt x s = .ok (.ok a) t := by rw [Eval.attempt, hr]
    rw [hr] at hx
    rw [Eval.bind_eq_of_ok attempted]
    exact .ok hx.1 (ok a t hx.2)
  | error e t =>
    rw [hr] at hx
    cases e with
    | fault f =>
      have attempted : Eval.attempt x s = .ok (.error f) t := by rw [Eval.attempt, hr]
      rw [Eval.bind_eq_of_ok attempted]
      exact .ok hx.1 (error f t hx.2)
    | outOfFuel =>
      have attempted : Eval.attempt x s = .error .outOfFuel t := by rw [Eval.attempt, hr]
      rw [Eval.bind_eq_of_error attempted]
      exact hx

/-- The machine goes on after a collection. -/
theorem StepFits.collecting (hs : s.Sound P) (roots : Unit → List Node) {next : Eval Progress}
    (h : ∀ t, s.Leads P t → StepFits P exact base under m t (next t)) :
    StepFits P exact base under m s ((do Eval.maybeCollect roots; next) s) := by
  obtain ⟨t, ht, leads⟩ := Obeys.maybeCollect_eq roots hs
  rw [Eval.bind_eq_of_ok ht]
  exact (h t leads).after leads.toDrifts

namespace Machine.Fetched

/-- The machine goes on behind the instruction with a value pushed. -/
theorem push (hm : m.Fetched P exact base depth under ls L) (ht : t.callDepth = depth) {pops : Nat}
    {operands : Array Value} (stacked : exact → Stacked under m.top.bottom (L.height - pops) operands)
    (level : ls[m.top.ip]? = some (L.moved pops 1)) (v : Value) :
    (Progress.running ((m.withOperands operands).push v)).Fits P exact base under m₀ t :=
  hm.go ht level rfl rfl rfl fun e => (stacked e).push v

/-- The machine goes on behind the instruction with a value pushed on all its operands. -/
theorem grow (hm : m.Fetched P exact base depth under ls L) (ht : t.callDepth = depth)
    (level : ls[m.top.ip]? = some (L.moved 0 1)) (v : Value) :
    (Progress.running (m.push v)).Fits P exact base under m₀ t :=
  hm.go ht level rfl rfl rfl fun e => (hm.operands e).push v

/-- The machine pushes the result of a computation, after it has taken off its operands. -/
theorem pushing (hm : m.Fetched P exact base depth under ls L) (hs : s.Sound P) (hd : s.callDepth = depth)
    {x : Eval Value} (hx : Obeys P x ⊤) {pops : Nat} (has : L.Has pops) {operands : Array Value}
    (stacked : exact → Stacked under m.top.bottom (L.height - pops) operands)
    (level : ls[m.top.ip]? = some (L.moved pops 1)) :
    StepFits P exact base under m₀ s ((m.withOperands operands).pushing x s) :=
  .landing
    (.of_ends (hx s hs) (S := fun _ t => t.callDepth = depth)
      (F := fun f t => t.callDepth = depth ∧ P.mayFail f.cause)
      (fun _ _ _ ht _ => ht.callDepth.trans hd) fun _ _ ht hf => ⟨ht.callDepth.trans hd, hf⟩)
    (fun v _ ht => hm.push ht stacked level v)
    fun _ _ h => hm.fail h.1 has (Nat.le_refl _) stacked h.2

/-- The machine lends its operands to a computation and pushes the result. -/
theorem lending (hP : P.Runs exact) (hm : m.Fetched P exact base depth under ls L) (hs : s.Sound P)
    (hd : s.callDepth = depth) {x : Eval Value} (hx : Obeys P x ⊤) {pops : Nat} (has : L.Has pops)
    {operands : Array Value} (stacked : exact → Stacked under m.top.bottom (L.height - pops) operands)
    (level : ls[m.top.ip]? = some (L.moved pops 1)) :
    StepFits P exact base under m₀ s ((m.withOperands operands).lending x s) := by
  refine Lands.bind hs (.lending hx hs operands
    (S := fun r t => t.callDepth = depth ∧ (exact → r.1 = operands) ∧ Permitted P ⊤ r.2)
    fun r t ht same permitted => ⟨ht.callDepth.trans hd, fun e => same (hP.restores.2 e), permitted⟩)
    fun r t _ _ h => ?_
  obtain ⟨left, outcome⟩ := r
  obtain ⟨ht, same, permitted⟩ := h
  have stacked (e : exact) : Stacked under m.top.bottom (L.height - pops) left := by
    rw [show left = operands from same e]
    exact stacked e
  cases permitted with
  | ok _ => exact .ok (.refl t) (hm.push ht stacked level _)
  | error hf => exact .ok (.refl t) (hm.fail ht has (Nat.le_refl _) stacked hf)

variable (hm : m.Fetched P exact base depth under ls L)
include hm

/-! ### Operators and collections -/

theorem binary (hP : P.Runs exact) (hs : s.Sound P) (hd : s.callDepth = depth) (has : L.Has 2)
    (level : ls[m.top.ip]? = some (L.moved 2 1)) {site : Nat} (range : site < m.top.code.sites.size)
    {operation : Value → Value → Except NumericFault Value}
    (ho : ∀ a b, Numeric.FailsOrdinarily (operation a b)) :
    StepFits P exact base under m s (m.binary site operation s) := by
  unfold Machine.binary
  rcases hm.pop (Nat.le_of_succ_le has.1) with ⟨b, hb, -, stacked⟩ | ⟨none, he⟩
  · rw [hb]
    dsimp only
    cases ha : (m.withOperands m.operands.pop).operands.back? with
    | none =>
      have second : (m.withOperands m.operands.pop).pop? = none := by
        unfold Machine.pop?
        rw [ha]
      rw [second]
      have he : ¬ exact := fun e => by
        have size := (stacked e).size
        have empty : m.operands.pop.size = 0 := by
          rw [Array.size_eq_zero_iff]
          simpa [Machine.withOperands] using ha
        have := has.1
        omega
      exact .ok (.refl s) (hm.fail hd has (Nat.sub_le ..) (fun e => absurd e he) (hP.missing he))
    | some a =>
      have found : (m.withOperands m.operands.pop.pop).site? site = some (m.top.code.sites[site]) :=
        Array.getElem?_eq_getElem range
      have second : (m.withOperands m.operands.pop).pop? = some (a, m.withOperands m.operands.pop.pop) := by
        unfold Machine.pop?
        rw [ha]
        rfl
      rw [second]
      dsimp only
      rw [found]
      have stacked (e : exact) : Stacked under m.top.bottom (L.height - 2) m.operands.pop.pop :=
        (stacked e).pop (Nat.le_sub_of_add_le has.1)
      exact hm.pushing hs hd (.attributed (.settle 0 (ho a b)) _ _) has stacked level
  · rw [none]
    exact hm.broken hP hd has he

theorem build (hP : P.Runs exact) (hs : s.Sound P) (hd : s.callDepth = depth) {n : Nat} (has : L.Has n)
    (level : ls[m.top.ip]? = some (L.moved n 1)) {make : List Value → Eval Value}
    (hx : ∀ vs, Obeys P (make vs) ⊤) : StepFits P exact base under m s (m.build n make s) := by
  unfold Machine.build
  rcases hm.popMany has.1 with ⟨vs, hvs, -⟩ | ⟨none, he⟩
  · rw [hvs]
    exact hm.pushing hs hd (hx vs) has (fun e => (hm.operands e).drop has.1) level
  · rw [none]
    exact hm.broken hP hd has he

/-! ### Names -/

theorem loadGlobal (hd : s.callDepth = depth) (has : L.Has 0) (level : ls[m.top.ip]? = some (L.moved 0 1))
    {i : Nat} {name : Symbol}
    (range : m.top.code.constants[i]? = some (.symbol name)) :
    StepFits P exact base under m s (m.loadGlobal i s) := by
  have constant : m.constant? i = some (.symbol name) := range
  unfold Machine.loadGlobal
  rw [constant]
  dsimp only
  rw [Eval.bind_eq_of_ok (show (get : Eval Session) s = .ok s s from rfl)]
  cases s.global? name with
  | some v => exact .ok (.refl s) (hm.grow hd level _)
  | none =>
    refine .ok (.refl s) (hm.fail hd has (Nat.le_refl _) hm.operands ?_)
    rw [Fault.cause_located]
    exact P.ordinary trivial

/-- A name that is bound at the root is not guarded, or is bound to a macro. -/
theorem defGlobal (hP : P.Runs exact) (hd : s.callDepth = depth)
    (macros : L.isMacro = true → ∀ v, m.operands.back? = some v → ∀ n, s.Denotes v n)
    (has : L.Has 1) (level : ls[m.top.ip]? = some (L.moved 1 1))
    {i : Nat} {name : Symbol} (range : m.top.code.constants[i]? = some (.symbol name))
    (plain : L.isMacro = false → P.guarded name = none) :
    StepFits P exact base under m s (m.defGlobal i s) := by
  have constant : m.constant? i = some (.symbol name) := range
  unfold Machine.defGlobal
  rw [constant]
  rcases hm.pop has.1 with ⟨v, hv, top, size⟩ | ⟨none, he⟩
  · rw [hv]
    have permitted : Session.Change P s { s with scopes := s.scopes.define Scopes.root name v } := by
      refine .defineGlobal fun n hn => ?_
      cases hL : L.isMacro with
      | true => exact macros hL v top n
      | false =>
        rw [plain hL] at hn
        cases hn
    refine .ok (Session.Leads.single permitted rfl rfl rfl rfl rfl rfl).toDrifts (hm.push ?_ size level _)
    exact hd
  · rw [none]
    exact hm.broken hP hd has he

end Machine.Fetched

/-! ### Calls -/

/-- A function that is called is compiled to well-formed code. -/
theorem Obeys.callee (hP : P.Runs exact) (v : Value) (site : Location) :
    Obeys P (Callee.of v site) fun c => ∀ q captured, c = .compiled q captured →
      q.Each (ArityCode.Typed P.guarded) ∧ q.captures.length = captured.size ∧
        (exact → q.Each ArityCode.Uncut) := by
  unfold Callee.of
  split
  · refine ((Obeys.callable _).blaming site).bind fun f hf => ?_
    have compiled := (hP.admits f).1 hf
    unfold Function.IsCompiled at compiled
    split
    · next body =>
      rw [body] at compiled
      refine .pure fun q captured e => ?_
      cases e
      exact compiled
    · exact .pure fun _ _ => nofun
    · next body =>
      rw [body] at compiled
      exact compiled.elim
  all_goals first
    | exact .pure fun _ _ => nofun
    | exact (Obeys.failWith (P.ordinary (by trivial))).blaming site

/-- The frame stands at the start of well-formed code, with the slots that the code expects. -/
def Frame.Starts (P : Policy) (exact : Prop) (f : Frame) (slots : Array Value) : Prop :=
  ∃ ls, f.Runs P.guarded exact ls ∧ ls[f.ip]? = some f.code.entry ∧ slots.size = f.code.entry.height

/-- If the operand for further arguments cannot be made, the call is left again. -/
theorem Lands.restOperand (hs : s.Sound P) (hasRest : Bool) (extra : List Value) {depth : Nat}
    (hd : s.callDepth = depth + 1) :
    Lands P s (fun vs t => t.callDepth = depth + 1 ∧ vs.length = if hasRest then 1 else 0)
      (fun f t => t.callDepth = depth ∧ P.mayFail f.cause) (Machine.restOperand hasRest extra s) := by
  have argument : Obeys P (Machine.restArgument extra) ⊤ := by
    unfold Machine.restArgument
    split
    · exact .done _
    · exact .newList _
  unfold Machine.restOperand
  cases hasRest with
  | false => exact .ok (.refl s) ⟨hd, rfl⟩
  | true =>
    refine Lands.bind hs (.attempt argument hs (S := fun r t => Permitted P ⊤ r ∧ t.callDepth = depth + 1)
      fun r t ht hr => ⟨hr, ht.callDepth.trans hd⟩) fun r t _ sound h => ?_
    obtain ⟨permitted, hd⟩ := h
    cases permitted with
    | ok _ => exact .ok (.refl t) ⟨hd, rfl⟩
    | @error f hf =>
      have left : t.Drifts P { t with callDepth := t.callDepth - 1 } :=
        (Session.Drifts.refl t).setCallDepth _
      exact ⟨left, Nat.sub_eq_of_eq_add hd, hf⟩

theorem Lands.enterCall : Lands P s (fun _ t => t.callDepth = s.callDepth + 1)
    (fun f t => t.callDepth = s.callDepth ∧ P.mayFail f.cause) (Eval.enterCall s) := by
  rw [Obeys.enterCall_eq]
  split
  · exact ⟨.refl s, rfl, P.ordinary trivial⟩
  · exact .ok ((Session.Drifts.refl s).setCallDepth _) rfl

/-- **A frame that is made for a call starts well-formed code**, and the call is counted. If it cannot be
made, no call is counted. -/
theorem Lands.enter (hs : s.Sound P) (callee : Value) {q : Prototype} {captured : Array Value}
    (typed : q.Each (ArityCode.Typed P.guarded)) (captures : q.captures.length = captured.size)
    (uncut : exact → q.Each ArityCode.Uncut) (args : List Value) (bottom : Nat) (site : Location) :
    Lands P s
      (fun r t => r.1.Starts P exact r.2 ∧ r.1.isCounted = true ∧ r.1.bottom = bottom ∧
        t.callDepth = s.callDepth + 1)
      (fun f t => t.callDepth = s.callDepth ∧ P.mayFail f.cause)
      (Machine.enter callee q captured args bottom site s) := by
  unfold Machine.enter
  refine .blaming ?_ site fun f t h => ⟨h.1, by simpa using h.2⟩
  cases selected : q.selectArity? args.length with
  | none =>
    have refused : Obeys P (do
        Eval.failWith (.arity (← Eval.calleeName q.name) (Overload.accepts q.overloads) args.length)
          : Eval (Frame × Array Value)) fun _ => False := by
      refine (Obeys.calleeName _).andThen fun _ => ?_
      exact .failWith (P.ordinary (by trivial))
    exact .of_ends (refused s hs) (fun _ _ _ _ => False.elim) fun f t ht hf => ⟨ht.callDepth, hf⟩
  | some code =>
    refine Lands.bind hs .enterCall fun _ t _ sound entered => ?_
    refine Lands.bind sound (.restOperand sound _ _ entered) fun vs u _ _ h => ?_
    obtain ⟨depth, length⟩ := h
    refine .ok (.refl u) ⟨?_, rfl, rfl, depth⟩
    have mem : code ∈ q.arities := Prototype.mem_of_select selected
    obtain ⟨ls, typedBy⟩ := typed.code code mem
    rw [captures] at typedBy
    refine ⟨ls, ⟨typedBy, typed.inner code mem, fun e => ⟨?_, (uncut e).inner code mem⟩⟩,
      typedBy.entry, ?_⟩
    · have := (uncut e).code code mem
      rwa [captures] at this
    · have params := Prototype.params_le_of_select selected
      simp [ArityCode.entry, length]
      omega

namespace Machine.Fetched

variable (hm : m.Fetched P exact base depth under ls L)
include hm

/-- A frame starts above the one that calls, which waits for the result. -/
theorem enter {pops : Nat} (has : L.Has pops) (level : ls[m.top.ip]? = some (L.moved pops 1))
    {frame : Frame} {slots : Array Value} (starts : frame.Starts P exact slots)
    (counted : frame.isCounted = true) (bottom : frame.bottom = m.operands.size - pops)
    (ht : t.callDepth = depth + 1) :
    (Progress.running ((m.drop pops).calling frame slots)).Fits P exact base under m₀ t := by
  obtain ⟨ls', runs', start, height⟩ := starts
  obtain ⟨hs, beneath, held, outer, waiting, runs, installed, handlers, total, nested⟩ := hm.around.split
  have left (e : exact) : frame.bottom = m.top.bottom + (L.height - pops) := by
    have enough := has.1
    rw [bottom, (hm.operands e).size]
    omega
  have backs : m.top.Backs exact frame.bottom L.handlers L.held :=
    ⟨_, has.2, fun e => Nat.le_of_eq (left e).symm⟩
  have caller : Waiting P.guarded exact base under (m.top :: m.callers)
      (hs ++ beneath) (held + L.held) (outer + m.top.counts) frame.bottom := by
    refine .cons (L := L.moved pops 1) waiting runs level rfl (fun e => ?_) backs installed
    rw [left e]
    rfl
  have counts : frame.counts = 1 := by rw [Frame.counts, if_pos counted]
  have around : Around P.guarded exact base under ls' [] 0 frame (m.top :: m.callers)
      m.handlers m.held.length t.callDepth := by
    refine .join (k := []) caller runs' .nil handlers total ?_
    rw [ht, nested, counts]
  refine ⟨ls', _, around, start, hm.floor, fun e => ?_, (fun h => by cases h), hm.causes⟩
  have beneath := (hm.operands e).drop has.1
  rw [← height]
  exact beneath.call (left e) slots

theorem call (hP : P.Runs exact) (hs : s.Sound P) (hd : s.callDepth = depth)
    {natives : NativeRunner} (hn : natives.Obedient P)
    {back : Caller} (hb : back.Obedient P) {argc site : Nat} (has : L.Has (argc + 1))
    (level : ls[m.top.ip]? = some (L.moved (argc + 1) 1)) (range : site < m.top.code.sites.size) :
    StepFits P exact base under m s (m.call natives back argc site s) := by
  have found : m.site? site = some m.top.code.sites[site] := Array.getElem?_eq_getElem range
  unfold Machine.call
  rw [found]
  rcases hm.topmost has.1 with ⟨vs, hvs, count⟩ | ⟨none, he⟩
  · obtain ⟨callee, args, rfl⟩ : ∃ callee args, vs = callee :: args :=
      List.exists_cons_of_length_eq_add_one count
    rw [hvs]
    dsimp only
    generalize m.top.code.sites[site].head?.getD .unknown = l
    have failed {t : Session} {f : Fault} (h : t.callDepth = depth ∧ P.mayFail f.cause) :
        (Progress.failed m f).Fits P exact base under m t :=
      hm.fail h.1 has (Nat.sub_le ..) hm.operands h.2
    have below (e : exact) := (hm.operands e).drop has.1
    refine Lands.bind hs (.attempt (Obeys.callee hP callee l) hs
      (S := fun r t => t.callDepth = depth ∧ Permitted P _ r) fun _ _ ht h => ⟨ht.callDepth.trans hd, h⟩)
      fun r t _ sound h => ?_
    obtain ⟨ht, permitted⟩ := h
    cases permitted with
    | error hf => exact .ok (.refl t) (failed ⟨ht, hf⟩)
    | @ok c hc =>
      cases c with
      | compiled q captured =>
        obtain ⟨typed, captures, uncut⟩ := hc q captured rfl
        refine StepFits.landing (.enter sound callee typed captures uncut args _ l) ?_ ?_
        · intro r u h
          obtain ⟨starts, counted, bottom, entered⟩ := h
          exact hm.enter has level starts counted bottom (entered.trans (by rw [ht]))
        · exact fun f u h => failed ⟨h.1.trans ht, h.2⟩
      | native n => exact hm.lending hP sound ht (.attributed (hn hb n args) _ _) has below level
      | data => exact hm.pushing sound ht (.attributed (.callData _ _) _ _) has below level
  · rw [none]
    exact hm.broken hP hd has he

/-- The frame beneath goes on with the result, if there is one. -/
theorem leave (handlers : L.handlers = []) (held : L.held = 0) (ht : t.callDepth + m.top.counts = depth)
    {operands : Array Value} {height : Nat} (stacked : exact → Stacked under m.top.bottom height operands)
    (v : Value) : ((m.withOperands operands).leave v).Fits P exact base under m t := by
  obtain ⟨hs, beneath, below, outer, waiting, -, installed, beneath_eq, total, nested⟩ := hm.around.split
  rw [handlers] at installed
  obtain rfl := installed.eq_nil
  rw [held] at total
  have depth_eq : t.callDepth = outer := by omega
  have cut (e : exact) : Stacked under m.top.bottom 0 (operands.shrink m.top.bottom) :=
    (stacked e).shrink (Nat.zero_le _)
  generalize hbottom : m.top.bottom = bottom at waiting
  cases hc : m.callers with
  | nil =>
    rw [hc] at waiting
    rw [leave_of_nil (m := m.withOperands operands) hc]
    cases waiting with
    | nil start =>
      refine ⟨hc, beneath_eq, List.eq_nil_of_length_eq_zero total, depth_eq, fun e => ?_⟩
      have cut := cut e
      rw [hbottom, start e] at cut
      show operands.shrink m.top.bottom = under
      rw [hbottom, start e]
      exact cut.eq_under
  | cons caller callers =>
    rw [hc] at waiting
    rw [leave_of_cons (m := m.withOperands operands) hc]
    cases waiting with
    | @cons _ _ ls' L' hs' beneath' below' outer' _ waiting runs level plain height backs installed' =>
      refine ⟨ls', L', ?_, level, hm.floor, fun e => ?_, fun h => ?_, hm.causes⟩
      · exact (Around.join waiting runs installed' beneath_eq total depth_eq).move rfl rfl rfl rfl
      · refine ((cut e).push v).recount (waiting.above e) ?_
        rw [hbottom]
        exact height e
      · rw [plain] at h
        cases h

theorem ret (hP : P.Runs exact) (hd : s.callDepth = depth) (has : L.Has 1) (handlers : L.handlers = [])
    (held : L.held = 0) : StepFits P exact base under m s (m.ret s) := by
  unfold Machine.ret
  rcases hm.pop has.1 with ⟨v, hv, -, stacked⟩ | ⟨none, he⟩
  · rw [hv]
    dsimp only
    have same : (m.withOperands m.operands.pop).top.isCounted = m.top.isCounted := rfl
    rw [same]
    cases hc : m.top.isCounted with
    | true =>
      have counts : m.top.counts = 1 := by rw [Frame.counts, if_pos hc]
      have positive : 1 ≤ depth := by
        obtain ⟨_, _, _, _, _, _, _, _, _, nested⟩ := hm.around.split
        omega
      refine .ok ((Session.Drifts.refl s).setCallDepth (s.callDepth - 1)) ?_
      refine hm.leave handlers held ?_ stacked v
      change s.callDepth - 1 + m.top.counts = depth
      omega
    | false =>
      have counts : m.top.counts = 0 := by rw [Frame.counts, if_neg (by simp [hc])]
      have depth_eq : s.callDepth + m.top.counts = depth := by omega
      exact .ok (.refl s) (hm.leave handlers held depth_eq stacked v)
  · rw [none]
    exact hm.broken hP hd has he

/-! ### Closures -/

/-- What a closure captures is there. -/
theorem captured {c : Capture} (fits : c.FitsIn L.height m.top.captured.size) :
    (∃ v, m.captured c = .ok v) ∨ (m.captured c = .error .stackUnderflow ∧ ¬ exact) := by
  cases c with
  | fromSlot i =>
    have slot : m.captured (.fromSlot i) =
      (m.slot? i).elim (.error .stackUnderflow) .ok := rfl
    rw [slot]
    cases ho : m.slot? i with
    | some v => exact .inl ⟨v, rfl⟩
    | none =>
      refine .inr ⟨rfl, fun e => ?_⟩
      have bound : i < L.height := fits
      rw [Machine.slot?, Array.getElem?_eq_none_iff, (hm.operands e).size] at ho
      omega
  | fromCapture i =>
    have bound : i < m.top.captured.size := fits
    exact .inl ⟨m.top.captured[i], by simp [Machine.captured, bound]⟩

theorem capture {cs : List Capture} (fits : ∀ c ∈ cs, c.FitsIn L.height m.top.captured.size) :
    (∃ vs, cs.mapM m.captured = .ok vs ∧ vs.length = cs.length) ∨
      (cs.mapM m.captured = .error .stackUnderflow ∧ ¬ exact) := by
  induction cs with
  | nil => exact .inl ⟨[], rfl, rfl⟩
  | cons c cs ih =>
    obtain ⟨first, rest⟩ := List.forall_mem_cons.1 fits
    rw [List.mapM_cons]
    rcases hm.captured first with ⟨v, hv⟩ | ⟨missing, he⟩
    · rw [hv]
      rcases ih rest with ⟨vs, hvs, length⟩ | ⟨missing, he⟩
      · rw [hvs]
        exact .inl ⟨v :: vs, rfl, by simp [length]⟩
      · rw [missing]
        exact .inr ⟨rfl, he⟩
    · rw [missing]
      exact .inr ⟨rfl, he⟩

/-- A closure is made of well-formed code. Where it is a macro, it may stand for any native function. -/
theorem closure (hP : P.Runs exact) (hs : s.Sound P) (hd : s.callDepth = depth) {i : Nat} {isMacro : Bool}
    {q : Prototype} (has : L.Has 0) (found : m.top.code.prototypes[i]? = some q)
    (fits : ∀ c ∈ q.captures, c.FitsIn L.height m.top.captured.size)
    (level : ls[m.top.ip]? = some { L.moved 0 1 with isMacro }) :
    StepFits P exact base under m s (m.closure i isMacro s) := by
  obtain ⟨_, _, _, _, _, runs, _⟩ := hm.around.split
  have mem : q ∈ m.top.code.prototypes := List.mem_of_getElem? found
  unfold Machine.closure
  rw [found]
  dsimp only
  unfold Machine.capture
  rcases hm.capture fits with ⟨vs, hvs, length⟩ | ⟨missing, he⟩
  · rw [hvs]
    have compiled : P.admits { name := q.name, isMacro, body := .compiled q vs.toArray } :=
      (hP.admits _).2 ⟨runs.inner q mem, by simp [length], fun e => (runs.uncut e).2 q mem⟩
    dsimp only
    generalize hf : Function.mk q.name isMacro (.compiled q vs.toArray) = made at compiled ⊢
    have obeys : Obeys P (Eval.new (.function made)) ⊤ := .new fun f e => by
      cases e
      exact compiled
    refine .landing (.of_ends (obeys s hs)
      (S := fun v t => t.callDepth = depth ∧ (isMacro = true → ∀ n, t.Denotes v n))
      (F := fun f t => t.callDepth = depth ∧ P.mayFail f.cause)
      (fun v t e ht _ => ⟨ht.callDepth.trans hd, fun expands n => ?_⟩)
      fun _ _ ht hf => ⟨ht.callDepth.trans hd, hf⟩) (fun v t h => ?_)
      fun f t h => hm.fail h.1 has (Nat.le_refl _) hm.operands h.2
    · obtain ⟨a, rfl, ha⟩ := Obeys.new_eq hs.heap e
      exact ⟨a, made, rfl, ha, .inl (hf ▸ expands)⟩
    · refine ⟨ls, _, ?_, level, hm.floor, fun e => (hm.operands e).push v, fun expands w top n => ?_,
        hm.causes⟩
      · rw [h.1]
        exact hm.around.move rfl rfl rfl rfl
      · obtain rfl : v = w := by simpa [Machine.push] using top
        exact h.2 expands n
  · rw [missing]
    exact hm.broken hP hd has he

/-! ### Handlers -/

theorem install (hd : s.callDepth = depth) {kind : HandlerKind} {offset : Int} {target : Nat}
    (ht : (target : Int) = m.top.ip + offset)
    (resume : ls[target]? = some (HandlerShape.resume ⟨kind, L.height, L.held⟩ L.handlers))
    (level : ls[m.top.ip]? = some ⟨L.height, ⟨kind, L.height, L.held⟩ :: L.handlers, L.held, false⟩) :
    StepFits P exact base under m s (m.install kind offset s) := by
  obtain ⟨_, _, _, _, waiting, runs, installed, handlers, total, nested⟩ := hm.around.split
  have goes : (m.top.ip + offset).toNat = target := by omega
  rw [← goes] at resume
  refine .ok (.refl s) ⟨ls, _, ?_, level, hm.floor, hm.operands, nofun, hm.causes⟩
  have installed' := Installed.cons (s := ⟨kind, L.height, L.held⟩)
    (h := ⟨kind, m.callers.length, (m.top.ip + offset).toNat, m.operands.size, s.callDepth, m.held.length⟩)
    installed rfl rfl (fun e => (hm.operands e).size) total (hd.trans nested) resume
  exact .join waiting runs installed' (by simp [handlers]) total (hd.trans nested)

theorem popHandler (hd : s.callDepth = depth) {shape : HandlerShape} {rest : List HandlerShape}
    (handlers : L.handlers = shape :: rest)
    (level : ls[m.top.ip]? = some ⟨L.height, rest, L.held, false⟩) (natives : NativeRunner)
    (back : Caller) : StepFits P exact base under m s (m.execute natives back .popHandler s) := by
  obtain ⟨_, _, _, _, waiting, runs, installed, handlers_eq, total, nested⟩ := hm.around.split
  rw [handlers] at installed
  cases installed with
  | cons tail =>
    unfold Machine.execute
    rw [handlers_eq]
    have around := Around.join waiting runs tail rfl total (hd.trans nested)
    exact .ok (.refl s) ⟨ls, _, around, level, hm.floor, hm.operands, nofun, hm.causes⟩

/-- A failure that was held goes on, with the operands that the handlers around it rely on. -/
theorem rethrow (hd : s.callDepth = depth) {n : Nat} (held : L.held = n + 1)
    (shapes : HandlerShape.Nested L.handlers L.height n) (natives : NativeRunner) (back : Caller) :
    StepFits P exact base under m s (m.execute natives back .rethrow s) := by
  obtain ⟨_, _, below, _, waiting, runs, installed, handlers, total, nested⟩ := hm.around.split
  rw [held] at total
  obtain ⟨f, fs, hf⟩ : ∃ f fs, m.held = f :: fs := List.exists_cons_of_length_eq_add_one total
  have causes := hm.causes
  rw [hf] at causes total
  obtain ⟨hf', hfs⟩ := List.forall_mem_cons.1 causes
  have length : fs.length = below + n := Nat.succ.inj total
  have around := Around.join waiting runs installed handlers length (hd.trans nested)
  unfold Machine.execute
  rw [hf]
  exact .ok (.refl s)
    ⟨⟨ls, L.handlers, n, around, ⟨_, shapes, fun e => Nat.le_of_eq (hm.operands e).size.symm⟩, hm.floor,
      fun e => (hm.operands e).started, hfs⟩, hf'⟩

/-! ### Operands -/

theorem pushFound (hP : P.Runs exact) (hd : s.callDepth = depth) (has : L.Has 0)
    (level : ls[m.top.ip]? = some (L.moved 0 1)) {found : Option Value} {d : Defect}
    (missing : found = none → ¬ exact ∧ d = .stackUnderflow) :
    StepFits P exact base under m s (.ok (m.pushFound found d) s) := by
  cases found with
  | some v => exact .ok (.refl s) (hm.grow hd level v)
  | none =>
    obtain ⟨he, rfl⟩ := missing rfl
    exact hm.broken hP hd has he

theorem endScope (hP : P.Runs exact) (hd : s.callDepth = depth) {n : Nat} (has : L.Has (n + 1))
    (level : ls[m.top.ip]? = some (L.moved (n + 1) 1)) (natives : NativeRunner) (back : Caller) :
    StepFits P exact base under m s (m.execute natives back (.endScope n) s) := by
  have one : 1 ≤ L.height := Nat.le_trans (Nat.le_add_left ..) has.1
  unfold Machine.execute
  rcases hm.pop one with ⟨v, hv, -, stacked⟩ | ⟨none, he⟩
  · rw [hv]
    refine .ok (.refl s) (hm.push hd (fun e => ?_) level v)
    have left := (stacked e).drop (Nat.le_sub_of_add_le has.1)
    rwa [Nat.sub_sub, Nat.add_comm 1] at left
  · rw [none]
    exact hm.broken hP hd has he

/-- The stack is cut down to the height of a loop, unless that has wrapped around to zero. -/
theorem truncate (hd : s.callDepth = depth) {n h : Nat} (low : h ≤ L.height) (wraps : n = h ∨ n = 0)
    (uncut : exact → n ≠ 0) (level : ls[m.top.ip]? = some (L.moved L.height h)) (natives : NativeRunner)
    (back : Caller) : StepFits P exact base under m s (m.execute natives back (.truncate n) s) := by
  refine .ok (.refl s) (hm.go hd level rfl rfl rfl fun e => ?_)
  obtain rfl := wraps.resolve_right (uncut e)
  simpa [Level.moved] using (hm.operands e).shrink low

theorem storeLocal (hP : P.Runs exact) (hd : s.callDepth = depth) {i : Nat} (has : L.Has 1)
    (bound : i + 1 < L.height) (level : ls[m.top.ip]? = some (L.moved 1 0)) (natives : NativeRunner)
    (back : Caller) : StepFits P exact base under m s (m.execute natives back (.storeLocal i) s) := by
  unfold Machine.execute
  rcases hm.pop has.1 with ⟨v, hv, -, stacked⟩ | ⟨none, he⟩
  · rw [hv]
    dsimp only
    split
    · exact .ok (.refl s) (hm.go hd level rfl rfl rfl fun e => (stacked e).set (Nat.le_add_right ..) v)
    · next outside =>
      have he : ¬ exact := fun e => outside (by
        simp only [Machine.withOperands, (stacked e).size]
        omega)
      exact .ok (.refl s) (hm.fail hd has (Nat.sub_le ..) (fun e => absurd e he) (hP.missing he))
  · rw [none]
    exact hm.broken hP hd has he

/-! ### Jumps and failures -/

theorem jump (hs : s.Sound P) (hd : s.callDepth = depth) {offset : Int} {target : Nat}
    (ht : (target : Int) = m.top.ip + offset) (level : ls[target]? = some (L.moved 0 0))
    (natives : NativeRunner) (back : Caller) :
    StepFits P exact base under m s (m.execute natives back (.jump offset) s) := by
  have goes : (m.top.ip + offset).toNat = target := by omega
  rw [← goes] at level
  have jumped {t : Session} (h : t.callDepth = depth) :
      StepFits P exact base under m t (.ok (.running (m.jump offset)) t) :=
    .ok (.refl t) (hm.go h level rfl rfl rfl hm.operands)
  unfold Machine.execute
  dsimp only
  split
  · exact .collecting hs _ fun t ht => jumped (ht.callDepth.trans hd)
  · exact jumped hd

theorem popJumpIfFalse (hP : P.Runs exact) (hd : s.callDepth = depth) {offset : Int} {target : Nat}
    (has : L.Has 1) (next : ls[m.top.ip]? = some (L.moved 1 0)) (ht : (target : Int) = m.top.ip + offset)
    (level : ls[target]? = some (L.moved 1 0)) (natives : NativeRunner) (back : Caller) :
    StepFits P exact base under m s (m.execute natives back (.popJumpIfFalse offset) s) := by
  have goes : (m.top.ip + offset).toNat = target := by omega
  rw [← goes] at level
  unfold Machine.execute
  rcases hm.pop has.1 with ⟨v, hv, -, stacked⟩ | ⟨none, he⟩
  · rw [hv]
    dsimp only
    cases v.isTruthy with
    | true => exact .ok (.refl s) (hm.go hd next rfl rfl rfl stacked)
    | false => exact .ok (.refl s) (hm.go hd level rfl rfl rfl stacked)
  · rw [none]
    exact hm.broken hP hd has he

theorem raise (hP : P.Runs exact) (hs : s.Sound P) (hd : s.callDepth = depth) (has : L.Has 1)
    (natives : NativeRunner) (back : Caller) :
    StepFits P exact base under m s (m.execute natives back .raise s) := by
  unfold Machine.execute
  rcases hm.pop has.1 with ⟨v, hv, -, stacked⟩ | ⟨none, he⟩
  · rw [hv]
    have raised : Obeys P (Eval.raiseAt m.top.location v : Eval Progress) fun _ => False := .raiseAt _ v
    exact .landing
      (.of_ends (raised s hs) (S := fun _ _ => False) (fun _ _ _ _ => False.elim)
        (F := fun f t => t.callDepth = depth ∧ P.mayFail f.cause)
        fun _ _ ht hf => ⟨ht.callDepth.trans hd, hf⟩)
      (fun _ _ => False.elim) fun _ _ h => hm.fail h.1 has (Nat.le_refl _) stacked h.2
  · rw [none]
    exact hm.broken hP hd has he

/-! ### All instructions -/

/-- **Every instruction does what its level says.** -/
theorem execute (hP : P.Runs exact) (hs : s.Sound P) (hd : s.callDepth = depth) {natives : NativeRunner}
    (hn : natives.Obedient P) {back : Caller} (hb : back.Obedient P) {i : Instruction}
    (macros : L.isMacro = true → ∀ v, m.operands.back? = some v → ∀ n, s.Denotes v n)
    (uncut : exact → i ≠ .truncate 0)
    (flows : i.Flows (m.top.code.context P.guarded m.top.captured.size) (ls[·]?) m.top.ip L) :
    StepFits P exact base under m s (m.execute natives back i s) := by
  obtain ⟨range, has, leads⟩ := flows
  have pushed {v : Value} {x : Eval Progress} (hx : x = Pure.pure (.running (m.push v)))
      (level : ls[m.top.ip]? = some (L.moved 0 1)) : StepFits P exact base under m s (x s) := by
    rw [hx]
    exact .ok (.refl s) (hm.grow hd level v)
  cases i with
  | const i =>
    have found : m.constant? i = some m.top.code.constants[i] := Array.getElem?_eq_getElem range
    exact hm.pushFound hP hd has leads fun missing => absurd (found.symm.trans missing) nofun
  | pushNil => exact pushed rfl leads
  | pushTrue => exact pushed rfl leads
  | pushFalse => exact pushed rfl leads
  | pop =>
    unfold Machine.execute
    rcases hm.pop has.1 with ⟨v, hv, -, stacked⟩ | ⟨none, he⟩
    · rw [hv]
      exact .ok (.refl s) (hm.go hd leads rfl rfl rfl stacked)
    · rw [none]
      exact hm.broken hP hd has he
  | endScope n => exact hm.endScope hP hd has leads natives back
  | truncate n =>
    obtain ⟨h, low, wraps, -, level⟩ := leads
    exact hm.truncate hd low wraps (fun e hn => uncut e (by rw [hn])) level natives back
  | loadLocal i =>
    refine hm.pushFound hP hd has leads fun missing => ⟨fun e => ?_, rfl⟩
    have bound : i < L.height := range
    rw [Machine.slot?, Array.getElem?_eq_none_iff, (hm.operands e).size] at missing
    omega
  | storeLocal i => exact hm.storeLocal hP hd has range leads natives back
  | loadCapture i =>
    have found : m.top.captured[i]? = some m.top.captured[i] := Array.getElem?_eq_getElem range
    exact hm.pushFound hP hd has leads fun missing => absurd (found.symm.trans missing) nofun
  | loadGlobal i =>
    obtain ⟨name, range⟩ := range
    exact hm.loadGlobal hd has leads range
  | defGlobal i =>
    obtain ⟨name, range, plain⟩ := range
    exact hm.defGlobal hP hd macros has leads range plain
  | jump offset =>
    obtain ⟨target, ht, level⟩ := leads
    exact hm.jump hs hd ht level natives back
  | popJumpIfFalse offset =>
    obtain ⟨next, target, ht, level⟩ := leads
    exact hm.popJumpIfFalse hP hd has next ht level natives back
  | call argc site =>
    unfold Machine.execute
    exact .collecting hs _ fun t ht => hm.call hP (ht.sound hs) (ht.callDepth.trans hd) hn hb has leads range
  | ret => exact hm.ret hP hd has leads.1 leads.2
  | raise => exact hm.raise hP hs hd has natives back
  | pushCatch offset =>
    obtain ⟨target, ht, resume, level⟩ := leads
    exact hm.install hd ht resume level
  | pushFinally offset =>
    obtain ⟨target, ht, resume, level⟩ := leads
    exact hm.install hd ht resume level
  | popHandler =>
    obtain ⟨shape, rest, handlers, level⟩ := leads
    exact hm.popHandler hd handlers level natives back
  | rethrow =>
    obtain ⟨n, held, shapes⟩ := leads
    exact hm.rethrow hd held shapes natives back
  | closure i =>
    obtain ⟨q, found, fits⟩ := range
    exact hm.closure hP hs hd has (by simpa [ArityCode.context] using found) fits leads
  | macroClosure i =>
    obtain ⟨q, found, fits⟩ := range
    exact hm.closure hP hs hd has (by simpa [ArityCode.context] using found) fits leads
  | arith op site => exact hm.binary hP hs hd has leads range (Numeric.failsOrdinarily_arith op)
  | compare op site =>
    refine hm.binary hP hs hd has leads range fun a b => ?_
    have fails := Numeric.failsOrdinarily_compareNumbers op a b
    cases hc : Numeric.compareNumbers op a b with
    | ok b => trivial
    | error e => rwa [hc] at fails
  | buildList n => exact hm.build hP hs hd has leads fun vs => .newList vs
  | buildVector n => exact hm.build hP hs hd has leads fun vs => .newVector vs
  | buildMap n => exact hm.build hP hs hd has leads fun vs => .newMap _
  | buildSet n => exact hm.build hP hs hd has leads fun vs => .newSet vs

end Machine.Fetched

/-- **A step of a running machine** leaves it running, or finished without a handler or a held failure, or
failed in a permitted way with what its handlers rely on. -/
theorem Machine.Running.step (hP : P.Runs exact) (hs : s.Sound P) {natives : NativeRunner}
    (hn : natives.Obedient P) {back : Caller} (hb : back.Obedient P)
    (hm : m.Running P exact base under s ls L) :
    StepFits P exact base under m s (m.step natives back s) := by
  obtain ⟨_, _, _, _, waiting, runs, installed, _⟩ := hm.around.split
  have typed := runs.typed
  have bound : m.top.ip < m.top.code.code.size := by
    rw [← typed.levels]
    exact (List.getElem?_eq_some_iff.1 hm.level).1
  have found : m.top.code.code[m.top.ip]? = some m.top.code.code[m.top.ip] :=
    Array.getElem?_eq_getElem bound
  have fetched : (m.goto (m.top.ip + 1)).Fetched P exact base s.callDepth under ls L :=
    ⟨hm.around.move rfl rfl rfl rfl, hm.floor, hm.operands, hm.causes⟩
  unfold Machine.step
  rw [found]
  refine fetched.execute hP hs rfl hn hb hm.macros (fun e he => ?_) (typed.flows hm.level found)
  refine (runs.uncut e).1 ?_
  rw [← he]
  exact Array.getElem_mem bound

end TwinLisp
