import TwinLisp.Proofs.Conduct.Walker
import TwinLisp.Proofs.Engine.Blame
import TwinLisp.Proofs.Template.Ground
import TwinLisp.Proofs.Transparency.TreeWalk

/-!
# Walking over templates

What the walker does for the code of a template: it evaluates the expressions in it from left to right at the place
of the template, with more and more values still needed, and calls the built-in functions that the code names.

## Main definitions

* `Template.Stands`: a walker is somewhere in a program.
* `Template.Takes`: what a walker does for a form in a template.

## Main statements

* `Template.evaluates_walker`: the walker evaluates the code of templates.
-/

namespace TwinLisp

namespace Template

/-- The natives do as the language has it, and keep to themselves. -/
structure Supported (P : Policy) (e : Terms) (hosts : HostTable) : Prop where
  walks : P.Walks
  self : e.isSelf
  obedient : (Eval.runNative hosts).Obedient P
  alike : NativeRunner.Match (.transparent e) (Eval.runNative hosts) (Eval.runNative hosts)

/-- A walker stands at `p` in a program: what it still needs is there. -/
structure Stands (P : Policy) (e : Terms) (w : World) (p : WalkPlace) (s : Session) : Prop where
  session : s.Match (.transparent e) w s
  place : p.Match w p
  sound : s.Sound P

/-- A form that has been checked may stand at `p`: what it mentions is there. -/
structure Fits (e : Terms) (w : World) (p : WalkPlace) (s : Session) (target : Option RecurTarget) (f : Form) :
    Prop where
  covered : f.Mentions (Covered p.Keeps w s)
  known : f.Mentions (· < e.since.nextHandle)
  accepted : f.Accepted target false

variable {P : Policy} {e : Terms} {hosts : HostTable} {w : World} {p : WalkPlace} {σ : ScopeId} {s t : Session}
variable {f : Form} {v : Value} {fuel n : Nat} {target : Option RecurTarget}

namespace Fits

theorem items {b : Bracket} {fs : List Form} {l : Location} (h : Fits e w p s target (.group b fs l))
    (plain : (Form.group b fs l).special? = none) : ∀ f ∈ fs, Fits e w p s target f := by
  intro f hf
  exact ⟨Form.mentions_group.1 h.covered f hf, Form.mentions_group.1 h.known f hf, h.accepted.items plain f hf⟩

theorem within (h : Fits e w p s target f) (l : Location) : Fits e w (p.within l) s target f :=
  ⟨h.covered, h.known, h.accepted⟩

theorem holding (h : Fits e w p s target f) (vs : List Value) : Fits e w (p.holding vs) s target f :=
  ⟨h.covered.imp fun _ covered => covered.weaken fun _ keeps => keeps.holding vs, h.known, h.accepted⟩

theorem preserved {w' : World} (h : Fits e w p s target f) (preserved : Preserves p.Keeps w s w' t)
    (session : t.Match (.transparent e) w' t) : Fits e w' p t target f :=
  ⟨h.covered.preserved preserved session, h.known, h.accepted⟩

end Fits

namespace Stands

theorem within (h : Stands P e w p s) (l : Location) : Stands P e w (p.within l) s :=
  ⟨h.session, h.place.within l, h.sound⟩

theorem holding (h : Stands P e w p s) (vs : List Value) : Stands P e w (p.holding vs) s :=
  ⟨h.session, h.place.holding fun _ => rfl, h.sound⟩

/-- What is still needed is there after an evaluation, too. -/
theorem after (h : Stands P e w p s) (supported : Supported P e hosts) (fits : Fits e w p s target f)
    (ran : (walker (Eval.runNative hosts) fuel).value p f s = .ok v t) :
    ∃ w', Stands P e w' p t ∧ Preserves p.Keeps w s w' t ∧ v.Match w' v ∧ s.Keeps P.writes t := by
  have agree := (walker_match supported.alike fuel).value h.session h.place fits.covered
  have obeys := (obedient_walker supported.walks supported.obedient fuel).value fits.accepted p s h.sound
  rw [ran] at agree obeys
  cases agree with
  | ok preserved matched same =>
    have leads := obeys.1
    exact ⟨_, ⟨matched, h.place.preserved preserved matched, leads.sound h.sound⟩, preserved, same,
      leads.evolves.keeps h.sound⟩

/-- What is still needed is there after several evaluations. -/
theorem afterAll (h : Stands P e w p s) (supported : Supported P e hosts) {fs : List Form} {vs : List Value}
    (fits : ∀ f ∈ fs, Fits e w p s target f) (ran : (walker (Eval.runNative hosts) fuel).values p fs s = .ok vs t) :
    ∃ w', Stands P e w' p t ∧ Preserves p.Keeps w s w' t ∧ s.Keeps P.writes t := by
  have agree := (walker_match supported.alike fuel).values h.session h.place fun f hf => (fits f hf).covered
  have obeys := (obedient_walker supported.walks supported.obedient fuel).values (fun f hf => (fits f hf).accepted) p s
    h.sound
  rw [ran] at agree obeys
  cases agree with
  | ok preserved matched same =>
    have leads := obeys.1
    exact ⟨_, ⟨matched, h.place.preserved preserved matched, leads.sound h.sound⟩, preserved,
      leads.evolves.keeps h.sound⟩

end Stands

/-- In a template in the scope `σ`, walkers take the course `x` for the form `f`, if they have `n` units of fuel more
than its height. -/
def Takes (P : Policy) (e : Terms) (natives : NativeRunner) (n : Nat) (σ : ScopeId) (f : Form) (x : Course Value) :
    Prop :=
  ∀ {fuel : Nat} {p : WalkPlace} {w : World} {s : Session} {target : Option RecurTarget}, n + f.height < fuel →
    p.scope = σ → Stands P e w p s → Fits e w p s target f → s.Supplies σ →
      x.Admits (·.Supplies σ) s ((walker natives fuel).value p f s)

/-! ### Calls -/

variable {natives : NativeRunner}

theorem walker_value_plain {head : Form} {args : List Form} {l : Location}
    (plain : head.symbolName?.bind SpecialForm.ofName? = none) :
    (walker natives (fuel + 1)).value p (.group .list (head :: args) l) =
      (walker natives fuel).evalCall (p.within l) head args := by
  change ((walker natives fuel).step p (.group .list (head :: args) l) >>= _) = _
  rw [Walker.step_plain plain, bind_assoc]
  simp only [pure_bind, bind_pure]

/-- A name is evaluated to what it stands for. -/
theorem walker_value_name {name : String} {l : Location} {x : Symbol} (hn : s.symbols.find? name = some x)
    (hv : s.scopes.lookup? p.scope x = some v) :
    (walker natives (fuel + 1)).value p (.symbol name l) s = .ok v s := by
  have found : Walker.resolve (p.within l) name s = .ok v s := by
    have bound : (s.symbols.find? name).bind (s.scopes.lookup? (p.within l).scope) = some v := by
      rw [hn]
      exact hv
    unfold Walker.resolve
    rw [Eval.get_bind]
    simp only [bound]
    rfl
  have evaluated : (walker natives (fuel + 1)).eval p (.symbol name l) s = .ok (.value v) s :=
    Eval.bind_eq_of_ok found
  exact Eval.bind_eq_of_ok evaluated

/-- A native function that is called runs. -/
theorem walker_call_native {r : CallRequest} {a : Address} {g : Function} {k : Native}
    (callee : r.callee = .ref .function a) (hg : s.heap.get? a = some (.function g)) (body : g.body = .native k) :
    (walker natives (fuel + 1)).call r s =
      Eval.attributed r.site r.locations (natives (walker natives fuel).callback k r.args) s :=
  Walker.apply_native natives callee hg body

theorem callsNatives_walker : CallsNatives natives (walker natives (fuel + 1)).callback := by
  intro s a g k args hg body
  exact ⟨s.attribution.site, _, (Eval.bind_eq_of_ok rfl).trans (walker_call_native rfl hg body)⟩

theorem special?_call {name : String} {fs : List Form} {l : Location} :
    (Form.call name fs l).special? = SpecialForm.ofName? name := Form.special?_list _ _ _

/-- The arguments of a call are evaluated from left to right. -/
theorem takes_values (supported : Supported P e hosts) {fs : List Form} {xs : List (Course Value)}
    (takes : List.Forall₂ (Takes P e (Eval.runNative hosts) n σ) fs xs) (enough : ∀ f ∈ fs, n + f.height < fuel)
    (here : p.scope = σ) (stands : Stands P e w p s) (fits : ∀ f ∈ fs, Fits e w p s target f)
    (supplies : s.Supplies σ) :
    (Course.inOrder xs).Admits (·.Supplies σ) s ((walker (Eval.runNative hosts) fuel).values p fs s) := by
  induction takes generalizing p w s with
  | nil => exact .pure supplies
  | @cons f x fs xs first _ ih =>
    obtain ⟨enough, others⟩ := List.forall_mem_cons.1 enough
    obtain ⟨fit, fits⟩ := List.forall_mem_cons.1 fits
    refine (first enough here stands fit supplies).bind fun v t ran supplies => ?_
    obtain ⟨w', stands, preserved, same, -⟩ := stands.after supported fit ran
    have later := stands.holding [v]
    have rest := ih (p := p.holding [v]) others here later
      (fun f hf => ((fits f hf).preserved preserved stands.session).holding [v]) supplies
    -- The place holds the first value while the others are evaluated, which saves it.
    refine (rest.saving fun vs u ran => ?_).bind fun vs u _ supplies => .pure supplies
    obtain ⟨w'', after, kept, keeps⟩ := later.afterAll supported
      (fun f hf => ((fits f hf).preserved preserved stands.session).holding [v]) ran
    refine Session.saves_of_match stands.sound.heap keeps after.session fun u hu => ?_
    obtain rfl := List.mem_singleton.1 hu
    exact kept.value same fun _ hn => WalkPlace.keeps_holding (by simpa [Node.ofValues] using hn)

/-- In a call of a built-in function by its name, the arguments are evaluated and given to that function. -/
theorem Stands.named (stands : Stands P e w p s) (supported : Supported P e hosts) {b : Builtin} {a : Address}
    (names : s.Names p.scope b a) {fs : List Form} {l : Location} (special : SpecialForm.ofName? b.name = none)
    (fits : Fits e w p s target (.call b.name fs l)) (enough : n + (Form.call b.name fs l).height < fuel) :
    ∃ k site locations held, fuel = k + 3 ∧ (∀ f ∈ fs, n + f.height < k + 2) ∧
      (walker (Eval.runNative hosts) fuel).value p (.call b.name fs l) s =
        ((walker (Eval.runNative hosts) (k + 2)).values ((p.within l).holding [.ref .function a]) fs >>= fun vs =>
          (walker (Eval.runNative hosts) (k + 2)).call ⟨.ref .function a, vs, site, locations, held⟩) s ∧
      ∀ vs t, (walker (Eval.runNative hosts) (k + 2)).values ((p.within l).holding [.ref .function a]) fs s = .ok vs t →
        t.heap.Sound ∧ (walker (Eval.runNative hosts) (k + 2)).call ⟨.ref .function a, vs, site, locations, held⟩ t =
          Eval.attributed site locations
            (Eval.runNative hosts (walker (Eval.runNative hosts) (k + 1)).callback (.builtin b) vs) t := by
  obtain ⟨x, g, named, bound, hg, body⟩ := names
  have height : (Form.call b.name fs l).height = max 1 (Form.heights fs) + 1 := rfl
  obtain ⟨k, rfl⟩ : ∃ k, fuel = k + 3 := ⟨fuel - 3, by omega⟩
  have plain : (Form.symbol b.name l).symbolName?.bind SpecialForm.ofName? = none := special
  have head : (walker (Eval.runNative hosts) (k + 2)).value (p.within l) (.symbol b.name l) s =
      .ok (.ref .function a) s := walker_value_name named bound
  refine ⟨k, (p.within l).cursor, fs.map fun f => f.location.orElse (p.within l).cursor, (p.within l).held, rfl,
    fun f hf => ?_, ?_, fun vs t ran => ?_⟩
  · have := Form.height_le_heights hf
    omega
  · rw [Form.call, Form.list, walker_value_plain plain, Walker.evalCall, Eval.bind_eq_of_ok head]
  · have fitting : ∀ f ∈ fs, Fits e w ((p.within l).holding [.ref .function a]) s target f := fun f hf =>
      ((fits.items (special?_call.trans special) f (List.mem_cons_of_mem _ hf)).within l).holding _
    obtain ⟨w', after, preserved, -⟩ := ((stands.within l).holding [.ref .function a]).afterAll supported fitting ran
    have live : w.live .function a a := stands.session.heap.whole (stands.session.isSelf supported.self) hg
    have kept :=
      preserved.fixed (.inl (WalkPlace.keeps_holding (by simp [Node.ofValues, Node.ofValue]))) live (by decide) hg
    exact ⟨after.sound.heap, walker_call_native rfl kept body⟩

/-- A call of a built-in function that makes data. -/
theorem takes_call (supported : Supported P e hosts) {b : Builtin} (hb : b ∈ [.list, .concat, .seq]) {fs : List Form}
    {xs : List (Course Value)} (takes : List.Forall₂ (Takes P e (Eval.runNative hosts) n σ) fs xs) (l : Location) :
    Takes P e (Eval.runNative hosts) n σ (.call b.name fs l) (ofCall b xs) := by
  intro fuel p w s target enough here stands fits supplies
  have known : SpecialForm.ofName? b.name = none ∧ b ∈ Session.needed ∧
      b ∈ [.list, .vector, .hashMap, .hashSet, .concat, .seq] := by
    simp only [List.mem_cons, List.not_mem_nil, or_false] at hb
    rcases hb with rfl | rfl | rfl <;> exact ⟨rfl, by decide, by decide⟩
  obtain ⟨special, needed, makes⟩ := known
  obtain ⟨a, names⟩ := supplies b needed
  obtain ⟨k, site, locations, held, rfl, enough, called, native⟩ :=
    stands.named supported (here ▸ names) special fits enough
  rw [called]
  refine Course.Admits.bind (takes_values supported takes enough
    here ((stands.within l).holding _)
    (fun f hf => ((fits.items (special?_call.trans special) f (List.mem_cons_of_mem _ hf)).within l).holding _)
    supplies) fun vs t ran supplies => ?_
  obtain ⟨sound, native⟩ := native vs t ran
  rw [native]
  exact .pause sound vs (.imitates (imitates_native makes _ vs sound site locations) (.run makes noCaller vs) sound
    fun u gains => supplies.gains gains)

/-- The application of a built-in function that makes data. -/
theorem takes_apply (supported : Supported P e hosts) {b : Builtin} (hb : b ∈ [.vector, .hashMap, .hashSet]) {f : Form}
    {x : Course Value} (takes : Takes P e (Eval.runNative hosts) n σ f x) (l : Location) :
    Takes P e (Eval.runNative hosts) n σ (.call "apply" [.symbol b.name l, f] l) (ofApply b x) := by
  intro fuel p w s target enough here stands fits supplies
  have known : b ∈ Session.needed ∧ b ∈ [.list, .vector, .hashMap, .hashSet, .concat, .seq] := by
    simp only [List.mem_cons, List.not_mem_nil, or_false] at hb
    rcases hb with rfl | rfl | rfl <;> exact ⟨by decide, by decide⟩
  obtain ⟨needed, makes⟩ := known
  obtain ⟨a, names⟩ := supplies .apply (by decide)
  obtain ⟨c, y, g, named, bound, hg, body⟩ := supplies b needed
  obtain ⟨k, site, locations, held, rfl, enough, called, native⟩ :=
    stands.named (b := .apply) supported (here ▸ names) rfl fits enough
  have head : (walker (Eval.runNative hosts) (k + 2)).value ((p.within l).holding [.ref .function a])
      (.symbol b.name l) s = .ok (.ref .function c) s := walker_value_name named (by rwa [← here] at bound)
  have fit := fits.items (special?_call : (Form.call "apply" _ _).special? = _) f (by simp)
  have arguments : (walker (Eval.runNative hosts) (k + 2)).values ((p.within l).holding [.ref .function a])
      [.symbol b.name l, f] s = ((walker (Eval.runNative hosts) (k + 2)).value
        (((p.within l).holding [.ref .function a]).holding [.ref .function c]) f >>= fun v =>
          pure [.ref .function c, v]) s := by
    rw [Walker.values, Eval.bind_eq_of_ok head]
    simp only [Walker.values, bind_assoc, pure_bind]
  have opened := called.trans (Eval.bind_congr arguments fun _ _ _ => rfl)
  rw [bind_assoc] at opened
  simp only [pure_bind] at opened
  refine opened ▸ ?_
  have there := ((stands.within l).holding [.ref .function a]).holding [.ref .function c]
  have fitting := ((fit.within l).holding [.ref .function a]).holding [.ref .function c]
  refine Course.Admits.bind (takes (enough f (by simp)) here there fitting supplies) fun v t ran supplies => ?_
  obtain ⟨sound, native⟩ := native _ t (arguments.trans (Eval.bind_eq_of_ok ran))
  rw [native]
  obtain ⟨w', -, preserved, -⟩ := there.after supported fitting ran
  have live : w.live .function c c := stands.session.heap.whole (stands.session.isSelf supported.self) hg
  have kept :=
    preserved.fixed (.inl (WalkPlace.keeps_holding (by simp [Node.ofValues, Node.ofValue]))) live (by decide) hg
  have makesAll : Eval.MakesData (do Library.run noCaller b (← Library.elements .apply 1 v)) :=
    (Eval.MakesData.elements ..).bind fun vs => .run makes noCaller vs
  exact .pause sound [v] (.imitates (imitates_apply makes callsNatives_walker kept body v sound site locations) makesAll
    sound fun u gains => supplies.gains gains)

/-! ### Literals -/

theorem walker_value_leaf {d : Leaf} (literal : ∀ text, d ≠ .symbol text) (l : Location) :
    (walker natives (fuel + 1)).value p (.leaf d l) = Eval.valueOfLeaf d := by
  have evaluated : Walker.evalLeaf (p.within l) d = Eval.valueOfLeaf d := by
    unfold Walker.evalLeaf
    split
    · next name => exact absurd rfl (literal name)
    · rfl
  change ((do return Outcome.value (← Walker.evalLeaf (p.within l) d) : Eval Outcome) >>= _) = _
  rw [evaluated, bind_assoc]
  simp only [pure_bind, bind_pure]

theorem walker_value_quote (text : String) (l : Location) :
    (walker natives (fuel + 1)).value p (.call "quote" [.symbol text l] l) = Eval.valueOfLeaf (.symbol text) := by
  change ((do return Outcome.value (← Eval.valueOfLeaf (.symbol text)) : Eval Outcome) >>= _) = _
  rw [bind_assoc]
  simp only [pure_bind, bind_pure]

/-- A walker takes the course of a literal if it makes the value that the literal stands for. -/
theorem takes_literal {d : Leaf}
    (evaluated : ∀ {fuel : Nat} {p : WalkPlace}, (walker natives (fuel + 1)).value p f = Eval.valueOfLeaf d)
    (mentions : ∀ k, d = .object k → k ∈ f.handles) :
    Takes P e natives n σ f (literal e.since.embedded? d) := by
  intro fuel p w s target enough here stands fits supplies
  obtain ⟨k, rfl⟩ : ∃ k, fuel = k + 1 := ⟨fuel - 1, by omega⟩
  rw [evaluated]
  refine .inr ⟨literal_valueOfLeaf stands.sound.heap fun k same => ?_, fun v t ran =>
    supplies.gains ((Eval.MakesData.valueOfLeaf d).value stands.sound.heap ran).1⟩
  obtain ⟨-, v, -, found, -⟩ := stands.session.heap.handles (fits.covered k (mentions k same)).1
  exact ⟨v, stands.session.heap.since.embedded (fits.known k (mentions k same)) found, found⟩

/-- **The walker evaluates the code of templates.** -/
theorem evaluates_walker (supported : Supported P e hosts) (n : Nat) (σ : ScopeId) :
    Evaluates (literal e.since.embedded?) (Takes P e (Eval.runNative hosts) n σ) where
  weaken takes le := fun enough here stands fits supplies => (takes enough here stands fits supplies).le (le _)
  quote text l := takes_literal (walker_value_quote text l) nofun
  leaf {d} h l := takes_literal (walker_value_leaf h l) fun k same => by
    rw [same]
    exact List.mem_singleton_self k
  call h _ _ takes l := takes_call supported h takes l
  apply h _ _ takes l := takes_apply supported h takes l

end Template

end TwinLisp
