import TwinLisp.Proofs.Template.Drive

/-!
# The code of templates on the machine

What the machine does with the code of a template: the name of each function that the code calls is loaded from the
root, literals are constants, and between the instructions for arguments the machine takes the courses of these. All
this happens in one frame, wherever the compiler has placed the code in it.

## Main definitions

* `Template.Compiling`: part of a template is about to be compiled.
* `Template.Arrives`: a machine comes to some code.
* `Template.Performs`: what a machine does for a form in a template.

## Main statements

* `Template.evaluates_machine`: the machine evaluates the code of templates.
-/

namespace TwinLisp

/-! ### Compiling templates -/

/-- What has been assembled, if the computation got through. -/
theorem Builds.result {P : Policy} {ds : List Nat} {α : Type} {x : Assemble α} {T : CodeContext → α → Prop}
    (h : Builds P ds x T) {a b : Assembly} {u v : Session} {r : α} (fits : a.Fits P ds) (hu : u.Sound P)
    (ran : x a u = .ok (r, b) v) : u.Leads P v ∧ a.Grows b ∧ b.Fits P ds ∧ T (b.context P) r := by
  have ends := h a fits u hu
  rw [ran] at ends
  obtain ⟨leads, grows, fits, holds⟩ := ends
  exact ⟨leads, grows, fits, holds _ (b.covers_context P)⟩

theorem Assemble.of_lift_eq_ok {α : Type} {x : Eval α} {a b : Assembly} {u v : Session} {r : α}
    (h : (StateT.lift x : Assemble α) a u = .ok (r, b) v) : x u = .ok r v ∧ b = a := by
  cases ran : x u with
  | ok r' v' =>
    cases (Eval.bind_eq_of_ok ran).symm.trans h
    exact ⟨rfl, rfl⟩
  | error f v' => cases (Eval.bind_eq_of_error ran).symm.trans h

namespace Template

/-- In the function that `q₀` stands in, a part of a template is about to be compiled at `q`. The names of the
functions for templates mean nothing in the functions around. -/
structure Compiling (P : Policy) (e : Terms) (q₀ : CompilePlace) (target : Option RecurTarget) (q : CompilePlace)
    (a : Assembly) (u : Session) : Prop where
  place : q.functions = q₀.functions
  fits : ∃ ds r, TwinLisp.Stands target q ds r ∧ a.Fits P ds
  sound : u.Sound P
  since : u.heap.Continues e.since
  frees : ∀ b ∈ Session.needed, q.Frees a b.name

variable {P : Policy} {e : Terms} {q₀ q : CompilePlace} {target : Option RecurTarget} {levels : Nat} {f : Form}
variable {a b : Assembly} {u v : Session} {code : Code}

namespace Compiling

theorem within (h : Compiling P e q₀ target q a u) (l : Location) : Compiling P e q₀ target (q.within l) a u where
  place := h.place
  fits := by
    obtain ⟨ds, r, stands, fits⟩ := h.fits
    exact ⟨ds, r, stands.within l, fits⟩
  sound := h.sound
  since := h.since
  frees _ hb := ⟨(h.frees _ hb).functions, (h.frees _ hb).captures⟩

/-- Behind the code of a form it is the same. -/
theorem compiled (hP : ∀ limit, P.mayFail (.codeTooLarge limit)) (h : Compiling P e q₀ target q a u)
    (accepted : f.Accepted target false) (ran : Compiler.within levels q f a u = .ok (code, b) v) :
    Compiling P e q₀ target (q.after code) b v ∧ a.tables.Within b.tables ∧ Session.Evolves P u v := by
  obtain ⟨ds, r, stands, fits⟩ := h.fits
  obtain ⟨leads, grows, later, -⟩ := (Compiler.certifies_within hP levels accepted stands).result fits h.sound ran
  refine ⟨⟨h.place, ⟨ds, r, stands.skip .., later⟩, leads.sound h.sound, leads.evolves.continues.trans h.since,
    fun b hb => ?_⟩, grows.tables, leads.evolves⟩
  have frees := (h.frees b hb).compiled ran
  exact ⟨frees.functions, frees.captures⟩

end Compiling

end Template

/-! ### Code that is there -/

/-- The machine stands at the beginning of some code that was compiled for the place. -/
structure Machine.Holds (m : Machine) (q : CompilePlace) (code : Code) (b : Assembly) : Prop where
  ip : m.top.ip = q.offset
  depth : m.operands.size = m.top.bottom + q.depth
  code {k : Nat} {e : Instruction × Location} : code[k]? = some e → m.top.code.code[q.offset + k]? = some e.1
  tables : b.tables.Within ⟨m.top.code.constants, m.top.code.sites, m.top.code.prototypes.toArray⟩

/-- The machine has more operands, and may be somewhere else in its frame. -/
def Machine.Above (m m₀ : Machine) : Prop :=
  ∃ ip more, m = { m₀ with top := { m₀.top with ip }, operands := m₀.operands ++ more }

/-- The machine runs the code between two offsets of the frame of `m₀`, or a function that was called there. -/
def Machine.Inside (m₀ : Machine) (first last : Nat) (m : Machine) : Prop :=
  m₀.callers.length < m.callers.length ∨
    m.callers.length = m₀.callers.length ∧ first ≤ m.top.ip ∧ m.top.ip < last

namespace Machine

variable {m m₀ : Machine} {q : CompilePlace} {code more : Code} {a b : Assembly}

theorem Holds.fetched {i : Instruction} {l : Location} (h : m.Holds q ((i, l) :: more) b) :
    m.top.code.code[m.top.ip]? = some i := by
  rw [h.ip]
  exact h.code (k := 0) rfl

theorem Holds.front (h : m.Holds q (code ++ more) b) (within : a.tables.Within b.tables) : m.Holds q code a where
  ip := h.ip
  depth := h.depth
  code {k e} found := by
    refine h.code ?_
    rwa [List.getElem?_append_left (List.getElem?_eq_some_iff.1 found).1]
  tables := within.trans h.tables

/-- Behind the code of a form, one value more has been pushed. -/
theorem Holds.after (h : m.Holds q (code ++ more) b) (v : Value) :
    ((m.goto (q.offset + code.length)).push v).Holds (q.after code) more b where
  ip := rfl
  depth := by
    change (m.operands.push v).size = m.top.bottom + (q.depth + 1)
    rw [Array.size_push, h.depth, Nat.add_assoc]
  code {k e} found := by
    change m.top.code.code[q.offset + code.length + k]? = some e.1
    rw [Nat.add_assoc]
    refine h.code ?_
    rw [List.getElem?_append_right (Nat.le_add_right ..), Nat.add_sub_cancel_left]
    exact found
  tables := h.tables

theorem Holds.within (h : m.Holds q code b) (l : Location) : m.Holds (q.within l) code b :=
  ⟨h.ip, h.depth, h.code, h.tables⟩

theorem Above.push (h : m.Above m₀) (target : Nat) (v : Value) : ((m.goto target).push v).Above m₀ := by
  obtain ⟨ip, more, rfl⟩ := h
  exact ⟨target, more.push v, by simp [push, goto]⟩

theorem Above.pushAll (h : m.Above m₀) (target : Nat) (vs : List Value) : ((m.goto target).pushAll vs).Above m₀ := by
  obtain ⟨ip, more, rfl⟩ := h
  exact ⟨target, more ++ vs.toArray, by simp [Machine.pushAll, goto, withOperands]⟩

theorem Above.handlers (h : m.Above m₀) : m.handlers = m₀.handlers := by
  obtain ⟨ip, more, rfl⟩ := h
  rfl

theorem Above.callers (h : m.Above m₀) : m.callers = m₀.callers := by
  obtain ⟨ip, more, rfl⟩ := h
  rfl

theorem Above.inside (h : m.Above m₀) {first last : Nat} (after : first ≤ m.top.ip) (before : m.top.ip < last) :
    Inside m₀ first last m :=
  .inr ⟨congrArg List.length h.callers, after, before⟩

theorem Inside.weaken {first last first' last' : Nat} (after : first' ≤ first) (before : last ≤ last')
    (h : Inside m₀ first last m) : Inside m₀ first' last' m :=
  h.imp id fun ⟨same, lower, upper⟩ => ⟨same, after.trans lower, upper.trans_le before⟩

end Machine

namespace Template

open Machine (Equipped Poised Through Drives Comes)

variable {P : Policy} {exact : Prop} {e : Terms} {base : Nat} {natives : NativeRunner} {back : Caller}
variable {q₀ q : CompilePlace} {m₀ m : Machine} {target : Option RecurTarget} {levels : Nat} {f : Form}
variable {a b : Assembly} {s t u v : Session} {code more : Code}

/-- In the frame of `m₀` a machine has come to some code for a template, which was compiled before. -/
structure Arrives (P : Policy) (exact : Prop) (e : Terms) (base : Nat) (m₀ : Machine) (q : CompilePlace) (code : Code)
    (b : Assembly) (v s : Session) (m : Machine) : Prop where
  evolves : Session.Evolves P v s
  poised : Poised P exact e base s m
  holds : m.Holds q code b
  above : m.Above m₀
  supplies : s.Supplies Scopes.root

namespace Arrives

theorem within (h : Arrives P exact e base m₀ q code b v s m) (l : Location) :
    Arrives P exact e base m₀ (q.within l) code b v s m :=
  ⟨h.evolves, h.poised, h.holds.within l, h.above, h.supplies⟩

theorem front (h : Arrives P exact e base m₀ q (code ++ more) b v s m) (tables : a.tables.Within b.tables)
    (evolves : Session.Evolves P u v) : Arrives P exact e base m₀ q code a u s m :=
  ⟨Relation.ReflTransGen.trans evolves h.evolves, h.poised, h.holds.front tables, h.above, h.supplies⟩

theorem after (equipped : Equipped P exact e natives back) (h : Arrives P exact e base m₀ q (code ++ more) b v s m)
    {I : Machine → Prop} {w : Value} (path : Through natives back I s m t ((m.goto (q.offset + code.length)).push w))
    (supplies : t.Supplies Scopes.root) :
    Arrives P exact e base m₀ (q.after code) more b v t ((m.goto (q.offset + code.length)).push w) := by
  obtain ⟨poised, evolves⟩ := h.poised.through equipped path
  exact ⟨Relation.ReflTransGen.trans h.evolves evolves, poised, h.holds.after w, h.above.push _ w, supplies⟩

end Arrives

/-- The machine gets through the code of a form and has a value then, or it fails in there. -/
def Ends (natives : NativeRunner) (back : Caller) (m₀ : Machine) (q : CompilePlace) (code : Code) (s : Session)
    (m : Machine) : Ending Value → Prop :=
  m.Comes natives back (m₀.Inside q.offset (q.offset + code.length)) m₀.handlers
    (fun v => (m.goto (q.offset + code.length)).push v) s

/-- The machine gets through the code of a form on a course. -/
def Gets (natives : NativeRunner) (back : Caller) (m₀ : Machine) (q : CompilePlace) (code : Code) (x : Course Value)
    (s : Session) (m : Machine) : Prop :=
  m.Drives natives back (m₀.Inside q.offset (q.offset + code.length)) m₀.handlers
    (fun v => (m.goto (q.offset + code.length)).push v) x s

/-- In a template in the frame of `m₀`, machines take the course `x` for the code of `f`. -/
def Performs (P : Policy) (exact : Prop) (e : Terms) (base : Nat) (natives : NativeRunner) (back : Caller)
    (q₀ : CompilePlace) (m₀ : Machine) (f : Form) (x : Course Value) : Prop :=
  ∀ {levels : Nat} {target : Option RecurTarget} {q : CompilePlace} {a b : Assembly} {u v s : Session} {code : Code}
    {m : Machine}, Compiling P e q₀ target q a u → f.Accepted target false → f.Mentions (· < e.since.nextHandle) →
    Compiler.within levels q f a u = .ok (code, b) v → Arrives P exact e base m₀ q code b v s m →
      Gets natives back m₀ q code x s m

/-! ### Names -/

/-- The name of a function for templates is loaded from the root. -/
theorem Compiling.name (hP : ∀ limit, P.mayFail (.codeTooLarge limit)) (h : Compiling P e q₀ target q a u)
    {bi : Builtin} (needed : bi ∈ Session.needed) {l : Location}
    (ran : Compiler.within levels q (.symbol bi.name l) a u = .ok (code, b) v) :
    ∃ i x l', code = [(.loadGlobal i, l')] ∧ b.tables.constants[i]? = some (.symbol x) ∧
      v.symbols.find? bi.name = some x := by
  cases levels with
  | zero => cases ran
  | succ levels =>
    obtain ⟨ds, r, stands, fits⟩ := h.fits
    obtain ⟨d, a', u', resolved, rest⟩ :=
      Assemble.of_bind_eq_ok (x := Assemble.resolve (q.within l).functions bi.name) ran
    cases resolved.symm.trans ((h.within l).frees bi needed |>.resolve u)
    obtain ⟨sym, a'', u'', interned, rest⟩ := Assemble.of_bind_eq_ok rest
    obtain ⟨i, a₃, u₃, added, last⟩ := Assemble.of_bind_eq_ok rest
    cases interned
    cases last
    have leads : u.Leads P { u with symbols := (u.symbols.intern bi.name).1 } :=
      .single (.intern _) rfl rfl rfl rfl rfl rfl
    obtain ⟨later, -, -, constant⟩ := (Builds.addSymbol hP _).result fits (leads.sound h.sound) added
    exact ⟨i, _, _, rfl, constant, later.evolves.find? (u.symbols.find?_intern bi.name)⟩

/-- The function is pushed. -/
theorem Arrives.load (equipped : Equipped P exact e natives back) {i : Nat} {x : Symbol} {l : Location}
    (h : Arrives P exact e base m₀ q ((.loadGlobal i, l) :: more) b v s m) {bi : Builtin}
    (needed : bi ∈ Session.needed) (constant : b.tables.constants[i]? = some (.symbol x))
    (named : v.symbols.find? bi.name = some x) :
    ∃ c g, s.heap.get? c = some (.function g) ∧ g.body = .native (.builtin bi) ∧
      m.step natives back s = .ok (.running ((m.goto (q.offset + 1)).push (.ref .function c))) s ∧
      Arrives P exact e base m₀ (q.after [(.loadGlobal i, l)]) more b v s
        ((m.goto (q.offset + 1)).push (.ref .function c)) := by
  obtain ⟨c, y, g, found, bound, hg, body⟩ := h.supplies bi needed
  cases (h.evolves.find? named).symm.trans found
  have stepped : m.step natives back s = .ok (.running ((m.goto (m.top.ip + 1)).push (.ref .function c))) s :=
    Machine.step_loadGlobal h.holds.fetched (h.holds.tables.constants constant) bound
  rw [h.holds.ip] at stepped
  have path : Through natives back (fun _ => True) s m s ((m.goto (q.offset + 1)).push (.ref .function c)) :=
    .single trivial (.step stepped)
  exact ⟨c, g, hg, body, stepped, .after equipped h path h.supplies⟩

/-! ### Literals -/

/-- A constant denotes what it did when it was compiled. -/
theorem Denotes.constant {objects : Nat → Option Value} {d : Leaf} {c w : Value} (h : Denotes objects u d c)
    (hu : u.Sound P) (evolves : Session.Evolves P u s) (same : w = c ∨ c.identical w = true) {ω : World}
    (hs : s.Match (.transparent e) ω s) (hw : w.Match ω w) : Denotes objects s d w := by
  have same : c.identical w = true := same.elim (fun eq => eq ▸ w.identical_self) id
  -- An identical constant may have been there before; only for floats is it not the same value.
  cases d with
  | str text =>
    obtain ⟨a, rfl, ho⟩ := h
    cases w with
    | ref k a' =>
      obtain rfl : a = a' := by simpa [Value.identical] using same
      cases hw with
      | ref _ live =>
        obtain ⟨o, _, ho', -, kind, -⟩ := hs.heap.objects live
        cases (evolves.keeps hu).object ho ho'
        exact ⟨a, congrArg (Value.ref · a) kind.symm, ho'⟩
    | _ => simp [Value.identical] at same
  | symbol name =>
    obtain ⟨x, rfl, named⟩ := h
    cases w with
    | symbol y =>
      obtain rfl : x = y := by simpa [Value.identical] using same
      exact ⟨x, rfl, evolves.find? named⟩
    | _ => simp [Value.identical] at same
  | keyword name =>
    obtain ⟨x, rfl, named⟩ := h
    cases w with
    | keyword y =>
      obtain rfl : x = y := by simpa [Value.identical] using same
      exact ⟨x, rfl, evolves.find? named⟩
    | _ => simp [Value.identical] at same
  | object n =>
    obtain ⟨c', given, same'⟩ := h
    exact ⟨c', given, Value.identical_trans same' same⟩
  | float x =>
    obtain ⟨y, rfl, same'⟩ := h
    cases w with
    | float z => exact ⟨z, rfl, Value.identical_trans (u := .float x) (v := .float y) same' same⟩
    | _ => simp [Value.identical] at same
  | nil =>
    cases h
    cases w with
    | nil => rfl
    | _ => simp [Value.identical] at same
  | _ =>
    cases h
    cases w <;> simp [Value.identical] at same
    exact congrArg _ same.symm

theorem Compiling.literal (hP : ∀ limit, P.mayFail (.codeTooLarge limit)) (h : Compiling P e q₀ target q a u) {d : Leaf}
    (known : ∀ n, d = .object n → n < e.since.nextHandle)
    (ran : (do Compiler.constant q (← StateT.lift (Eval.valueOfLeaf d)) : Assemble Code) a u = .ok (code, b) v) :
    ∃ i w c u', code = [(.const i, q.cursor)] ∧ b.tables.constants[i]? = some w ∧ (w = c ∨ c.identical w = true) ∧
      Denotes e.since.embedded? u' d c ∧ u'.Sound P ∧ Session.Evolves P u' v := by
  obtain ⟨c, a', u', lifted, rest⟩ := Assemble.of_bind_eq_ok ran
  obtain ⟨i, _, _, added, last⟩ := Assemble.of_bind_eq_ok rest
  cases last
  obtain ⟨made, rfl⟩ := Assemble.of_lift_eq_ok lifted
  obtain ⟨ds, r, stands, fits⟩ := h.fits
  have leads := Obeys.valueOfLeaf (P := P) d u h.sound
  rw [made] at leads
  have sound := leads.1.sound h.sound
  obtain ⟨later, -, -, w, constant, same⟩ := (Builds.addConstant hP c).result fits sound added
  have denotes : Template.literal e.since.embedded? d u (.of (Eval.valueOfLeaf d u)) :=
      literal_valueOfLeaf h.sound.heap fun n same => by
    subst same
    cases found : u.heap.embedded? n with
    | none => cases (Eval.embedded_eq_of_none found).symm.trans made
    | some c' => exact ⟨c', h.since.embedded (known n rfl) found, rfl⟩
  rw [made] at denotes
  obtain ⟨c', t, same', -, denotes⟩ | ⟨_, never, -⟩ := denotes
  · cases same'
    exact ⟨i, w, c, u', rfl, constant, same, denotes, sound, later.evolves⟩
  · cases never

/-- A value that a literal denotes is pushed. -/
theorem Arrives.gets (h : Arrives P exact e base m₀ q code b v s m) {objects : Nat → Option Value} {d : Leaf}
    {w : Value} {l : Location} {i : Instruction} (single : code = [(i, l)])
    (stepped : m.step natives back s = .ok (.running ((m.goto (m.top.ip + 1)).push w)) s)
    (denotes : Denotes objects s d w) : Gets natives back m₀ q code (literal objects d) s m := by
  subst single
  have inside : m₀.Inside q.offset (q.offset + 1) m :=
    h.above.inside h.holds.ip.ge (by rw [h.holds.ip]; exact Nat.lt_succ_self _)
  refine Drives.step inside stepped (.inr ⟨.value w s, .inl ⟨w, s, rfl, .refl, denotes⟩, ?_⟩)
  rw [h.holds.ip]
  exact .value .refl h.supplies

/-- A constant is pushed for a literal. -/
theorem Arrives.literal (hP : ∀ limit, P.mayFail (.codeTooLarge limit)) (h : Compiling P e q₀ target q a u) {d : Leaf}
    (known : ∀ n, d = .object n → n < e.since.nextHandle)
    (ran : (do Compiler.constant q (← StateT.lift (Eval.valueOfLeaf d)) : Assemble Code) a u = .ok (code, b) v)
    (arrives : Arrives P exact e base m₀ q code b v s m) :
    Gets natives back m₀ q code (literal e.since.embedded? d) s m := by
  obtain ⟨i, w, c, u', rfl, constant, same, denotes, sound, later⟩ := h.literal hP known ran
  have there : m.top.code.constants[i]? = some w := arrives.holds.tables.constants constant
  obtain ⟨ω, session, machine⟩ := arrives.poised.corresponds
  have matched : w.Match ω w := by
    have same := machine.constant? i
    rw [show m.constant? i = some w from there] at same
    cases same with
    | some same => exact same
  exact arrives.gets rfl (Machine.step_const arrives.holds.fetched there)
    (denotes.constant sound (Relation.ReflTransGen.trans later arrives.evolves) same session matched)

theorem performs_leaf (hP : ∀ limit, P.mayFail (.codeTooLarge limit)) {d : Leaf} (literal : ∀ text, d ≠ .symbol text)
    (l : Location) :
    Performs P exact e base natives back q₀ m₀ (.leaf d l) (Template.literal e.since.embedded? d) := by
  intro levels target q a b u v s code m compiling _ mentions ran arrives
  cases levels with
  | zero => cases ran
  | succ levels =>
    have known : ∀ n, d = .object n → n < e.since.nextHandle := Form.mentions_leaf.1 mentions
    have constant (ran : (do Compiler.constant (q.within l) (← StateT.lift (Eval.valueOfLeaf d)) : Assemble Code) a u =
        .ok (code, b) v) : Gets natives back m₀ q code (Template.literal e.since.embedded? d) s m :=
      (arrives.within l).literal hP (compiling.within l) known ran
    cases d with
    | symbol name => exact absurd rfl (literal name)
    | nil =>
      cases ran
      exact arrives.gets rfl (Machine.step_of_fetched arrives.holds.fetched) rfl
    | bool value =>
      cases value with
      | true =>
        cases ran
        exact arrives.gets rfl (Machine.step_of_fetched arrives.holds.fetched) rfl
      | false =>
        cases ran
        exact arrives.gets rfl (Machine.step_of_fetched arrives.holds.fetched) rfl
    | _ => exact constant ran

theorem performs_quote (hP : ∀ limit, P.mayFail (.codeTooLarge limit)) (text : String) (l : Location) :
    Performs P exact e base natives back q₀ m₀ (.call "quote" [.symbol text l] l)
      (Template.literal e.since.embedded? (.symbol text)) := by
  intro levels target q a b u v s code m compiling _ _ ran arrives
  cases levels with
  | zero => cases ran
  | succ levels => exact (arrives.within l).literal hP (compiling.within l) nofun ran

/-! ### Calls -/

/-- Behind the code of several forms. -/
theorem Compiling.compiledAll (hP : ∀ limit, P.mayFail (.codeTooLarge limit)) (h : Compiling P e q₀ target q a u)
    {fs : List Form} (accepted : ∀ f ∈ fs, f.Accepted target false)
    (ran : (Compiler.within levels).values q fs a u = .ok (code, b) v) :
    a.tables.Within b.tables ∧ Session.Evolves P u v ∧ v.Sound P ∧ ∃ ds, b.Fits P ds := by
  obtain ⟨ds, r, stands, fits⟩ := h.fits
  obtain ⟨leads, grows, later, -⟩ :=
    (Compiler.Certifies.values (Compiler.certifies_within hP levels) accepted stands).result fits h.sound ran
  exact ⟨grows.tables, leads.evolves, leads.sound h.sound, ds, later⟩

/-- The values of some forms are pushed. -/
theorem drives_values (equipped : Equipped P exact e natives back) (hP : ∀ limit, P.mayFail (.codeTooLarge limit))
    {fs : List Form} {xs : List (Course Value)}
    (performs : List.Forall₂ (Performs P exact e base natives back q₀ m₀) fs xs)
    (compiling : Compiling P e q₀ target q a u) (accepted : ∀ f ∈ fs, f.Accepted target false)
    (mentions : ∀ f ∈ fs, f.Mentions (· < e.since.nextHandle))
    (ran : (Compiler.within levels).values q fs a u = .ok (code, b) v)
    (arrives : Arrives P exact e base m₀ q code b v s m) :
    m.Drives natives back (m₀.Inside q.offset (q.offset + code.length)) m₀.handlers
      (fun vs => (m.goto (q.offset + code.length)).pushAll vs) (Course.inOrder xs) s := by
  induction performs generalizing q a b u v code s m with
  | nil =>
    cases ran
    refine .pure ?_ arrives.supplies
    change (m.goto q.offset).pushAll [] = m
    rw [← arrives.holds.ip, Machine.goto_ip, Machine.pushAll_nil]
  | @cons f x fs xs first _ ih =>
    obtain ⟨ok, accepted⟩ := List.forall_mem_cons.1 accepted
    obtain ⟨known, mentions⟩ := List.forall_mem_cons.1 mentions
    obtain ⟨code₁, a₁, u₁, head, rest⟩ := Assemble.of_bind_eq_ok ran
    obtain ⟨code₂, a₂, u₂, tail, last⟩ := Assemble.of_bind_eq_ok rest
    cases last
    obtain ⟨compiling₁, -, -⟩ := compiling.compiled hP ok head
    obtain ⟨tables, evolves, -⟩ := compiling₁.compiledAll hP accepted tail
    have gets := first compiling ok known head (arrives.front tables evolves)
    rw [List.length_append]
    refine (Drives.weaken gets fun _ => Machine.Inside.weaken le_rfl (by omega)).bind fun w t _ path supplies => ?_
    have arrives₁ := arrives.after equipped path supplies
    have later := (ih compiling₁ accepted mentions tail arrives₁).weaken
      (J := m₀.Inside q.offset (q.offset + (code₁.length + code₂.length))) fun _ =>
        Machine.Inside.weaken (Nat.le_add_right ..) (by simp only [CompilePlace.after, CompilePlace.skip]; omega)
    -- The first value lies on the operands while the others are evaluated, which saves it.
    refine (later.saving fun ws t' further => ?_).bind fun ws t' _ _ supplies => .pure ?_ supplies
    · obtain ⟨poised, evolves⟩ := arrives₁.poised.through equipped further
      refine arrives₁.poised.saves poised evolves fun w' hw' => ?_
      obtain rfl := List.mem_singleton.1 hw'
      exact Array.mem_append_left _ (Array.mem_push_self ..)
    · rw [Machine.pushAll_cons _ (q.offset + code₁.length), ← Nat.add_assoc]
      rfl

/-- The code of a call: the function, the arguments, and the call itself. -/
theorem Compiling.call (hP : ∀ limit, P.mayFail (.codeTooLarge limit)) (h : Compiling P e q₀ target q a u)
    {name : String} {fs : List Form} {l : Location} (special : SpecialForm.ofName? name = none)
    (plain : CoreOp.ofName? name = none)
    (accepted : ∀ f ∈ Form.symbol name l :: fs, f.Accepted target false)
    (ran : Compiler.within levels q (.call name fs l) a u = .ok (code, b) v) :
    ∃ levels' code₁ a₁ u₁ code₂ a₂ u₂ site l', code = code₁ ++ (code₂ ++ [(.call fs.length site, l')]) ∧
      Compiler.within levels' (q.within l) (.symbol name l) a u = .ok (code₁, a₁) u₁ ∧
      (Compiler.within levels').values ((q.within l).after code₁) fs a₁ u₁ = .ok (code₂, a₂) u₂ ∧
      a₂.tables.Within b.tables ∧ Session.Evolves P u₂ v ∧ site < b.tables.sites.size := by
  cases levels with
  | zero => cases ran
  | succ levels =>
    have called : Compiler.call (Compiler.within levels) (q.within l) (.symbol name l) fs a u = .ok (code, b) v := by
      have opened : Compiler.within (levels + 1) q (.call name fs l) =
          Compiler.call (Compiler.within levels) (q.within l) (.symbol name l) fs := by
        simp only [Compiler.within, Form.call, Form.list, Compiler.step, Form.symbol, Form.symbolName?, special,
          Compiler.inline?, plain, pure_bind]
      rwa [opened] at ran
    obtain ⟨all, a₂, u₂, values, rest⟩ := Assemble.of_bind_eq_ok called
    obtain ⟨-, -, sound, ds, fits⟩ := (h.within l).compiledAll hP accepted values
    obtain ⟨code₁, a₁, u₁, head, more⟩ := Assemble.of_bind_eq_ok values
    obtain ⟨code₂, _, _, tail, last⟩ := Assemble.of_bind_eq_ok more
    cases last
    obtain ⟨site, a₃, u₃, added, rest⟩ := Assemble.of_bind_eq_ok rest
    obtain ⟨argc, _, _, counted, last⟩ := Assemble.of_bind_eq_ok rest
    obtain ⟨rfl, rfl, rfl⟩ := Assemble.of_index_eq_ok counted
    cases last
    obtain ⟨leads, grows, -, bound⟩ := (Builds.addSite hP _).result fits sound added
    exact ⟨levels, code₁, a₁, u₁, code₂, a₂, u₂, site, _, List.append_assoc .., head, tail, grows.tables,
      leads.evolves, bound⟩

theorem length_of_inOrder {xs : List (Course Value)} {vs : List Value} (h : Course.inOrder xs s (.value vs t)) :
    vs.length = xs.length := by
  induction xs generalizing s vs with
  | nil =>
    cases h
    rfl
  | cons x xs ih =>
    obtain ⟨w, t', -, rest⟩ | ⟨_, -, eq⟩ | ⟨-, eq⟩ := Course.bind_iff.1 h
    · obtain ⟨ws, u', ⟨others, -⟩, last⟩ | ⟨_, -, eq⟩ | ⟨-, eq⟩ := Course.bind_iff.1 rest
      · cases last
        exact congrArg Nat.succ (ih others)
      · cases eq
      · cases eq
    · cases eq
    · cases eq

/-- **In a call of a native function that makes data**, the arguments are evaluated and given to it. -/
theorem performs_native (equipped : Equipped P exact e natives back) (hP : ∀ limit, P.mayFail (.codeTooLarge limit))
    {bi : Builtin} (needed : bi ∈ Session.needed) (special : SpecialForm.ofName? bi.name = none)
    (plain : CoreOp.ofName? bi.name = none) {fs : List Form} {xs : List (Course Value)}
    (performs : List.Forall₂ (Performs P exact e base natives back q₀ m₀) fs xs) (l : Location)
    {ws : List Value → List Value} {y : List Value → Eval Value} (among : ∀ vs, ∀ w ∈ ws vs, w ∈ vs)
    (makes : ∀ vs, Eval.MakesData (y vs))
    (imitates : ∀ s vs t t' l ls, Course.inOrder xs s (.value vs t) → t.Saves vs t' →
      Eval.Imitates (Eval.attributed l ls (natives back (.builtin bi) vs)) (y vs) t') :
    Performs P exact e base natives back q₀ m₀ (.call bi.name fs l)
      (Course.inOrder xs >>= fun vs => Course.pause (ws vs) >>= fun _ => Course.act (y vs)) := by
  intro levels target q a b u v s code m compiling ok known ran arrives
  have plainForm : (Form.call bi.name fs l).special? = none := (Form.special?_list ..).trans special
  have accepted := ok.items plainForm
  have mentions := Form.mentions_group.1 known
  obtain ⟨levels', code₁, a₁, u₁, code₂, a₂, u₂, site, l', rfl, head, tail, tables, evolves, bound⟩ :=
    compiling.call hP special plain accepted ran
  obtain ⟨acceptedHead, accepted⟩ := List.forall_mem_cons.1 accepted
  obtain ⟨-, mentions⟩ := List.forall_mem_cons.1 mentions
  obtain ⟨compiling₁, -, -⟩ := (compiling.within l).compiled hP acceptedHead head
  obtain ⟨tables₂, evolves₂, -⟩ := compiling₁.compiledAll hP accepted tail
  obtain ⟨i, x, l₀, rfl, constant, named⟩ := (compiling.within l).name hP needed head
  obtain ⟨c, g, hg, body, stepped, arrives₁⟩ := (arrives.within l).load equipped needed
    (tables.constants (tables₂.constants constant)) (evolves.find? (evolves₂.find? named))
  unfold Gets
  rw [show ([(Instruction.loadGlobal i, l₀)] ++ (code₂ ++ [(Instruction.call fs.length site, l')])).length =
    1 + code₂.length + 1 by simp only [List.length_append, List.length_singleton]; omega]
  refine Drives.step (arrives.above.inside arrives.holds.ip.ge (by rw [arrives.holds.ip]; omega)) stepped ?_
  have values := drives_values equipped hP performs compiling₁ accepted mentions tail
    ((show Arrives P exact e base m₀ _ (code₂ ++ [(Instruction.call fs.length site, l')]) b v s _ from arrives₁).front
      tables evolves)
  rw [show (((q.within l).after [(Instruction.loadGlobal i, l₀)]).offset) = q.offset + 1 from rfl] at values
  refine (values.weaken fun _ => Machine.Inside.weaken (Nat.le_add_right ..) (by omega)).bind
    fun vs t member path supplies => ?_
  obtain ⟨poised, later⟩ := arrives₁.poised.through equipped path
  have count : vs.length = fs.length := (length_of_inOrder member).trans performs.length_eq.symm
  -- The function lies beneath the arguments all the time, so it is what it was when it was loaded.
  have callee : t.heap.get? c = some (.function g) :=
    arrives₁.poised.function poised later (Array.mem_append_left _ (Array.mem_push_self ..)) hg
  have fetched := arrives₁.holds.code (k := code₂.length) (e := (.call fs.length site, l')) (by simp)
  have found := Array.getElem?_eq_getElem (Nat.lt_of_lt_of_le bound arrives₁.holds.tables.sites)
  have operands : m.operands.push (.ref .function c) ++ vs.toArray =
      m.operands ++ (Value.ref .function c :: vs).toArray := by simp
  refine Drives.native poised ((arrives₁.above.pushAll _ vs).inside ?_ ?_) (arrives₁.above.pushAll _ vs).handlers
    fetched found count.symm operands callee body (among vs) (makes vs)
    (fun t' l ls saves => imitates s vs t t' l ls member saves) supplies fun w => ?_
  · exact Nat.le_trans (Nat.le_add_right q.offset 1) (Nat.le_add_right _ _)
  · change q.offset + 1 + code₂.length < _
    omega
  · change (m.goto _).push w = (m.goto (q.offset + 1 + code₂.length + 1)).push w
    rw [Nat.add_assoc q.offset, Nat.add_assoc q.offset]

/-- A call of a built-in function that makes data. -/
theorem performs_call {hosts : HostTable} (equipped : Equipped P exact e (Eval.runNative hosts) back)
    (hP : ∀ limit, P.mayFail (.codeTooLarge limit)) {bi : Builtin} (h : bi ∈ [.list, .concat, .seq]) {fs : List Form}
    {xs : List (Course Value)}
    (performs : List.Forall₂ (Performs P exact e base (Eval.runNative hosts) back q₀ m₀) fs xs) (l : Location) :
    Performs P exact e base (Eval.runNative hosts) back q₀ m₀ (.call bi.name fs l) (ofCall bi xs) := by
  have known : SpecialForm.ofName? bi.name = none ∧ CoreOp.ofName? bi.name = none ∧ bi ∈ Session.needed ∧
      bi ∈ [.list, .vector, .hashMap, .hashSet, .concat, .seq] := by
    simp only [List.mem_cons, List.not_mem_nil, or_false] at h
    rcases h with rfl | rfl | rfl <;> exact ⟨rfl, rfl, by decide, by decide⟩
  obtain ⟨special, plain, needed, makes⟩ := known
  change Performs P exact e base (Eval.runNative hosts) back q₀ m₀ (.call bi.name fs l)
    (Course.inOrder xs >>= fun vs => Course.pause vs >>= fun _ => Course.act (Library.run noCaller bi vs))
  exact performs_native equipped hP needed special plain performs l
    (fun _ _ hw => hw) (fun vs => .run makes noCaller vs)
    fun _ vs _ _ l ls _ saves => imitates_native makes back vs saves.after l ls

/-- The function that a name stands for. -/
def named (bi : Builtin) : Course Value := fun s r =>
  ∃ c g, r = .value (.ref .function c) s ∧ s.heap.get? c = some (.function g) ∧ g.body = .native (.builtin bi)

theorem performs_name (equipped : Equipped P exact e natives back) (hP : ∀ limit, P.mayFail (.codeTooLarge limit))
    {bi : Builtin} (needed : bi ∈ Session.needed) (l : Location) :
    Performs P exact e base natives back q₀ m₀ (.symbol bi.name l) (named bi) := by
  intro levels target q a b u v s code m compiling _ _ ran arrives
  obtain ⟨i, x, l', rfl, constant, found⟩ := compiling.name hP needed ran
  have first : Arrives P exact e base m₀ q ((.loadGlobal i, l') :: []) b v s m := arrives
  obtain ⟨c, g, hg, body, stepped, -⟩ := first.load equipped needed constant found
  have inside : m₀.Inside q.offset (q.offset + 1) m :=
    arrives.above.inside arrives.holds.ip.ge (by rw [arrives.holds.ip]; exact Nat.lt_succ_self _)
  exact Drives.step inside stepped (.inr ⟨_, ⟨c, g, rfl, hg, body⟩, .value .refl arrives.supplies⟩)

theorem inOrder_one {x : Course Value} {r : Ending (List Value)} (h : Course.inOrder [x] s r) :
    (∃ w t, r = .value [w] t ∧ x s (.value w t)) ∨ (∃ k, r = .failure k ∧ x s (.failure k)) ∨
      r = .unsettled ∧ x s .unsettled := by
  obtain ⟨w, t, taken, rest⟩ | ⟨k, taken, rfl⟩ | ⟨taken, rfl⟩ := Course.bind_iff.1 h
  · obtain ⟨_, _, ⟨none, -⟩, last⟩ | ⟨_, ⟨none, -⟩, -⟩ | ⟨⟨none, -⟩, -⟩ := Course.bind_iff.1 rest <;> cases none
    exact .inl ⟨w, t, last, taken⟩
  · exact .inr (.inl ⟨k, rfl, taken⟩)
  · exact .inr (.inr ⟨rfl, taken⟩)

/-- The arguments of an application, one after the other. -/
theorem inOrder_named {bi : Builtin} {x : Course Value} {r : Ending (List Value)}
    (h : Course.inOrder [named bi, x] s r) : ∃ c g, s.heap.get? c = some (.function g) ∧
      g.body = .native (.builtin bi) ∧
        ((∃ w t, r = .value [.ref .function c, w] t ∧ x s (.value w t) ∧ s.Saves [.ref .function c] t) ∨
          (∃ k, r = .failure k ∧ x s (.failure k)) ∨ r = .unsettled ∧ x s .unsettled) := by
  obtain ⟨_, _, ⟨c, g, same, hg, body⟩, rest⟩ | ⟨_, ⟨_, _, eq, -⟩, -⟩ | ⟨⟨_, _, eq, -⟩, -⟩ := Course.bind_iff.1 h
  · cases same
    refine ⟨c, g, hg, body, ?_⟩
    obtain ⟨ws, t, ⟨others, saves⟩, rfl⟩ | ⟨k, ⟨others, -⟩, rfl⟩ | ⟨⟨others, -⟩, rfl⟩ := Course.bind_iff.1 rest
    all_goals obtain ⟨w, _, eq, taken⟩ | ⟨_, eq, taken⟩ | ⟨eq, taken⟩ := inOrder_one others <;> cases eq
    · exact .inl ⟨w, t, rfl, taken, saves _ t rfl⟩
    · exact .inr (.inl ⟨k, rfl, taken⟩)
    · exact .inr (.inr ⟨rfl, taken⟩)
  · cases eq
  · cases eq

/-- The application of a built-in function that makes data. -/
theorem performs_apply {hosts : HostTable} (equipped : Equipped P exact e (Eval.runNative hosts) back)
    (calls : CallsNatives (Eval.runNative hosts) back)
    (hP : ∀ limit, P.mayFail (.codeTooLarge limit)) {bi : Builtin} (h : bi ∈ [.vector, .hashMap, .hashSet])
    {x : Course Value} (performs : Performs P exact e base (Eval.runNative hosts) back q₀ m₀ f x) (l : Location) :
    Performs P exact e base (Eval.runNative hosts) back q₀ m₀ (.call "apply" [.symbol bi.name l, f] l)
      (ofApply bi x) := by
  have known : bi ∈ Session.needed ∧ bi ∈ [.list, .vector, .hashMap, .hashSet, .concat, .seq] := by
    simp only [List.mem_cons, List.not_mem_nil, or_false] at h
    rcases h with rfl | rfl | rfl <;> exact ⟨by decide, by decide⟩
  obtain ⟨needed, makes⟩ := known
  have both : Performs P exact e base (Eval.runNative hosts) back q₀ m₀ (.call "apply" [.symbol bi.name l, f] l)
      (Course.inOrder [named bi, x] >>= fun vs => Course.pause (vs.drop 1) >>= fun _ =>
        Course.act (do Library.run noCaller bi (← Library.elements .apply 1 (vs.getD 1 .nil)))) :=
    performs_native equipped hP (by decide : Builtin.apply ∈ Session.needed) rfl rfl
    (.cons (performs_name equipped hP needed l) (.cons performs .nil)) l
    (fun vs w hw => List.mem_of_mem_drop hw)
    (fun vs => (Eval.MakesData.elements ..).bind fun items => .run makes noCaller items)
    fun s vs t t' l ls member saves => by
      obtain ⟨c, g, hg, body, ⟨w, t, eq, -, kept⟩ | ⟨_, eq, -⟩ | ⟨eq, -⟩⟩ := inOrder_named member
      · cases eq
        have other := Object.function_ne_atom g
        have here := kept.data (List.mem_singleton_self _) .self hg other
        have there := saves.data (List.mem_cons_self ..) .self here other
        exact imitates_apply makes calls there body w saves.after l ls
      · cases eq
      · cases eq
  intro levels target q a b u v s code m compiling ok known ran arrives
  refine Drives.le (both compiling ok known ran arrives) fun r hr => ?_
  obtain ⟨vs, t, member, rest⟩ | ⟨k, member, rfl⟩ | ⟨member, rfl⟩ := Course.bind_iff.1 hr
  all_goals
    obtain ⟨c, g, -, -, ⟨w, t, eq, taken, -⟩ | ⟨_, eq, taken⟩ | ⟨eq, taken⟩⟩ := inOrder_named member <;> cases eq
  · exact .value taken rest
  · exact .failure taken
  · exact .unsettled taken

/-- **The machine evaluates the code of templates.** -/
theorem evaluates_machine {hosts : HostTable} (equipped : Equipped P exact e (Eval.runNative hosts) back)
    (calls : CallsNatives (Eval.runNative hosts) back) (hP : ∀ limit, P.mayFail (.codeTooLarge limit)) :
    Evaluates (Template.literal e.since.embedded?)
      (Performs P exact e base (Eval.runNative hosts) back q₀ m₀) where
  weaken performs le := fun compiling ok known ran arrives =>
    Drives.le (performs compiling ok known ran arrives) (le _)
  quote text l := performs_quote hP text l
  leaf h l := performs_leaf hP h l
  call h _ _ performs l := performs_call equipped hP h performs l
  apply h _ _ performs l := performs_apply equipped calls hP h performs l

end Template

end TwinLisp
