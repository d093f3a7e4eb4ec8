import TwinLisp.Bytecode.Assembly
import TwinLisp.Machine.Basic

/-!
# Levels of code

Code is well formed if a *level* can be given to each of its instructions: how high the operand stack is
there, which handlers the frame has installed, and how many failures it holds. Whatever an instruction
leads to has to have the level that the instruction produces, so that all ways to an instruction agree.

Pieces of code are certified one by one, at the offset where they are going to stand. What a piece jumps to
need not lie in it; that such a place has the right level is assumed, and holds once the code is complete.

## Main definitions

* `Level`, and `Instruction.Flows`: an instruction fits the levels around it.
* `Certified`: a piece of code leads from one level to another.
* `ArityCode.Typed` and `Prototype.Each`: all code of a prototype fits its levels.

## Main statements

* `Certified.append`, `Certified.ending`: pieces may know the levels between them and behind them.
* `Certified.typed`: a whole piece that ends with `ret` is well formed.
-/

namespace TwinLisp

/-! ### Levels -/

/-- A handler as it is known from the code. -/
structure HandlerShape where
  /-- What it does. -/
  kind : HandlerKind
  /-- The number of operands when it was installed. -/
  height : Nat
  /-- The number of held failures when it was installed. -/
  held : Nat

/-- What is known about a frame before an instruction. -/
structure Level where
  /-- The number of operands. -/
  height : Nat
  /-- The installed handlers, the innermost first. -/
  handlers : List HandlerShape
  /-- The number of held failures. -/
  held : Nat
  /-- Whether the topmost operand is a macro that was made just now. -/
  isMacro : Bool

/-- Offsets and the levels there. -/
abbrev Levels := Nat → Option Level

namespace HandlerShape

/-- Each handler was installed with no more operands and held failures than there were for the next one,
the innermost with no more than there are now. -/
def Nested : List HandlerShape → Nat → Nat → Prop
  | [], _, _ => True
  | s :: rest, height, held => s.height ≤ height ∧ s.held ≤ held ∧ Nested rest s.height s.held

theorem Nested.mono {shapes : List HandlerShape} {height height' held held' : Nat}
    (h : Nested shapes height held) (hh : height ≤ height') (hd : held ≤ held') :
    Nested shapes height' held' := by
  cases shapes with
  | nil => trivial
  | cons s rest => exact ⟨Nat.le_trans h.1 hh, Nat.le_trans h.2.1 hd, h.2.2⟩

/-- The level where the handler goes on, with the handlers around it. -/
def resume (s : HandlerShape) (rest : List HandlerShape) : Level :=
  match s.kind with
  | .catching => ⟨s.height + 1, rest, s.held, false⟩
  | .cleanup => ⟨s.height, rest, s.held + 1, false⟩

end HandlerShape

namespace Level

/-- After some operands were taken off and others put on. -/
def moved (L : Level) (pops pushes : Nat) : Level :=
  { L with height := L.height - pops + pushes, isMacro := false }

/-- So many operands may be taken off: they are there, and no handler relies on them. -/
def Has (L : Level) (pops : Nat) : Prop :=
  pops ≤ L.height ∧ HandlerShape.Nested L.handlers (L.height - pops) L.held

end Level

/-! ### Instructions -/

/-- The number of operands that an instruction takes off. -/
def Instruction.pops : Instruction → Nat
  | .pop | .storeLocal _ | .defGlobal _ | .popJumpIfFalse _ | .ret | .raise => 1
  | .endScope n => n + 1
  | .call argc _ => argc + 1
  | .arith _ _ | .compare _ _ => 2
  | .buildList n | .buildVector n | .buildMap n | .buildSet n => n
  | _ => 0

/-- The number of operands that an instruction puts on. -/
def Instruction.pushes : Instruction → Nat
  | .pop | .storeLocal _ | .popJumpIfFalse _ | .truncate _ | .jump _ | .ret | .raise | .pushCatch _
  | .pushFinally _ | .popHandler | .rethrow => 0
  | _ => 1

/-- What code refers to. -/
structure CodeContext where
  /-- The native function that a guarded name stands for. -/
  guarded : Symbol → Option Native
  /-- The tables of the code. -/
  tables : CodeTables
  /-- The number of captured values. -/
  captures : Nat

/-- What is captured is there, in a frame with so many operands and captured values. -/
def Capture.FitsIn (height captures : Nat) : Capture → Prop
  | .fromSlot i => i < height
  | .fromCapture i => i < captures

theorem Capture.FitsIn.mono {height height' captures captures' : Nat} {c : Capture}
    (h : c.FitsIn height captures) (hh : height ≤ height') (hc : captures ≤ captures') :
    c.FitsIn height' captures' := by
  cases c with
  | fromSlot i => exact Nat.lt_of_lt_of_le h hh
  | fromCapture i => exact Nat.lt_of_lt_of_le h hc

namespace Instruction

variable (X : CodeContext) (H : Levels)

/-- What the instruction refers to is there. Guarded names are bound to macros only. -/
def InRange (L : Level) : Instruction → Prop
  | .const i => i < X.tables.constants.size
  | .loadGlobal i => ∃ name, X.tables.constants[i]? = some (.symbol name)
  | .defGlobal i => ∃ name, X.tables.constants[i]? = some (.symbol name) ∧
      (L.isMacro = false → X.guarded name = none)
  | .loadLocal i => i < L.height
  | .storeLocal i => i + 1 < L.height
  | .loadCapture i => i < X.captures
  | .call _ site | .arith _ site | .compare _ site => site < X.tables.sites.size
  | .closure i | .macroClosure i => ∃ q, X.tables.prototypes[i]? = some q ∧
      ∀ c ∈ q.captures, c.FitsIn L.height X.captures
  | _ => True

/-- Behind the instruction, and where it jumps to, there are the levels that it produces. -/
def LeadsTo (next : Nat) (L : Level) (i : Instruction) : Prop :=
  match i with
  | .jump d => ∃ t : Nat, (t : Int) = next + d ∧ H t = some (L.moved 0 0)
  | .popJumpIfFalse d => H next = some (L.moved 1 0) ∧
      ∃ t : Nat, (t : Int) = next + d ∧ H t = some (L.moved 1 0)
  -- The height may be given in sixteen bits, where it wraps around to zero.
  | .truncate n => ∃ h, h ≤ L.height ∧ (n = h ∨ n = 0) ∧ HandlerShape.Nested L.handlers h L.held ∧
      H next = some (L.moved L.height h)
  | .pushCatch d => ∃ t : Nat, (t : Int) = next + d ∧
      H t = some (HandlerShape.resume ⟨.catching, L.height, L.held⟩ L.handlers) ∧
      H next = some ⟨L.height, ⟨.catching, L.height, L.held⟩ :: L.handlers, L.held, false⟩
  | .pushFinally d => ∃ t : Nat, (t : Int) = next + d ∧
      H t = some (HandlerShape.resume ⟨.cleanup, L.height, L.held⟩ L.handlers) ∧
      H next = some ⟨L.height, ⟨.cleanup, L.height, L.held⟩ :: L.handlers, L.held, false⟩
  | .popHandler => ∃ s rest, L.handlers = s :: rest ∧ H next = some ⟨L.height, rest, L.held, false⟩
  | .rethrow => ∃ n, L.held = n + 1 ∧ HandlerShape.Nested L.handlers L.height n
  | .raise => True
  | .ret => L.handlers = [] ∧ L.held = 0
  | .macroClosure _ => H next = some { L.moved 0 1 with isMacro := true }
  | i => H next = some (L.moved i.pops i.pushes)

/-- The instruction before the offset `next` fits the levels around it. -/
structure Flows (next : Nat) (L : Level) (i : Instruction) : Prop where
  inRange : i.InRange X L
  has : L.Has i.pops
  leadsTo : i.LeadsTo H next L

end Instruction

/-! ### Pieces of code -/

/-- From the offset `o` on there are the given levels. -/
def Levels.Has (H : Levels) (o : Nat) (ls : List Level) : Prop :=
  ∀ i L, ls[i]? = some L → H (o + i) = some L

theorem Levels.Has.append {H : Levels} {o : Nat} {ls ls' : List Level} (h : H.Has o (ls ++ ls')) :
    H.Has o ls ∧ H.Has (o + ls.length) ls' := by
  refine ⟨fun i L hi => h i L ?_, fun i L hi => ?_⟩
  · rwa [List.getElem?_append_left (List.getElem?_eq_some_iff.1 hi).1]
  · rw [Nat.add_assoc]
    refine h _ L ?_
    rwa [List.getElem?_append_right (Nat.le_add_right ..), Nat.add_sub_cancel_left]

theorem Levels.Has.head {H : Levels} {o : Nat} {ls : List Level} {L : Level} (h : H.Has o ls)
    (hL : ls.head? = some L) : H o = some L := h 0 L (by rwa [List.head?_eq_getElem?] at hL)

/-- The code leads from the level `entry` at offset `o` to the level `exit` behind it. That other places
have their levels is assumed as `K`. -/
def Certified (X : CodeContext) (K : Levels → Prop) (o : Nat) (entry : Level) (code : Code)
    (exit : Level) : Prop :=
  ∃ ls : List Level, ls.length = code.length ∧ (ls ++ [exit]).head? = some entry ∧
    ∀ H : Levels, K H → H.Has o (ls ++ [exit]) →
      ∀ (i : Nat) (L : Level) (x : Instruction × Location), ls[i]? = some L → code[i]? = some x →
        x.1.Flows X H (o + i + 1) L

namespace Certified

variable {X : CodeContext} {K K' : Levels → Prop} {o o' : Nat} {e m x : Level} {c c' : Code}

theorem mono (h : Certified X K o e c x) (hK : ∀ H, K' H → K H) : Certified X K' o e c x := by
  obtain ⟨ls, length, head, flows⟩ := h
  exact ⟨ls, length, head, fun H hH => flows H (hK H hH)⟩

theorem nil : Certified X K o e [] e := ⟨[], rfl, rfl, fun _ _ _ i L x hi => by simp at hi⟩

/-- The code may know the level behind it. -/
theorem ending (ho : o' = o + c.length)
    (h : Certified X (fun H => K H ∧ H o' = some x) o e c x) : Certified X K o e c x := by
  obtain ⟨ls, length, head, flows⟩ := h
  refine ⟨ls, length, head, fun H hK hH => flows H ⟨hK, ?_⟩ hH⟩
  rw [ho, ← length]
  exact hH.append.2.head rfl

/-- The code may know the level that it starts from. -/
theorem starting (h : Certified X (fun H => K H ∧ H o = some e) o e c x) : Certified X K o e c x := by
  obtain ⟨ls, length, head, flows⟩ := h
  exact ⟨ls, length, head, fun H hK hH => flows H ⟨hK, hH.head head⟩ hH⟩

/-- Both pieces may know the level between them. -/
theorem append (ho : o' = o + c.length)
    (h : Certified X (fun H => K H ∧ H o' = some m) o e c m)
    (h' : Certified X (fun H => K H ∧ H o' = some m) o' m c' x) : Certified X K o e (c ++ c') x := by
  obtain ⟨ls, length, head, flows⟩ := h
  obtain ⟨ls', length', head', flows'⟩ := h'
  have between : (ls' ++ [x]).head? = some m := head'
  refine ⟨ls ++ ls', by simp [length, length'], ?_, fun H hK hH i L y hi hy => ?_⟩
  · rw [List.append_assoc, List.head?_append, between]
    rwa [List.head?_append] at head
  · rw [List.append_assoc] at hH
    obtain ⟨before, after⟩ := hH.append
    rw [length, ← ho] at after
    have middle : H o' = some m := after.head between
    by_cases hl : i < ls.length
    · rw [List.getElem?_append_left hl] at hi
      rw [List.getElem?_append_left (length ▸ hl)] at hy
      refine flows H ⟨hK, middle⟩ (fun j M hj => ?_) i L y hi hy
      rw [List.getElem?_append] at hj
      split at hj
      · exact before j M hj
      · next hlj =>
        have : j = ls.length := by
          have := (List.getElem?_eq_some_iff.1 hj).1
          simp at this
          omega
        subst this
        rw [Nat.sub_self] at hj
        cases hj
        rwa [length, ← ho]
    · have hl : ls.length ≤ i := Nat.le_of_not_lt hl
      rw [List.getElem?_append_right hl] at hi
      rw [List.getElem?_append_right (length ▸ hl)] at hy
      have flow := flows' H ⟨hK, middle⟩ after (i - ls.length) L y hi (length ▸ hy)
      have : o' + (i - ls.length) + 1 = o + i + 1 := by omega
      rwa [this] at flow

/-- Pieces that need not know the level between them. -/
theorem append' (h : Certified X K o e c m) (ho : o' = o + c.length) (h' : Certified X K o' m c' x) :
    Certified X K o e (c ++ c') x :=
  append ho (h.mono fun _ hK => hK.1) (h'.mono fun _ hK => hK.1)

/-- A single instruction. -/
theorem single {i : Instruction} {l : Location} (range : i.InRange X e) (has : e.Has i.pops)
    (leads : ∀ H, K H → H (o + 1) = some x → i.LeadsTo H (o + 1) e) : Certified X K o e [(i, l)] x := by
  refine ⟨[e], rfl, rfl, fun H hK hH j L y hj hy => ?_⟩
  obtain rfl : j = 0 := by simpa using (List.getElem?_eq_some_iff.1 hj).1
  cases hj
  cases hy
  exact ⟨range, has, leads H hK (hH 1 x rfl)⟩

end Certified

/-! ### Whole code -/

/-- The context of complete code. -/
def ArityCode.context (guarded : Symbol → Option Native) (captures : Nat) (c : ArityCode Prototype) :
    CodeContext :=
  ⟨guarded, ⟨c.constants, c.sites, c.prototypes.toArray⟩, captures⟩

/-- The level at the start: there are the function and its arguments. -/
def ArityCode.entry (c : ArityCode Prototype) : Level :=
  ⟨1 + c.params + if c.hasRest then 1 else 0, [], 0, false⟩

/-- The code has a location and a level for each instruction, and all instructions fit them. -/
structure ArityCode.TypedBy (guarded : Symbol → Option Native) (captures : Nat)
    (c : ArityCode Prototype) (ls : List Level) : Prop where
  locations : c.locations.size = c.code.size
  levels : ls.length = c.code.size
  entry : ls[0]? = some c.entry
  flows {i : Nat} {L : Level} {x : Instruction} (hL : ls[i]? = some L) (hx : c.code[i]? = some x) :
    x.Flows (c.context guarded captures) (ls[·]?) (i + 1) L

/-- The code fits some levels. -/
def ArityCode.Typed (guarded : Symbol → Option Native) (captures : Nat) (c : ArityCode Prototype) :
    Prop :=
  ∃ ls, c.TypedBy guarded captures ls

/-- The code never cuts the stack down to nothing. -/
def ArityCode.Uncut (_ : Nat) (c : ArityCode Prototype) : Prop := .truncate 0 ∉ c.code

/-- All code of a prototype and of the prototypes inside it has a property, which may depend on the number
of captured values. -/
inductive Prototype.Each (Q : Nat → ArityCode Prototype → Prop) : Prototype → Prop where
  | intro {p : Prototype} (code : ∀ c ∈ p.arities, Q p.captures.length c)
    (inner : ∀ c ∈ p.arities, ∀ q ∈ c.prototypes, Each Q q) : Each Q p

namespace Prototype.Each

variable {Q : Nat → ArityCode Prototype → Prop} {p : Prototype}

theorem code (h : p.Each Q) : ∀ c ∈ p.arities, Q p.captures.length c := by
  cases h with
  | intro code _ => exact code

theorem inner (h : p.Each Q) : ∀ c ∈ p.arities, ∀ q ∈ c.prototypes, q.Each Q := by
  cases h with
  | intro _ inner => exact inner

end Prototype.Each

/-! ### The code for a call -/

theorem Prototype.mem_of_select {q : Prototype} {argc : Nat} {c : ArityCode Prototype}
    (h : q.selectArity? argc = some c) : c ∈ q.arities := by
  obtain ⟨i, -, hi⟩ := Option.bind_eq_some_iff.1 h
  exact List.mem_of_getElem? hi

theorem Prototype.params_le_of_select {q : Prototype} {argc : Nat} {c : ArityCode Prototype}
    (h : q.selectArity? argc = some c) : c.params ≤ argc := by
  obtain ⟨i, hs, hi⟩ := Option.bind_eq_some_iff.1 h
  have taken {p : Overload → Bool} (hp : ∀ o, p o = true → o.fixed ≤ argc)
      (hf : q.overloads.findIdx? p = some i) : c.params ≤ argc := by
    obtain ⟨bound, holds, -⟩ := List.findIdx?_eq_some_iff_getElem.1 hf
    have fixed := hp _ holds
    obtain ⟨bound', rfl⟩ := List.getElem?_eq_some_iff.1 hi
    simpa [Prototype.overloads] using fixed
  unfold Overload.select? at hs
  rcases Option.or_eq_some_iff.1 hs with hf | ⟨-, hf⟩
  · refine taken (fun o ho => ?_) hf
    simp only [Bool.and_eq_true, beq_iff_eq] at ho
    exact Nat.le_of_eq ho.2
  · refine taken (fun o ho => ?_) hf
    unfold Overload.takes at ho
    split at ho
    · simpa using ho
    · exact Nat.le_of_eq (by simpa using ho)

/-! ### Code that is complete -/

namespace Certified

variable {X : CodeContext} {e m : Level} {body : Code} {l : Location}

/-- **Certified code that returns at its end is well formed.** -/
theorem typed (h : Certified X (fun _ => True) 0 e body m) (hm : m.Has 1) (hh : m.handlers = [])
    (hd : m.held = 0) {c : ArityCode Prototype} (hc : c.context X.guarded X.captures = X)
    (he : c.entry = e) {full : Code} (hf : full = body ++ [(.ret, l)])
    (code : c.code = (full.map (·.1)).toArray) (locations : c.locations = (full.map (·.2)).toArray) :
    c.Typed X.guarded X.captures := by
  subst hf
  obtain ⟨ls, length, head, flows⟩ := h
  have size : (ls ++ [m]).length = c.code.size := by simp [code, length]
  refine ⟨ls ++ [m], by simp [code, locations], size, ?_, fun {i L x} hi hx => ?_⟩
  · rw [he, ← List.head?_eq_getElem?]
    exact head
  · rw [hc]
    rw [code, List.getElem?_toArray, List.getElem?_map] at hx
    obtain ⟨y, hy, rfl⟩ := Option.map_eq_some_iff.1 hx
    by_cases hl : i < ls.length
    · rw [List.getElem?_append_left (length ▸ hl)] at hy
      rw [List.getElem?_append_left hl] at hi
      have flow := flows (fun j => (ls ++ [m])[j]?) trivial (fun j M hj => by simpa using hj) i L y hi hy
      rwa [Nat.zero_add] at flow
    · obtain rfl : i = ls.length := by
        have := (List.getElem?_eq_some_iff.1 hi).1
        simp at this
        omega
      rw [List.getElem?_append_right (Nat.le_refl _), Nat.sub_self] at hi
      rw [List.getElem?_append_right (by omega), length, Nat.sub_self] at hy
      cases hi
      cases hy
      exact ⟨trivial, hm, hh, hd⟩

end Certified

end TwinLisp
