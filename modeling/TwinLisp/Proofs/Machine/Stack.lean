import TwinLisp.Machine.Run
import TwinLisp.Proofs.Bytecode.Level
import TwinLisp.Proofs.Conduct.Obeys

/-!
# The stack of a machine

Each frame of a machine stands at a level of its code, and the handlers and held failures of the machine
are those that the levels of its frames account for, the innermost first. This is what a running machine
keeps, and what a failure finds on its way to a handler.

Heights are kept *exactly* only if no code cuts the operands of its frame down to nothing, which it does by
mistake in a function with as many slots as there are indices. Without that, what is known of heights is not
claimed, and all the rest is. With it, every frame has its operands above those of the frames that wait for it,
and all of them lie on top of the operands of the machines that wait.

## Main definitions

* `Policy.running`: what a machine may do.
* `Stacked`: operands in order, up to a height of the running frame.
* `Waiting`: the frames beneath the running one, with their handlers and held failures.
* `Machine.Running` and `Machine.Failing`: what is known of a machine at work and of one that has failed.

## Main statements

* `Around.atHandler`: a failure that reaches a handler finds its frame as it was.
* `Lands.leaveFrames`: a failure that leaves the machine leaves all its calls.
-/

namespace TwinLisp

/-! ### What a machine may do -/

/-- The function is native, or compiled to well-formed code. -/
def Function.IsCompiled (guarded : Symbol → Option Native) (exact : Prop) (f : Function) : Prop :=
  match f.body with
  | .native _ => True
  | .interpreted _ => False
  | .compiled q captured => q.Each (ArityCode.Typed guarded) ∧ q.captures.length = captured.size ∧
      (exact → q.Each ArityCode.Uncut)

/-- Causes of failures of a machine. Compiling may fail if code would be too large. Unless heights are
exact, operands may be missing. Nothing else may be wrong with a machine. -/
def Cause.IsOfMachine (exact : Prop) (c : Cause) : Prop :=
  c.IsOrdinary ∨ (∃ limit, c = .codeTooLarge limit) ∨ (¬ exact ∧ c = .defect .stackUnderflow)

/-- What a machine may do. -/
def Policy.running (guarded : Symbol → Option Native) (exact : Prop) : Policy where
  admits := Function.IsCompiled guarded exact
  guarded
  mayFail := Cause.IsOfMachine exact
  restores := exact
  native {f n} h := by
    unfold Function.IsCompiled
    rw [h]
    trivial
  ordinary h := .inl h

/-! ### Frames -/

variable {guarded : Symbol → Option Native} {exact : Prop} {base : Nat} {under : Array Value}

/-- The operands are those that the machine started with and then others, and so many of them are above the
bottom of the running frame. -/
structure Stacked (under : Array Value) (bottom height : Nat) (operands : Array Value) : Prop where
  started : under.toList <+: operands.toList
  above : under.size ≤ bottom
  size : operands.size = bottom + height

namespace Stacked

variable {bottom height : Nat} {operands : Array Value}

/-- A frame that starts on top of the operands of the machines that wait. -/
theorem start (under slots : Array Value) : Stacked under under.size slots.size (under ++ slots) where
  started := by
    rw [Array.toList_append]
    exact List.prefix_append ..
  above := Nat.le_refl _
  size := Array.size_append

theorem push (h : Stacked under bottom height operands) (v : Value) :
    Stacked under bottom (height + 1) (operands.push v) where
  started := by
    rw [Array.toList_push]
    exact h.started.trans (List.prefix_append ..)
  above := h.above
  size := by
    rw [Array.size_push, h.size]
    rfl

/-- Operands are cut down to as many as there are above the bottom of a frame. -/
theorem cut (h : under.toList <+: operands.toList) (above : under.size ≤ bottom)
    (size : bottom + height ≤ operands.size) : Stacked under bottom height (operands.shrink (bottom + height)) where
  started := by
    rw [Array.toList_shrink]
    refine List.prefix_of_prefix_length_le h (List.take_prefix ..) ?_
    rw [List.length_take, Array.length_toList, Array.length_toList]
    omega
  above := above
  size := by
    rw [Array.size_shrink]
    exact Nat.min_eq_left size

theorem shrink (h : Stacked under bottom height operands) {n : Nat} (hn : n ≤ height) :
    Stacked under bottom n (operands.shrink (bottom + n)) :=
  cut h.started h.above (by
    rw [h.size]
    exact Nat.add_le_add_left hn _)

theorem pop (h : Stacked under bottom height operands) (pos : 1 ≤ height) :
    Stacked under bottom (height - 1) operands.pop := by
  have popped : operands.pop = operands.shrink (bottom + (height - 1)) := by
    have size := h.size
    rw [← Array.toList_inj, Array.toList_pop, Array.toList_shrink, List.dropLast_eq_take, Array.length_toList]
    congr 1
    omega
  rw [popped]
  exact h.shrink (Nat.sub_le ..)

/-- The topmost operands are taken off. -/
theorem drop (h : Stacked under bottom height operands) {n : Nat} (hn : n ≤ height) :
    Stacked under bottom (height - n) (operands.shrink (operands.size - n)) := by
  have left : operands.size - n = bottom + (height - n) := by
    rw [h.size]
    omega
  rw [left]
  exact h.shrink (Nat.sub_le ..)

theorem set (h : Stacked under bottom height operands) {i : Nat} (hi : bottom ≤ i) (v : Value) :
    Stacked under bottom height (operands.setIfInBounds i v) where
  started := by
    rw [Array.toList_setIfInBounds]
    obtain ⟨others, eq⟩ := h.started
    have past : under.toList.length ≤ i := Nat.le_trans h.above hi
    rw [← eq, List.set_append_right _ _ past]
    exact List.prefix_append ..
  above := h.above
  size := by
    rw [Array.size_setIfInBounds, h.size]

/-- Nothing is above the operands that the machine started with. -/
theorem eq_under (h : Stacked under under.size 0 operands) : operands = under := by
  obtain ⟨others, eq⟩ := h.started
  have none : others = [] := by
    have length : under.size + others.length = operands.size := by
      simpa using congrArg List.length eq
    have size := h.size
    exact List.eq_nil_of_length_eq_zero (by omega)
  rw [none, List.append_nil] at eq
  exact (Array.toList_inj.1 eq).symm

/-- The same operands are counted from the bottom of another frame. -/
theorem recount (h : Stacked under bottom height operands) {bottom' height' : Nat} (above : under.size ≤ bottom')
    (same : bottom + height = bottom' + height') : Stacked under bottom' height' operands :=
  ⟨h.started, above, h.size.trans same⟩

/-- A frame starts on top of another. -/
theorem call (h : Stacked under bottom height operands) {bottom' : Nat} (same : bottom' = bottom + height)
    (slots : Array Value) : Stacked under bottom' slots.size (operands ++ slots) where
  started := by
    rw [Array.toList_append]
    exact h.started.trans (List.prefix_append ..)
  above := by
    rw [same]
    exact Nat.le_trans h.above (Nat.le_add_right ..)
  size := by rw [Array.size_append, h.size, same]

end Stacked

/-- The frame runs well-formed code with the given levels. -/
structure Frame.Runs (guarded : Symbol → Option Native) (exact : Prop) (ls : List Level) (f : Frame) :
    Prop where
  typed : f.code.TypedBy guarded f.captured.size ls
  inner : ∀ q ∈ f.code.prototypes, q.Each (ArityCode.Typed guarded)
  uncut : exact → f.code.Uncut f.captured.size ∧ ∀ q ∈ f.code.prototypes, q.Each ArityCode.Uncut

/-- The number of levels of nesting that the frame counts for. -/
def Frame.counts (f : Frame) : Nat := if f.isCounted then 1 else 0

/-- The handlers of a frame, which has slot zero at `bottom` and is above `callers` others and `below` held
failures, in a call that is `depth` levels deep. They are those that the level of the frame tells. -/
inductive Installed (exact : Prop) (ls : List Level) (bottom callers below depth : Nat) :
    List Handler → List HandlerShape → Prop where
  | nil : Installed exact ls bottom callers below depth [] []
  | cons {h : Handler} {s : HandlerShape} {hs : List Handler} {rest : List HandlerShape}
    (tail : Installed exact ls bottom callers below depth hs rest) (kind : h.kind = s.kind)
    (frame : h.callers = callers) (operands : exact → h.operands = bottom + s.height)
    (held : h.held = below + s.held) (calls : h.callDepth = depth)
    (resume : ls[h.target]? = some (s.resume rest)) :
    Installed exact ls bottom callers below depth (h :: hs) (s :: rest)

/-- Among the first `size` operands the frame has those that the handlers rely on, and so many failures are
held. -/
def Frame.Backs (exact : Prop) (f : Frame) (size : Nat) (shapes : List HandlerShape) (held : Nat) : Prop :=
  ∃ height, HandlerShape.Nested shapes height held ∧ (exact → f.bottom + height ≤ size)

/-- Frames that wait for the result of a call, with their handlers, the number of their held failures, the
depth of calls in them and the number of their operands. Outside of all of them there are the operands `under`
and calls that are `base` levels deep. -/
inductive Waiting (guarded : Symbol → Option Native) (exact : Prop) (base : Nat) (under : Array Value) :
    List Frame → List Handler → Nat → Nat → Nat → Prop where
  | nil {size : Nat} (start : exact → size = under.size) :
    Waiting guarded exact base under [] [] 0 base size
  | cons {f : Frame} {frames : List Frame} {ls : List Level} {L : Level} {hs handlers : List Handler}
    {held depth size : Nat} (tail : Waiting guarded exact base under frames handlers held depth f.bottom)
    (runs : f.Runs guarded exact ls) (level : ls[f.ip]? = some L) (plain : L.isMacro = false)
    (height : exact → size + 1 = f.bottom + L.height) (backs : f.Backs exact size L.handlers L.held)
    (installed : Installed exact ls f.bottom frames.length held (depth + f.counts) hs L.handlers) :
    Waiting guarded exact base under (f :: frames) (hs ++ handlers) (held + L.held) (depth + f.counts) size

/-- What is known of a machine apart from its position and the operands of its running frame, which has the
given handlers and `n` held failures. -/
inductive Around (guarded : Symbol → Option Native) (exact : Prop) (base : Nat) (under : Array Value)
    (ls : List Level) (shapes : List HandlerShape) (n : Nat) (top : Frame) (callers : List Frame) :
    List Handler → Nat → Nat → Prop where
  | intro {hs handlers : List Handler} {held depth : Nat}
    (waiting : Waiting guarded exact base under callers handlers held depth top.bottom)
    (runs : top.Runs guarded exact ls)
    (installed : Installed exact ls top.bottom callers.length held (depth + top.counts) hs shapes) :
    Around guarded exact base under ls shapes n top callers (hs ++ handlers) (held + n) (depth + top.counts)

namespace Machine

/-- What is known of a machine at work. -/
structure Running (P : Policy) (exact : Prop) (base : Nat) (under : Array Value) (s : Session)
    (ls : List Level) (L : Level) (m : Machine) : Prop where
  around : Around P.guarded exact base under ls L.handlers L.held m.top m.callers m.handlers m.held.length
    s.callDepth
  level : ls[m.top.ip]? = some L
  floor : m.floor = under.size
  operands : exact → Stacked under m.top.bottom L.height m.operands
  /-- A macro is on top where the level says so. -/
  macros : L.isMacro = true → ∀ v, m.operands.back? = some v → ∀ n, s.Denotes v n
  causes : ∀ f ∈ m.held, P.mayFail f.cause

/-- What is known of a machine that has failed. -/
structure Failing (P : Policy) (exact : Prop) (base : Nat) (under : Array Value) (s : Session)
    (ls : List Level) (shapes : List HandlerShape) (n : Nat) (m : Machine) : Prop where
  around : Around P.guarded exact base under ls shapes n m.top m.callers m.handlers m.held.length s.callDepth
  backs : m.top.Backs exact m.operands.size shapes n
  floor : m.floor = under.size
  started : exact → under.toList <+: m.operands.toList
  causes : ∀ f ∈ m.held, P.mayFail f.cause

end Machine

/-! ### Handlers -/

namespace Installed

variable {ls : List Level} {bottom callers below depth : Nat} {hs : List Handler} {shapes : List HandlerShape}

theorem eq_nil (h : Installed exact ls bottom callers below depth hs []) : hs = [] := by
  cases h
  rfl

theorem callers_eq (h : Installed exact ls bottom callers below depth hs shapes) :
    ∀ k ∈ hs, k.callers = callers := by
  induction h with
  | nil => exact nofun
  | cons _ _ frame _ _ _ _ ih => exact List.forall_mem_cons.2 ⟨frame, ih⟩

end Installed

namespace Waiting

variable {frames : List Frame} {handlers : List Handler} {held depth size : Nat}

/-- The frames have their operands on top of those of the machines that wait. -/
theorem above (h : Waiting guarded exact base under frames handlers held depth size) (e : exact) :
    under.size ≤ size := by
  induction h with
  | nil start => exact Nat.le_of_eq (start e).symm
  | cons _ _ _ _ _ backs _ ih =>
    obtain ⟨height, -, within⟩ := backs
    exact Nat.le_trans ih (Nat.le_trans (Nat.le_add_right _ height) (within e))

/-- Every handler belongs to one of the frames. -/
theorem callers_lt (h : Waiting guarded exact base under frames handlers held depth size) :
    ∀ k ∈ handlers, k.callers < frames.length := by
  induction h with
  | nil => exact nofun
  | cons _ _ _ _ _ _ installed ih =>
    intro k hk
    rcases List.mem_append.1 hk with hk | hk
    · rw [installed.callers_eq k hk]
      exact Nat.lt_succ_self _
    · exact Nat.lt_succ_of_lt (ih k hk)

end Waiting

theorem Around.split {ls : List Level} {shapes : List HandlerShape} {n : Nat} {top : Frame}
    {callers : List Frame} {handlers : List Handler} {total depth : Nat}
    (h : Around guarded exact base under ls shapes n top callers handlers total depth) :
    ∃ hs beneath held outer, Waiting guarded exact base under callers beneath held outer top.bottom ∧
      top.Runs guarded exact ls ∧
      Installed exact ls top.bottom callers.length held (outer + top.counts) hs shapes ∧
      handlers = hs ++ beneath ∧ total = held + n ∧ depth = outer + top.counts := by
  obtain ⟨waiting, runs, installed⟩ := h
  exact ⟨_, _, _, _, waiting, runs, installed, rfl, rfl, rfl⟩

theorem Around.join {ls : List Level} {shapes : List HandlerShape} {n : Nat} {top : Frame}
    {callers : List Frame} {k beneath handlers : List Handler} {held outer total depth : Nat}
    (waiting : Waiting guarded exact base under callers beneath held outer top.bottom)
    (runs : top.Runs guarded exact ls)
    (installed : Installed exact ls top.bottom callers.length held (outer + top.counts) k shapes)
    (handlers_eq : handlers = k ++ beneath) (held_eq : total = held + n)
    (depth_eq : depth = outer + top.counts) :
    Around guarded exact base under ls shapes n top callers handlers total depth := by
  subst handlers_eq held_eq depth_eq
  exact .intro waiting runs installed

/-- The position of the running frame does not matter. -/
theorem Around.move {ls : List Level} {shapes : List HandlerShape} {n : Nat} {top top' : Frame}
    {callers : List Frame} {handlers : List Handler} {held depth : Nat}
    (h : Around guarded exact base under ls shapes n top callers handlers held depth)
    (code : top'.code = top.code) (captured : top'.captured = top.captured)
    (counted : top'.isCounted = top.isCounted) (bottom : top'.bottom = top.bottom) :
    Around guarded exact base under ls shapes n top' callers handlers held depth := by
  obtain ⟨waiting, runs, installed⟩ := h
  have counts : top.counts = top'.counts := by rw [Frame.counts, Frame.counts, counted]
  rw [counts] at installed ⊢
  rw [← bottom] at waiting installed
  refine .intro waiting ⟨?_, ?_, ?_⟩ installed
  · rw [code, captured]
    exact runs.typed
  · rw [code]
    exact runs.inner
  · rw [code, captured]
    exact runs.uncut

/-- What the innermost handler finds in its frame: the operands it relies on, and its level to go on at. -/
structure Handler.Finds (exact : Prop) (h : Handler) (size : Nat) (ls : List Level) (s : HandlerShape)
    (rest : List HandlerShape) (top : Frame) : Prop where
  kind : h.kind = s.kind
  resume : ls[h.target]? = some (s.resume rest)
  operands : exact → h.operands = top.bottom + s.height
  height : exact → top.bottom + s.height ≤ size
  nested : HandlerShape.Nested rest s.height s.held

theorem Machine.dropFrames_self (top : Frame) (f : Fault) (callers : List Frame) :
    Machine.dropFrames callers.length top f callers = (top, callers, f) := by
  cases callers with
  | nil => rfl
  | cons caller callers => simp [Machine.dropFrames]

/-- The frame of a handler is found as it was, at the end of dropping frames that had `size` operands. -/
structure Around.Reaches (guarded : Symbol → Option Native) (exact : Prop) (base : Nat) (under : Array Value)
    (h : Handler) (handlers : List Handler) (held size : Nat) (f : Fault)
    (dropped : Frame × List Frame × Fault) (ls : List Level) (s : HandlerShape) (rest : List HandlerShape) :
    Prop where
  cause : dropped.2.2.cause = f.cause
  finds : h.Finds exact size ls s rest dropped.1
  held : h.held ≤ held
  around : Around guarded exact base under ls rest s.held dropped.1 dropped.2.1 handlers h.held h.callDepth

/-- No frame is dropped for a handler of the running one. -/
theorem Around.own {ls : List Level} {callers : List Frame} {below depth n held size : Nat} {top : Frame}
    {h : Handler} {hs handlers : List Handler} {s : HandlerShape} {rest : List HandlerShape}
    (waiting : Waiting guarded exact base under callers handlers below depth top.bottom)
    (runs : top.Runs guarded exact ls)
    (installed : Installed exact ls top.bottom callers.length below (depth + top.counts) (h :: hs) (s :: rest))
    (hb : top.Backs exact size (s :: rest) n) (hn : below + n = held) (f : Fault) :
    Around.Reaches guarded exact base under h (hs ++ handlers) held size f
      (Machine.dropFrames h.callers top f callers) ls s rest := by
  cases installed with
  | cons tail kind frame operands heldAt calls resume =>
    obtain ⟨height, nested, within⟩ := hb
    have enough (e : exact) : top.bottom + s.height ≤ size :=
      Nat.le_trans (Nat.add_le_add_left nested.1 _) (within e)
    rw [frame, Machine.dropFrames_self]
    refine ⟨rfl, ⟨kind, resume, operands, enough, nested.2.2⟩, ?_, ?_⟩
    · rw [heldAt, ← hn]
      exact Nat.add_le_add_left nested.2.1 _
    · rw [heldAt, calls]
      exact .intro waiting runs tail

/-- **The frame of the innermost handler is found as it was**, under the frames that are dropped. At least
as many failures are held as when the handler was installed. -/
theorem Around.dropFrames {ls : List Level} {shapes : List HandlerShape} {n : Nat} {top : Frame}
    {callers : List Frame} {h : Handler} {handlers : List Handler} {held depth size : Nat}
    (ha : Around guarded exact base under ls shapes n top callers (h :: handlers) held depth)
    (hb : top.Backs exact size shapes n) (f : Fault) : ∃ ls' s rest, Around.Reaches guarded exact base under h
      handlers held size f (Machine.dropFrames h.callers top f callers) ls' s rest := by
  generalize hh : h :: handlers = all at ha
  induction callers generalizing ls shapes n top held depth size f all with
  | nil =>
    obtain ⟨waiting, runs, installed⟩ := ha
    cases installed with
    | nil =>
      generalize top.bottom = bottom at waiting
      cases waiting
      cases hh
    | cons tail kind frame operands heldAt calls resume =>
      obtain ⟨rfl, rfl⟩ := List.cons.inj hh
      exact ⟨_, _, _, own waiting runs (.cons tail kind frame operands heldAt calls resume) hb rfl f⟩
  | cons caller callers ih =>
    obtain ⟨waiting, runs, installed⟩ := ha
    cases installed with
    | cons tail kind frame operands heldAt calls resume =>
      obtain ⟨rfl, rfl⟩ := List.cons.inj hh
      exact ⟨_, _, _, own waiting runs (.cons tail kind frame operands heldAt calls resume) hb rfl f⟩
    | nil =>
      rw [List.nil_append] at hh
      have beneath : ¬ callers.length < h.callers := by
        have := waiting.callers_lt h (hh ▸ List.mem_cons_self)
        simp only [List.length_cons] at this
        omega
      obtain ⟨height, -, within⟩ := hb
      generalize hbottom : top.bottom = bottom at waiting
      cases waiting with
      | @cons _ _ _ L _ _ _ _ _ waiting runs' level plain _ backs installed' =>
        have around := Around.intro waiting runs' installed' (n := L.held)
        obtain ⟨ls, s, rest, reached⟩ := ih backs (f.orAt top.site) _ hh around
        obtain ⟨cause, finds, held, around⟩ := reached
        have finds := { finds with
          height := fun e => Nat.le_trans (finds.height e)
            (Nat.le_trans (Nat.le_add_right _ height) (hbottom ▸ within e)) }
        rw [Machine.dropFrames, if_neg beneath]
        exact ⟨ls, s, rest, by simpa using cause, finds, Nat.le_trans held (Nat.le_add_right ..), around⟩

/-- **A machine that goes on at a handler** is as it was when the handler was installed. -/
theorem Machine.Failing.atHandler {P : Policy} {s : Session} {ls : List Level} {shapes : List HandlerShape} {n : Nat}
    {m : Machine} {h : Handler} {handlers : List Handler}
    (hm : m.Failing P exact base under s ls shapes n) (hh : m.handlers = h :: handlers) (f : Fault) :
    ∃ ls' s' rest, (m.atHandler h f).2.cause = f.cause ∧ h.kind = s'.kind ∧
      ls'[(m.atHandler h f).1.top.ip]? = some (HandlerShape.resume s' rest) ∧
      (exact → Stacked under (m.atHandler h f).1.top.bottom s'.height (m.atHandler h f).1.operands) ∧
      HandlerShape.Nested rest s'.height s'.held ∧
      Around P.guarded exact base under ls' rest s'.held (m.atHandler h f).1.top (m.atHandler h f).1.callers
        handlers (m.atHandler h f).1.held.length h.callDepth ∧
      ∀ g ∈ (m.atHandler h f).1.held, P.mayFail g.cause := by
  have around := hm.around
  rw [hh] at around
  obtain ⟨ls', s', rest, cause, finds, held, around⟩ := around.dropFrames hm.backs f
  unfold Machine.atHandler
  refine ⟨ls', s', rest, cause, finds.kind, finds.resume, fun e => ?_, finds.nested, ?_,
    fun g hg => hm.causes g (List.mem_of_mem_drop hg)⟩
  · obtain ⟨_, _, _, _, waiting, -⟩ := around.split
    simp only [Machine.goto, Machine.shrink, finds.operands e]
    exact .cut (hm.started e) (waiting.above e) (finds.height e)
  · have length : (m.held.drop (m.held.length - h.held)).length = h.held := by
      rw [List.length_drop]
      omega
    simp only [Machine.goto, Machine.shrink, length]
    exact around.move rfl rfl rfl rfl

/-! ### Leaving the machine -/

/-- Leaving a frame leaves the level of nesting that it counts for. -/
theorem Lands.leaveFrame {P : Policy} {s : Session} {S : Fault → Session → Prop}
    {F : Fault → Session → Prop} {frame : Frame} {frames : List Frame} {depth : Nat} (f : Fault)
    (hs : s.callDepth = depth + frame.counts)
    (rest : ∀ t f', s.Drifts P t → t.callDepth = depth → f'.cause = f.cause →
      Lands P t S F (Machine.leaveFrames f' frames t)) :
    Lands P s S F (Machine.leaveFrames f (frame :: frames) s) := by
  rw [Machine.leaveFrames]
  have cause : (f.orAt frame.site).cause = f.cause := Fault.cause_orAt ..
  unfold Frame.counts at hs
  cases hc : frame.isCounted with
  | true =>
    rw [hc, if_pos rfl] at hs
    exact (rest _ _ ((Session.Drifts.refl s).setCallDepth (s.callDepth - 1)) (by simp [hs]) cause).after
      ((Session.Drifts.refl s).setCallDepth (s.callDepth - 1))
  | false =>
    rw [hc] at hs
    exact rest s _ (.refl s) (by simpa using hs) cause

/-- **A failure that leaves the machine leaves all its calls.** -/
theorem Waiting.leaveFrames {P : Policy} {s : Session} {F : Fault → Session → Prop} {frames : List Frame}
    {handlers : List Handler} {held depth size : Nat}
    (h : Waiting guarded exact base under frames handlers held depth size) (hs : s.callDepth = depth)
    (f : Fault) :
    Lands P s (fun f' t => t.callDepth = base ∧ f'.cause = f.cause) F (Machine.leaveFrames f frames s) := by
  induction h generalizing s f with
  | nil => exact .ok (.refl s) ⟨hs, rfl⟩
  | cons _ _ _ _ _ _ _ ih =>
    refine Lands.leaveFrame f hs fun t f' _ ht cause => (ih ht f').imp fun _ _ h => ?_
    exact ⟨h.1, h.2.trans cause⟩

end TwinLisp
