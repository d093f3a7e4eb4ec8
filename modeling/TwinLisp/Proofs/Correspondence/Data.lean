import TwinLisp.Proofs.Correspondence.Equality
import TwinLisp.Proofs.Correspondence.Primitives
import TwinLisp.Session.Raised

/-!
# Data, texts and raised values agree

What is computed from values that correspond: their keys, collections made of them, their written
form, and the failures they stand for.

## Main statements

* `Sim.newMap`, `Sim.newSet`: collections of values that correspond do so.
* `Session.Match.text_eq`: values that correspond are written alike.
* `Sim.raiseAt`, `Sim.caught`: raising and catching.
-/

namespace TwinLisp

/-! ### Pairs -/

theorem pairUp_match {w : World} {vs vs' : List Value} (h : Value.MatchAll w vs vs') :
    List.Forall₂ (Entry.Match w) (pairUp vs) (pairUp vs') := by
  fun_induction pairUp vs generalizing vs' with
  | case1 => cases h; exact .nil
  | case2 k =>
    obtain ⟨k', _, hk, hn, rfl⟩ := List.forall₂_cons_left_iff.1 h
    cases hn
    exact .cons ⟨hk, .nil⟩ .nil
  | case3 k v rest ih =>
    obtain ⟨k', _, hk, hs, rfl⟩ := List.forall₂_cons_left_iff.1 h
    obtain ⟨v', rest', hv, hr, rfl⟩ := List.forall₂_cons_left_iff.1 hs
    exact .cons ⟨hk, hv⟩ (ih hr)

namespace Sim

variable {S : Setting} {q : Bool} {w : World} {v v' u u' : Value}

/-! ### Keys and collections -/

theorem keyOf (h : v.Match w v') : Sim S q w (Eval.keyOf v) (Eval.keyOf v') Key.Match := by
  refine get fun hm => ?_
  obtain ⟨x, y, hx, hy, hxy⟩ := hm.heap.key h
  rw [hx, hy]
  exact pure hxy

theorem areEqual (hS : S.exact) (hv : v.Match w v') (hu : u.Match w u') :
    Sim S q w (Eval.areEqual v u) (Eval.areEqual v' u') Same := by
  refine get fun hm => ?_
  obtain ⟨b, hx, hy⟩ := hm.heap.equal hm.unique hS hv hu
  rw [hx, hy]
  exact pure rfl

theorem unique {α β : Type} {x : Eval α} {y : Eval β} {R : Related α β}
    (h : w.Unique → Sim S q w x y R) : Sim S q w x y R :=
  given fun hm => h hm.unique

theorem insertEntries {m m' : OrderedMap} {es es' : List (Value × Value)}
    (hm : m.Match w (Entry.Match w) m') (h : List.Forall₂ (Entry.Match w) es es') :
    Sim S q w (Eval.insertEntries m es) (Eval.insertEntries m' es')
      fun w => Ordered.Match w (Entry.Match w) := by
  refine foldlM (P := Entry.Match) (fun hw he => he.mono hw) h (fun {w' c d e e'} hw hc he => ?_) hm
  refine bind (keyOf he.1) fun hw' hk => unique fun hu => ?_
  exact pure ((hc.mono hw' fun _ _ h => h.mono hw').insert hu hk (he.mono hw')
    (he.mono hw').eq)

theorem insertMembers {s s' : OrderedSet} {vs vs' : List Value}
    (hs : s.Match w (Value.Match w) s') (h : Value.MatchAll w vs vs') :
    Sim S q w (Eval.insertMembers s vs) (Eval.insertMembers s' vs')
      fun w => Ordered.Match w (Value.Match w) := by
  refine foldlM (P := Value.Match) (fun hw hv => hv.mono hw) h (fun {w' c d e e'} hw hc he => ?_) hs
  refine bind (keyOf he) fun hw' hk => unique fun hu => ?_
  exact pure ((hc.mono hw' fun _ _ h => h.mono hw').insertIfNew hu hk (he.mono hw')
    (he.mono hw').eq)

theorem newMap {es es' : List (Value × Value)} (h : List.Forall₂ (Entry.Match w) es es') :
    Sim S q w (Eval.newMap es) (Eval.newMap es') Value.Match :=
  bind (insertEntries .empty h) fun _ hm => new (.map hm)

theorem newSet {vs vs' : List Value} (h : Value.MatchAll w vs vs') :
    Sim S q w (Eval.newSet vs) (Eval.newSet vs') Value.Match :=
  bind (insertMembers .empty h) fun _ hm => new (.set hm)

theorem keyword (name : String) :
    Sim S q w (Eval.keyword name) (Eval.keyword name) Value.Match :=
  bind (intern name) fun _ hx => pure (.keyword hx)

theorem symbol (name : String) : Sim S q w (Eval.symbol name) (Eval.symbol name) Value.Match :=
  bind (intern name) fun _ hx => pure (.symbol hx)

end Sim

/-! ### Keywords as keys -/

/-- Maps that correspond hold the same under a keyword, known or not. -/
theorem Ordered.Match.value?_keyword {w : World} {σ τ : SymbolTable} {m m' : OrderedMap}
    (h : m.Match w (Entry.Match w) m') (hσ : σ.Match w τ) (hu : w.Unique) (name : String) :
    Option.Rel (Value.Match w) ((σ.find? name).bind fun x => m.value? (.ofKeyword x))
      ((τ.find? name).bind fun y => m'.value? (.ofKeyword y)) := by
  have absent (c : OrderedMap) (x : Symbol) (hx : c.tickets[Key.ofKeyword x]? = none) :
      c.value? (.ofKeyword x) = none := by
    rw [OrderedMap.value?, Ordered.get?, hx]
    rfl
  cases hx : σ.find? name with
  | some x =>
    cases hy : τ.find? name with
    | some y => exact h.value? hu (.keyword (SymbolTable.sym_of_find? hσ hx hy))
    | none =>
      rw [Option.bind_some, absent m x ?_]
      · exact .none
      · rw [Option.eq_none_iff_forall_not_mem]
        intro t ht
        obtain ⟨l, hl, -⟩ := h.forth ht
        cases hl with
        | plain h => omega
        | keyword hxy => rw [(hσ.find?_iff hxy).1 hx] at hy; cases hy
  | none =>
    cases hy : τ.find? name with
    | some y =>
      rw [Option.bind_some, absent m' y ?_]
      · exact .none
      · rw [Option.eq_none_iff_forall_not_mem]
        intro t ht
        obtain ⟨l, hl, -⟩ := h.back ht
        cases hl with
        | plain h => omega
        | keyword hxy => rw [(hσ.find?_iff hxy).2 hy] at hx; cases hx
    | none => exact .none

/-! ### Texts -/

namespace Session.Match

variable {S : Setting} {w : World} {s t : Session}

/-- Names that correspond make the same text with a label. -/
theorem labelText_eq (h : s.Match S w t) (label : String) : ∀ x y, Option.Rel w.sym x y →
    (match x with
      | some x => "#<" ++ label ++ " " ++ s.symbols.name x ++ ">"
      | none => "#<" ++ label ++ ">") =
    match y with
      | some y => "#<" ++ label ++ " " ++ t.symbols.name y ++ ">"
      | none => "#<" ++ label ++ ">" := by
  rintro x y (⟨hx⟩ | _)
  · simp only [h.symbols.name_eq hx]
  · rfl

theorem functionText_eq (h : s.Match S w t) {f g : Function} (hfg : f.Match S w g) :
    s.functionText f = t.functionText g := by
  obtain ⟨x, isMacro, b⟩ := f
  obtain ⟨y, _, c⟩ := g
  obtain ⟨hn, rfl, hb⟩ := hfg
  cases isMacro with
  | true => exact h.labelText_eq "macro" x y hn
  | false => cases b with
    | native n =>
      cases S.native_left.1 hb
      exact h.labelText_eq "native-fn" x y hn
    | _ => cases c with
      | native n => cases S.native_right.1 hb
      | _ => exact h.labelText_eq "fn" x y hn

theorem textWithin_eq (h : s.Match S w t) (levels : Nat) (readably : Bool) {v v' : Value}
    (hv : v.Match w v') : s.textWithin levels readably v = t.textWithin levels readably v' := by
  induction levels generalizing readably v v' with
  | zero => rfl
  | succ levels ih =>
    have all {vs vs' : List Value} (hvs : Value.MatchAll w vs vs') :
        vs.map (s.textWithin levels readably) = vs'.map (t.textWithin levels readably) :=
      map_eq_of_forall₂ hvs fun _ _ _ _ hv => ih readably hv
    cases hv with
    | symbol hx => exact h.symbols.name_eq hx
    | keyword hx => exact congrArg (":" ++ ·) (h.symbols.name_eq hx)
    | ref k hl =>
      obtain ⟨o, o', ho, ho', -, hoo, -⟩ := h.heap.objects hl
      simp only [textWithin, ho, ho']
      cases hoo with
      | str x => rfl
      | list l hvs => exact congrArg (fun ts => "(" ++ spaced ts ++ ")") (all hvs)
      | vector l hvs => exact congrArg (fun ts => "[" ++ spaced ts ++ "]") (all hvs)
      | map hm =>
        refine congrArg (fun ts => "\x7b" ++ ", ".intercalate ts ++ "\x7d")
          (map_eq_of_forall₂ hm.toList fun e _ e' _ he => ?_)
        rw [ih readably he.1, ih readably he.2]
      | set hs => exact congrArg (fun ts => "#\x7b" ++ spaced ts ++ "\x7d") (all hs.toList)
      | function hf => exact h.functionText_eq hf
      | atom hv => exact congrArg (fun t => "#<atom " ++ t ++ ">") (ih true hv)
      | host x => rfl
    | _ => rfl

/-- **Values that correspond are written alike.** -/
theorem text_eq (h : s.Match S w t) (readably : Bool) {v v' : Value} (hv : v.Match w v') :
    s.text readably v = t.text readably v' :=
  h.textWithin_eq _ readably hv

/-- Wordings that correspond, where there are any, are the same text. -/
theorem wording_eq (h : s.Match S w t) {d e : String} (unstated : d = e) :
    ∀ x y, Option.Rel (Value.Match w) x y →
      (match x with | some v => s.text false v | none => d) =
        match y with | some v => t.text false v | none => e := by
  rintro x y (⟨hv⟩ | _)
  · exact h.text_eq false hv
  · exact unstated

/-- Whatever is raised is worded alike. -/
theorem raisedMessage_eq (h : s.Match S w t) {v v' : Value} (hv : v.Match w v') :
    s.raisedMessage v = t.raisedMessage v' := by
  have unstated : s.text true v = t.text true v' := h.text_eq true hv
  cases hv with
  | @ref k a b hl => cases k with
    | map =>
      obtain ⟨o, o', ho, ho', hk, hoo, -⟩ := h.heap.objects hl
      cases hoo with
      | map hm =>
        have stated := hm.value?_keyword h.symbols h.unique "message"
        simp only [raisedMessage, Heap.objectOf?, Value.address?, Option.bind_some, ho, ho']
        cases hx : s.symbols.find? "message" <;> cases hy : t.symbols.find? "message" <;>
          rw [hx, hy] at stated <;> exact h.wording_eq unstated _ _ stated
      | _ => cases hk
    | _ =>
      unfold raisedMessage
      cases s.symbols.find? "message" <;> cases t.symbols.find? "message" <;> exact unstated
  | _ =>
    unfold raisedMessage
    cases s.symbols.find? "message" <;> cases t.symbols.find? "message" <;> exact unstated

end Session.Match

/-! ### Raising and catching -/

namespace Sim

variable {S : Setting} {q : Bool} {w : World} {v v' : Value}

theorem readable (h : v.Match w v') : Sim S q w (Eval.readable v) (Eval.readable v') Same :=
  get fun hm => pure (hm.text_eq true h)

theorem display (h : v.Match w v') : Sim S q w (Eval.display v) (Eval.display v') Same :=
  get fun hm => pure (hm.text_eq false h)

theorem raiseAt {α β : Type} {R : Related α β} (l : Location) (h : v.Match w v') :
    Sim S q w (Eval.raiseAt l v) (Eval.raiseAt l v') R := by
  refine get fun hm => ?_
  rw [hm.raisedMessage_eq h]
  refine fail (Fault.Match.located ?_ l)
  exact ⟨rfl, rfl, .some h, rfl⟩

theorem caught {f g : Fault} (h : f.Match w g) :
    Sim S q w (Eval.caught f) (Eval.caught g) Value.Match := by
  have hp := h.payload
  unfold Eval.caught
  generalize f.payload = x at hp
  generalize g.payload = y at hp
  cases hp with
  | some hv => exact pure hv
  | none =>
    rw [h.kind_eq, h.message_eq]
    refine bind (keyword _) fun hw₁ h₁ => bind (keyword _) fun hw₂ h₂ => ?_
    refine bind (keyword _) fun hw₃ h₃ => bind (newString _) fun hw₄ h₄ => ?_
    have hw := hw₃.trans hw₄
    exact newMap (.cons ⟨h₁.mono (hw₂.trans hw), h₂.mono hw⟩ (.cons ⟨h₃.mono hw₄, h₄⟩ .nil))

end Sim

end TwinLisp
