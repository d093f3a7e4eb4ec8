import TwinLisp.Library.Reflection
import TwinLisp.Proofs.Correspondence.Arguments
import TwinLisp.Proofs.Correspondence.Expansion

/-!
# Built-ins on text, failures and code agree

Texts show names and data but no addresses, and so values that correspond have the same ones. The
counts of the heap are the one thing that a program can ask for and that two sessions do not have in
common.

## Main statements

* `Sim.print`: the same text is printed.
* `Sim.macroexpand`: expansion on request.
-/

namespace TwinLisp

namespace Sim

variable {S : Setting} {q : Bool} {w : World} {args args' : List Value}

/-! ### Text -/

theorem joined (readably : Bool) (h : Value.MatchAll w args args') :
    Sim S q w (Library.joined readably args) (Library.joined readably args') Same := by
  refine get fun hm => ?_
  rw [map_eq_of_forall₂ h fun _ _ _ _ hv => hm.text_eq readably hv]
  exact pure rfl

/-- Values that correspond are `nil` together. -/
theorem isNil_eq {v v' : Value} (h : v.Match w v') : (v == .nil) = (v' == .nil) := by
  cases h <;> rfl

theorem str (h : Value.MatchAll w args args') :
    Sim S q w (Library.str args) (Library.str args') Value.Match := by
  refine get fun hm => ?_
  have shown : Value.MatchAll w (args.filter (· != .nil)) (args'.filter (· != .nil)) :=
    List.rel_filter (fun _ _ hv => by simp only [bne, isNil_eq hv]) h
  rw [map_eq_of_forall₂ shown fun _ _ _ _ hv => hm.text_eq false hv]
  exact newString _

theorem prStr (h : Value.MatchAll w args args') :
    Sim S q w (Library.prStr args) (Library.prStr args') Value.Match := by
  refine bind (joined true h) fun _ hx => ?_
  cases hx
  exact newString _

theorem print (readably : Bool) (ending : String) (h : Value.MatchAll w args args') :
    Sim S q w (Library.print readably ending args) (Library.print readably ending args')
      Value.Match := by
  refine bind (joined readably h) fun _ hx => ?_
  cases hx
  exact bind (write _) fun _ _ => pure .nil

/-! ### Failures -/

/-- The description of a failure. -/
theorem describe {v v' u u' : Value} (hv : v.Match w v') (hu : u.Match w u') :
    Sim S q w
      (do
        let typeKey ← Eval.keyword "type"
        let type ← Eval.keyword "ex-info"
        let messageKey ← Eval.keyword "message"
        let dataKey ← Eval.keyword "data"
        Eval.newMap [(typeKey, type), (messageKey, v), (dataKey, u)])
      (do
        let typeKey ← Eval.keyword "type"
        let type ← Eval.keyword "ex-info"
        let messageKey ← Eval.keyword "message"
        let dataKey ← Eval.keyword "data"
        Eval.newMap [(typeKey, type), (messageKey, v'), (dataKey, u')]) Value.Match := by
  refine bind (keyword _) fun hw₁ h₁ => ?_
  refine bind (keyword _) fun hw₂ h₂ => ?_
  refine bind (keyword _) fun hw₃ h₃ => ?_
  refine bind (keyword _) fun hw₄ h₄ => ?_
  have hw₃₄ := hw₃.trans hw₄
  have hw := (hw₁.trans hw₂).trans hw₃₄
  exact newMap (.cons ⟨h₁.mono (hw₂.trans hw₃₄), h₂.mono hw₃₄⟩ (.cons ⟨h₃.mono hw₄, hv.mono hw⟩
    (.cons ⟨h₄, hu.mono hw⟩ .nil)))

theorem exInfo (h : Value.MatchAll w args args') :
    Sim S q w (Library.exInfo args) (Library.exInfo args') Value.Match := by
  have refused := refuseCount (S := S) (q := q) (R := Value.Match) .exInfo (.exactly 2) h
  rcases h with _ | ⟨hm, _ | ⟨hd, _ | ⟨_, _⟩⟩⟩
  · exact refused
  · exact refused
  · have message := refuse (S := S) (q := q) (R := Value.Match) .exInfo 0 "string" hm
    have data := refuse (S := S) (q := q) (R := Value.Match) .exInfo 1 "map" hd
    have described := describe (S := S) (q := q) hm hd
    cases hm with
    | ref k hl => cases k with
      | str => cases hd with
        | nil => exact described
        | ref k hl => cases k with
          | map => exact described
          | _ => exact data
        | _ => exact data
      | _ => exact message
    | _ => exact message
  · exact refused

theorem field (b : Builtin) (name : String) (h : Value.MatchAll w args args') :
    Sim S q w (Library.field b name args) (Library.field b name args') Value.Match := by
  have refused := refuseCount (S := S) (q := q) (R := Value.Match) b (.exactly 1) h
  rcases h with _ | ⟨hx, _ | ⟨_, _⟩⟩
  · exact refused
  · cases hx with
    | ref k hl => cases k with
      | map =>
        refine bind (keyword name) fun hw hk => ?_
        refine bind (map? (.ref .map (hw.live hl))) fun hw' hm => ?_
        refine bind (keyOf (hk.mono hw')) fun hw'' hk' => unique fun hu => pure ?_
        have hm := (hm.getD .empty).mono hw'' fun _ _ he => he.mono hw''
        exact ((hm.get? hu hk').map fun _ _ he => he.2).getD .nil
      | _ => exact pure .nil
    | _ => exact pure .nil
  · cases hx with
    | ref k _ => cases k <;> exact refused
    | _ => exact refused

/-! ### Names -/

theorem nameStart (h : Value.MatchAll w args args') :
    Sim S q w (Library.nameStart args) (Library.nameStart args') Same := by
  have refused := refuseCount (S := S) (q := q) (R := Same (α := String)) .gensym (.between 0 1) h
  rcases h with _ | ⟨hx, _ | ⟨_, _⟩⟩
  · exact pure rfl
  · have other := refuse (S := S) (q := q) (R := Same (α := String)) .gensym 0 "string" hx
    cases hx with
    | ref k hl => cases k with
      | str => exact display (.ref .str hl)
      | _ => exact other
    | symbol hx => exact display (.symbol hx)
    | _ => exact other
  · exact refused

theorem gensym (h : Value.MatchAll w args args') :
    Sim S q w (Library.gensym args) (Library.gensym args') Value.Match := by
  refine bind (nameStart h) fun _ hx => ?_
  cases hx
  refine bind (generateName _) fun _ hx => ?_
  cases hx
  exact symbol _

/-! ### Code -/

variable {call call' : Caller}

theorem macroexpandOne (hc : Caller.Match S call call') (h : Value.MatchAll w args args') :
    Sim S q w (Library.macroexpandOne call args) (Library.macroexpandOne call' args') Value.Match := by
  have refused := refuseCount (S := S) (q := q) (R := Value.Match) .macroexpandOne (.exactly 1) h
  rcases h with _ | ⟨hx, _ | ⟨_, _⟩⟩
  · exact refused
  · refine bind (formOfValue hx) fun {_ f _} hw hf => ?_
    obtain ⟨rfl, hf⟩ := hf
    refine bind (expandOnce hc hf) fun hw' hg => ?_
    cases hg with
    | none => exact pure ((hx.mono hw).mono hw')
    | some hg =>
      obtain ⟨rfl, hg⟩ := hg
      exact valueOfForm _ (hg.imp fun _ hn => hn.handle)
  · exact refused

theorem expandTimes (hc : Caller.Match S call call') (n : Nat) {w : World} {f : Form}
    (hf : f.Mentions (S.Usable w)) :
    Sim S q w (Library.expandTimes call n f) (Library.expandTimes call' n f)
      fun w x y => SameForm S w x.1 y.1 ∧ x.2 = y.2 := by
  induction n generalizing w f with
  | zero => exact pure ⟨⟨rfl, hf⟩, rfl⟩
  | succ n ih =>
    refine bind (expandOnce hc hf) fun hw hg => ?_
    cases hg with
    | none => exact pure ⟨⟨rfl, hf.later hw⟩, rfl⟩
    | some hg =>
      obtain ⟨rfl, hg⟩ := hg
      exact bind (ih hg) fun _ hg => pure ⟨hg.1, rfl⟩

theorem macroexpand (hc : Caller.Match S call call') (h : Value.MatchAll w args args') :
    Sim S q w (Library.macroexpand call args) (Library.macroexpand call' args') Value.Match := by
  have refused := refuseCount (S := S) (q := q) (R := Value.Match) .macroexpand (.exactly 1) h
  rcases h with _ | ⟨hx, _ | ⟨_, _⟩⟩
  · exact refused
  · refine bind (formOfValue hx) fun {_ f _} hw hf => ?_
    obtain ⟨rfl, hf⟩ := hf
    refine get fun hm => ?_
    rw [hm.macroLimit]
    refine bind (expandTimes hc _ hf) fun {_ x y} hw' hg => ?_
    obtain ⟨f, b⟩ := x
    obtain ⟨g, b'⟩ := y
    obtain ⟨⟨rfl, hf⟩, rfl⟩ := hg
    dsimp only
    split
    · exact valueOfForm _ (hf.imp fun _ hn => hn.handle)
    · exact pure ((hx.mono hw).mono hw')
  · exact refused

end Sim

end TwinLisp
