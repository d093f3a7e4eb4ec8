import TwinLisp.Expansion.Quotation
import TwinLisp.Proofs.Correspondence.Data
import TwinLisp.Proofs.Syntax.Reader

/-!
# Code and data agree

Both sides run the same code, which may mention objects by handle. The handles are the same as well,
and what counts is that they are among those that may be used. Code that is made of data mentions new
handles only, and so does code that is expanded.

## Main definitions

* `SameForm`: what it is for two forms to correspond.

## Main statements

* `Sim.valueOfForm` and `Sim.formOfValue`: from code to data and back.
-/

namespace TwinLisp

/-- A handle may be used in code that is to be evaluated. -/
structure Setting.Usable (S : Setting) (w : World) (n : Nat) : Prop where
  handle : w.handle n
  isNew : S.oldest ≤ n

/-- Two forms correspond: they are one form, whose handles may be used. -/
def SameForm (S : Setting) : Related Form Form := fun w f g => f = g ∧ f.Mentions (S.Usable w)

/-- Two lists of forms correspond. -/
def SameForms (S : Setting) : Related (List Form) (List Form) :=
  fun w fs gs => fs = gs ∧ Form.MentionsAll (S.Usable w) fs

section

variable {S : Setting} {w w' : World} {f g : Form} {fs gs : List Form}

theorem Form.Mentions.mono (h : f.Mentions w.handle) (hw : w ≤ w') : f.Mentions w'.handle :=
  h.imp fun _ => hw.handle

theorem Form.MentionsAll.mono (h : Form.MentionsAll w.handle fs) (hw : w ≤ w') :
    Form.MentionsAll w'.handle fs :=
  h.imp fun _ => hw.handle

/-- What may be used goes on to be usable. -/
theorem Form.Mentions.later (h : f.Mentions (S.Usable w)) (hw : w ≤ w') : f.Mentions (S.Usable w') :=
  h.imp fun _ hn => ⟨hw.handle hn.handle, hn.isNew⟩

theorem Form.MentionsAll.later (h : Form.MentionsAll (S.Usable w) fs) (hw : w ≤ w') :
    Form.MentionsAll (S.Usable w') fs :=
  h.imp fun _ hn => ⟨hw.handle hn.handle, hn.isNew⟩

theorem SameForm.mono (h : SameForm S w f g) (hw : w ≤ w') : SameForm S w' f g := ⟨h.1, h.2.later hw⟩

theorem SameForms.mono (h : SameForms S w fs gs) (hw : w ≤ w') : SameForms S w' fs gs := ⟨h.1, h.2.later hw⟩

theorem SameForms.nil : SameForms S w [] [] := ⟨rfl, Form.mentionsAll_nil⟩

theorem SameForms.of_forall₂ (h : List.Forall₂ (SameForm S w) fs gs) : SameForms S w fs gs := by
  induction h with
  | nil => exact .nil
  | cons h _ ih =>
    obtain ⟨rfl, hf⟩ := h
    obtain ⟨rfl, hs⟩ := ih
    exact ⟨rfl, Form.mentionsAll_cons.2 ⟨hf, hs⟩⟩

theorem SameForms.append {fs' gs' : List Form} (h : SameForms S w fs gs) (h' : SameForms S w fs' gs') :
    SameForms S w (fs ++ fs') (gs ++ gs') :=
  ⟨by rw [h.1, h'.1], Form.mentionsAll_append.2 ⟨h.2, h'.2⟩⟩

theorem SameForms.flatten {fss gss : List (List Form)} (h : List.Forall₂ (SameForms S w) fss gss) :
    SameForms S w fss.flatten gss.flatten := by
  induction h with
  | nil => exact .nil
  | cons h _ ih => exact h.append ih

theorem SameForm.group (h : SameForms S w fs gs) (b : Bracket) (l : Location) :
    SameForm S w (.group b fs l) (.group b gs l) :=
  ⟨by rw [h.1], Form.mentions_group.2 h.2⟩

theorem SameForms.cons (h : SameForm S w f g) (hs : SameForms S w fs gs) : SameForms S w (f :: fs) (g :: gs) :=
  ⟨by rw [h.1, hs.1], Form.mentionsAll_cons.2 ⟨h.2, hs.2⟩⟩

end

namespace Sim

variable {S : Setting} {q : Bool}

/-! ### From code to data -/

theorem valueOfLeaf {w : World} {d : Leaf} (h : ∀ n, d = .object n → w.handle n) :
    Sim S q w (Eval.valueOfLeaf d) (Eval.valueOfLeaf d) Value.Match := by
  cases d with
  | str s => exact newString s
  | symbol name => exact symbol name
  | keyword name => exact keyword name
  | object n => exact embedded (h n rfl)
  | _ => exact pure (by constructor)

theorem valueOfGroup {w : World} {vs vs' : List Value} (h : Value.MatchAll w vs vs') (b : Bracket)
    (l : Location) : Sim S q w (Eval.valueOfGroup b vs l) (Eval.valueOfGroup b vs' l) Value.Match := by
  cases b with
  | list => exact new (.list l h)
  | vector => exact new (.vector l h)
  | map => exact newMap (pairUp_match h)
  | set => exact newSet h

mutual

/-- **Code stands for data that corresponds.** -/
theorem valueOfForm {w : World} : (f : Form) → f.Mentions w.handle →
    Sim S q w (Eval.valueOfForm f) (Eval.valueOfForm f) Value.Match
  | .leaf d l, h => by
    rw [Eval.valueOfForm]
    exact valueOfLeaf (Form.mentions_leaf.1 h)
  | .group b items l, h => by
    rw [Eval.valueOfForm]
    exact bind (valuesOfForms items (Form.mentions_group.1 h)) fun _ hvs => valueOfGroup hvs b l

theorem valuesOfForms {w : World} : (fs : List Form) → Form.MentionsAll w.handle fs →
    Sim S q w (Eval.valuesOfForms fs) (Eval.valuesOfForms fs) Value.MatchAll
  | [], _ => by
    rw [Eval.valuesOfForms]
    exact pure .nil
  | f :: fs, h => by
    rw [Eval.valuesOfForms]
    obtain ⟨hf, hfs⟩ := Form.mentionsAll_cons.1 h
    refine bind (valueOfForm f hf) fun hw hv => ?_
    refine bind (valuesOfForms fs (hfs.mono hw)) fun hw' hvs => ?_
    exact pure (.cons (hv.mono hw') hvs)

end

/-! ### From data to code -/

theorem embeddedLeaf {w : World} {v v' : Value} (h : v.Match w v') :
    Sim S q w (do return Eval.leaf (.object (← Eval.embed v)))
      (do return Eval.leaf (.object (← Eval.embed v'))) (SameForm S) := by
  refine bind (embed h) fun _ hn => ?_
  obtain ⟨rfl, hn⟩ := hn
  exact pure ⟨rfl, Form.mentions_leaf.2 fun n e => by cases e; exact ⟨hn.1, hn.2⟩⟩

theorem formWithin_of_plain {w : World} (n m : Nat) {v v' : Value} (h : v.Match w v')
    (hp : ∃ k, v.plainKey = .inl k) :
    Sim S q w (Eval.formWithin n v) (Eval.formWithin m v') (SameForm S) := by
  have plain (d : Leaf) (hd : ∀ n, d ≠ .object n) : SameForm S w (Eval.leaf d) (Eval.leaf d) :=
    ⟨rfl, Form.mentions_leaf.2 fun n e => absurd e (hd n)⟩
  have named (make : String → Leaf) (hd : ∀ x n, make x ≠ .object n) {x y : Symbol} (hx : w.sym x y) :
      Sim S q w (do return Eval.leaf (make (← Eval.nameOf x)))
        (do return Eval.leaf (make (← Eval.nameOf y))) (SameForm S) := by
    refine bind (nameOf hx) fun _ hn => ?_
    cases hn
    exact pure ⟨rfl, Form.mentions_leaf.2 fun n e => absurd e (hd _ n)⟩
  obtain ⟨k, hk⟩ := hp
  cases h with
  | symbol hx =>
    rw [Eval.formWithin, Eval.formWithin]
    exact named .symbol (fun _ _ => nofun) hx
  | keyword hx =>
    rw [Eval.formWithin, Eval.formWithin]
    exact named .keyword (fun _ _ => nofun) hx
  | ref k hl =>
    cases k with
    | function | atom | host =>
      rw [Eval.formWithin, Eval.formWithin]
      exact embeddedLeaf (.ref _ hl)
    | _ => cases hk
  | _ =>
    rw [Eval.formWithin, Eval.formWithin]
    exact pure (plain _ fun _ => nofun)

end Sim

/-- Items that correspond, and whose depth on either side is bounded. -/
structure Readable (n m : Nat) (w : World) (s : Session) (v v' : Value) : Prop where
  match' : v.Match w v'
  left : s.heap.Within n v
  right : s.heap.Within m v

namespace Agree

variable {S : Setting} {w : World} {s t : Session}

theorem formOfObject {n m : Nat} {f g : Value → Eval Form} {v v' : Value} {o o' : Object}
    (hm : s.Match S w t) (hv : v.Match w v') (ho : o.Match S w o')
    (hc : ∀ c ∈ o.contents, s.heap.Within n c ∧ s.heap.Within m c)
    (hfg : ∀ {w s t c c'}, s.Match S w t → Readable n m w s c c' →
      Agree S everything w s (SameForm S) (f c s) (g c' t)) :
    Agree S everything w s (SameForm S) (Eval.formOfObject f v o s) (Eval.formOfObject g v' o' t) := by
  have kept {w w' : World} {s s' t t' : Session} {c c' : Value} (hf : Preserves everything w s w' s')
      (hm : s.Match S w t) (hm' : s'.Match S w' t') (h : Readable n m w s c c') :
      Readable n m w' s' c c' :=
    ⟨h.match'.mono hf.le, hf.within hm hm' h.match' h.left, hf.within hm hm' h.match' h.right⟩
  have items {vs vs' : List Value} (hvs : Value.MatchAll w vs vs') (hcs : vs = o.contents) :
      Agree S everything w s (fun w => List.Forall₂ (SameForm S w)) (vs.mapM f s) (vs'.mapM g t) := by
    refine Agree.mapM (P := Readable n m) kept (fun hw h => h.mono hw) hfg ?_ hm
    refine forall₂_imp_of_mem hvs fun c hcm c' _ hcc => ?_
    exact ⟨hcc, (hc c (hcs ▸ hcm)).1, (hc c (hcs ▸ hcm)).2⟩
  cases ho with
  | str x => exact Agree.pure hm ⟨rfl, Form.mentions_leaf.2 fun n => nofun⟩
  | list l hvs => exact (items hvs rfl).bind fun _ hm h => Agree.pure hm (.group (.of_forall₂ h) _ l)
  | vector l hvs => exact (items hvs rfl).bind fun _ hm h => Agree.pure hm (.group (.of_forall₂ h) _ l)
  | @map c d hcd =>
    refine Agree.bind (Agree.mapM (T := SameForms S)
      (P := fun w s e e' => Readable n m w s e.1 e'.1 ∧ Readable n m w s e.2 e'.2)
      ?_ (fun hw h => h.mono hw) (fun hm h => ?_) ?_ hm) fun _ hm h => ?_
    · exact fun hf hm hm' h => ⟨kept hf hm hm' h.1, kept hf hm hm' h.2⟩
    · refine (hfg hm h.1).bind fun hf hm' hk => ?_
      refine (hfg hm' (kept hf hm hm' h.2)).bind fun hf' hm'' hv => ?_
      exact Agree.pure hm'' (.cons (hk.mono hf'.le) (.cons hv .nil))
    · refine forall₂_imp_of_mem hcd.toList fun e he e' _ hee => ?_
      have hk := hc e.1 (List.mem_flatMap.2 ⟨e, he, by simp⟩)
      have hv := hc e.2 (List.mem_flatMap.2 ⟨e, he, by simp⟩)
      exact ⟨⟨hee.1, hk.1, hk.2⟩, hee.2, hv.1, hv.2⟩
    · exact Agree.pure hm (.group (.flatten h) _ _)
  | set hvs => exact (items hvs.toList rfl).bind fun _ hm h => Agree.pure hm (.group (.of_forall₂ h) _ _)
  | function _ => exact Sim.embeddedLeaf (q := false) hv hm nofun
  | atom _ => exact Sim.embeddedLeaf (q := false) hv hm nofun
  | host _ => exact Sim.embeddedLeaf (q := false) hv hm nofun

theorem formWithin {n m : Nat} {v v' : Value} (hm : s.Match S w t) (h : Readable n m w s v v') :
    Agree S everything w s (SameForm S) (Eval.formWithin n v s) (Eval.formWithin m v' t) := by
  induction n generalizing m w s t v v' with
  | zero => exact Sim.formWithin_of_plain (q := false) 0 m h.match' h.left hm nofun
  | succ n ih =>
    rcases hm.heap.plainKey h.match' with ⟨k, -, hk, -⟩ | ⟨l, a, b, rfl, rfl, hl, hk, hk'⟩
    · exact Sim.formWithin_of_plain (q := false) _ _ h.match' ⟨k, hk⟩ hm nofun
    cases m with
    | zero =>
      obtain ⟨x, hx⟩ := h.right
      rw [hk] at hx
      cases hx
    | succ m =>
      obtain ⟨o, o', ho, ho', -, hoo, -⟩ := hm.heap.objects hl
      have found {u : Session} {c : Address} {p : Object} (hp : u.heap.get? c = some p) (i : Nat)
          (hc : (Value.ref l c).plainKey = .inr c) :
          Eval.formWithin (i + 1) (.ref l c) u = Eval.formOfObject (Eval.formWithin i) (.ref l c) p u := by
        have step : Eval.formWithin (i + 1) (.ref l c) =
            Eval.object c >>= fun o => Eval.formOfObject (Eval.formWithin i) (.ref l c) o := by
          cases l <;> first | rfl | cases hc
        rw [step, Eval.bind_eq_of_ok (Eval.object_eq_of_get? hp)]
      rw [found ho n hk, found ho' m hk']
      exact formOfObject hm h.match' hoo (fun c hc => ⟨h.left rfl ho c hc, h.right rfl ho c hc⟩) ih

end Agree

namespace Sim

/-- **Data stands for code that corresponds.** -/
theorem formOfValue {S : Setting} {q : Bool} {w : World} {v v' : Value} (h : v.Match w v') :
    Sim S q w (Eval.formOfValue v) (Eval.formOfValue v') (SameForm S) := by
  intro s t hm _
  obtain ⟨left, right⟩ := hm.heap.within h
  exact Agree.formWithin hm ⟨h, left, hm.heap.within_left h @right⟩

end Sim

end TwinLisp
