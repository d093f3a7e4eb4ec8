import TwinLisp.Expansion.Basic
import TwinLisp.Proofs.Correspondence.Template

/-!
# Expansion agrees

Expansion calls macros, and so it agrees where calls do. Collection is forbidden during expansion, and
calls need to agree under that condition only.

## Main definitions

* `Caller.Match`: what it is for two ways to call functions to correspond.

## Main statements

* `Sim.expand`, `Sim.expandHead` and `Sim.expandOnce`.
-/

namespace TwinLisp

/-- Two ways to call functions correspond: while collection is forbidden, calls agree. -/
def Caller.Match (S : Setting) (call call' : Caller) : Prop :=
  ∀ {w : World} {f f' : Value} {args args' : List Value}, f.Match w f' → Value.MatchAll w args args' →
    Sim S true w (call f args) (call' f' args') Value.Match

/-- Two ways to call functions agree, whether or not collection is forbidden. -/
def Caller.Agree (S : Setting) (call call' : Caller) : Prop :=
  ∀ {w : World} {s t : Session} {f f' : Value} {args args' : List Value}, s.Match S w t →
    f.Match w f' → Value.MatchAll w args args' →
      TwinLisp.Agree S nothing w s Value.Match (call f args s) (call' f' args' t)

theorem Caller.Agree.quiet {S : Setting} {call call' : Caller} (h : Caller.Agree S call call') :
    Caller.Match S call call' :=
  fun hf hargs _ _ hm hq => (h hm hf hargs).quiet (hq rfl)

/-- Two ways to go on with the call of a macro correspond. -/
def MacroMatch (S : Setting) (g g' : ExpansionPlace → String → Value → Form → Eval Form) : Prop :=
  ∀ (w : World) (p : ExpansionPlace) (name : String) (v v' : Value) (f : Form), v.Match w v' →
    f.Mentions (S.Usable w) → Sim S true w (g p name v f) (g' p name v' f) (SameForm S)

/-- Two ways to go on with the parts of a form correspond. -/
structure Eval.ExpansionHooks.Match (S : Setting) (h h' : ExpansionHooks) : Prop where
  onMacro : MacroMatch S h.onMacro h'.onMacro
  onTemplate : ∀ {w : World} {p f}, f.Mentions (S.Usable w) →
    Sim S true w (h.onTemplate p f) (h'.onTemplate p f) (SameForm S)

namespace Sim

variable {S : Setting} {q : Bool}

/-! ### One macro call -/

/-- Both sides find the same macro. -/
theorem macroCalled? {w : World} (p : ExpansionPlace) (f : Form) :
    Sim S q w (Eval.macroCalled? p f) (Eval.macroCalled? p f)
      (Optional fun w x y => x.1 = y.1 ∧ x.2.Match w y.2) := by
  unfold Eval.macroCalled?
  split
  · exact pure .none
  · next name _ =>
    split
    · exact pure .none
    · refine get fun {s t} hm => ?_
      have found := S.globals hm.scopes name
      change Option.Rel _ ((s.symbols.find? name).bind s.global?) ((t.symbols.find? name).bind t.global?)
        at found
      generalize (s.symbols.find? name).bind s.global? = x at found ⊢
      generalize (t.symbols.find? name).bind t.global? = y at found ⊢
      cases found with
      | none => exact pure .none
      | @some v v' hv =>
        cases hv with
        | ref k hl =>
          obtain ⟨o, o', ho, ho', -, hoo, -⟩ := hm.heap.objects hl
          simp only [Heap.objectOf?, Value.address?, Option.bind_some, ho, ho']
          cases hoo with
          | @function fn fn' hf =>
            dsimp only
            rw [hf.isMacro]
            split
            · exact pure (.some ⟨rfl, .ref k hl⟩)
            · exact pure .none
          | _ => exact pure .none
        | _ => exact pure .none

theorem expandCall {w : World} {call call' : Caller} (hc : Caller.Match S call call') (remaining : Nat)
    (p : ExpansionPlace) (name : String) {v v' : Value} {f : Form} (hv : v.Match w v')
    (hf : f.Mentions (S.Usable w)) :
    Sim S true w (Eval.expandCall call remaining p name v f)
      (Eval.expandCall call' remaining p name v' f) (SameForm S) := by
  unfold Eval.expandCall
  dsimp only
  split
  · refine get fun hm => ?_
    rw [hm.macroLimit]
    exact bind (R := fun _ _ _ => False) (fail ((Fault.Match.of w _ (by rfl)).located _)) fun _ h => h.elim
  · have args := (hf.imp fun _ hn => hn.handle).items.sublist (List.drop_sublist 1 _)
    refine bind (valuesOfForms _ args) fun hw hvs => ?_
    refine bind (attributed (hc (hv.mono hw) hvs) _ _) fun hw' hv => ?_
    refine bind (formOfValue hv) fun _ hg => ?_
    obtain ⟨rfl, hg⟩ := hg
    refine pure ⟨rfl, ?_⟩
    unfold Eval.placed
    split
    · exact hg
    · exact Form.mentions_withLocation.2 hg

/-! ### Everything in a form -/

section

variable {hooks hooks' : Eval.ExpansionHooks}

/-- Expansion agrees on forms smaller than `n`. -/
def ExpandsBelow (S : Setting) (hooks hooks' : Eval.ExpansionHooks) (n : Nat) : Prop :=
  ∀ (f : Form) (w : World) (p : ExpansionPlace), sizeOf f < n → f.Mentions (S.Usable w) →
    Sim S true w (Eval.expandWith hooks p f) (Eval.expandWith hooks' p f) (SameForm S)

variable {n : Nat} (ih : ExpandsBelow S hooks hooks' n)
include ih

theorem expandAll {w : World} (p : ExpansionPlace) {fs : List Form} (hn : sizeOf fs ≤ n)
    (h : Form.MentionsAll (S.Usable w) fs) :
    Sim S true w (Eval.expandAll hooks p fs) (Eval.expandAll hooks' p fs) (SameForms S) := by
  induction fs generalizing w with
  | nil =>
    rw [Eval.expandAll, Eval.expandAll]
    exact pure .nil
  | cons f fs ihs =>
    obtain ⟨hf, hfs⟩ := Form.mentionsAll_cons.1 h
    rw [List.cons.sizeOf_spec] at hn
    rw [Eval.expandAll, Eval.expandAll]
    refine bind (ih f w p (by omega) hf) fun hw hg => ?_
    refine bind (ihs (by omega) (hfs.later hw)) fun hw' hgs => ?_
    exact pure (.cons (hg.mono hw') hgs)

theorem expandOverloadClauses {w : World} (p : ExpansionPlace) {fs : List Form} (hn : sizeOf fs ≤ n)
    (h : Form.MentionsAll (S.Usable w) fs) :
    Sim S true w (Eval.expandOverloadClauses hooks p fs) (Eval.expandOverloadClauses hooks' p fs)
      (SameForms S) := by
  induction fs generalizing w with
  | nil =>
    rw [Eval.expandOverloadClauses, Eval.expandOverloadClauses]
    exact pure .nil
  | cons clause rest ihs =>
    obtain ⟨hc, hr⟩ := Form.mentionsAll_cons.1 h
    rw [List.cons.sizeOf_spec] at hn
    unfold Eval.expandOverloadClauses
    split
    · next e => cases e
    · next params body l rest' e =>
      cases e
      obtain ⟨hp, hb⟩ := Form.mentionsAll_cons.1 (Form.mentions_group.1 hc)
      simp only [Form.group.sizeOf_spec, List.cons.sizeOf_spec] at hn
      refine bind (expandAll ih _ (by omega) hb) fun hw hs => ?_
      refine bind (ihs (by omega) (hr.later hw)) fun hw' hrs => ?_
      exact pure (.cons (.group (.cons ⟨rfl, (hp.later hw).later hw'⟩ (hs.mono hw')) _ _) hrs)
    · next e =>
      cases e
      refine bind (ihs (by omega) hr) fun hw hrs => ?_
      exact pure (.cons ⟨rfl, hc.later hw⟩ hrs)

theorem expandOverloads {w : World} (p : ExpansionPlace) {fs : List Form} (hn : sizeOf fs ≤ n)
    (h : Form.MentionsAll (S.Usable w) fs) :
    Sim S true w (Eval.expandOverloads hooks p fs) (Eval.expandOverloads hooks' p fs) (SameForms S) := by
  unfold Eval.expandOverloads
  split
  · next params l body =>
    obtain ⟨hf, hb⟩ := Form.mentionsAll_cons.1 h
    rw [List.cons.sizeOf_spec] at hn
    refine bind (expandAll ih _ (by omega) hb) fun hw hs => ?_
    exact pure (.cons ⟨rfl, hf.later hw⟩ hs)
  · exact expandOverloadClauses ih p hn h

theorem expandPairs {w : World} (p : ExpansionPlace) :
    (fs : List Form) → sizeOf fs ≤ n → Form.MentionsAll (S.Usable w) fs →
      Sim S true w (Eval.expandPairs hooks p fs) (Eval.expandPairs hooks' p fs)
        fun w x y => SameForms S w x.1 y.1 ∧ x.2 = y.2
  | [], _, _ => by
    rw [Eval.expandPairs, Eval.expandPairs]
    exact pure ⟨.nil, rfl⟩
  | [name], _, h => by
    rw [Eval.expandPairs, Eval.expandPairs]
    exact pure ⟨⟨rfl, h⟩, rfl⟩
  | name :: value :: rest, hn, h => by
    obtain ⟨hname, hv⟩ := Form.mentionsAll_cons.1 h
    obtain ⟨hv, hr⟩ := Form.mentionsAll_cons.1 hv
    simp only [List.cons.sizeOf_spec] at hn
    rw [Eval.expandPairs, Eval.expandPairs]
    refine bind (ih value w p (by omega) hv) fun hw hv => ?_
    refine bind (expandPairs _ rest (by omega) (hr.later hw)) fun hw' hx => ?_
    exact pure ⟨.cons ⟨rfl, (hname.later hw).later hw'⟩ (.cons (hv.mono hw') hx.1), hx.2⟩

theorem expandClauses {w : World} (p : ExpansionPlace) {fs : List Form} (hn : sizeOf fs ≤ n)
    (h : Form.MentionsAll (S.Usable w) fs) :
    Sim S true w (Eval.expandClauses hooks p fs) (Eval.expandClauses hooks' p fs) (SameForms S) := by
  induction fs generalizing w with
  | nil =>
    rw [Eval.expandClauses, Eval.expandClauses]
    exact pure .nil
  | cons clause rest ihs =>
    obtain ⟨hc, hr⟩ := Form.mentionsAll_cons.1 h
    rw [List.cons.sizeOf_spec] at hn
    have others {w' : World} {f g : Form} (hw : w ≤ w') (hg : SameForm S w' f g) :
        Sim S true w' (do return f :: (← Eval.expandClauses hooks p rest))
          (do return g :: (← Eval.expandClauses hooks' p rest)) (SameForms S) :=
      bind (ihs (by omega) (hr.later hw)) fun hw' hrs => pure (.cons (hg.mono hw') hrs)
    unfold Eval.expandClauses
    split
    · next e => cases e
    · next head type binding body l _ e =>
      cases e
      obtain ⟨hhead, hs⟩ := Form.mentionsAll_cons.1 (Form.mentions_group.1 hc)
      obtain ⟨ht, hs⟩ := Form.mentionsAll_cons.1 hs
      obtain ⟨hb, hs⟩ := Form.mentionsAll_cons.1 hs
      dsimp only
      split
      · have hn : sizeOf body ≤ n := by
          simp only [Form.group.sizeOf_spec, List.cons.sizeOf_spec] at hn
          omega
        refine bind (expandAll ih _ hn hs) fun hw hs => others hw (.group ?_ _ _)
        exact .cons ⟨rfl, hhead.later hw⟩ (.cons ⟨rfl, ht.later hw⟩ (.cons ⟨rfl, hb.later hw⟩ hs))
      · exact bind (ih _ w p (by omega) hc) others
    · next e =>
      cases e
      exact bind (ih clause w p (by omega) hc) others

end

theorem expandList {hooks hooks' : Eval.ExpansionHooks} (hh : hooks.Match S hooks') {w : World}
    (p : ExpansionPlace) {head : Form} {rest : List Form} {l : Location} {n : Nat}
    (ih : ExpandsBelow S hooks hooks' n) (hn : sizeOf (head :: rest) ≤ n)
    (h : (Form.list (head :: rest) l).Mentions (S.Usable w)) :
    Sim S true w (Eval.expandWith hooks p (.list (head :: rest) l))
      (Eval.expandWith hooks' p (.list (head :: rest) l)) (SameForm S) := by
  have hs := Form.mentions_group.1 h
  obtain ⟨hhead, hrest⟩ := Form.mentionsAll_cons.1 hs
  have all {w' : World} (hw : w ≤ w') : Sim S true w'
      (do return .list (← Eval.expandAll hooks (p.within l) (head :: rest)) l)
      (do return .list (← Eval.expandAll hooks' (p.within l) (head :: rest)) l) (SameForm S) :=
    bind (expandAll ih _ hn (hs.later hw)) fun _ hs => pure (.group hs _ l)
  rw [List.cons.sizeOf_spec] at hn
  unfold Eval.expandWith
  dsimp only
  split
  · exact pure ⟨rfl, h⟩
  · split
    · exact hh.onTemplate (Form.mentionsAll_cons.1 hrest).1
    · exact fail ((Fault.Match.of w _ (by rfl)).located _)
  · split
    · exact pure ⟨rfl, h⟩
    · next first more =>
      obtain ⟨hf, hm⟩ := Form.mentionsAll_cons.1 hrest
      split
      · rw [List.cons.sizeOf_spec] at hn
        refine bind (expandOverloads ih _ (by omega) hm) fun hw hs => ?_
        exact pure (.group (.cons ⟨rfl, hhead.later hw⟩ (.cons ⟨rfl, hf.later hw⟩ hs)) _ _)
      · refine bind (expandOverloads ih _ (by omega) hrest) fun hw hs => ?_
        exact pure (.group (.cons ⟨rfl, hhead.later hw⟩ hs) _ _)
  · split
    · exact pure ⟨rfl, h⟩
    · next name doc more =>
      obtain ⟨hname, hd⟩ := Form.mentionsAll_cons.1 hrest
      obtain ⟨hdoc, hm⟩ := Form.mentionsAll_cons.1 hd
      simp only [List.cons.sizeOf_spec] at hn
      split
      · refine bind (expandOverloads ih _ (by omega) hm) fun hw hs => ?_
        exact pure (.group (.cons ⟨rfl, hhead.later hw⟩ (.cons ⟨rfl, hname.later hw⟩
          (.cons ⟨rfl, hdoc.later hw⟩ hs))) _ _)
      · refine bind (expandOverloads ih _ ?_ hd) fun hw hs => ?_
        · simp only [List.cons.sizeOf_spec]
          omega
        · exact pure (.group (.cons ⟨rfl, hhead.later hw⟩ (.cons ⟨rfl, hname.later hw⟩ hs)) _ _)
    · exact pure ⟨rfl, h⟩
  case h_5 | h_6 =>
    split
    · exact pure ⟨rfl, h⟩
    · next pairs vl body =>
      obtain ⟨hp, hb⟩ := Form.mentionsAll_cons.1 hrest
      simp only [List.cons.sizeOf_spec, Form.group.sizeOf_spec] at hn
      refine bind (expandPairs ih _ pairs (by omega) (Form.mentions_group.1 hp)) fun {w' x y} hw hx => ?_
      obtain ⟨hx, hq⟩ := hx
      rw [hq]
      refine bind (expandAll ih _ (by omega) (hb.later hw)) fun hw' hs => ?_
      exact pure (.group (.cons ⟨rfl, (hhead.later hw).later hw'⟩ (.cons (.group (hx.mono hw') _ _) hs)) _ _)
    · next bindings body _ =>
      obtain ⟨hbs, hb⟩ := Form.mentionsAll_cons.1 hrest
      rw [List.cons.sizeOf_spec] at hn
      refine bind (expandAll ih _ (by omega) hb) fun hw hs => ?_
      exact pure (.group (.cons ⟨rfl, hhead.later hw⟩ (.cons ⟨rfl, hbs.later hw⟩ hs)) _ _)
  · refine bind (expandClauses ih _ (by omega) hrest) fun hw hs => ?_
    exact pure (.group (.cons ⟨rfl, hhead.later hw⟩ hs) _ _)
  · exact all le_rfl
  · refine bind (macroCalled? _ _) fun {w' x y} hw hx => ?_
    cases hx with
    | none => exact all hw
    | @some x y hx =>
      obtain ⟨hname, hv⟩ := hx
      dsimp only
      rw [hname]
      exact hh.onMacro _ _ _ _ _ _ hv (h.later hw)

theorem expandWith {hooks hooks' : Eval.ExpansionHooks} (hh : hooks.Match S hooks') {w : World}
    (p : ExpansionPlace) {f : Form} (h : f.Mentions (S.Usable w)) :
    Sim S true w (Eval.expandWith hooks p f) (Eval.expandWith hooks' p f) (SameForm S) := by
  induction hn : sizeOf f using Nat.strongRecOn generalizing w p f with
  | _ n ih =>
    subst hn
    have ih : ExpandsBelow S hooks hooks' (sizeOf f) := fun g w p hn hg => ih _ hn p hg rfl
    cases f with
    | leaf d l =>
      rw [Eval.expandWith, Eval.expandWith]
      exact pure ⟨rfl, h⟩
    | group b items l =>
      have hn : sizeOf items ≤ sizeOf (Form.group b items l) := by
        rw [Form.group.sizeOf_spec]
        omega
      have all (p : ExpansionPlace) : Sim S true w
          (do return .group b (← Eval.expandAll hooks p items) l)
          (do return .group b (← Eval.expandAll hooks' p items) l) (SameForm S) :=
        bind (expandAll ih p hn (Form.mentions_group.1 h)) fun _ hs => pure (.group hs b l)
      cases b with
      | vector | map | set =>
        rw [Eval.expandWith, Eval.expandWith] <;> first | exact all _ | simp
      | list => cases items with
        | nil =>
          rw [Eval.expandWith, Eval.expandWith]
          exact pure ⟨rfl, h⟩
        | cons head rest => exact expandList hh p ih hn h

section

variable {call call' : Caller}

theorem expandWithin {onMacro onMacro' : ExpansionPlace → String → Value → Form → Eval Form}
    (hm : MacroMatch S onMacro onMacro') (n : Nat) {w : World} (p : ExpansionPlace) {f : Form}
    (hf : f.Mentions (S.Usable w)) :
    Sim S true w (Eval.expandWithin onMacro n p f) (Eval.expandWithin onMacro' n p f) (SameForm S) := by
  induction n generalizing w p f with
  | zero => exact expandWith ⟨hm, fun hf => builder hf⟩ p hf
  | succ n ih =>
    refine expandWith ⟨hm, fun hf => bind (builder hf) fun _ hg => ?_⟩ p hf
    obtain ⟨rfl, hg⟩ := hg
    exact ih _ hg

theorem expandAt (hc : Caller.Match S call call') (n : Nat) {w : World} (p : ExpansionPlace) {f : Form}
    (hf : f.Mentions (S.Usable w)) :
    Sim S true w (Eval.expandAt call n p f) (Eval.expandAt call' n p f) (SameForm S) := by
  induction n generalizing w p f with
  | zero =>
    have hm : MacroMatch S (Eval.expandCall call 0) (Eval.expandCall call' 0) :=
      fun _ _ _ _ _ _ hv hf => expandCall hc 0 _ _ hv hf
    rw [Eval.expandAt, Eval.expandAt]
    exact expandWithin hm f.templates p hf
  | succ n ih =>
    have hm : MacroMatch S
        (fun p name v g => do Eval.expandAt call n p (← Eval.expandCall call (n + 1) p name v g))
        (fun p name v g => do Eval.expandAt call' n p (← Eval.expandCall call' (n + 1) p name v g)) := by
      intro w p name v v' f hv hf
      refine bind (expandCall hc (n + 1) _ _ hv hf) fun _ hg => ?_
      obtain ⟨rfl, hg⟩ := hg
      exact ih _ hg
    rw [Eval.expandAt, Eval.expandAt]
    exact expandWithin hm f.templates p hf

/-- **Expansion agrees.** -/
theorem expand (hc : Caller.Match S call call') {w : World} {f : Form} (hf : f.Mentions (S.Usable w)) :
    Sim S q w (Eval.expand call f) (Eval.expand call' f) (SameForm S) := by
  refine withoutCollection (get fun hm => ?_)
  rw [hm.macroLimit]
  exact expandAt hc _ _ hf

/-! ### The head of a form -/

theorem expandHeadAt (hc : Caller.Match S call call') (n : Nat) {w : World} (cursor : Location)
    {f : Form} (hf : f.Mentions (S.Usable w)) :
    Sim S true w (Eval.expandHeadAt call n cursor f) (Eval.expandHeadAt call' n cursor f) (SameForm S) := by
  induction n generalizing w cursor f with
  | zero =>
    refine bind (macroCalled? _ f) fun {w' x y} hw hx => ?_
    cases hx with
    | none => exact pure ⟨rfl, hf.later hw⟩
    | @some x y hx =>
      obtain ⟨x, v⟩ := x
      obtain ⟨rfl, hv⟩ := hx
      exact expandCall hc 0 _ _ hv (hf.later hw)
  | succ n ih =>
    refine bind (macroCalled? _ f) fun {w' x y} hw hx => ?_
    cases hx with
    | none => exact pure ⟨rfl, hf.later hw⟩
    | @some x y hx =>
      obtain ⟨x, v⟩ := x
      obtain ⟨rfl, hv⟩ := hx
      refine bind (expandCall hc (n + 1) _ _ hv (hf.later hw)) fun _ hg => ?_
      obtain ⟨rfl, hg⟩ := hg
      exact ih _ hg

/-- **Expansion of the head agrees.** -/
theorem expandHead (hc : Caller.Match S call call') {w : World} {f : Form} (hf : f.Mentions (S.Usable w)) :
    Sim S q w (Eval.expandHead call f) (Eval.expandHead call' f) (SameForm S) := by
  refine withoutCollection (get fun hm => ?_)
  rw [hm.macroLimit]
  exact expandHeadAt hc _ _ hf

/-- **A single expansion agrees.** -/
theorem expandOnce (hc : Caller.Match S call call') {w : World} {f : Form} (hf : f.Mentions (S.Usable w)) :
    Sim S q w (Eval.expandOnce call f) (Eval.expandOnce call' f) (Optional (SameForm S)) := by
  refine withoutCollection (bind (macroCalled? _ f) fun {w' x y} hw hx => ?_)
  cases hx with
  | none => exact pure .none
  | @some x y hx =>
    obtain ⟨x, v⟩ := x
    obtain ⟨rfl, hv⟩ := hx
    refine get fun hm => ?_
    rw [hm.macroLimit]
    exact bind (expandCall hc _ _ _ hv (hf.later hw)) fun _ hg => pure (.some hg)

end

end Sim

end TwinLisp
