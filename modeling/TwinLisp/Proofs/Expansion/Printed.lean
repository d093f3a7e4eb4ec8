import TwinLisp.Proofs.Expansion.RoundTrip
import TwinLisp.Proofs.Heap.Construction
import TwinLisp.Proofs.Syntax.Literals
import TwinLisp.Session.Printer

/-!
# Values through their written form

A value that shows a form is written like the form, as far as values are written at all. So a value made of nil,
booleans, integers, characters and strings by lists, vectors, maps and sets can be read back. What is read is code for
an equal value, in which everything is of the same kind.

## Main definitions

* `Heap.IsLiteral`: a value is made of literals, within so many levels.

## Main statements

* `Form.ShownBy.textWithin_eq`: a value is written like the form that it shows.
* `Heap.IsLiteral.exists_form`: a value that is made of literals shows a form without equal keys and members.
* `Session.Operated.text_reads_back`: a value that is made of literals can be read back.
-/

namespace TwinLisp

/-! ### Written forms -/

section Pairs

variable {α β : Type} {R : α → β → Prop}

/-- What belongs to the parts of pairs can be put in pairs, too. -/
theorem forall₂_pairsOr_of_flatMap (filler : α) {xs : List α} {es : List (β × β)}
    (h : List.Forall₂ R xs (es.flatMap fun e => [e.1, e.2])) :
    List.Forall₂ (fun p e => R p.1 e.1 ∧ R p.2 e.2) (pairsOr filler xs) es ∧ xs.length % 2 = 0 := by
  induction es generalizing xs with
  | nil =>
    cases h
    exact ⟨.nil, rfl⟩
  | cons e es ih =>
    obtain _ | ⟨first, h⟩ := h
    obtain _ | ⟨second, h⟩ := h
    obtain ⟨pairs, even⟩ := ih h
    refine ⟨.cons ⟨first, second⟩ pairs, ?_⟩
    rw [List.length_cons, List.length_cons]
    omega

end Pairs

namespace Form

theorem itemTexts_eq (fs : List Form) : itemTexts fs = spaced (fs.map text) := by
  induction fs with
  | nil => rfl
  | cons f fs ih =>
    cases fs with
    | nil => rw [itemTexts, spaced, List.map_singleton, String.intercalate_singleton]
    | cons g gs =>
      rw [itemTexts_cons_cons, ih, spaced, spaced, List.map_cons, List.map_cons, List.map_cons,
        String.intercalate_cons_cons]

/-- The text of an entry. -/
def entryText (e : Form × Form) : String := e.1.text ++ " " ++ e.2.text

theorem entryTexts_eq : {fs : List Form} → (even : fs.length % 2 = 0) →
    entryTexts fs = ", ".intercalate ((entries fs).map entryText)
  | [], _ => rfl
  | [k], even => nomatch even
  | [k, v], _ => by
    rw [entryTexts, entries, pairsOr, pairsOr, List.map_singleton, String.intercalate_singleton, entryText]
  | k :: v :: f :: fs, even => by
    have others : (f :: fs).length % 2 = 0 := by
      rw [List.length_cons, List.length_cons] at even
      omega
    obtain ⟨e, es, paired⟩ : ∃ e es, entries (f :: fs) = e :: es := by
      cases fs with
      | nil => exact ⟨_, _, rfl⟩
      | cons g gs => exact ⟨_, _, rfl⟩
    have first : entries (k :: v :: f :: fs) = (k, v) :: entries (f :: fs) := rfl
    rw [entryTexts_cons_cons, entryTexts_eq others, first, paired, List.map_cons, List.map_cons, List.map_cons,
      String.intercalate_cons_cons]
    rfl

variable {s : Session} {f : Form} {v : Value} {n : Nat}

theorem leaf_textWithin {d : Leaf} (hd : d.ShownBy s.heap s.symbols v) (n : Nat) :
    s.textWithin (n + 1) true v = d.text := by
  cases d with
  | str text =>
    obtain ⟨a, rfl, ha⟩ := hd
    rw [Session.textWithin]
    simp only [ha]
    rfl
  | symbol name =>
    obtain ⟨x, rfl, hx⟩ := hd
    exact SymbolTable.name_of_find? hx
  | keyword name =>
    obtain ⟨x, rfl, hx⟩ := hd
    exact congrArg (":" ++ ·) (SymbolTable.name_of_find? hx)
  | object handle => cases hd
  | _ =>
    cases hd
    rfl

/-- **A value is written like the form that it shows.** -/
theorem ShownBy.textWithin_eq (hv : f.ShownBy s.heap s.symbols v) (fits : f.height ≤ n) :
    s.textWithin n true v = f.text := by
  induction f using structural generalizing v n with
  | leaf d l =>
    obtain ⟨n, rfl⟩ := Nat.exists_eq_succ_of_ne_zero (Nat.pos_iff_ne_zero.1 fits)
    rw [ShownBy] at hv
    exact leaf_textWithin hv.2 n
  | group b items l ih =>
    obtain ⟨a, o, rfl, ho, hg, hs⟩ := hv.of_group
    obtain ⟨n, rfl⟩ := Nat.exists_eq_succ_of_ne_zero (Nat.pos_iff_ne_zero.1 ((height_pos _).trans_le fits))
    have parts : List.Forall₂ (fun f c => f.text = s.textWithin n true c) items o.contents := by
      refine forall₂_imp_of_mem hs fun f hf c _ shown => (ih f hf shown ?_).symm
      have := height_lt_of_mem (b := b) (l := l) hf
      omega
    have unfolded : s.textWithin (n + 1) true (.ref o.kind a) =
        s.objectText true (s.textWithin n true) (s.textWithin n true) o := by
      rw [Session.textWithin]
      simp only [ho]
    rw [unfolded]
    have texts : items.map text = o.contents.map (s.textWithin n true) := by
      rw [← List.forall₂_eq_eq_eq, List.forall₂_map_left_iff, List.forall₂_map_right_iff]
      exact parts
    cases o with
    | list vs l =>
      cases hg
      rw [text_group (by decide), itemTexts_eq, texts]
      rfl
    | vector vs l =>
      cases hg
      rw [text_group (by decide), itemTexts_eq, texts]
      rfl
    | set c =>
      cases hg
      rw [text_group (by decide), itemTexts_eq, texts]
      rfl
    | map c =>
      cases hg
      obtain ⟨paired, even⟩ := forall₂_pairsOr_of_flatMap (.leaf .nil .unknown) parts
      have entries : (entries items).map entryText = c.toList.map fun e =>
          s.textWithin n true e.1 ++ " " ++ s.textWithin n true e.2 := by
        rw [← List.forall₂_eq_eq_eq, List.forall₂_map_left_iff, List.forall₂_map_right_iff]
        exact paired.imp fun p e same => by rw [entryText, same.1, same.2]
      rw [text, entryTexts_eq even, entries]
      rfl
    | _ => cases hg

end Form

/-! ### Values made of literals -/

/-- The value is made of nil, booleans, integers, characters and strings by lists, vectors, maps and sets, where nothing
lies below the `n`-th level. -/
inductive Heap.IsLiteral (h : Heap) : Nat → Value → Prop where
  | nil {n : Nat} : IsLiteral h (n + 1) .nil
  | bool {n : Nat} (b : Bool) : IsLiteral h (n + 1) (.bool b)
  | int {n : Nat} (i : Int64) : IsLiteral h (n + 1) (.int i)
  | char {n : Nat} (c : Char) : IsLiteral h (n + 1) (.char c)
  | str {n : Nat} {a : Address} {s : String} (ho : h.get? a = some (.str s)) : IsLiteral h (n + 1) (.ref .str a)
  | group {n : Nat} {a : Address} {o : Object} (ho : h.get? a = some o) (data : o.group?.isSome = true)
    (parts : ∀ c ∈ o.contents, IsLiteral h n c) : IsLiteral h (n + 1) (.ref o.kind a)

namespace Form

variable {h : Heap} {σ : SymbolTable} {f : Form} {v w : Value} {n : Nat}

/-- No numbering of names makes a difference to whether all keys differ. -/
theorem nodup_keyBy_iff {γ : Type} {form : γ → Form} {names : String → Key} (injective : Function.Injective names)
    {xs : List γ} : (xs.map fun x => (form x).keyBy names).Nodup ↔ (xs.map fun x => (form x).key).Nodup := by
  simp only [List.Nodup, List.pairwise_map, ne_eq, keyBy_eq_iff injective]

theorem ShownBy.hasKey (hv : f.ShownBy h σ v) : h.HasKey v (f.keyBy σ.numbering) := ⟨_, hv.key_eq⟩

theorem ShownBy.holds (hv : f.ShownBy h σ v) : h.Holds v := by
  cases f with
  | leaf d l =>
    rw [ShownBy] at hv
    obtain ⟨-, hd⟩ := hv
    cases d with
    | str s =>
      obtain ⟨a, rfl, ha⟩ := hd
      exact ⟨_, ha, rfl⟩
    | symbol name =>
      obtain ⟨x, rfl, -⟩ := hd
      trivial
    | keyword name =>
      obtain ⟨x, rfl, -⟩ := hd
      trivial
    | object handle => cases hd
    | _ =>
      cases hd
      trivial
  | group b items l =>
    obtain ⟨a, o, rfl, ho, -, -⟩ := hv.of_group
    exact ⟨o, ho, rfl⟩

/-- What is stored under different keys shows forms with different keys. -/
theorem nodup_key_of_shownBy {α β : Type} (form : α → Form) (value : β → Value) {as : List α} {es : Listing β}
    (shown : List.Forall₂ (fun a e => (form a).ShownBy h σ (value e.2)) as es)
    (keyed : ∀ e ∈ es, h.HasKey (value e.2) e.1) (nodup : (es.map (·.1)).Nodup) :
    (as.map fun a => (form a).key).Nodup := by
  have same : as.map (fun a => (form a).keyBy σ.numbering) = es.map (·.1) := by
    rw [← List.forall₂_eq_eq_eq, List.forall₂_map_left_iff, List.forall₂_map_right_iff]
    exact forall₂_imp_of_mem shown fun a _ e he hv => hv.hasKey.unique (keyed e he)
  rw [← nodup_keyBy_iff σ.numbering_injective, same]
  exact nodup

theorem heights_le_iff {fs : List Form} : heights fs ≤ n ↔ ∀ f ∈ fs, f.height ≤ n := by
  induction fs with
  | nil => simp [heights]
  | cons f fs ih => rw [heights, Nat.max_le, ih, List.forall_mem_cons]

/-- What lies in a value that shows a literal form shows one, too. -/
theorem ShownBy.part (hv : f.ShownBy h σ v) (literal : f.IsLiteral) (hw : h.Part v w) :
    ∃ g : Form, g.IsLiteral ∧ g.ShownBy h σ w := by
  induction hw with
  | self => exact ⟨f, literal, hv⟩
  | inside _ ho hc ih =>
    obtain ⟨g, literal, shown⟩ := ih
    cases literal with
    | @leaf d l known =>
      rw [ShownBy] at shown
      cases d with
      | str s =>
        obtain ⟨-, b, e, hb⟩ := shown
        cases e
        rw [ho] at hb
        cases hb
        cases hc
      | nil | bool | int | char => cases shown.2
      | _ => cases known
    | group hs _ =>
      obtain ⟨a, o, e, ho', -, parts⟩ := shown.of_group
      cases e
      rw [ho] at ho'
      cases ho'
      obtain ⟨g, hg, shown⟩ := exists_of_forall₂_right parts hc
      exact ⟨g, hs g hg, shown⟩

/-- A value that shows a literal form can be compared. -/
theorem ShownBy.comparable (hv : f.ShownBy h σ v) (literal : f.IsLiteral) : h.Comparable v where
  holds := hv.holds
  numeric x hx := by
    obtain ⟨g, literal, shown⟩ := hv.part literal hx
    cases literal with
    | @leaf d l known =>
      rw [ShownBy] at shown
      cases d with
      | str s =>
        obtain ⟨-, b, e, -⟩ := shown
        cases e
      | nil | bool | int | char => cases shown.2
      | _ => cases known
    | group =>
      obtain ⟨a, o, e, -⟩ := shown.of_group
      cases e

end Form

namespace Heap

variable {h : Heap} {v : Value} {n : Nat}

/-- The items of what is on an orderly heap show forms without equal keys and members. -/
theorem Orderly.isDistinct {σ : SymbolTable} {a : Address} {o : Object} {b : Bracket} {l : Location} {fs : List Form}
    (hh : h.Orderly) (ho : h.get? a = some o) (hg : o.group? = some (b, l))
    (hs : List.Forall₂ (Form.ShownBy h σ) fs o.contents) (distinct : ∀ f ∈ fs, f.IsDistinct)
    (l' : Location) : (Form.group b fs l').IsDistinct ∧ (b = .map → fs.length % 2 = 0) := by
  have accepted := hh.accepts ho
  cases o with
  | list | vector =>
    cases hg
    exact ⟨.group distinct nofun nofun, nofun⟩
  | set c =>
    cases hg
    obtain ⟨es, listed⟩ := c.exists_lists
    refine ⟨.group distinct nofun fun _ => ?_, nofun⟩
    have shown : List.Forall₂ (fun f e => Form.ShownBy h σ f e.2) fs es := by
      rw [← List.forall₂_map_right_iff, ← listed.toList_eq]
      exact hs
    exact Form.nodup_key_of_shownBy id id shown
      (fun e he => ((accepts_set_iff listed).1 accepted e he).2) listed.nodup_keys
  | map m =>
    cases hg
    obtain ⟨es, listed⟩ := m.exists_lists
    obtain ⟨paired, even⟩ := forall₂_pairsOr_of_flatMap (.leaf .nil .unknown) hs
    refine ⟨.group distinct (fun _ => ?_) nofun, fun _ => even⟩
    have shown : List.Forall₂ (fun p e => Form.ShownBy h σ p.1 e.2.1) (Form.entries fs) es := by
      rw [listed.toList_eq, List.forall₂_map_right_iff] at paired
      exact paired.imp fun _ _ both => both.1
    exact Form.nodup_key_of_shownBy Prod.fst Prod.fst shown
      (fun e he => ((accepts_map_iff listed).1 accepted e he).2.2) listed.nodup_keys
  | _ => cases hg

/-- **A value that is made of literals shows a form** that is made of literals, without equal keys and members. -/
theorem IsLiteral.exists_form (hv : h.IsLiteral n v) (hh : h.Orderly) (σ : SymbolTable) :
    ∃ f : Form, f.ShownBy h σ v ∧ f.IsLiteral ∧ f.IsDistinct ∧ f.height ≤ n := by
  have leaf {d : Leaf} {v : Value} {n : Nat} (known : d.IsLiteral) (shown : d.ShownBy h σ v) :
      ∃ f : Form, f.ShownBy h σ v ∧ f.IsLiteral ∧ f.IsDistinct ∧ f.height ≤ n + 1 :=
    ⟨.leaf d .unknown, .leaf shown, .leaf known, .leaf, Nat.le_add_left 1 n⟩
  induction hv with
  | nil => exact leaf (d := .nil) trivial rfl
  | bool b => exact leaf (d := .bool b) trivial rfl
  | int i => exact leaf (d := .int i) trivial rfl
  | char c => exact leaf (d := .char c) trivial rfl
  | @str _ a s ho => exact leaf (d := .str s) trivial ⟨a, rfl, ho⟩
  | @group n a o ho data parts ih =>
    obtain ⟨⟨b, l⟩, hg⟩ := Option.isSome_iff_exists.1 data
    obtain ⟨fs, hs⟩ := exists_forall₂ ih
    have facts {f : Form} (hf : f ∈ fs) : f.IsLiteral ∧ f.IsDistinct ∧ f.height ≤ n := by
      obtain ⟨c, -, -, facts⟩ := exists_of_forall₂_right hs hf
      exact facts
    have shown : List.Forall₂ (Form.ShownBy h σ) fs o.contents := hs.flip.imp fun _ _ both => both.1
    obtain ⟨distinct, even⟩ := hh.isDistinct ho hg shown (fun f hf => (facts hf).2.1) l
    refine ⟨.group b fs l, .group ho hg shown, .group (fun f hf => (facts hf).1) even, distinct, ?_⟩
    exact Nat.succ_le_succ (Form.heights_le_iff.2 fun f hf => (facts hf).2.2)

end Heap

/-- What shows a form that is made of literals is made of literals. -/
theorem Form.ShownBy.isLiteral {h : Heap} {σ : SymbolTable} {f : Form} {v : Value} {n : Nat}
    (hv : f.ShownBy h σ v) (literal : f.IsLiteral) (fits : f.height ≤ n) : h.IsLiteral n v := by
  induction literal generalizing v n with
  | @leaf d l known =>
    obtain ⟨n, rfl⟩ := Nat.exists_eq_succ_of_ne_zero (Nat.pos_iff_ne_zero.1 fits)
    rw [ShownBy] at hv
    obtain ⟨-, hd⟩ := hv
    cases d with
    | nil => exact hd ▸ .nil
    | bool b => exact hd ▸ .bool b
    | int i => exact hd ▸ .int i
    | char c => exact hd ▸ .char c
    | str s =>
      obtain ⟨a, rfl, ha⟩ := hd
      exact .str ha
    | _ => cases known
  | @group b fs l _ _ ih =>
    obtain ⟨n, rfl⟩ := Nat.exists_eq_succ_of_ne_zero (Nat.pos_iff_ne_zero.1 ((height_pos _).trans_le fits))
    obtain ⟨a, o, rfl, ho, hg, hs⟩ := hv.of_group
    refine .group ho (Option.isSome_of_eq_some hg) fun c hc => ?_
    obtain ⟨f, hf, shown⟩ := exists_of_forall₂_right hs hc
    exact ih f hf shown (heights_le_iff.1 (Nat.le_of_succ_le_succ fits) f hf)

/-! ### Reading back -/

namespace Eval

variable {α β : Type} {s t : Session}

theorem KeepsOrder.bind {x : Eval α} {f : α → Eval β} (hx : x.KeepsOrder s)
    (hf : ∀ a t, x s = .ok a t → t.heap.Orderly → (f a).KeepsOrder t) : (x >>= f).KeepsOrder s := by
  unfold KeepsOrder at hx
  cases h : x s with
  | ok a t =>
    rw [h] at hx
    have next := hf a t h hx
    unfold KeepsOrder at next ⊢
    rwa [bind_eq_of_ok h]
  | error e t =>
    rw [h] at hx
    unfold KeepsOrder
    rw [bind_eq_of_error h]
    exact hx

theorem valueOfLeaf_keepsOrder (hs : s.heap.Orderly) {d : Leaf} (hd : ∀ n, d ≠ .object n) :
    (valueOfLeaf d).KeepsOrder s := by
  cases d with
  | str text => exact (KeepsOrder.alloc hs (Heap.accepts_of_contents rfl fun _ => rfl)).bind fun _ _ _ ht => ht
  | object n => exact absurd rfl (hd n)
  | _ => exact hs

/-- The values of some forms are there, and the heap is orderly. -/
theorem valuesOfForms_keepsOrder (hs : s.heap.Orderly) {fs : List Form}
    (h : ∀ f ∈ fs, ∀ s, s.heap.Orderly → (valueOfForm f).KeepsOrder s) : (valuesOfForms fs).KeepsOrder s := by
  induction fs generalizing s with
  | nil => exact hs
  | cons f fs ih =>
    obtain ⟨first, others⟩ := List.forall_mem_cons.1 h
    exact (first s hs).bind fun v t _ ht => (ih ht others).bind fun vs u _ hu => hu

/-- **The value of a form is put on an orderly heap in order.** -/
theorem valueOfForm_keepsOrder {f : Form} (hf : f.IsWritten) (s : Session) (hs : s.heap.Orderly) :
    (valueOfForm f).KeepsOrder s := by
  induction hf generalizing s with
  | leaf hd => exact valueOfLeaf_keepsOrder hs hd
  | @group b fs l written _ ih =>
    refine (valuesOfForms_keepsOrder hs ih).bind fun vs t run ht => ?_
    have places := valuesOfForms_places hs.toSound fun f hf s hs => valueOfForm_places (written f hf) s hs
    rw [run] at places
    have holds : ∀ v ∈ vs, t.heap.Holds v := fun v hv => by
      obtain ⟨f, -, shown⟩ := exists_of_forall₂_right places.2 hv
      exact shown.holds
    cases b with
    | list => exact .new ht (Heap.accepts_list holds l)
    | vector => exact .new ht (Heap.accepts_vector holds l)
    | map => exact (Reads.insertEntries Heap.accepts_map_empty (Session.holds_pairUp holds)).thenNew ht
    | set => exact (Reads.insertMembers Heap.accepts_set_empty holds).thenNew ht

end Eval

namespace Session

/-- The values are made of the same literals by groups of the same kinds, in the same order. -/
def SameShape (s : Session) (v w : Value) : Prop :=
  ∃ f g : Form, f.ShownBy s.heap s.symbols v ∧ g.ShownBy s.heap s.symbols w ∧ f.unlocated = g.unlocated

variable {s : Session} {v w : Value} {n : Nat}

/-- Values of the same shape that are made of literals are equal. -/
theorem equal_of_shownBy (hs : s.heap.Orderly) {f g : Form} (hf : f.IsLiteral) (hv : f.ShownBy s.heap s.symbols v)
    (hw : g.ShownBy s.heap s.symbols w) (same : f.unlocated = g.unlocated) : s.heap.equal v w = .ok true := by
  have hg : g.IsLiteral := Form.isLiteral_unlocated.1 (same ▸ Form.isLiteral_unlocated.2 hf)
  rw [hs.equal_iff_key_eq (hv.comparable hf) (hw.comparable hg), hv.key_eq, hw.key_eq, ← Form.keyBy_unlocated _ f, same,
    Form.keyBy_unlocated]

/-- On an orderly heap, a value that is made of literals can be read back. -/
theorem readAll_textWithin (hs : s.heap.Orderly) (hv : s.heap.IsLiteral n v) (fits : n ≤ maxNesting) :
    ∃ g, readAll (s.textWithin n true v) = .ok [g] ∧
      ((∃ w t, Eval.valueOfForm g s = .ok w t ∧ t.heap.equal w v = .ok true ∧ t.SameShape w v) ∨
        ∃ e t, Eval.valueOfForm g s = .error (.fault e) t ∧ e.cause.kind = .heapExhausted ∧ s.Exhausts t) := by
  obtain ⟨f, shown, literal, distinct, height⟩ := hv.exists_form hs s.symbols
  obtain ⟨g, read, same⟩ := literal.readAll_text (height.trans fits)
  have literal' : g.IsLiteral := Form.isLiteral_unlocated.1 (same ▸ Form.isLiteral_unlocated.2 literal)
  have distinct' : g.IsDistinct := Form.isDistinct_unlocated.1 (same ▸ Form.isDistinct_unlocated.2 distinct)
  refine ⟨g, by rw [shown.textWithin_eq height, read], ?_⟩
  have places := Eval.valueOfForm_places literal'.isWritten s hs.toSound
  have keeps := Eval.valueOfForm_keepsOrder literal'.isWritten s hs
  unfold Eval.KeepsOrder at keeps
  cases run : Eval.valueOfForm g s with
  | ok w t =>
    rw [run] at places keeps
    obtain ⟨extends', made⟩ := places
    have kept : f.ShownBy t.heap t.symbols v := extends'.shownBy shown
    have data : f.unlocated = g.asData.unlocated := by
      rw [Form.unlocated_asData literal'.isWritten distinct', same]
    have literalData : g.asData.IsLiteral := Form.isLiteral_unlocated.1 (data ▸ Form.isLiteral_unlocated.2 literal)
    exact .inl ⟨w, t, rfl, equal_of_shownBy keeps literalData made kept data.symm, _, _, made, kept, data.symm⟩
  | error e t =>
    rw [run] at places
    obtain ⟨⟨fault, rfl, kind⟩, ended⟩ := places
    exact .inr ⟨fault, t, rfl, kind, ended⟩

/-- **Written values can be read back.** In any session, a value that is made of nil, booleans, integers, characters and
strings by lists, vectors, maps and sets, and within the levels that are written, is written as one form, which is code
for an equal value of the same shape, unless the heap is exhausted. -/
theorem Operated.text_reads_back (hs : s.Operated) (hv : s.heap.IsLiteral (printDepth + 1) v) :
    ∃ g, readAll (s.text true v) = .ok [g] ∧
      ((∃ w t, Eval.valueOfForm g s = .ok w t ∧ t.heap.equal w v = .ok true ∧ t.SameShape w v) ∨
        ∃ e t, Eval.valueOfForm g s = .error (.fault e) t ∧ e.cause.kind = .heapExhausted ∧ s.Exhausts t) :=
  readAll_textWithin hs.orderly hv (by decide)

/-- The session with one object more on its heap. -/
def grown (s : Session) (o : Object) : Session := { s with heap := (s.heap.place o).1 }

theorem Operated.grown {o : Object} (hs : s.Operated) (ho : s.heap.Assembles o) (alive : s.terminated = false)
    (room : s.heap.isFull = false) : (s.grown o).Operated := by
  obtain ⟨limits, steps⟩ := hs
  refine ⟨limits, steps.tail (.ran (.new ho) (.inl ⟨.ref o.kind (s.heap.place o).2, ?_⟩))⟩
  have live : Eval.checkAlive s = .ok ⟨⟩ s := by
    change (if s.terminated = true then Eval.failWith .terminated else pure PUnit.unit : Eval PUnit) s = _
    rw [alive]
    rfl
  have placed : Eval.alloc o s = .ok (s.heap.place o).2 (s.grown o) := by
    refine (Eval.bind_eq_of_ok live).trans ?_
    dsimp only
    rw [room]
    rfl
  exact (Eval.bind_eq_of_ok placed).trans rfl

/-- The map `{"k" (1)}` of a string and a list that have the addresses 0 and 1. -/
def nestedMap : Object :=
  .map ((Ordered.empty : OrderedMap).insert (.ofString "k") (.ref .str ⟨0, 0⟩, .ref .list ⟨1, 0⟩))

/-- The set `#{nil \a}`. -/
def nestedSet : Object :=
  .set (((Ordered.empty : OrderedSet).insertIfNew .ofNil .nil).insertIfNew (.ofChar 'a') (.char 'a'))

/-- A session that made the vector `[#{nil \a} {"k" (1)}]` from its parts. -/
def nestedSession : Session :=
  (((((fresh {}).grown (.str "k")).grown (.list [.int 1] .unknown)).grown nestedMap).grown nestedSet).grown
    (.vector [.ref .set ⟨3, 0⟩, .ref .map ⟨2, 0⟩] .unknown)

theorem operated_nestedSession : nestedSession.Operated := by
  have start : (fresh {}).Operated := ⟨{}, .refl⟩
  have first := start.grown (.str "k") rfl rfl
  have one : ∀ v ∈ [Value.int 1], ((fresh {}).grown (.str "k")).heap.Holds v := List.forall_mem_singleton.2 trivial
  have second := first.grown (.list one .unknown) rfl rfl
  have third := second.grown (o := nestedMap)
    (.assoc .emptyMap (v := .ref .str ⟨0, 0⟩) (w := .ref .list ⟨1, 0⟩) ⟨.str "k", rfl, rfl⟩
      ⟨.list [.int 1] .unknown, rfl, rfl⟩ rfl) rfl rfl
  have fourth := third.grown (o := nestedSet)
    (.conj (v := .char 'a') (.conj (v := .nil) .emptySet trivial rfl) trivial rfl) rfl rfl
  have holds : ∀ v ∈ [Value.ref .set ⟨3, 0⟩, .ref .map ⟨2, 0⟩],
      (((((fresh {}).grown (.str "k")).grown (.list [.int 1] .unknown)).grown nestedMap).grown nestedSet).heap.Holds v :=
    List.forall_mem_cons.2 ⟨⟨nestedSet, rfl, rfl⟩, List.forall_mem_singleton.2 ⟨nestedMap, rfl, rfl⟩⟩
  exact fourth.grown (.vector holds .unknown) rfl rfl

theorem isLiteral_nestedSession (n : Nat) : nestedSession.heap.IsLiteral (n + 4) (.ref .vector ⟨4, 0⟩) := by
  have list : nestedSession.heap.IsLiteral (n + 2) (.ref .list ⟨1, 0⟩) :=
    .group (o := .list [.int 1] .unknown) rfl rfl (List.forall_mem_singleton.2 (.int 1))
  have map : nestedSession.heap.IsLiteral (n + 3) (.ref .map ⟨2, 0⟩) :=
    .group (o := nestedMap) rfl rfl (List.forall_mem_cons.2 ⟨.str (s := "k") rfl, List.forall_mem_singleton.2 list⟩)
  have set : nestedSession.heap.IsLiteral (n + 3) (.ref .set ⟨3, 0⟩) :=
    .group (o := nestedSet) rfl rfl (List.forall_mem_cons.2 ⟨.nil, List.forall_mem_singleton.2 (.char 'a')⟩)
  exact .group (o := .vector [.ref .set ⟨3, 0⟩, .ref .map ⟨2, 0⟩] .unknown) rfl rfl
    (List.forall_mem_cons.2 ⟨set, List.forall_mem_singleton.2 map⟩)

/-- The vector `[#{nil \a} {"k" (1)}]` can be read back. -/
theorem text_reads_back_nested :
    nestedSession.Operated ∧ nestedSession.heap.IsLiteral (printDepth + 1) (.ref .vector ⟨4, 0⟩) ∧
      nestedSession.text true (.ref .vector ⟨4, 0⟩) = "[#\x7bnil \\a\x7d \x7b\"k\" (1)\x7d]" ∧
      ∃ g, readAll (nestedSession.text true (.ref .vector ⟨4, 0⟩)) = .ok [g] ∧
        ((∃ w t, Eval.valueOfForm g nestedSession = .ok w t ∧ t.heap.equal w (.ref .vector ⟨4, 0⟩) = .ok true ∧
            t.SameShape w (.ref .vector ⟨4, 0⟩)) ∨
          ∃ e t, Eval.valueOfForm g nestedSession = .error (.fault e) t ∧ e.cause.kind = .heapExhausted ∧
            nestedSession.Exhausts t) := by
  have literal : nestedSession.heap.IsLiteral (printDepth + 1) (.ref .vector ⟨4, 0⟩) := isLiteral_nestedSession 61
  exact ⟨operated_nestedSession, literal, by decide +kernel, operated_nestedSession.text_reads_back literal⟩

/-! ### What is not written -/

/-- So many vectors around an empty one. -/
def tower : Nat → Form
  | 0 => .vector [] .unknown
  | n + 1 => .vector [tower n] .unknown

theorem isLiteral_tower (n : Nat) : (tower n).IsLiteral := by
  induction n with
  | zero => exact .group (List.forall_mem_nil _) fun e => by cases e
  | succ n ih => exact .group (List.forall_mem_singleton.2 ih) fun e => by cases e

theorem height_tower (n : Nat) : (tower n).height = n + 1 := by
  induction n with
  | zero => rfl
  | succ n ih => rw [tower, Form.height, Form.heights, Form.heights, ih, Nat.max_zero]

theorem asData_tower (n : Nat) : (tower n).asData = tower n := by
  induction n with
  | zero => rfl
  | succ n ih =>
    rw [tower, Form.asData, Form.allAsData, Form.allAsData, ih]
    rfl

theorem isLiteral_of_tower {n : Nat} (run : Eval.valueOfForm (tower n) (fresh {}) = .ok v s) :
    s.heap.IsLiteral (n + 1) v := by
  have places := Eval.valueOfForm_places (isLiteral_tower n).isWritten (fresh {}) (Heap.sound_empty _)
  rw [run] at places
  have shown : (tower n).ShownBy s.heap s.symbols v := asData_tower n ▸ places.2
  exact shown.isLiteral (isLiteral_tower n) (height_tower n).le

/-- Whether what is read back of the written value of a form is another value. -/
def differsReadBack (f : Form) : Bool :=
  match Eval.valueOfForm f (fresh {}) with
  | .ok v s =>
    match readAll (s.text true v) with
    | .ok [g] =>
      match Eval.valueOfForm g s with
      | .ok w t => (t.heap.equal w v).toOption == some false
      | .error _ _ => false
    | _ => false
  | .error _ _ => false

/-- A vector that is nested too deeply to be written as a whole is not read back. -/
theorem text_of_tower_reads_otherwise :
    ∃ v s g w t, Eval.valueOfForm (tower 65) (fresh {}) = .ok v s ∧ s.heap.IsLiteral 66 v ∧
      readAll (s.text true v) = .ok [g] ∧ Eval.valueOfForm g s = .ok w t ∧ t.heap.equal w v = .ok false := by
  have differs : differsReadBack (tower 65) = true := by decide +kernel
  unfold differsReadBack at differs
  split at differs
  · next v s made =>
    split at differs
    · next g read =>
      split at differs
      · next w t again =>
        refine ⟨v, s, g, w, t, made, isLiteral_of_tower made, read, again, ?_⟩
        cases answer : t.heap.equal w v with
        | error a =>
          rw [answer] at differs
          cases differs
        | ok e =>
          rw [answer] at differs
          rw [Option.some.inj (beq_iff_eq.1 differs)]
      · cases differs
    · cases differs
  · cases differs

end Session

end TwinLisp
