import TwinLisp.Proofs.Syntax.Phrases

/-!
# Reading what is made of phrases

The reader finishes a phrase wherever it stands, and hands its form to what is pending there, unless brackets are
nested too deeply or the last key of a map has no value. Nothing else can go wrong, so that a text made of phrases
can be read, and its forms are theirs.

## Main definitions

* `Phrase.nesting`: how deeply the brackets of a phrase are nested.
* `Phrase.Paired`: every key of a map has a value.

## Main statements

* `readTokens_phrase`: the reader finishes a phrase and goes on behind it.
* `readAll_of_makeUp`: a text that is made of phrases can be read.
-/

namespace TwinLisp

namespace Phrase

mutual

/-- How deeply the brackets of a phrase are nested. -/
def nesting : Phrase → Nat
  | leaf _ _ _ _ => 0
  | group _ items _ _ => nestings items + 1
  | function body _ _ => nestings body + 1
  | marked _ p _ => nesting p
  | dropping _ dropped kept => max (nesting dropped) (nesting kept)

/-- How deeply the brackets of some phrases are nested. -/
def nestings : List Phrase → Nat
  | [] => 0
  | p :: ps => max (nesting p) (nestings ps)

end

mutual

/-- Every key of a map in the phrase has a value. -/
def Paired : Phrase → Prop
  | leaf _ _ _ _ => True
  | group b items _ _ => (b = .map → items.length % 2 = 0) ∧ AllPaired items
  | function body _ _ => AllPaired body
  | marked _ p _ => Paired p
  | dropping _ dropped kept => Paired dropped ∧ Paired kept

/-- Every key of a map in some phrases has a value. -/
def AllPaired : List Phrase → Prop
  | [] => True
  | p :: ps => Paired p ∧ AllPaired ps

end

end Phrase

open Phrase (tokens tokensOf forms)

/-- What the reader comes to in front of `ts` when a form has been handed to what is pending. -/
def resume (stop : Option ReadError) (ts : List Located) : Form ⊕ List Pending → ReadResult
  | .inr stack => readTokens stop stack ts
  | .inl f => { readTokens stop [] ts with forms := f :: (readTokens stop [] ts).forms }

variable {stop : Option ReadError} {stack next : List Pending} {t : Located} {ts : List Located} {f : Form}

theorem readTokens_opened (h : readStep stack t = .ok (.opened next)) :
    readTokens stop stack (t :: ts) = readTokens stop next ts := by
  rw [readTokens, h]

theorem readTokens_finished (h : readStep stack t = .ok (.finished (.ok f) next)) (more : ts ≠ []) :
    readTokens stop stack (t :: ts) = resume stop ts (deliver f next) := by
  rw [readTokens, h]
  dsimp only
  rw [if_neg (by simpa using more)]
  cases deliver f next <;> rfl

/-- A bracket may be opened as long as there are not too many around it. -/
theorem openBracket_eq {p : Pending} {l : Location} (room : stack.countP Pending.isBracket < maxNesting) :
    openBracket p l stack = .ok (.opened (p :: stack)) := if_neg (Nat.not_le.2 room)

theorem closeGroup_eq {b : Bracket} {l : Location} {items : List Form} (even : b = .map → items.length % 2 = 0) :
    closeGroup b l items = .ok (.group b items l) := by
  unfold closeGroup
  rw [if_neg]
  simpa using even

theorem closeBracket_group {b : Bracket} {l close : Location} {items : List Form}
    (even : b = .map → items.length % 2 = 0) :
    closeBracket b.closer close (.group b l items :: stack) = .ok (.finished (.ok (.group b items.reverse l)) stack) := by
  rw [closeBracket, if_pos (beq_self_eq_true _), closeGroup_eq (by simpa using even)]

/-- An entry of the stack that collects forms, of which it has so many. -/
structure Collects (entry : List Form → Pending) : Prop where
  isBracket (items : List Form) : (entry items).isBracket = true
  deliver (f : Form) (items : List Form) (stack : List Pending) :
    deliver f (entry items :: stack) = .inr (entry (f :: items) :: stack)

theorem collects_group (b : Bracket) (l : Location) : Collects (.group b l) := ⟨fun _ => rfl, fun _ _ _ => rfl⟩

theorem collects_function (l : Location) : Collects (.function l) := ⟨fun _ => rfl, fun _ _ _ => rfl⟩

mutual

/-- **The reader finishes a phrase** and hands its form to what is pending. -/
theorem readTokens_phrase (stack : List Pending) {ts : List Located} (p : Phrase) (paired : p.Paired)
    (fits : stack.countP Pending.isBracket + p.nesting ≤ maxNesting) (more : ts ≠ []) :
    readTokens stop stack (p.tokens ++ ts) = resume stop ts (deliver p.form stack) := by
  cases p with
  | leaf t d h l =>
    refine readTokens_finished ?_ more
    cases t <;> cases h <;> rfl
  | group b items l close =>
    rw [Phrase.nesting] at fits
    have opens : readStep stack ⟨.opening b, l⟩ = .ok (.opened (.group b l [] :: stack)) := openBracket_eq (by omega)
    rw [tokens, List.cons_append, List.cons_append, List.append_assoc, readTokens_opened opens,
      readTokens_phrases_within (collects_group b l) items paired.2 (by omega) (by simp), List.append_nil]
    have closes : readStep (.group b l (forms items).reverse :: stack) ⟨.closing b.closer, close⟩ =
        .ok (.finished (.ok (.group b (forms items) l)) stack) := by
      refine (closeBracket_group ?_).trans (by rw [List.reverse_reverse])
      simpa [Phrase.forms_eq_map] using paired.1
    exact (readTokens_finished closes more).trans rfl
  | function body l close =>
    rw [Phrase.nesting] at fits
    have opens : readStep stack ⟨.openFunction, l⟩ = .ok (.opened (.function l [] :: stack)) :=
      openBracket_eq (by omega)
    rw [tokens, List.cons_append, List.cons_append, List.append_assoc, readTokens_opened opens,
      readTokens_phrases_within (collects_function l) body paired (by omega) (by simp), List.append_nil]
    have closes : readStep (.function l (forms body).reverse :: stack) ⟨.closing .paren, close⟩ =
        .ok (.finished (.ok (anonymousFunction (forms body) l)) stack) := by
      change closeBracket .paren close (.function l (forms body).reverse :: stack) = _
      rw [closeBracket, if_pos (beq_self_eq_true _), List.reverse_reverse]
    exact (readTokens_finished closes more).trans rfl
  | marked m p l =>
    rw [tokens, List.cons_append, readTokens_opened rfl]
    exact (readTokens_phrase (.marked m l :: stack) p paired fits more).trans rfl
  | dropping l dropped kept =>
    rw [Phrase.nesting] at fits
    have first : stack.countP Pending.isBracket + dropped.nesting ≤ maxNesting := by omega
    have second : stack.countP Pending.isBracket + kept.nesting ≤ maxNesting := by omega
    rw [tokens, List.cons_append, List.cons_append, List.append_assoc, readTokens_opened rfl]
    refine (readTokens_phrase (.discarding :: stack) dropped paired.1 first (by simp [more])).trans ?_
    exact (readTokens_phrase (.required :: stack) kept paired.2 second more).trans rfl

/-- Inside brackets the reader collects the forms of phrases, in reverse. -/
theorem readTokens_phrases_within {entry : List Form → Pending} {stack : List Pending} {ts : List Located}
    {items : List Form} (collects : Collects entry) (ps : List Phrase) (paired : Phrase.AllPaired ps)
    (fits : stack.countP Pending.isBracket + 1 + Phrase.nestings ps ≤ maxNesting) (more : ts ≠ []) :
    readTokens stop (entry items :: stack) (tokensOf ps ++ ts) =
      readTokens stop (entry ((forms ps).reverse ++ items) :: stack) ts := by
  cases ps with
  | nil => rfl
  | cons p ps =>
    rw [Phrase.nestings] at fits
    have inside : (entry items :: stack).countP Pending.isBracket = stack.countP Pending.isBracket + 1 :=
      List.countP_cons_of_pos (collects.isBracket items)
    rw [tokensOf, List.append_assoc, readTokens_phrase _ p paired.1 (by omega) (by simp [more]), collects.deliver, resume,
      readTokens_phrases_within collects ps paired.2 (by omega) more, forms, List.reverse_cons, List.append_assoc,
      List.singleton_append]

end

/-- **A text that is made of phrases can be read**, if brackets are not nested too deeply. -/
theorem readAll_of_makeUp {ps : List Phrase} {source : String} (h : Phrase.MakeUp ps source)
    (paired : Phrase.AllPaired ps) (fits : Phrase.nestings ps ≤ maxNesting) : readAll source = .ok (forms ps) := by
  obtain ⟨l, scanned⟩ := h
  have read : readTokens none [] (tokensOf ps ++ [⟨.endOfInput, l⟩]) = ⟨forms ps, none⟩ := by
    clear scanned
    induction ps with
    | nil => rfl
    | cons p ps ih =>
      rw [Phrase.nestings] at fits
      rw [tokensOf, List.append_assoc, readTokens_phrase _ p paired.1 (by simp; omega) (by simp), deliver, resume,
        ih paired.2 (by omega)]
      rfl
  have result : readForms source = ⟨forms ps, none⟩ := by
    unfold readForms readChars
    dsimp only
    rw [show Scanned.ofChars source.toList = _ from scanned]
    exact read
  rw [readAll, result]

end TwinLisp
