import TwinLisp.Proofs.Syntax.Scanning
import TwinLisp.Syntax.Reader

/-!
# Phrases

What is written in a text before marks and literals are read as the forms that they stand for. A phrase knows its
tokens and its form; a form has more than one way to be written, but a phrase has only one.

The reader reads phrases: a text that can be read is made of phrases, and its forms are theirs. What it keeps on its
stack while it reads are phrases that have been begun.

## Main definitions

* `Phrase`, with `Phrase.tokens` and `Phrase.form`.
* `Phrase.parts`: the phrases that are written in a phrase.
* `Phrase.MakeUp`: some phrases make up a text.
* `Pending.Begun`: what an entry on the stack of the reader has been made of.

## Main statements

* `Phrase.MakeUp.eq`: a text is made of phrases in one way only.
* `readAll_phrases`: a text that can be read is made of phrases.
-/

namespace TwinLisp

/-- A part of a text that is read as one form. -/
inductive Phrase where
  /-- A token that is a leaf. -/
  | leaf (t : Token) (d : Leaf) (h : t.leaf? = some d) (l : Location)
  /-- A bracketed phrase, which is closed at `close`. -/
  | group (b : Bracket) (items : List Phrase) (l close : Location)
  /-- An anonymous function. -/
  | function (body : List Phrase) (l close : Location)
  /-- A mark and what it applies to. -/
  | marked (m : Mark) (p : Phrase) (l : Location)
  /-- A discard mark, what it drops, and what is read in its place. -/
  | dropping (l : Location) (dropped kept : Phrase)

namespace Phrase

mutual

/-- The tokens of a phrase. -/
def tokens : Phrase → List Located
  | leaf t _ _ l => [⟨t, l⟩]
  | group b items l close => ⟨.opening b, l⟩ :: tokensOf items ++ [⟨.closing b.closer, close⟩]
  | function body l close => ⟨.openFunction, l⟩ :: tokensOf body ++ [⟨.closing .paren, close⟩]
  | marked m p l => ⟨.mark m, l⟩ :: tokens p
  | dropping l dropped kept => ⟨.discard, l⟩ :: tokens dropped ++ tokens kept

/-- The tokens of some phrases. -/
def tokensOf : List Phrase → List Located
  | [] => []
  | p :: ps => tokens p ++ tokensOf ps

end

mutual

/-- The form that a phrase is read as. -/
def form : Phrase → Form
  | leaf _ d _ l => .leaf d l
  | group b items l _ => .group b (forms items) l
  | function body l _ => anonymousFunction (forms body) l
  | marked m p l => .call m.name [form p] l
  | dropping _ _ kept => form kept

/-- The forms that some phrases are read as. -/
def forms : List Phrase → List Form
  | [] => []
  | p :: ps => form p :: forms ps

end

mutual

/-- The phrases that are written in a phrase, itself and what is dropped included. -/
def parts : Phrase → List Phrase
  | leaf t d h l => [leaf t d h l]
  | group b items l close => group b items l close :: partsOf items
  | function body l close => function body l close :: partsOf body
  | marked m p l => marked m p l :: parts p
  | dropping l dropped kept => dropping l dropped kept :: (parts dropped ++ parts kept)

/-- The phrases that are written in some phrases. -/
def partsOf : List Phrase → List Phrase
  | [] => []
  | p :: ps => parts p ++ partsOf ps

end

theorem tokensOf_cons (p : Phrase) (ps : List Phrase) : tokensOf (p :: ps) = p.tokens ++ tokensOf ps := rfl

theorem tokensOf_append (ps qs : List Phrase) : tokensOf (ps ++ qs) = tokensOf ps ++ tokensOf qs := by
  induction ps with
  | nil => rfl
  | cons p ps ih => rw [List.cons_append, tokensOf_cons, tokensOf_cons, ih, List.append_assoc]

theorem tokensOf_reverse_cons (p : Phrase) (ps : List Phrase) :
    tokensOf (p :: ps).reverse = tokensOf ps.reverse ++ p.tokens := by
  rw [List.reverse_cons, tokensOf_append, tokensOf_cons, tokensOf, List.append_nil]

theorem forms_eq_map (ps : List Phrase) : forms ps = ps.map form := by
  induction ps with
  | nil => rfl
  | cons p ps ih => rw [forms, ih, List.map_cons]

end Phrase

/-! ### A phrase is told by its tokens -/

/-- Whether a token ends what stands before it. -/
def Token.isEnd : Token → Bool
  | .closing _ => true
  | .endOfInput => true
  | _ => false

namespace Phrase

/-- No phrase starts with the end of another one. -/
theorem exists_tokens_eq_cons (p : Phrase) : ∃ t ts, p.tokens = t :: ts ∧ t.token.isEnd = false := by
  cases p with
  | leaf t d h l =>
    refine ⟨⟨t, l⟩, [], rfl, ?_⟩
    cases t <;> first | rfl | cases h
  | group b items l close => exact ⟨_, _, rfl, rfl⟩
  | function body l close => exact ⟨_, _, rfl, rfl⟩
  | marked m p l => exact ⟨_, _, rfl, rfl⟩
  | dropping l dropped kept => exact ⟨_, _, rfl, rfl⟩

mutual

/-- A phrase at the beginning of some tokens is the only one there. -/
theorem eq_of_tokens_append {p q : Phrase} {r r' : List Located} (h : p.tokens ++ r = q.tokens ++ r') :
    p = q ∧ r = r' := by
  cases p with
  | leaf t d hd l =>
    cases q with
    | leaf t' d' hd' l' =>
      obtain ⟨first, rest⟩ := List.cons.inj h
      cases first
      cases hd.symm.trans hd'
      exact ⟨rfl, rest⟩
    | _ =>
      cases (List.cons.inj h).1
      cases hd
  | group b items l close =>
    cases q with
    | group b' items' l' close' =>
      simp only [tokens, List.cons_append, List.append_assoc, List.cons.injEq, Located.mk.injEq] at h
      obtain ⟨⟨opening, rfl⟩, h⟩ := h
      cases opening
      obtain ⟨rfl, closing, rfl⟩ := eq_of_tokensOf_append rfl rfl h
      cases closing
      exact ⟨rfl, rfl⟩
    | leaf t d hd l =>
      cases (List.cons.inj h).1
      cases hd
    | _ => cases (List.cons.inj h).1
  | function body l close =>
    cases q with
    | function body' l' close' =>
      simp only [tokens, List.cons_append, List.append_assoc, List.cons.injEq, Located.mk.injEq, true_and] at h
      obtain ⟨rfl, h⟩ := h
      obtain ⟨rfl, closing, rfl⟩ := eq_of_tokensOf_append rfl rfl h
      cases closing
      exact ⟨rfl, rfl⟩
    | leaf t d hd l =>
      cases (List.cons.inj h).1
      cases hd
    | _ => cases (List.cons.inj h).1
  | marked m p l =>
    cases q with
    | marked m' q l' =>
      obtain ⟨first, rest⟩ := List.cons.inj h
      cases first
      obtain ⟨rfl, rfl⟩ := eq_of_tokens_append rest
      exact ⟨rfl, rfl⟩
    | leaf t d hd l =>
      cases (List.cons.inj h).1
      cases hd
    | _ => cases (List.cons.inj h).1
  | dropping l dropped kept =>
    cases q with
    | dropping l' dropped' kept' =>
      simp only [tokens, List.cons_append, List.append_assoc, List.cons.injEq, Located.mk.injEq, true_and] at h
      obtain ⟨rfl, both⟩ := h
      obtain ⟨rfl, one⟩ := eq_of_tokens_append both
      obtain ⟨rfl, rfl⟩ := eq_of_tokens_append one
      exact ⟨rfl, rfl⟩
    | leaf t d hd l =>
      cases (List.cons.inj h).1
      cases hd
    | _ => cases (List.cons.inj h).1

/-- Phrases up to an end are the only ones there. -/
theorem eq_of_tokensOf_append {ps qs : List Phrase} {t t' : Located} {r r' : List Located}
    (ht : t.token.isEnd = true) (ht' : t'.token.isEnd = true)
    (h : tokensOf ps ++ t :: r = tokensOf qs ++ t' :: r') : ps = qs ∧ t = t' ∧ r = r' := by
  cases ps with
  | nil =>
    cases qs with
    | nil => exact ⟨rfl, List.cons.inj h⟩
    | cons q qs =>
      obtain ⟨first, ts, tokens, inside⟩ := exists_tokens_eq_cons q
      rw [tokensOf_cons, tokens] at h
      rw [(List.cons.inj h).1, inside] at ht
      cases ht
  | cons p ps =>
    cases qs with
    | nil =>
      obtain ⟨first, ts, tokens, inside⟩ := exists_tokens_eq_cons p
      rw [tokensOf_cons, tokens] at h
      rw [← (List.cons.inj h).1, inside] at ht'
      cases ht'
    | cons q qs =>
      rw [tokensOf_cons, tokensOf_cons, List.append_assoc, List.append_assoc] at h
      obtain ⟨rfl, others⟩ := eq_of_tokens_append h
      obtain ⟨rfl, rest⟩ := eq_of_tokensOf_append ht ht' others
      exact ⟨rfl, rest⟩

end

end Phrase

/-! ### Phrases that have been begun -/

namespace Pending

/-- A phrase that has been begun. -/
inductive Begun where
  /-- A bracketed phrase, with its items so far in reverse. -/
  | group (b : Bracket) (l : Location) (items : List Phrase)
  /-- An anonymous function, with its body so far in reverse. -/
  | function (l : Location) (items : List Phrase)
  /-- A mark. -/
  | marked (m : Mark) (l : Location)
  /-- A discard mark. -/
  | discarding (l : Location)
  /-- A discard mark and what it drops. -/
  | required (l : Location) (dropped : Phrase)

namespace Begun

/-- What the reader keeps of a phrase that has been begun. -/
def entry : Begun → Pending
  | group b l items => .group b l (Phrase.forms items)
  | function l items => .function l (Phrase.forms items)
  | marked m l => .marked m l
  | discarding _ => .discarding
  | required _ _ => .required

/-- The tokens of a phrase that has been begun. -/
def tokens : Begun → List Located
  | group b l items => ⟨.opening b, l⟩ :: Phrase.tokensOf items.reverse
  | function l items => ⟨.openFunction, l⟩ :: Phrase.tokensOf items.reverse
  | marked m l => [⟨.mark m, l⟩]
  | discarding l => [⟨.discard, l⟩]
  | required l dropped => ⟨.discard, l⟩ :: dropped.tokens

/-- The tokens of phrases begun one inside another; the innermost comes first. -/
def tokensOf : List Begun → List Located
  | [] => []
  | o :: stack => tokensOf stack ++ o.tokens

end Begun

end Pending

open Pending (Begun)

theorem forms_reverse (ps : List Phrase) : (Phrase.forms ps).reverse = Phrase.forms ps.reverse := by
  rw [Phrase.forms_eq_map, Phrase.forms_eq_map, List.map_reverse]

/-- **A phrase that is finished finishes a phrase around it or is kept inside.** -/
theorem deliver_phrase (p : Phrase) (stack : List Begun) :
    (∃ q : Phrase, deliver p.form (stack.map Begun.entry) = .inl q.form ∧
      q.tokens = Begun.tokensOf stack ++ p.tokens) ∨
    ∃ later : List Begun, deliver p.form (stack.map Begun.entry) = .inr (later.map Begun.entry) ∧
      Begun.tokensOf later = Begun.tokensOf stack ++ p.tokens := by
  induction stack generalizing p with
  | nil => exact .inl ⟨p, rfl, rfl⟩
  | cons o stack ih =>
    rw [Begun.tokensOf, List.append_assoc]
    cases o with
    | group b l items =>
      exact .inr ⟨.group b l (p :: items) :: stack, rfl, by
        rw [Begun.tokensOf, Begun.tokens, Phrase.tokensOf_reverse_cons]; rfl⟩
    | function l items =>
      exact .inr ⟨.function l (p :: items) :: stack, rfl, by
        rw [Begun.tokensOf, Begun.tokens, Phrase.tokensOf_reverse_cons]; rfl⟩
    | marked m l => exact ih (.marked m p l)
    | discarding l => exact .inr ⟨.required l p :: stack, rfl, rfl⟩
    | required l dropped => exact ih (.dropping l dropped p)

/-! ### Tokens -/

/-- What the reader does with the token `t` when it has begun `stack`. -/
def Step.Reads (stack : List Begun) (t : Located) : Step → Prop
  | .opened next => ∃ later : List Begun, next = later.map Begun.entry ∧
      Begun.tokensOf later = Begun.tokensOf stack ++ [t]
  | .finished form next => ∀ f, form = .ok f → ∃ (p : Phrase) (later : List Begun), f = p.form ∧
      next = later.map Begun.entry ∧ Begun.tokensOf later ++ p.tokens = Begun.tokensOf stack ++ [t]
  | .ended => stack = [] ∧ t.token = .endOfInput

variable {stack : List Begun} {t : Located} {step : Step}

theorem openBracket_phrase {o : Begun} (begun : o.tokens = [t])
    (h : openBracket o.entry t.location (stack.map Begun.entry) = .ok step) : step.Reads stack t := by
  unfold openBracket at h
  split at h
  · cases h
  · cases h
    exact ⟨o :: stack, rfl, by rw [Begun.tokensOf, begun]⟩

theorem closeBracket_phrase {c : Closer} {close : Location}
    (h : closeBracket c close (stack.map Begun.entry) = .ok step) : step.Reads stack ⟨.closing c, close⟩ := by
  cases stack with
  | nil => cases h
  | cons o stack =>
    rw [List.map_cons] at h
    cases o with
    | group b l items =>
      simp only [Begun.entry, closeBracket] at h
      split at h
      · next closes =>
        cases h
        intro f hf
        obtain rfl : b.closer = c := by simpa using closes
        refine ⟨.group b items.reverse l close, stack, ?_, rfl, ?_⟩
        · unfold closeGroup at hf
          split at hf
          · cases hf
          · cases hf
            rw [forms_reverse]
            rfl
        · rw [Begun.tokensOf, List.append_assoc]
          rfl
      · cases h
    | function l items =>
      simp only [Begun.entry, closeBracket] at h
      split at h
      · next closes =>
        cases h
        intro f hf
        cases hf
        obtain rfl : c = .paren := by simpa using closes
        refine ⟨.function items.reverse l close, stack, ?_, rfl, ?_⟩
        · rw [forms_reverse]
          rfl
        · rw [Begun.tokensOf, List.append_assoc]
          rfl
      · cases h
    | marked m l => cases h
    | discarding l => cases h
    | required l dropped => cases h

theorem endText_phrase {l : Location} (h : endText l (stack.map Begun.entry) = .ok step) :
    step.Reads stack ⟨.endOfInput, l⟩ := by
  cases stack with
  | nil =>
    cases h
    exact ⟨rfl, rfl⟩
  | cons o stack => cases o <;> cases h

/-- **The reader reads a token as a part of a phrase.** -/
theorem readStep_phrase (h : readStep (stack.map Begun.entry) t = .ok step) : step.Reads stack t := by
  obtain ⟨token, l⟩ := t
  have leaf (d : Leaf) (hd : token.leaf? = some d)
      (h : (.ok (.finished (.ok (.leaf d l)) (stack.map Begun.entry)) : Except ReadError Step) = .ok step) :
      step.Reads stack ⟨token, l⟩ := by
    cases h
    intro f hf
    cases hf
    exact ⟨.leaf token d hd l, stack, rfl, rfl, rfl⟩
  cases token with
  | opening b => exact openBracket_phrase (o := .group b l []) rfl h
  | openFunction => exact openBracket_phrase (o := .function l []) rfl h
  | closing c => exact closeBracket_phrase h
  | mark m =>
    cases h
    exact ⟨.marked m l :: stack, rfl, rfl⟩
  | discard =>
    cases h
    exact ⟨.discarding l :: stack, rfl, rfl⟩
  | endOfInput => exact endText_phrase h
  | _ => exact leaf _ rfl h

/-! ### Texts -/

/-- Without the end of the text there is a fault. -/
theorem readTokens_broken (e : ReadError) {ts : List Located} (inside : ∀ t ∈ ts, t.token ≠ .endOfInput)
    (stack : List Begun) : (readTokens (some e) (stack.map Begun.entry) ts).stop ≠ none := by
  induction ts generalizing stack with
  | nil => nofun
  | cons t ts ih =>
    obtain ⟨inner, inside⟩ := List.forall_mem_cons.1 inside
    unfold readTokens
    cases read : readStep (stack.map Begun.entry) t with
    | error e => nofun
    | ok step =>
      have reads := readStep_phrase read
      cases step with
      | ended => exact absurd reads.2 inner
      | opened next =>
        obtain ⟨later, rfl, -⟩ := reads
        exact ih inside later
      | finished form next =>
        dsimp only
        split
        · nofun
        cases form with
        | error e => nofun
        | ok f =>
          obtain ⟨p, later, rfl, rfl, -⟩ := reads f rfl
          dsimp only
          obtain ⟨q, delivered, -⟩ | ⟨later, delivered, -⟩ := deliver_phrase p later
          · rw [delivered]
            exact ih inside []
          · rw [delivered]
            exact ih inside later

/-- **Tokens up to the end of the text are read as phrases**, unless there is a fault. -/
theorem readTokens_phrases {ts : List Located} (inside : ∀ t ∈ ts, t.token ≠ .endOfInput) (l : Location)
    (stack : List Begun)
    (read : (readTokens none (stack.map Begun.entry) (ts ++ [⟨.endOfInput, l⟩])).stop = none) :
    ∃ ps : List Phrase,
      (readTokens none (stack.map Begun.entry) (ts ++ [⟨.endOfInput, l⟩])).forms = Phrase.forms ps ∧
        Begun.tokensOf stack ++ ts = Phrase.tokensOf ps := by
  induction ts generalizing stack with
  | nil =>
    cases stack with
    | nil => exact ⟨[], rfl, rfl⟩
    | cons o stack => cases o <;> cases read
  | cons t ts ih =>
    obtain ⟨inner, inside⟩ := List.forall_mem_cons.1 inside
    rw [List.cons_append] at read ⊢
    unfold readTokens at read ⊢
    cases stepped : readStep (stack.map Begun.entry) t with
    | error e =>
      rw [stepped] at read
      cases read
    | ok step =>
      rw [stepped] at read
      have reads := readStep_phrase stepped
      cases step with
      | ended => exact absurd reads.2 inner
      | opened next =>
        obtain ⟨later, rfl, tokens⟩ := reads
        obtain ⟨ps, forms, spelled⟩ := ih inside later read
        exact ⟨ps, forms, by rw [← spelled, tokens, List.append_assoc]; rfl⟩
      | finished form next =>
        have more : (ts ++ [(⟨.endOfInput, l⟩ : Located)]).isEmpty = false := by simp
        simp only [more] at read ⊢
        cases form with
        | error e => cases read
        | ok f =>
          obtain ⟨p, later, rfl, rfl, tokens⟩ := reads f rfl
          have before : Begun.tokensOf stack ++ t :: ts = Begun.tokensOf later ++ p.tokens ++ ts := by
            rw [tokens, List.append_assoc]
            rfl
          rw [before]
          dsimp only at read ⊢
          obtain ⟨q, delivered, finished⟩ | ⟨later, delivered, kept⟩ := deliver_phrase p later
          · rw [delivered] at read ⊢
            obtain ⟨ps, forms, spelled⟩ := ih inside [] read
            refine ⟨q :: ps, ?_, ?_⟩
            · exact congrArg (q.form :: ·) forms
            · rw [← finished, Phrase.tokensOf_cons, ← spelled]
              rfl
          · rw [delivered] at read ⊢
            rw [← kept]
            exact ih inside later read

/-- Some phrases make up a text: its tokens are theirs, and behind them there is the end. -/
def Phrase.MakeUp (ps : List Phrase) (source : String) : Prop :=
  ∃ l, Scanned.ofText source = ⟨tokensOf ps ++ [⟨.endOfInput, l⟩], none⟩

/-- A text is made of phrases in one way only. -/
theorem Phrase.MakeUp.eq {ps qs : List Phrase} {source : String} (hp : Phrase.MakeUp ps source)
    (hq : Phrase.MakeUp qs source) : ps = qs := by
  obtain ⟨l, hp⟩ := hp
  obtain ⟨m, hq⟩ := hq
  have same := congrArg Scanned.tokens (hp.symm.trans hq)
  exact (Phrase.eq_of_tokensOf_append rfl rfl same).1

/-- **A text that can be read is made of phrases**, and its forms are theirs. -/
theorem readAll_phrases {source : String} {fs : List Form} (h : readAll source = .ok fs) :
    ∃ ps : List Phrase, Phrase.MakeUp ps source ∧ fs = Phrase.forms ps := by
  unfold readAll at h
  dsimp only at h
  split at h
  · cases h
  · next read =>
    cases h
    unfold readForms readChars at read ⊢
    have settles := Scanned.settles_ofChars source.toList
    unfold Phrase.MakeUp Scanned.ofText
    generalize Scanned.ofChars source.toList = scanned at settles read ⊢
    dsimp only at read ⊢
    cases settles with
    | whole ts l inside =>
      obtain ⟨ps, forms, tokens⟩ := readTokens_phrases inside l [] read
      exact ⟨ps, ⟨l, by rw [← tokens]; rfl⟩, forms⟩
    | broken ts e inside => exact absurd read (readTokens_broken e inside [])

end TwinLisp
