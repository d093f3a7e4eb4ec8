import TwinLisp.Proofs.Syntax.Continuing
import TwinLisp.Proofs.Syntax.Phrases

/-!
# Texts that more text can make readable

When the lines so far cannot be read, more lines may help or not. That depends on where the fault lies: a form that is
not finished can always be finished, while nothing mends a fault in a token or a bracket that does not fit. A string
that is still open can be closed, but that helps only if the tokens in front of it go together.

## Main definitions

* `Completable`: some text behind makes the whole text readable.
* `advance`: what a token does to the stack of the reader.
* `Prospects`: what more text can do about a text that cannot be read.

## Main statements

* `prospects`: the place of the fault tells what more text can do.
* `not_completable`: nothing mends a fault in a token or between tokens.
* `completable`: a form that is not finished can be finished.
* `completable_iff_of_openString`: an open string can be closed if the tokens before it go together.
-/

namespace TwinLisp

open Scanned (ofCursor behind)

/-! ### Token by token -/

/-- Hand a finished form to a stack; the next form starts with an empty stack when it is complete. -/
def delivered (f : Form) (stack : List Pending) : List Pending :=
  match deliver f stack with
  | .inl _ => []
  | .inr stack => stack

/-- What a token does to the stack when another token follows it. -/
def advance (stack : List Pending) (t : Located) : Except ReadError (List Pending) :=
  match readStep stack t with
  | .error e => .error e
  | .ok .ended => .ok stack
  | .ok (.opened stack) => .ok stack
  | .ok (.finished form stack) => form.map (delivered · stack)

variable {stop : Option ReadError} {stack : List Pending} {t : Located} {ts tail : List Located} {e : ReadError}
  {cs : List Char} {l : Location}

/-- What a step of the reader may come to: it ends at the end of the text only, and in front of that a fault means that
tokens do not go together. -/
def Sensible (t : Located) : Except ReadError Step → Prop
  | .error e => t.token ≠ .endOfInput → e.cause.place = .nesting
  | .ok .ended => t.token = .endOfInput
  | .ok (.opened _) => True
  | .ok (.finished form _) => ∀ e, form = .error e → e.cause.place = .nesting

theorem sensible_openBracket (p : Pending) (l : Location) (stack : List Pending) :
    Sensible t (openBracket p l stack) := by
  unfold openBracket
  split
  · exact fun _ => rfl
  · trivial

theorem place_of_closeGroup {b : Bracket} {items : List Form} (h : closeGroup b l items = .error e) :
    e.cause.place = .nesting := by
  unfold closeGroup at h
  split at h <;> cases h
  rfl

theorem sensible_closeBracket (c : Closer) (l : Location) (stack : List Pending) :
    Sensible t (closeBracket c l stack) := by
  unfold closeBracket
  split
  · split
    · exact fun _ => place_of_closeGroup
    · exact fun _ => rfl
  · split
    · exact nofun
    · exact fun _ => rfl
  · exact fun _ => rfl

theorem sensible_readStep (stack : List Pending) (t : Located) : Sensible t (readStep stack t) := by
  unfold readStep
  split
  · exact sensible_openBracket _ _ _
  · exact sensible_openBracket _ _ _
  · exact sensible_closeBracket _ _ _
  · trivial
  · trivial
  · next ends =>
    cases stack with
    | nil => exact ends
    | cons p stack => cases p <;> exact fun inside => absurd ends inside
  · split
    · exact nofun
    · trivial

/-- Where the reader may stop there is the end of the text. -/
theorem ended_of_readStep (h : readStep stack t = .ok .ended) : t.token = .endOfInput := by
  have sensible := sensible_readStep stack t
  rw [h] at sensible
  exact sensible

theorem place_of_advance (inside : t.token ≠ .endOfInput) (h : advance stack t = .error e) :
    e.cause.place = .nesting := by
  have sensible := sensible_readStep stack t
  unfold advance at h
  split at h
  · next read =>
    cases h
    rw [read] at sensible
    exact sensible inside
  · cases h
  · cases h
  · next form _ read =>
    rw [read] at sensible
    cases form with
    | error e =>
      cases h
      exact sensible _ rfl
    | ok f => cases h

/-- A token that other tokens follow. -/
theorem stop_readTokens_cons (inside : t.token ≠ .endOfInput) (full : ts ≠ []) :
    (readTokens stop stack (t :: ts)).stop =
      match advance stack t with
      | .error e => some e
      | .ok stack => (readTokens stop stack ts).stop := by
  rw [readTokens, advance]
  cases read : readStep stack t with
  | error e => rfl
  | ok step =>
    cases step with
    | ended => exact absurd (ended_of_readStep read) inside
    | opened next => rfl
    | finished form next =>
      have more : ts.isEmpty = false := by simp [full]
      simp only [more]
      cases form with
      | error e => rfl
      | ok f =>
        dsimp only [Except.map, delivered, Bool.false_eq_true, if_false]
        cases deliver f next <;> rfl

/-- The last token in front of a fault: what it does to the stack may come to light or not. -/
theorem stop_readTokens_single (inside : t.token ≠ .endOfInput) :
    (readTokens (some e) stack [t]).stop = some e ∨
      ∃ e', advance stack t = .error e' ∧ (readTokens (some e) stack [t]).stop = some e' := by
  rw [readTokens, advance]
  cases read : readStep stack t with
  | error e' => exact .inr ⟨e', rfl, rfl⟩
  | ok step =>
    cases step with
    | ended => exact absurd (ended_of_readStep read) inside
    | opened next => exact .inl rfl
    | finished form next => exact .inl rfl

theorem foldlM_of_ok {next : List Pending} (advanced : advance stack t = .ok next) :
    (t :: ts).foldlM advance stack = ts.foldlM advance next := by
  rw [List.foldlM_cons, advanced]
  rfl

theorem foldlM_of_error (advanced : advance stack t = .error e) : (t :: ts).foldlM advance stack = .error e := by
  rw [List.foldlM_cons, advanced]
  rfl

/-- Tokens that other tokens follow are read one by one. -/
theorem stop_readTokens_append (inside : ∀ t ∈ ts, t.token ≠ .endOfInput) (full : tail ≠ []) :
    (readTokens stop stack (ts ++ tail)).stop =
      match ts.foldlM advance stack with
      | .error e => some e
      | .ok stack => (readTokens stop stack tail).stop := by
  induction ts generalizing stack with
  | nil => rfl
  | cons t ts ih =>
    obtain ⟨inner, inside⟩ := List.forall_mem_cons.1 inside
    rw [List.cons_append, stop_readTokens_cons inner (by simp [full])]
    cases advanced : advance stack t with
    | error e => rw [foldlM_of_error advanced]
    | ok next => rw [foldlM_of_ok advanced, ← ih inside]

/-- Where the text breaks off in a token, the reader stops there or before. -/
theorem stop_readTokens_broken (inside : ∀ t ∈ ts, t.token ≠ .endOfInput) :
    (readTokens (some e) stack ts).stop = some e ∨
      ∃ e', ts.foldlM advance stack = .error e' ∧ (readTokens (some e) stack ts).stop = some e' := by
  induction ts generalizing stack with
  | nil => exact .inl rfl
  | cons t ts ih =>
    obtain ⟨inner, inside⟩ := List.forall_mem_cons.1 inside
    cases ts with
    | nil =>
      obtain plain | ⟨e', advanced, stopped⟩ := @stop_readTokens_single stack t e inner
      · exact .inl plain
      · exact .inr ⟨e', foldlM_of_error advanced, stopped⟩
    | cons u ts =>
      rw [stop_readTokens_cons inner (List.cons_ne_nil u ts)]
      cases advanced : advance stack t with
      | error e' => exact .inr ⟨e', foldlM_of_error advanced, rfl⟩
      | ok next =>
        rw [foldlM_of_ok advanced]
        exact ih inside

/-! ### Faults between tokens -/

theorem place_of_foldlM (inside : ∀ t ∈ ts, t.token ≠ .endOfInput) (h : ts.foldlM advance stack = .error e) :
    e.cause.place = .nesting := by
  induction ts generalizing stack with
  | nil => cases h
  | cons t ts ih =>
    obtain ⟨inner, inside⟩ := List.forall_mem_cons.1 inside
    cases advanced : advance stack t with
    | error e' =>
      cases (foldlM_of_error advanced).symm.trans h
      exact place_of_advance inner advanced
    | ok next => exact ih inside ((foldlM_of_ok advanced).symm.trans h)

theorem endText_cons (p : Pending) (stack : List Pending) (l : Location) :
    ∃ e, endText l (p :: stack) = .error e ∧ e.cause.place = .openForm := by
  cases p <;> exact ⟨_, rfl, rfl⟩

/-! ### Finishing what is pending -/

/-- Some text, scanned from `l` on, finishes everything that is pending. -/
def Closable (stack : List Pending) (l : Location) : Prop :=
  ∃ ds ts l', (∀ t ∈ ts, t.token ≠ .endOfInput) ∧ ofCursor ⟨l, ds⟩ = ⟨ts ++ [⟨.endOfInput, l'⟩], none⟩ ∧
    ts.foldlM advance stack = .ok []

theorem Closable.nil (l : Location) : Closable [] l :=
  ⟨[], [], l, by simp, Scanned.ofCursor_nil l, rfl⟩

/-- One token more in front. -/
theorem Closable.cons {front : List Char} {u : Token} {l l' : Location} {next : List Pending}
    (scans : ∀ ds, ofCursor ⟨l, front ++ ds⟩ = (ofCursor ⟨l', ds⟩).behind [⟨u, l⟩]) (inside : u ≠ .endOfInput)
    (advanced : advance stack ⟨u, l⟩ = .ok next) (h : Closable next l') : Closable stack l := by
  obtain ⟨ds, ts, last, all, scanned, finished⟩ := h
  refine ⟨front ++ ds, ⟨u, l⟩ :: ts, last, List.forall_mem_cons.2 ⟨inside, all⟩, ?_, ?_⟩
  · rw [scans, scanned]
    rfl
  · rw [foldlM_of_ok advanced, finished]

/-- An empty string is scanned whatever follows it. -/
theorem ofCursor_emptyString (l : Location) (ds : List Char) : ofCursor ⟨l, ['\x22', '\x22'] ++ ds⟩ =
    (ofCursor ⟨(l.after '\x22').after '\x22', ds⟩).behind [⟨.str (String.ofList []), l⟩] :=
  Scanned.ofCursor_token rfl rfl nofun

theorem exists_ofCursor_closing (c : Closer) (l : Location) :
    ∃ d l', ∀ ds, ofCursor ⟨l, [d] ++ ds⟩ = (ofCursor ⟨l', ds⟩).behind [⟨.closing c, l⟩] := by
  cases c with
  | paren => exact ⟨')', l.after ')', fun ds => Scanned.ofCursor_token rfl rfl nofun⟩
  | square => exact ⟨']', l.after ']', fun ds => Scanned.ofCursor_token rfl rfl nofun⟩
  | brace => exact ⟨'\x7d', l.after '\x7d', fun ds => Scanned.ofCursor_token rfl rfl nofun⟩

theorem length_delivered_le (f : Form) (stack : List Pending) : (delivered f stack).length ≤ stack.length := by
  induction stack generalizing f with
  | nil => exact Nat.le_refl 0
  | cons p stack ih =>
    cases p with
    | marked m l => exact Nat.le_succ_of_le (ih _)
    | required => exact Nat.le_succ_of_le (ih f)
    | _ => exact Nat.le_refl _

/-- With an empty string behind. -/
theorem Closable.string {f : Form} (hf : f = .leaf (.str (String.ofList [])) l)
    (h : ∀ l', Closable (delivered f stack) l') : Closable stack l := by
  subst hf
  exact .cons (ofCursor_emptyString l) nofun rfl (h _)

/-- With a bracket behind that closes the form on top. -/
theorem Closable.closing {c : Closer} {f : Form} {below : List Pending}
    (closes : closeBracket c l stack = .ok (.finished (.ok f) below))
    (h : ∀ l', Closable (delivered f below) l') : Closable stack l := by
  obtain ⟨d, l', scans⟩ := exists_ofCursor_closing c l
  refine .cons scans nofun ?_ (h l')
  have read : readStep stack ⟨.closing c, l⟩ = .ok (.finished (.ok f) below) := closes
  rw [advance, read]
  rfl

theorem Closable.group {b : Bracket} {l₀ : Location} {items : List Form} (even : b = .map → items.length % 2 = 0)
    (h : ∀ f l', Closable (delivered f stack) l') : Closable (.group b l₀ items :: stack) l := by
  have complete : closeGroup b l₀ items.reverse = .ok (.group b items.reverse l₀) := by
    unfold closeGroup
    rw [if_neg]
    simpa using even
  have closes : closeBracket b.closer l (.group b l₀ items :: stack) =
      .ok (.finished (.ok (.group b items.reverse l₀)) stack) := by
    rw [closeBracket, if_pos (beq_self_eq_true _), complete]
  exact .closing closes (h _)

/-- **Whatever is pending can be finished**, from the top of the stack down. -/
theorem closable (stack : List Pending) (l : Location) : Closable stack l := by
  induction length : stack.length using Nat.strong_induction_on generalizing stack l with
  | h n ih =>
    cases stack with
    | nil => exact .nil l
    | cons p stack =>
      have below (f : Form) (l' : Location) : Closable (delivered f stack) l' :=
        ih _ (by have := length_delivered_le f stack; rw [List.length_cons] at length; omega) _ l' rfl
      cases p with
      | group b l₀ items =>
        by_cases even : b = .map → items.length % 2 = 0
        · exact .group even below
        · -- The last key of a map gets a value.
          exact .string rfl fun l' => .group (fun _ => by simp at even ⊢; omega) below
      | function l₀ items => exact .closing (c := .paren) rfl (below _)
      | marked m l₀ => exact .string rfl (below _)
      | discarding => exact .string rfl fun l' => .string rfl (below _)
      | required => exact .string rfl (below _)

/-! ### Which texts can be completed -/

/-- Some text behind makes the whole text readable. -/
def Completable (cs : List Char) : Prop := ∃ ds, (readChars (cs ++ ds)).stop = none

variable {failure : ReadError}

theorem readChars_eq (cs : List Char) :
    readChars cs = readTokens (ofCursor ⟨.start, cs⟩).stop [] (ofCursor ⟨.start, cs⟩).tokens := rfl

/-- A text that can be read is scanned to its end. -/
theorem whole_of_read (h : (readChars cs).stop = none) : ∃ ts l, (∀ t ∈ ts, t.token ≠ .endOfInput) ∧
    ofCursor ⟨.start, cs⟩ = ⟨ts ++ [⟨.endOfInput, l⟩], none⟩ := by
  rw [readChars_eq] at h
  have settles : Scanned.Settles cs.length (ofCursor ⟨.start, cs⟩) := Scanned.settles_ofChars cs
  generalize ofCursor ⟨.start, cs⟩ = scanned at settles h
  cases settles with
  | whole ts l inside => exact ⟨ts, l, inside, rfl⟩
  | broken ts e inside => exact absurd h (readTokens_broken e inside [])

/-- Tokens that do not go together never will. -/
theorem not_completable_of_error (inside : ∀ t ∈ ts, t.token ≠ .endOfInput)
    (front : ∀ ds, ∃ more, ofCursor ⟨.start, cs ++ ds⟩ = behind ts more) (h : ts.foldlM advance [] = .error e) :
    ¬ Completable cs := by
  rintro ⟨ds, read⟩
  obtain ⟨more, scanned⟩ := front ds
  obtain ⟨us, l, all, whole⟩ := whole_of_read read
  have full : more.tokens ≠ [] := by
    intro none
    have tokens : ts = us ++ [⟨.endOfInput, l⟩] := by
      simpa [behind, none] using congrArg Scanned.tokens (scanned.symm.trans whole)
    exact inside ⟨.endOfInput, l⟩ (by simp [tokens]) rfl
  rw [readChars_eq, scanned] at read
  have stopped := @stop_readTokens_append (behind ts more).stop [] ts more.tokens inside full
  rw [h] at stopped
  cases stopped.symm.trans read

/-- Tokens that go together can be completed. -/
theorem completable_of_ok (front : List Char) (inside : ∀ t ∈ ts, t.token ≠ .endOfInput)
    (scans : ∀ ds, ofCursor ⟨.start, cs ++ (front ++ ds)⟩ = (ofCursor ⟨l, ds⟩).behind ts)
    (h : ts.foldlM advance [] = .ok stack) : Completable cs := by
  obtain ⟨ds, us, l', all, scanned, finished⟩ := closable stack l
  refine ⟨front ++ ds, ?_⟩
  rw [readChars_eq, scans, scanned]
  have together : (ts ++ us).foldlM advance [] = .ok [] := by
    rw [List.foldlM_append, h]
    exact finished
  have both : ∀ t ∈ ts ++ us, t.token ≠ .endOfInput := by
    intro t ht
    obtain ht | ht := List.mem_append.1 ht
    · exact inside t ht
    · exact all t ht
  have stopped := @stop_readTokens_append none [] (ts ++ us) [⟨.endOfInput, l'⟩] both (List.cons_ne_nil _ _)
  rw [together, List.append_assoc] at stopped
  exact stopped

/-- What more text can do about a text that cannot be read: the place of the fault tells. -/
inductive Prospects (cs : List Char) (e : ReadError) : Prop where
  | final (place : e.cause.place = .word ∨ e.cause.place = .nesting) (never : ¬ Completable cs)
  | openForm (place : e.cause.place = .openForm) (mended : Completable cs)
  | openString (place : e.cause.place = .openString)
    (iff : Completable cs ↔ ∃ stack, (Scanned.ofChars cs).tokens.foldlM advance [] = .ok stack)

namespace Prospects

/-- The tokens stay, and others come behind them: a form may be unfinished. -/
theorem of_whole (inside : ∀ t ∈ ts, t.token ≠ .endOfInput)
    (scans : ∀ ds, ofCursor ⟨.start, cs ++ ds⟩ = (ofCursor ⟨l, ds⟩).behind ts)
    (failed : (readChars cs).stop = some e) : Prospects cs e := by
  have ended : ofCursor ⟨.start, cs⟩ = ⟨ts ++ [⟨.endOfInput, l⟩], none⟩ := by
    rw [← List.append_nil cs, scans, Scanned.ofCursor_nil l]
    rfl
  rw [readChars_eq, ended, stop_readTokens_append inside (List.cons_ne_nil _ _)] at failed
  cases together : ts.foldlM advance [] with
  | error e' =>
    rw [together] at failed
    cases failed
    exact .final (.inr (place_of_foldlM inside together))
      (not_completable_of_error inside (fun ds => ⟨_, scans ds⟩) together)
  | ok stack =>
    rw [together] at failed
    cases stack with
    | nil => cases failed
    | cons p stack =>
      obtain ⟨e', ends, place⟩ := endText_cons p stack l
      have stops : (readTokens none (p :: stack) [⟨.endOfInput, l⟩]).stop = some e' := by
        rw [readTokens, readStep]
        dsimp only
        rw [ends]
      cases stops.symm.trans failed
      exact .openForm place (completable_of_ok [] inside scans together)

/-- A token is faulty whatever follows it. -/
theorem of_broken {fault : ReadError} (inside : ∀ t ∈ ts, t.token ≠ .endOfInput) (word : fault.cause.place = .word)
    (scans : ∀ ds, ofCursor ⟨.start, cs ++ ds⟩ = ⟨ts, some fault⟩) (failed : (readChars cs).stop = some e) :
    Prospects cs e := by
  have never : ¬ Completable cs := by
    rintro ⟨ds, read⟩
    rw [readChars_eq, scans] at read
    exact readTokens_broken fault inside [] read
  rw [readChars_eq, ← List.append_nil cs, scans] at failed
  refine .final ?_ never
  obtain plain | ⟨e', together, earlier⟩ := @stop_readTokens_broken [] ts fault inside
  · cases plain.symm.trans failed
    exact .inl word
  · cases earlier.symm.trans failed
    exact .inr (place_of_foldlM inside together)

/-- A string is open behind the tokens, and a quote closes it. -/
theorem of_inString {s : String} {l₀ l' : Location} (inside : ∀ t ∈ ts, t.token ≠ .endOfInput)
    (now : ofCursor ⟨.start, cs⟩ = ⟨ts, some ⟨.unterminatedString, l'⟩⟩)
    (front : ∀ ds, ∃ more, ofCursor ⟨.start, cs ++ ds⟩ = behind ts more)
    (closed : ∀ ds, ofCursor ⟨.start, cs ++ '\x22' :: ds⟩ = (ofCursor ⟨l, ds⟩).behind (ts ++ [⟨.str s, l₀⟩]))
    (failed : (readChars cs).stop = some e) : Prospects cs e := by
  have tokens : (Scanned.ofChars cs).tokens = ts := congrArg Scanned.tokens now
  rw [readChars_eq, now] at failed
  have stopped := @stop_readTokens_broken [] ts ⟨.unterminatedString, l'⟩ inside
  cases together : ts.foldlM advance [] with
  | error e' =>
    have never := not_completable_of_error inside front together
    obtain plain | ⟨e'', again, earlier⟩ := stopped
    · cases plain.symm.trans failed
      refine .openString rfl (iff_of_false never ?_)
      rw [tokens, together]
      rintro ⟨_, ⟨⟩⟩
    · cases earlier.symm.trans failed
      exact .final (.inr (place_of_foldlM inside again)) never
  | ok stack =>
    have string : (ts ++ [(⟨.str s, l₀⟩ : Located)]).foldlM advance [] =
        .ok (delivered (.leaf (.str s) l₀) stack) := by
      rw [List.foldlM_append, together]
      rfl
    have all : ∀ t ∈ ts ++ [(⟨.str s, l₀⟩ : Located)], t.token ≠ .endOfInput := by
      simpa [or_imp, forall_and] using inside
    have mended : Completable cs := completable_of_ok ['\x22'] all closed string
    obtain plain | ⟨e', again, -⟩ := stopped
    · cases plain.symm.trans failed
      exact .openString rfl (iff_of_true mended ⟨stack, by rw [tokens, together]⟩)
    · cases together.symm.trans again

end Prospects

variable (lines : WholeLines cs) (failed : (readChars cs).stop = some e)
include lines failed

/-- **The place of the fault tells what more text can do** about whole lines that cannot be read. -/
theorem prospects : Prospects cs e := by
  cases Scanned.continues .start cs lines with
  | whole ts l inside scans => exact .of_whole inside scans failed
  | broken ts inside word scans => exact .of_broken inside word scans failed
  | inString ts s l₀ l₁ l' inside now front closed => exact .of_inString inside now front closed failed

/-- **Nothing mends a fault in a token or between tokens.** -/
theorem not_completable (final : e.cause.place = .word ∨ e.cause.place = .nesting) : ¬ Completable cs := by
  cases prospects lines failed with
  | final _ never => exact never
  | openForm place => simp [place] at final
  | openString place => simp [place] at final

/-- **A form that is not finished can be finished.** -/
theorem completable (unfinished : e.cause.place = .openForm) : Completable cs := by
  cases prospects lines failed with
  | final place => simp [unfinished] at place
  | openForm _ mended => exact mended
  | openString place => simp [unfinished] at place

/-- **A text with an open string can be completed exactly if the tokens before the string go together.** -/
theorem completable_iff_of_openString (unfinished : e.cause.place = .openString) :
    Completable cs ↔ ∃ stack, (Scanned.ofChars cs).tokens.foldlM advance [] = .ok stack := by
  cases prospects lines failed with
  | final place => simp [unfinished] at place
  | openForm place => simp [unfinished] at place
  | openString _ iff => exact iff

end TwinLisp
