import TwinLisp.Syntax.Token.Scan

/-!
# Scanning to the end

The scanner goes through a text character by character: behind a token it stands where the characters that it has
taken end, and the location says how far that is. Every token but the end takes a character, so that scanning a text
comes to its end or to a fault.

## Main definitions

* `Cursor.IsBehind`: a cursor stands behind some of the characters of a text, at the location after them.
* `Scanned.Settles`: how the scan of a text with so many characters ends.

## Main statements

* `Scan.isBehind_tokenFrom`: behind a token the cursor has moved over the characters taken.
* `Scanned.settles_ofChars`: a text is scanned to its end or to a fault.
-/

namespace TwinLisp

/-! ### Where a cursor stands -/

/-- A cursor that was at `l`, in front of `cs`, has moved over some of these characters. -/
def Cursor.IsBehind (l : Location) (cs : List Char) (next : Cursor) : Prop :=
  ∃ taken, cs = taken ++ next.rest ∧ next.location = taken.foldl .after l

namespace Cursor.IsBehind

variable {l : Location} {c : Char} {cs : List Char} {next : Cursor}

/-- A cursor that has not moved. -/
theorem here (l : Location) (cs : List Char) : IsBehind l cs ⟨l, cs⟩ := ⟨[], rfl, rfl⟩

/-- A cursor that has moved over one character more. -/
theorem cons (h : IsBehind (l.after c) cs next) : IsBehind l (c :: cs) next := by
  obtain ⟨taken, text, location⟩ := h
  exact ⟨c :: taken, congrArg (c :: ·) text, location⟩

/-- A cursor that has moved over one character. -/
theorem single (l : Location) (c : Char) (cs : List Char) : IsBehind l (c :: cs) ⟨l.after c, cs⟩ :=
  (here _ cs).cons

theorem suffix (h : IsBehind l cs next) : next.rest <:+ cs := by
  obtain ⟨taken, text, -⟩ := h
  exact ⟨taken, text.symm⟩

end Cursor.IsBehind

namespace Scan

open Cursor (IsBehind)
open TwinLisp.Text (isBlank)

variable {l : Location} {cs : List Char} {next : Cursor} {t : Token}

theorem isBehind_run (p : Char → Bool) (l : Location) (cs : List Char) : IsBehind l cs (run p l cs).2 := by
  induction cs generalizing l with
  | nil => exact .here l []
  | cons c cs ih =>
    rw [run]
    split
    · exact (ih _).cons
    · exact .here l (c :: cs)

/-- A run goes on to the first character without the property. -/
theorem run_append {p : Char → Bool} {cs rest : List Char} (all : ∀ c ∈ cs, p c = true)
    (ends : ∀ c ∈ rest.head?, p c = false) (l : Location) :
    run p l (cs ++ rest) = (cs, ⟨cs.foldl .after l, rest⟩) := by
  induction cs generalizing l with
  | nil =>
    cases rest with
    | nil => rfl
    | cons c rest => rw [List.nil_append, run, ends c rfl]; rfl
  | cons c cs ih =>
    obtain ⟨first, others⟩ := List.forall_mem_cons.1 all
    rw [List.cons_append, run, if_pos first, ih others]
    rfl

theorem isBehind_numberRun (previous : Char) (l : Location) (cs : List Char) :
    IsBehind l cs (numberRun previous l cs).2 := by
  induction cs generalizing previous l with
  | nil => exact .here l []
  | cons c cs ih =>
    rw [numberRun]
    split
    · exact (ih _ _).cons
    · exact .here l (c :: cs)

/-- What may stand between tokens in front of `rest`: blanks, commas, and comments, which go on to the end of their line
or of the text. -/
inductive Separates (rest : List Char) : List Char → Prop where
  | nothing : Separates rest []
  | blank {c : Char} {gap : List Char} (h : isBlank c = true ∨ c = ',') (more : Separates rest gap) :
    Separates rest (c :: gap)
  | comment (words : List Char) {gap : List Char} (inLine : '\n' ∉ words) (more : Separates rest gap) :
    Separates rest (';' :: (words ++ '\n' :: gap))
  | lastComment (words : List Char) (inLine : '\n' ∉ words) (atEnd : rest = []) : Separates rest (';' :: words)

/-- A comment may be longer. -/
theorem Separates.longer {rest gap : List Char} (h : Separates rest (';' :: gap)) {c : Char} (inLine : c ≠ '\n') :
    Separates rest (';' :: c :: gap) := by
  cases h with
  | blank h => exact absurd h (by decide)
  | comment words within more => exact .comment (c :: words) (by simp [inLine.symm, within]) more
  | lastComment _ within atEnd => exact .lastComment (c :: gap) (by simp [inLine.symm, within]) atEnd

/-- What is skipped separates tokens; inside a comment it is the rest of the comment and what follows. -/
theorem separates_skipBlanks (inComment : Bool) (l : Location) (cs : List Char) :
    ∃ gap, cs = gap ++ (skipBlanks inComment l cs).rest ∧
      (skipBlanks inComment l cs).location = gap.foldl .after l ∧
      Separates (skipBlanks inComment l cs).rest (if inComment then ';' :: gap else gap) := by
  induction cs generalizing inComment l with
  | nil =>
    refine ⟨[], rfl, rfl, ?_⟩
    cases inComment with
    | false => exact .nothing
    | true => exact .lastComment [] (by simp) rfl
  | cons c cs ih =>
    rw [skipBlanks]
    split
    · next comment =>
      subst comment
      obtain ⟨gap, text, location, separates⟩ := ih (c != '\n') (l.after c)
      refine ⟨c :: gap, congrArg (c :: ·) text, location, ?_⟩
      by_cases feed : c = '\n'
      · subst feed
        exact .comment [] (by simp) separates
      · rw [show (c != '\n') = true by simpa using feed] at separates ⊢
        exact separates.longer feed
    · next code =>
      obtain rfl : inComment = false := by simpa using code
      split
      · next blank =>
        obtain ⟨gap, text, location, separates⟩ := ih false (l.after c)
        exact ⟨c :: gap, congrArg (c :: ·) text, location, .blank (by simpa using blank) separates⟩
      split
      · next semicolon =>
        obtain ⟨gap, text, location, separates⟩ := ih true (l.after c)
        obtain rfl : c = ';' := by simpa using semicolon
        exact ⟨';' :: gap, congrArg (';' :: ·) text, location, separates⟩
      · exact ⟨[], rfl, rfl, .nothing⟩

/-- The scanner stops skipping at no blank. -/
theorem notBlank_skipBlanks (inComment : Bool) (l : Location) (cs : List Char) :
    ∀ c ∈ (skipBlanks inComment l cs).rest.head?, isBlank c = false := by
  induction cs generalizing inComment l with
  | nil => simp [skipBlanks]
  | cons c cs ih =>
    rw [skipBlanks]
    split
    · exact ih _ _
    split
    · exact ih _ _
    · next ink =>
      split
      · exact ih _ _
      · rw [Bool.or_eq_true, not_or] at ink
        simpa using ink.1

/-- A text of blanks is skipped. -/
theorem skipBlanks_of_blank {cs : List Char} (blank : ∀ c ∈ cs, isBlank c = true) (l : Location) :
    ∃ l', skipBlanks false l cs = ⟨l', []⟩ := by
  induction cs generalizing l with
  | nil => exact ⟨l, rfl⟩
  | cons c cs ih =>
    obtain ⟨first, others⟩ := List.forall_mem_cons.1 blank
    rw [skipBlanks, if_neg Bool.false_ne_true, if_pos (by simp [first])]
    exact ih others _

theorem isBehind_skipBlanks (inComment : Bool) (l : Location) (cs : List Char) :
    IsBehind l cs (skipBlanks inComment l cs) := by
  obtain ⟨gap, text, location, -⟩ := separates_skipBlanks inComment l cs
  exact ⟨gap, text, location⟩

theorem isBehind_stringRest {state : StringState} {read : List Char}
    (h : stringRest state l read cs = .ok (t, next)) : IsBehind l cs next := by
  induction cs generalizing state l read with
  | nil => cases h
  | cons c cs ih =>
    rw [stringRest.eq_def] at h
    cases state with
    | plain =>
      dsimp only at h
      split at h
      · cases h
        exact .single l c cs
      split at h <;> exact (ih h).cons
    | escape =>
      dsimp only at h
      split at h
      · exact (ih h).cons
      split at h
      · exact (ih h).cons
      · cases h
    | code count value =>
      dsimp only at h
      split at h
      · cases h
      split at h
      · exact (ih h).cons
      split at h
      · exact (ih h).cons
      · cases h

theorem rest_of_settle {cause : Except ReadError.Cause Token} {cursor : Cursor}
    (h : settle cause cursor = .ok (t, next)) : next = cursor := by
  cases cause <;> cases h
  rfl

theorem isBehind_dispatchToken (h : dispatchToken l cs = .ok (t, next)) : IsBehind l cs next := by
  unfold dispatchToken at h
  split at h
  · cases h
  · cases h
    exact .single _ _ _
  · cases h
    exact .single _ _ _
  · cases h
    exact .single _ _ _
  · rw [rest_of_settle h]
    exact (isBehind_run _ _ _).cons
  · cases h

theorem isBehind_characterLiteral (h : characterLiteral l cs = .ok (t, next)) : IsBehind l cs next := by
  unfold characterLiteral at h
  split at h
  · cases h
  split at h
  · rw [rest_of_settle h]
    exact (isBehind_run _ _ _).cons
  · cases h
    exact .single _ _ _

theorem isBehind_keywordLiteral (h : keywordLiteral l cs = .ok (t, next)) : IsBehind l cs next := by
  unfold keywordLiteral at h
  dsimp only at h
  split at h
  · cases h
  · cases h
    exact isBehind_run _ _ _

theorem isBehind_numberLiteral {first : Char} (h : numberLiteral first l cs = .ok (t, next)) :
    IsBehind l cs next := by
  rw [rest_of_settle h]
  exact isBehind_numberRun _ _ _

theorem isBehind_signedLiteral {sign : Char} (h : signedLiteral sign l cs = .ok (t, next)) :
    IsBehind l cs next := by
  unfold signedLiteral at h
  split at h
  · next c more =>
    split at h
    · exact isBehind_numberLiteral h
    · have behind : next = (run isNameChar l (c :: more)).2 := (Prod.mk.inj (Except.ok.inj h)).2.symm
      rw [behind]
      exact isBehind_run _ _ _
  · cases h
    exact .here l []

/-- **Behind a token the cursor has moved over the characters taken.** -/
theorem isBehind_tokenFrom {c : Char} (h : tokenFrom l c cs = .ok (t, next)) : IsBehind (l.after c) cs next := by
  unfold tokenFrom at h
  dsimp only at h
  split at h
  case h_10 =>
    split at h <;> cases h
    · exact .single _ _ _
    · exact .here _ _
  case h_11 => exact isBehind_dispatchToken h
  case h_12 => exact isBehind_stringRest h
  case h_13 => exact isBehind_characterLiteral h
  case h_14 => exact isBehind_keywordLiteral h
  case h_15 =>
    split at h
    · exact isBehind_signedLiteral h
    split at h
    · exact isBehind_numberLiteral h
    split at h
    · cases h
      exact isBehind_run _ _ _
    · cases h
  all_goals
    cases h
    exact .here _ _

end Scan

/-- Every token but the end takes a character. -/
theorem length_scanToken {cursor next : Cursor} {t : Token} (h : scanToken cursor = .ok (t, next))
    (inside : t ≠ .endOfInput) : next.rest.length < cursor.rest.length := by
  unfold scanToken at h
  split at h
  · cases h
    exact absurd rfl inside
  · next c cs e =>
    rw [e, List.length_cons]
    exact Nat.lt_succ_of_le (Scan.isBehind_tokenFrom h).suffix.length_le

namespace Scanned

/-- The first token, which stands where the blanks end, and the tokens behind it. -/
theorem fromCursor_token {l : Location} {cs : List Char} {here next : Cursor} {t : Token}
    (skipped : Scan.skipBlanks false l cs = here) (scanned : scanToken here = .ok (t, next))
    (inside : t ≠ .endOfInput) (fuel : Nat) : fromCursor ⟨l, cs⟩ (fuel + 1) =
      { fromCursor next fuel with tokens := ⟨t, here.location⟩ :: (fromCursor next fuel).tokens } := by
  rw [fromCursor]
  dsimp only
  rw [skipped, scanned]
  cases t with
  | endOfInput => exact absurd rfl inside
  | _ => rfl

/-- The token at which the scanner stands, and the tokens behind it. -/
theorem fromCursor_succ {l : Location} {cs : List Char} {next : Cursor} {t : Token}
    (scanned : scanToken ⟨l, cs⟩ = .ok (t, next)) (stands : Scan.skipBlanks false l cs = ⟨l, cs⟩)
    (inside : t ≠ .endOfInput) (fuel : Nat) : fromCursor ⟨l, cs⟩ (fuel + 1) =
      { fromCursor next fuel with tokens := ⟨t, l⟩ :: (fromCursor next fuel).tokens } :=
  fromCursor_token stands scanned inside fuel

/-- How the scan of a text with `n` characters ends: behind at most `n` tokens there is the end of the text, or a
fault. -/
inductive Settles (n : Nat) : Scanned → Prop where
  | whole (ts : List Located) (l : Location) (inside : ∀ t ∈ ts, t.token ≠ .endOfInput) (length : ts.length ≤ n) :
    Settles n ⟨ts ++ [⟨.endOfInput, l⟩], none⟩
  | broken (ts : List Located) (e : ReadError) (inside : ∀ t ∈ ts, t.token ≠ .endOfInput) (length : ts.length ≤ n) :
    Settles n ⟨ts, some e⟩

theorem Settles.cons {m n : Nat} {more : Scanned} (h : Settles m more) (hn : m < n) {t : Located}
    (inside : t.token ≠ .endOfInput) : Settles n { more with tokens := t :: more.tokens } := by
  cases h with
  | whole ts l later length =>
    exact .whole (t :: _) l (List.forall_mem_cons.2 ⟨inside, later⟩) (Nat.le_trans (Nat.succ_le_succ length) hn)
  | broken ts e later length =>
    exact .broken (t :: _) e (List.forall_mem_cons.2 ⟨inside, later⟩) (Nat.le_trans (Nat.succ_le_succ length) hn)

theorem settles_fromCursor {fuel : Nat} {cursor : Cursor} (enough : cursor.rest.length < fuel) :
    Settles cursor.rest.length (fromCursor cursor fuel) := by
  induction fuel generalizing cursor with
  | zero => exact absurd enough (Nat.not_lt_zero _)
  | succ fuel ih =>
    have skipped := (Scan.isBehind_skipBlanks false cursor.location cursor.rest).suffix.length_le
    rw [fromCursor]
    dsimp only
    split
    · exact .broken [] _ (fun _ h => nomatch h) (Nat.zero_le _)
    · exact .whole [] _ (fun _ h => nomatch h) (Nat.zero_le _)
    · next t next notEnd scanned =>
      have inside : t ≠ .endOfInput := fun e => notEnd e
      have shorter := length_scanToken scanned inside
      have more : Settles next.rest.length (fromCursor next fuel) := ih (by omega)
      exact more.cons (by omega) inside

/-- **A text is scanned to its end or to a fault.** -/
theorem settles_ofChars (cs : List Char) : Settles cs.length (ofChars cs) :=
  @settles_fromCursor _ ⟨.start, cs⟩ (Nat.lt_succ_self _)

end Scanned

end TwinLisp
