import TwinLisp.Proofs.Syntax.Positions

/-!
# Texts that go on

Whole lines are scanned alike whatever follows them: a line feed ends names, numbers and comments. Only a string can go
on behind it.

## Main definitions

* `WholeLines`: the last character of a text is a line feed.
* `Scan.Continues`: what becomes of a token when the text goes on.
* `Scanned.Continues`: what becomes of the tokens of a text when it goes on.

## Main statements

* `Scan.continues_tokenFrom`: a token stays as it is, or it is a string that can be closed.
* `Scanned.continues`: so do the tokens of whole lines.
-/

namespace TwinLisp

open TwinLisp.Text (isBlank isAsciiAlphanumeric isAsciiLetter isAsciiDigit digitValue?)

/-- The text is made of whole lines: if it has a last character, that is a line feed. -/
def WholeLines (cs : List Char) : Prop := ∀ c ∈ cs.getLast?, c = '\n'

namespace WholeLines

variable {c : Char} {cs rest : List Char}

theorem nil : WholeLines [] := nofun

theorem suffix (h : WholeLines cs) (s : rest <:+ cs) : WholeLines rest := by
  obtain ⟨front, rfl⟩ := s
  intro c last
  refine h c ?_
  rw [List.getLast?_append, Option.mem_def.1 last]
  rfl

theorem tail (h : WholeLines (c :: cs)) : WholeLines cs := h.suffix (List.suffix_cons c cs)

/-- Behind any other character there is another one. -/
theorem ne_nil (h : WholeLines (c :: cs)) (inLine : c ≠ '\n') : cs ≠ [] := by
  rintro rfl
  exact inLine (h c rfl)

end WholeLines

/-- The cursor in a text that goes on with `ds`. -/
def Cursor.followed (ds : List Char) (cursor : Cursor) : Cursor := ⟨cursor.location, cursor.rest ++ ds⟩

namespace Scan

variable {l : Location} {c : Char} {cs : List Char}

/-! ### Tokens -/

/-- The same result in a text that goes on with `ds`. -/
def followed (ds : List Char) (r : Except ReadError (Token × Cursor)) : Except ReadError (Token × Cursor) :=
  r.map fun found => (found.1, found.2.followed ds)

/-- What becomes of a token when the text goes on: it stays as it is, or it is a string, which may be closed. -/
inductive Continues (scan : List Char → Except ReadError (Token × Cursor)) : Prop where
  | settled {r : Except ReadError (Token × Cursor)} (finds : Finds (·.place = .word) r)
    (same : ∀ ds, scan ds = followed ds r)
  | inString {l next : Location} {s : String} (now : scan [] = .error ⟨.unterminatedString, l⟩)
    (closed : ∀ ds, scan ('\x22' :: ds) = .ok (.str s, ⟨next, ds⟩))

namespace Continues

variable {scan : List Char → Except ReadError (Token × Cursor)} {t : Token} {e : ReadError}

theorem found (same : ∀ ds, scan ds = .ok (t, ⟨l, cs ++ ds⟩)) (inside : t ≠ .endOfInput) : Continues scan :=
  .settled (r := .ok (t, ⟨l, cs⟩)) inside same

theorem fault (same : ∀ ds, scan ds = .error e) (word : e.cause.place = .word) : Continues scan :=
  .settled (r := .error e) word same

end Continues

theorem settle_followed (token : Except ReadError.Cause Token) (cursor : Cursor) (ds : List Char) :
    settle token (cursor.followed ds) = followed ds (settle token cursor) := by
  cases token <;> rfl

/-- A run that does not go beyond a line stays as it is. -/
theorem run_followed {p : Char → Bool} (inLine : p '\n' = false) (lines : WholeLines cs) (full : cs ≠ [])
    (l : Location) (ds : List Char) : run p l (cs ++ ds) = ((run p l cs).1, (run p l cs).2.followed ds) := by
  induction cs generalizing l with
  | nil => exact absurd rfl full
  | cons c cs ih =>
    rw [List.cons_append, run, run]
    split
    · next more =>
      have inside : c ≠ '\n' := fun feed => by
        rw [feed, inLine] at more
        cases more
      rw [ih lines.tail (lines.ne_nil inside)]
    · rfl

theorem numberRun_followed (lines : WholeLines cs) (full : cs ≠ []) (previous : Char) (l : Location)
    (ds : List Char) : numberRun previous l (cs ++ ds) =
      ((numberRun previous l cs).1, (numberRun previous l cs).2.followed ds) := by
  induction cs generalizing previous l with
  | nil => exact absurd rfl full
  | cons c cs ih =>
    rw [List.cons_append, numberRun, numberRun]
    dsimp only
    split
    · next more =>
      have inside : c ≠ '\n' := fun feed => by
        rw [feed] at more
        exact absurd more (by simp [isAsciiAlphanumeric, isAsciiLetter, isAsciiDigit])
      rw [ih lines.tail (lines.ne_nil inside)]
    · rfl

theorem isNameChar_lineFeed : isNameChar '\n' = false := by decide

theorem dispatchToken_followed (lines : WholeLines cs) (full : cs ≠ []) (l : Location) (ds : List Char) :
    dispatchToken l (cs ++ ds) = followed ds (dispatchToken l cs) := by
  cases cs with
  | nil => exact absurd rfl full
  | cons c cs =>
    by_cases paren : c = '('
    · subst paren
      rfl
    by_cases brace : c = '\x7b'
    · subst brace
      rfl
    by_cases dash : c = '_'
    · subst dash
      rfl
    by_cases hash : c = '#'
    · subst hash
      rw [List.cons_append, dispatchToken, dispatchToken,
        run_followed isNameChar_lineFeed lines.tail (lines.ne_nil (by decide))]
      exact settle_followed _ _ _
    · rw [List.cons_append, dispatchToken, dispatchToken]
      · rfl
      all_goals assumption

theorem characterLiteral_followed (lines : WholeLines cs) (full : cs ≠ []) (l : Location) (ds : List Char) :
    characterLiteral l (cs ++ ds) = followed ds (characterLiteral l cs) := by
  cases cs with
  | nil => exact absurd rfl full
  | cons c cs =>
    rw [List.cons_append, characterLiteral, characterLiteral]
    split
    · next letter =>
      have inside : c ≠ '\n' := fun feed => by
        rw [feed] at letter
        cases letter
      rw [run_followed (by decide) lines.tail (lines.ne_nil inside)]
      exact settle_followed _ _ _
    · rfl

theorem keywordLiteral_followed (lines : WholeLines cs) (full : cs ≠ []) (l : Location) (ds : List Char) :
    keywordLiteral l (cs ++ ds) = followed ds (keywordLiteral l cs) := by
  unfold keywordLiteral
  rw [run_followed (by decide) lines full]
  dsimp only
  split <;> rfl

theorem numberLiteral_followed (lines : WholeLines cs) (full : cs ≠ []) (first : Char) (l : Location)
    (ds : List Char) : numberLiteral first l (cs ++ ds) = followed ds (numberLiteral first l cs) := by
  unfold numberLiteral
  rw [numberRun_followed lines full]
  exact settle_followed _ _ _

theorem signedLiteral_followed (lines : WholeLines cs) (full : cs ≠ []) (sign : Char) (l : Location)
    (ds : List Char) : signedLiteral sign l (cs ++ ds) = followed ds (signedLiteral sign l cs) := by
  cases cs with
  | nil => exact absurd rfl full
  | cons c cs =>
    rw [List.cons_append, signedLiteral, signedLiteral]
    split
    · exact numberLiteral_followed lines full sign l ds
    · rw [← List.cons_append, run_followed isNameChar_lineFeed lines full]
      rfl

/-- A string stays as it is or can be closed. -/
theorem continues_stringRest {state : StringState} {read : List Char} (lines : WholeLines cs)
    (plain : cs = [] → state = .plain) : Continues fun ds => stringRest state l read (cs ++ ds) := by
  induction cs generalizing state l read with
  | nil =>
    obtain rfl := plain rfl
    exact .inString rfl fun ds => rfl
  | cons c cs ih =>
    simp only [List.cons_append]
    cases state with
    | plain =>
      unfold stringRest
      dsimp only
      split
      · exact .found (fun ds => rfl) (by simp)
      split
      · next slash =>
        have inside : c ≠ '\n' := by
          rintro rfl
          cases slash
        exact ih lines.tail fun none => absurd none (lines.ne_nil inside)
      · exact ih lines.tail fun _ => rfl
    | escape =>
      unfold stringRest
      dsimp only
      split
      · exact ih lines.tail fun _ => rfl
      split
      · next letter =>
        have inside : c ≠ '\n' := by
          rintro rfl
          cases letter
        exact ih lines.tail fun none => absurd none (lines.ne_nil inside)
      · exact .fault (fun ds => rfl) rfl
    | code count value =>
      unfold stringRest
      dsimp only
      split
      · exact .fault (fun ds => rfl) rfl
      · next d digit =>
        have inside : c ≠ '\n' := by
          rintro rfl
          cases digit
        split
        · exact ih lines.tail fun none => absurd none (lines.ne_nil inside)
        split
        · exact ih lines.tail fun _ => rfl
        · exact .fault (fun ds => rfl) rfl

theorem tokenFrom_tilde (inside : c ≠ '@') (l : Location) (cs : List Char) :
    tokenFrom l '~' (c :: cs) = .ok (.mark .unquote, ⟨l.after '~', c :: cs⟩) := by
  simp only [tokenFrom]
  split
  · next e => exact absurd (List.cons.inj e).1 inside
  · rfl

/-- The mark for a spliced value needs no more than the character behind the tilde. -/
theorem tilde_followed (full : cs ≠ []) (l : Location) (ds : List Char) :
    tokenFrom l '~' (cs ++ ds) = followed ds (tokenFrom l '~' cs) := by
  cases cs with
  | nil => exact absurd rfl full
  | cons c cs =>
    by_cases splice : c = '@'
    · subst splice
      rfl
    · rw [List.cons_append, tokenFrom_tilde splice, tokenFrom_tilde splice]
      rfl

theorem finds_tilde (l : Location) (cs : List Char) : Finds (·.place = .word) (tokenFrom l '~' cs) := by
  simp only [tokenFrom]
  split <;> simp [Finds]

/-- **A token of whole lines stays as it is** when the text goes on, or it is a string that can be closed. -/
theorem continues_tokenFrom (lines : WholeLines (c :: cs)) (ink : isBlank c = false) :
    Continues fun ds => tokenFrom l c (cs ++ ds) := by
  have inside : c ≠ '\n' := by
    rintro rfl
    cases ink
  have full := lines.ne_nil inside
  have broken (cause : ReadError.Cause) : cause.place = .word ∨ cs = [] → cause.place = .word := fun h =>
    h.resolve_right full
  replace lines := lines.tail
  clear ink
  unfold tokenFrom
  dsimp only
  split
  case h_10 => exact .settled (finds_tilde l cs) (tilde_followed full l)
  case h_11 => exact .settled ((finds_dispatchToken _ cs).imp broken) (dispatchToken_followed lines full _)
  case h_12 => exact continues_stringRest lines fun _ => rfl
  case h_13 => exact .settled ((finds_characterLiteral _ cs).imp broken) (characterLiteral_followed lines full _)
  case h_14 => exact .settled (finds_keywordLiteral _ cs) (keywordLiteral_followed lines full _)
  case h_15 =>
    split
    · exact .settled (finds_signedLiteral _ _ cs) (signedLiteral_followed lines full _ _)
    split
    · exact .settled (finds_numberLiteral _ _ cs) (numberLiteral_followed lines full _ _)
    split
    · refine .settled (r := .ok (nameToken (c :: (run isNameChar (l.after c) cs).1), (run isNameChar (l.after c) cs).2))
        (inside_nameToken _) fun ds => ?_
      rw [run_followed isNameChar_lineFeed lines full]
      rfl
    · exact .fault (fun ds => rfl) rfl
  all_goals exact .found (fun ds => rfl) nofun

/-! ### Blanks -/

/-- Behind the blanks of whole lines there are a token, which stays there, or the blanks of what follows. -/
theorem skipBlanks_followed (inComment : Bool) (l : Location) (lines : WholeLines cs) (closed : cs = [] → inComment = false)
    (ds : List Char) : skipBlanks inComment l (cs ++ ds) =
      if (skipBlanks inComment l cs).rest = [] then skipBlanks false (skipBlanks inComment l cs).location ds
      else (skipBlanks inComment l cs).followed ds := by
  induction cs generalizing inComment l with
  | nil =>
    obtain rfl := closed rfl
    rfl
  | cons c cs ih =>
    have more {b : Bool} (h : c = '\n' → b = false) := ih b (l.after c) lines.tail fun none =>
      h (by_contra fun inside => lines.ne_nil inside none)
    rw [List.cons_append, skipBlanks, skipBlanks]
    split
    · exact more fun feed => by simp [feed]
    split
    · exact more fun _ => rfl
    split
    · next semicolon =>
      refine more fun feed => ?_
      rw [feed] at semicolon
      cases semicolon
    · rfl

end Scan

/-! ### Whole texts -/

namespace Scanned

open Scan (skipBlanks)

variable {l : Location} {cs : List Char} {here next : Cursor} {t : Token} {e : ReadError}

/-- How many tokens are granted does not matter as long as they suffice. -/
theorem fromCursor_congr {cursor : Cursor} {m n : Nat} (hm : cursor.rest.length < m) (hn : cursor.rest.length < n) :
    fromCursor cursor m = fromCursor cursor n := by
  induction m generalizing cursor n with
  | zero => exact absurd hm (Nat.not_lt_zero _)
  | succ m ih =>
    obtain ⟨n, rfl⟩ : ∃ k, n = k + 1 := ⟨n - 1, by omega⟩
    obtain ⟨l, cs⟩ := cursor
    have skipped := (Scan.isBehind_skipBlanks false l cs).suffix.length_le
    cases scanned : scanToken (skipBlanks false l cs) with
    | error e =>
      rw [fromCursor, fromCursor]
      dsimp only
      rw [scanned]
    | ok found =>
      obtain ⟨t, next⟩ := found
      by_cases ends : t = .endOfInput
      · rw [fromCursor, fromCursor]
        dsimp only
        rw [scanned, ends]
      · have shorter := length_scanToken scanned ends
        dsimp only at hm hn
        have later : fromCursor next m = fromCursor next n := ih (by omega) (by omega)
        rw [fromCursor_token rfl scanned ends, fromCursor_token rfl scanned ends, later]

/-- What is scanned behind a cursor. -/
def ofCursor (cursor : Cursor) : Scanned := fromCursor cursor (cursor.rest.length + 1)

/-- Some tokens, and what is scanned behind them. -/
def behind (ts : List Located) (more : Scanned) : Scanned := { more with tokens := ts ++ more.tokens }

theorem ofCursor_end {l' : Location} (skipped : skipBlanks false l cs = ⟨l', []⟩) :
    ofCursor ⟨l, cs⟩ = ⟨[⟨.endOfInput, l'⟩], none⟩ := by
  rw [ofCursor, fromCursor]
  dsimp only
  rw [skipped]
  rfl

theorem ofCursor_nil (l : Location) : ofCursor ⟨l, []⟩ = ⟨[⟨.endOfInput, l⟩], none⟩ := ofCursor_end rfl

theorem ofCursor_error (skipped : skipBlanks false l cs = here) (scanned : scanToken here = .error e) :
    ofCursor ⟨l, cs⟩ = ⟨[], some e⟩ := by
  rw [ofCursor, fromCursor]
  dsimp only
  rw [skipped, scanned]

theorem ofCursor_token (skipped : skipBlanks false l cs = here) (scanned : scanToken here = .ok (t, next))
    (inside : t ≠ .endOfInput) : ofCursor ⟨l, cs⟩ = (ofCursor next).behind [⟨t, here.location⟩] := by
  have front := (Scan.isBehind_skipBlanks false l cs).suffix.length_le
  rw [skipped] at front
  have shorter := length_scanToken scanned inside
  have enough : fromCursor next cs.length = ofCursor next := fromCursor_congr (by omega) (Nat.lt_succ_self _)
  rw [ofCursor, fromCursor_token skipped scanned inside, enough]
  rfl

/-- Blanks in front do not matter. -/
theorem ofCursor_congr {l' : Location} {cs' : List Char} (same : skipBlanks false l cs = skipBlanks false l' cs') :
    ofCursor ⟨l, cs⟩ = ofCursor ⟨l', cs'⟩ := by
  generalize here : skipBlanks false l' cs' = there at same
  obtain ⟨l₀, rest⟩ := there
  cases rest with
  | nil => rw [ofCursor_end same, ofCursor_end here]
  | cons c rest =>
    cases scanned : scanToken ⟨l₀, c :: rest⟩ with
    | error e => rw [ofCursor_error same scanned, ofCursor_error here scanned]
    | ok found =>
      have inside : found.1 ≠ .endOfInput := Scan.inside_tokenFrom scanned
      rw [ofCursor_token same scanned inside, ofCursor_token here scanned inside]

/-- What becomes of the tokens of a text when it goes on: they stay, and others may follow behind them; there is a fault
behind them in any case; or there is a string, which may be closed. -/
inductive Continues (l : Location) (cs : List Char) : Prop where
  | whole (ts : List Located) (l' : Location) (inside : ∀ t ∈ ts, t.token ≠ .endOfInput)
    (scans : ∀ ds, ofCursor ⟨l, cs ++ ds⟩ = (ofCursor ⟨l', ds⟩).behind ts)
  | broken (ts : List Located) {e : ReadError} (inside : ∀ t ∈ ts, t.token ≠ .endOfInput) (fault : e.cause.place = .word)
    (scans : ∀ ds, ofCursor ⟨l, cs ++ ds⟩ = ⟨ts, some e⟩)
  | inString (ts : List Located) (s : String) (l₀ l₁ l' : Location) (inside : ∀ t ∈ ts, t.token ≠ .endOfInput)
    (now : ofCursor ⟨l, cs⟩ = ⟨ts, some ⟨.unterminatedString, l'⟩⟩)
    (front : ∀ ds, ∃ more, ofCursor ⟨l, cs ++ ds⟩ = behind ts more)
    (closed : ∀ ds, ofCursor ⟨l, cs ++ '\x22' :: ds⟩ = (ofCursor ⟨l₁, ds⟩).behind (ts ++ [⟨.str s, l₀⟩]))

/-- One token more in front. -/
theorem Continues.cons {l' : Location} {rest : List Char} {t : Located} (inside : t.token ≠ .endOfInput)
    (first : ∀ ds, ofCursor ⟨l, cs ++ ds⟩ = (ofCursor ⟨l', rest ++ ds⟩).behind [t]) (h : Continues l' rest) :
    Continues l cs := by
  cases h with
  | whole ts l' all scans =>
    refine .whole (t :: ts) l' (List.forall_mem_cons.2 ⟨inside, all⟩) fun ds => ?_
    rw [first, scans]
    rfl
  | broken ts all fault scans =>
    refine .broken (t :: ts) (List.forall_mem_cons.2 ⟨inside, all⟩) fault fun ds => ?_
    rw [first, scans]
    rfl
  | inString ts s l₀ l₁ l' all now front closed =>
    refine .inString (t :: ts) s l₀ l₁ l' (List.forall_mem_cons.2 ⟨inside, all⟩) ?_ (fun ds => ?_) fun ds => ?_
    · have here := first []
      rw [List.append_nil, List.append_nil, now] at here
      exact here
    · obtain ⟨more, scanned⟩ := front ds
      exact ⟨more, by rw [first, scanned]; rfl⟩
    · rw [first, closed]
      rfl

/-- **The tokens of whole lines stay** when the text goes on, unless a string goes on. -/
theorem continues (l : Location) (cs : List Char) (lines : WholeLines cs) : Continues l cs := by
  induction length : cs.length using Nat.strong_induction_on generalizing l cs with
  | h n ih =>
    have skipped := Scan.skipBlanks_followed false l lines fun _ => rfl
    have ink := Scan.notBlank_skipBlanks false l cs
    have left := (Scan.isBehind_skipBlanks false l cs).suffix
    generalize skipBlanks false l cs = here at skipped ink left
    obtain ⟨l₀, rest⟩ := here
    cases rest with
    | nil => exact .whole [] l₀ (fun _ h => nomatch h) fun ds => ofCursor_congr (skipped ds)
    | cons c rest =>
      have stands (ds : List Char) : skipBlanks false l (cs ++ ds) = ⟨l₀, c :: (rest ++ ds)⟩ := skipped ds
      cases Scan.continues_tokenFrom (l := l₀) (lines.suffix left) (ink c rfl) with
      | @settled r finds same =>
        cases r with
        | error e =>
          exact .broken [] (fun _ h => nomatch h) finds fun ds => ofCursor_error (stands ds) (same ds)
        | ok found =>
          obtain ⟨t, next⟩ := found
          have inside : t ≠ .endOfInput := finds
          have behind : next.rest <:+ rest := by
            simpa [Cursor.followed] using (Scan.isBehind_tokenFrom (same [])).suffix
          have shorter : next.rest.length < n := by
            have := behind.length_le
            have := left.length_le
            rw [List.length_cons] at this
            omega
          refine .cons (t := ⟨t, l₀⟩) inside (fun ds => ?_) (ih _ shorter next.location next.rest
            ((lines.suffix left).tail.suffix behind) rfl)
          exact ofCursor_token (stands ds) (same ds) inside
      | @inString l' l₁ s now closed =>
        refine .inString [] s l₀ l₁ l' (fun _ h => nomatch h) ?_ (fun ds => ⟨ofCursor ⟨l, cs ++ ds⟩, rfl⟩) fun ds => ?_
        · have here := stands []
          rw [List.append_nil] at here
          exact ofCursor_error here now
        · exact ofCursor_token (stands _) (closed ds) nofun

end Scanned

end TwinLisp
