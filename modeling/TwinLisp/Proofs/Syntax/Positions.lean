import Mathlib.Data.List.DropRight
import TwinLisp.Proofs.Syntax.Scanning
import TwinLisp.Text.Lines

/-!
# Where tokens stand

A text is laid out in tokens with gaps between them. The location that the scanner gives a token is that of its first
character: the line is told by the line feeds before it, and the column by the characters behind the last of those.

What follows the last line feed is the beginning of the line around the place. The rest of that line is up to the next
line feed, or up to the carriage return in front of it.

## Main definitions

* `Text.firstLine` is the line that a text begins with, and `Text.lastLine` the one in which it ends.
* `Location.behind`: the location of what follows a text.
* `Lexeme`: a token where it is written, and `Lexeme.Lays`: how a text is laid out.

## Main statements

* `Text.getElem?_linesFrom`: the line around a place consists of the last line before it and the first line behind it.
* `Location.foldl_after_start`: walking over a text leads to the location behind it.
* `Scanned.lays_ofChars`: a text is laid out in the tokens that are scanned in it.
-/

namespace TwinLisp.Text

/-- The line that a text begins with, without what ends it: a line feed, or a carriage return and a line feed. -/
def firstLine : List Char → List Char
  | [] => []
  | '\n' :: _ => []
  | '\r' :: '\n' :: _ => []
  | c :: cs => c :: firstLine cs

/-- The line in which a text ends. -/
def lastLine (cs : List Char) : List Char := cs.rtakeWhile (· != '\n')

theorem lastLine_of_notMem {cs : List Char} (h : '\n' ∉ cs) : lastLine cs = cs := by
  rw [lastLine, List.rtakeWhile_eq_self_iff]
  intro c hc
  simpa using ne_of_mem_of_not_mem hc h

theorem lastLine_concat (cs : List Char) (c : Char) :
    lastLine (cs ++ [c]) = if c = '\n' then [] else lastLine cs ++ [c] := by
  by_cases feed : c = '\n' <;> simp [lastLine, feed]

theorem lastLine_append_feed (cs ds : List Char) : lastLine (cs ++ '\n' :: ds) = lastLine ds := by
  induction ds using List.reverseRecOn with
  | nil => rw [lastLine_concat, if_pos rfl, lastLine, List.rtakeWhile_nil]
  | append_singleton ds d ih =>
    rw [lastLine_concat, ← ih, ← lastLine_concat, List.append_assoc, List.cons_append]

/-- A line goes on with what is left of it in the text. -/
theorem head_linesFrom {c : Char} (inLine : c ≠ '\n') (read cs : List Char) :
    (linesFrom (c :: read) cs)[0]? = some (read.reverse ++ firstLine (c :: cs)) := by
  induction cs generalizing c read with
  | nil => simp [linesFrom, firstLine]
  | cons d cs ih =>
    rw [linesFrom]
    by_cases feed : d = '\n'
    · subst feed
      by_cases returned : c = '\r'
      · subst returned
        simp [dropReturn, firstLine]
      · simp [dropReturn, firstLine, returned]
    · simp [feed, ih feed, firstLine]

/-- **The line around a place in a text** consists of the last line before it and the first line behind it. -/
theorem getElem?_linesFrom {read : List Char} (started : '\n' ∉ read) (before : List Char) {c : Char}
    (inLine : c ≠ '\n') (after : List Char) : (linesFrom read (before ++ c :: after))[before.count '\n']? =
      some (lastLine (read.reverse ++ before) ++ firstLine (c :: after)) := by
  induction before generalizing read with
  | nil =>
    rw [List.nil_append, linesFrom, if_neg (by simpa using inLine), List.append_nil,
      lastLine_of_notMem (by simpa using started)]
    exact head_linesFrom inLine read after
  | cons b before ih =>
    rw [List.cons_append, linesFrom]
    by_cases feed : b = '\n'
    · subst feed
      simpa [lastLine_append_feed] using @ih [] (by simp)
    · rw [if_neg (by simpa using feed), List.count_cons_of_ne feed, ih (by simp [Ne.symm feed, started])]
      simp

end TwinLisp.Text


namespace TwinLisp

open Text (isBlank lastLine)

/-! ### Lines and columns -/

namespace Location

/-- The location of what follows the text `before`: one line for each line feed in it, and one column for each
character behind the last of them. -/
def behind (before : List Char) : Location := ⟨before.count '\n' + 1, (lastLine before).length + 1⟩

theorem behind_concat (before : List Char) (c : Char) : behind (before ++ [c]) = (behind before).after c := by
  by_cases feed : c = '\n' <;> simp [behind, after, Text.lastLine_concat, feed]

/-- **Walking over more text leads to the location behind it.** -/
theorem foldl_after_behind (before cs : List Char) : cs.foldl after (behind before) = behind (before ++ cs) := by
  induction cs generalizing before with
  | nil => rw [List.append_nil]; rfl
  | cons c cs ih => rw [List.foldl_cons, ← behind_concat, ih, List.append_assoc, List.singleton_append]

@[simp] theorem isKnown_behind (before : List Char) : (behind before).isKnown = true := by simp [behind, isKnown]

theorem line_behind_le (before : List Char) : (behind before).line ≤ before.length + 1 :=
  Nat.succ_le_succ List.count_le_length

theorem column_behind_le (before : List Char) : (behind before).column ≤ before.length + 1 :=
  Nat.succ_le_succ (List.rtakeWhile_suffix _ _).length_le

end Location

/-! ### What is found where a character stands -/

namespace ReadError

/-- Where in a text a fault lies. -/
inductive Place where
  /-- In a token, and no matter what follows. -/
  | word
  /-- In a token that the end of the text breaks off. -/
  | brokenWord
  /-- In a string that goes on to the end of the text. -/
  | openString
  /-- Between tokens that do not go together. -/
  | nesting
  /-- At the end of the text, where a form is not finished. -/
  | openForm
  deriving DecidableEq

/-- Where a fault lies that has this cause. -/
def Cause.place : Cause → Place
  | .endAfterDispatch | .missingCharacter | .unterminatedEscape | .unterminatedCodePoint => .brokenWord
  | .unterminatedString => .openString
  | .unexpectedToken _ | .nestedTooDeeply | .oddMap => .nesting
  | .unexpectedEnd | .unterminatedForm _ | .missingForm _ => .openForm
  | _ => .word

end ReadError

namespace Scan

variable {P Q : ReadError.Cause → Prop} {l : Location} {cs : List Char} {t : Token} {next : Cursor}

/-- There is a token, which is not the end of the text, or else a fault with a cause that satisfies `P`. -/
def Finds (P : ReadError.Cause → Prop) : Except ReadError (Token × Cursor) → Prop
  | .ok found => found.1 ≠ .endOfInput
  | .error e => P e.cause

theorem Finds.imp {r : Except ReadError (Token × Cursor)} (h : Finds P r) (hq : ∀ c, P c → Q c) : Finds Q r := by
  cases r with
  | ok found => exact h
  | error e => exact hq _ h

theorem finds_numberToken (cs : List Char) (cursor : Cursor) :
    Finds (·.place = .word) (settle (Literal.numberToken cs) cursor) := by
  unfold Literal.numberToken
  dsimp only
  repeat' split
  all_goals simp [settle, fault, Finds, ReadError.Cause.place]

theorem finds_characterToken (cs : List Char) (cursor : Cursor) :
    Finds (·.place = .word) (settle (Literal.characterToken cs) cursor) := by
  unfold Literal.characterToken
  dsimp only
  repeat' split
  all_goals simp [settle, fault, Finds, ReadError.Cause.place]

theorem finds_specialValue (name : String) (cursor : Cursor) :
    Finds (·.place = .word) (settle (specialValue name) cursor) := by
  unfold specialValue
  repeat' split
  all_goals simp [settle, fault, Finds, ReadError.Cause.place]

theorem inside_nameToken (name : List Char) : nameToken name ≠ .endOfInput := by
  unfold nameToken
  split <;> nofun

theorem finds_stringRest (state : StringState) (l : Location) (read cs : List Char) :
    Finds (fun _ => True) (stringRest state l read cs) := by
  induction cs generalizing state l read with
  | nil => trivial
  | cons c cs ih =>
    rw [stringRest.eq_def]
    cases state <;> grind [Finds]

theorem finds_dispatchToken (l : Location) (cs : List Char) :
    Finds (fun c => c.place = .word ∨ cs = []) (dispatchToken l cs) := by
  unfold dispatchToken
  split
  case h_1 => exact .inr rfl
  case h_5 => exact (finds_specialValue _ _).imp fun _ => .inl
  case h_6 => exact .inl rfl
  all_goals nofun

theorem finds_characterLiteral (l : Location) (cs : List Char) :
    Finds (fun c => c.place = .word ∨ cs = []) (characterLiteral l cs) := by
  unfold characterLiteral
  split
  · exact .inr rfl
  split
  · exact (finds_characterToken _ _).imp fun _ => .inl
  · nofun

theorem finds_keywordLiteral (l : Location) (cs : List Char) : Finds (·.place = .word) (keywordLiteral l cs) := by
  unfold keywordLiteral
  dsimp only
  split
  · rfl
  · nofun

theorem finds_numberLiteral (first : Char) (l : Location) (cs : List Char) :
    Finds (·.place = .word) (numberLiteral first l cs) := finds_numberToken _ _

theorem finds_signedLiteral (sign : Char) (l : Location) (cs : List Char) :
    Finds (·.place = .word) (signedLiteral sign l cs) := by
  unfold signedLiteral
  split
  · split
    · exact finds_numberLiteral _ _ _
    · nofun
  · nofun

/-- A token that starts with a character is not the end of the text. -/
theorem inside_tokenFrom {c : Char} (h : tokenFrom l c cs = .ok (t, next)) : t ≠ .endOfInput := by
  have found : Finds (fun _ => True) (tokenFrom l c cs) := by
    unfold tokenFrom
    dsimp only
    split
    case h_10 => split <;> nofun
    case h_11 => exact (finds_dispatchToken _ _).imp fun _ _ => trivial
    case h_12 => exact finds_stringRest _ _ _ _
    case h_13 => exact (finds_characterLiteral _ _).imp fun _ _ => trivial
    case h_14 => exact (finds_keywordLiteral _ _).imp fun _ _ => trivial
    case h_15 =>
      split
      · exact (finds_signedLiteral _ _ _).imp fun _ _ => trivial
      split
      · exact (finds_numberLiteral _ _ _).imp fun _ _ => trivial
      split
      · exact inside_nameToken _
      · trivial
    all_goals nofun
  rw [h] at found
  exact found

end Scan

/-! ### Texts as tokens with gaps -/

/-- A token where it is written. -/
structure Lexeme where
  /-- The text in front of it. -/
  before : List Char
  /-- Its first character. -/
  first : Char
  /-- Its other characters. -/
  others : List Char
  /-- What it is read as. -/
  token : Token

namespace Lexeme

/-- The text up to the end of a token. -/
def through (w : Lexeme) : List Char := w.before ++ w.first :: w.others

/-- The location of the first character of a token. -/
def location (w : Lexeme) : Location := .behind w.before

/-- A token with its location. -/
def located (w : Lexeme) : Located := ⟨w.token, w.location⟩

/-- Behind the text `read`, the text is laid out in tokens with gaps before, between and behind them, and this is what
scanning it gives: the tokens where they are written, and then the end of the text or a fault. -/
inductive Lays : (read text : List Char) → List Lexeme → Scanned → Prop where
  | whole {read gap : List Char} (separates : Scan.Separates [] gap) :
    Lays read gap [] ⟨[⟨.endOfInput, .behind (read ++ gap)⟩], none⟩
  | broken {read gap rest : List Char} {e : ReadError} (separates : Scan.Separates rest gap)
    (fault : scanToken ⟨.behind (read ++ gap), rest⟩ = .error e) : Lays read (gap ++ rest) [] ⟨[], some e⟩
  | token {read gap rest : List Char} {w : Lexeme} {ws : List Lexeme} {more : Scanned}
    (before : w.before = read ++ gap) (separates : Scan.Separates (w.first :: (w.others ++ rest)) gap)
    (ink : isBlank w.first = false) (inside : w.token ≠ .endOfInput)
    (scanned : scanToken ⟨w.location, w.first :: (w.others ++ rest)⟩ = .ok (w.token, ⟨.behind w.through, rest⟩))
    (lays : Lays w.through rest ws more) :
    Lays read (gap ++ w.first :: (w.others ++ rest)) (w :: ws) { more with tokens := w.located :: more.tokens }

/-- Each token of a text is written in it. -/
theorem Lays.written {read text : List Char} {ws : List Lexeme} {scanned : Scanned} (h : Lays read text ws scanned)
    {w : Lexeme} (hw : w ∈ ws) : (∃ rest, read ++ text = w.through ++ rest) ∧ isBlank w.first = false := by
  induction h with
  | whole => cases hw
  | broken => cases hw
  | @token read gap rest v ws more before separates ink inside scanned lays ih =>
    have together : read ++ (gap ++ v.first :: (v.others ++ rest)) = v.through ++ rest := by
      simp [through, before]
    rw [together]
    rcases List.mem_cons.1 hw with rfl | later
    · exact ⟨⟨rest, rfl⟩, ink⟩
    · exact ih later

end Lexeme

namespace Scanned

open Lexeme (Lays)

theorem lays_fromCursor {fuel : Nat} {read text : List Char} (enough : text.length < fuel) :
    ∃ ws, Lays read text ws (fromCursor ⟨.behind read, text⟩ fuel) := by
  induction fuel generalizing read text with
  | zero => exact absurd enough (Nat.not_lt_zero _)
  | succ fuel ih =>
    obtain ⟨gap, cut, location, separates⟩ := Scan.separates_skipBlanks false (.behind read) text
    have ink := Scan.notBlank_skipBlanks false (.behind read) text
    generalize skipped : Scan.skipBlanks false (.behind read) text = here at cut location separates ink
    obtain ⟨l, rest⟩ := here
    obtain rfl : l = .behind (read ++ gap) := location.trans (Location.foldl_after_behind read gap)
    dsimp only at cut separates ink
    subst cut
    cases rest with
    | nil =>
      rw [List.append_nil] at skipped ⊢
      rw [fromCursor]
      dsimp only
      rw [skipped]
      exact ⟨[], .whole separates⟩
    | cons c cs =>
      cases scanned : scanToken ⟨.behind (read ++ gap), c :: cs⟩ with
      | error e =>
        rw [fromCursor]
        dsimp only
        rw [skipped, scanned]
        exact ⟨[], .broken separates scanned⟩
      | ok found =>
        obtain ⟨t, next⟩ := found
        have inside : t ≠ .endOfInput := Scan.inside_tokenFrom scanned
        obtain ⟨others, rfl, moved⟩ := Scan.isBehind_tokenFrom scanned
        let w : Lexeme := ⟨read ++ gap, c, others, t⟩
        have reached : next = ⟨.behind w.through, next.rest⟩ := by
          rw [Lexeme.through, ← Location.foldl_after_behind, List.foldl_cons, ← moved]
        obtain ⟨ws, lays⟩ := @ih w.through next.rest (by simp at enough; omega)
        rw [fromCursor_token skipped scanned inside, reached]
        rw [reached] at scanned
        exact ⟨w :: ws, .token (w := w) rfl separates (ink c rfl) inside scanned lays⟩

/-- **A text is laid out in the tokens that are scanned in it.** -/
theorem lays_ofChars (cs : List Char) : ∃ ws, Lays [] cs ws (ofChars cs) :=
  lays_fromCursor (Nat.lt_succ_self _)

end Scanned

end TwinLisp
