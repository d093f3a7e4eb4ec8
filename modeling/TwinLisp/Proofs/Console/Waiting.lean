import TwinLisp.Console.Dialog
import TwinLisp.Proofs.Syntax.Completing

/-!
# Waiting for more lines

A dialog tells by the wording of a failure whether to wait for more lines. For lines that cannot be read this is right
but in two cases: a mark without a form behind it is reported at once although a form may follow, and an open string is
waited for although the tokens in front of it may not go together. Nothing is evaluated while a dialog waits for a text
that cannot be read.

## Main definitions

* `ReadError.Cause.SoundsUnfinished`: the causes whose wording tells that something is missing.

## Main statements

* `Dialog.isUnfinished_message_iff`: which causes these are.
* `Dialog.feed_of_unreadable`: what a dialog does about lines that cannot be read.
* `Dialog.waits_iff_completable`: it waits for what can be completed, but for the two cases.
-/

namespace TwinLisp

/-! ### How texts begin -/

/-- A text begins with another one. -/
def Opens (a s : String) : Prop := a.toList <+: s.toList

instance (a s : String) : Decidable (Opens a s) := by
  unfold Opens
  infer_instance

theorem Opens.self (a : String) : Opens a a := List.prefix_rfl

theorem Opens.append {a s : String} (h : Opens a s) (r : String) : Opens a (s ++ r) := by
  unfold Opens
  rw [String.toList_append]
  exact h.trans (List.prefix_append _ _)

/-- Texts that begin with `a` do not begin with `b`. -/
theorem Opens.startsWith_eq_false {a b s : String} (h : Opens a s) (differ : ¬ Opens a b ∧ ¬ Opens b a) :
    s.startsWith b = false := by
  rw [String.startsWith_string_eq_false_iff]
  intro other
  obtain begins | begins := List.prefix_or_prefix_of_prefix h other
  · exact differ.1 begins
  · exact differ.2 begins

/-- The causes whose wording is that of a text to which something is missing. -/
def ReadError.Cause.SoundsUnfinished : ReadError.Cause → Prop
  | .endAfterDispatch | .unterminatedEscape | .unterminatedString | .unterminatedCodePoint | .unexpectedEnd
  | .unterminatedForm _ => True
  | _ => False

namespace Dialog

/-! ### The wording -/

theorem isUnfinished_of_opens {m : String} (h : Opens "Unterminated" m ∨ Opens "Unexpected end of input" m) :
    isUnfinished m = true := by
  rw [isUnfinished, Bool.or_eq_true, String.startsWith_string_iff, String.startsWith_string_iff]
  exact h

theorem isUnfinished_eq_false {a m : String} (h : Opens a m)
    (differ : ¬ Opens a "Unterminated" ∧ ¬ Opens "Unterminated" a)
    (differ' : ¬ Opens a "Unexpected end of input" ∧ ¬ Opens "Unexpected end of input" a) :
    isUnfinished m = false := by
  rw [isUnfinished, h.startsWith_eq_false differ, h.startsWith_eq_false differ']
  rfl

/-- **The wording tells six causes apart from all others.** -/
theorem isUnfinished_message_iff (c : ReadError.Cause) : isUnfinished c.message = true ↔ c.SoundsUnfinished := by
  cases c
  case endAfterDispatch => exact iff_of_true (isUnfinished_of_opens (.inr (by decide))) trivial
  case unterminatedEscape => exact iff_of_true (isUnfinished_of_opens (.inl (by decide))) trivial
  case unterminatedString => exact iff_of_true (isUnfinished_of_opens (.inl (by decide))) trivial
  case unterminatedCodePoint => exact iff_of_true (isUnfinished_of_opens (.inl (by decide))) trivial
  case unexpectedEnd => exact iff_of_true (isUnfinished_of_opens (.inr (by decide))) trivial
  case unterminatedForm close =>
    have opens : Opens "Unterminated" "Unterminated form; expected '" := by decide
    exact iff_of_true (isUnfinished_of_opens (.inl ((opens.append _).append _))) trivial
  all_goals
    refine iff_of_false (Bool.eq_false_iff.1 ?_) id
    first
      | exact isUnfinished_eq_false (.self _) (by decide) (by decide)
      | exact isUnfinished_eq_false (.append (.self _) _) (by decide) (by decide)
      | exact isUnfinished_eq_false (.append (.append (.self _) _) _) (by decide) (by decide)

/-! ### Lines that cannot be read -/

variable {d : Dialog} {fuel : Nat} {line : String} {e : ReadError}

/-- What a dialog reads when a line is typed in. -/
def source (d : Dialog) (line : String) : String := d.pending ++ line ++ "\n"

theorem wholeLines_source (d : Dialog) (line : String) : WholeLines (d.source line).toList := by
  intro c last
  have ends : (d.source line).toList = (d.pending ++ line).toList ++ ['\n'] := String.toList_append
  rw [ends, List.getLast?_concat] at last
  exact (Option.some.inj last).symm

theorem source_ne_empty (d : Dialog) (line : String) : d.source line ≠ "" := by
  intro none
  have ends : (d.source line).toList = (d.pending ++ line).toList ++ ['\n'] := String.toList_append
  rw [none] at ends
  simp at ends

theorem stop_of_readAll {s : String} (h : readAll s = .error e) : (readChars s.toList).stop = some e := by
  unfold readAll at h
  dsimp only at h
  split at h
  · next stop =>
    cases h
    exact stop
  · cases h

/-- Blank lines can be read. -/
theorem not_blank_of_unreadable {s : String} (h : readAll s = .error e) : s.toList.all Text.isBlank = false := by
  have stop := stop_of_readAll h
  by_contra blank
  obtain ⟨l, skipped⟩ := Scan.skipBlanks_of_blank (List.all_eq_true.1 (eq_true_of_ne_false blank)) .start
  rw [readChars_eq, Scanned.ofCursor_end skipped] at stop
  cases stop

theorem evaluate_of_unreadable {s : String} (h : readAll s = .error e) (engine : Engine) (fuel : Nat) :
    engine.evaluate fuel s = (.error (.fault (.ofReadError e)), engine) := by
  have stops : (engine.evaluator fuel).evaluateText s engine.session =
      .error (.fault (.ofReadError e)) engine.session := by
    unfold Evaluator.evaluateText Evaluator.forms
    rw [h]
    rfl
  rw [Engine.evaluate, Engine.perform, stops]

/-- **Nothing is evaluated of lines that cannot be read.** If the failure sounds as if something were missing, they are
kept; otherwise it is reported, and they are dropped. -/
theorem feed_of_unreadable (h : readAll (d.source line) = .error e) :
    d.feed fuel line = if isUnfinished e.message
      then (⟨d.engine.takeOutput.1, ""⟩, ⟨d.engine.takeOutput.2, d.source line⟩)
      else (⟨d.engine.takeOutput.1, (Stop.fault (.ofReadError e)).report (d.source line) origin ++ "\n"⟩,
        ⟨d.engine.takeOutput.2, ""⟩) := by
  have waits : waitsAfter (.fault (.ofReadError e)) = isUnfinished e.message := by
    unfold waitsAfter Fault.ofReadError Fault.located
    dsimp only
    split <;> rfl
  unfold feed
  dsimp only
  rw [← source, not_blank_of_unreadable h, evaluate_of_unreadable h]
  dsimp only
  rw [waits]
  rfl

theorem pending_feed (h : readAll (d.source line) = .error e) :
    (d.feed fuel line).2.pending = if isUnfinished e.message then d.source line else "" := by
  rw [feed_of_unreadable h]
  split <;> rfl

/-- The dialog waits for more lines exactly if the failure sounds as if something were missing. -/
theorem waits_iff (h : readAll (d.source line) = .error e) :
    (d.feed fuel line).2.pending ≠ "" ↔ e.cause.SoundsUnfinished := by
  rw [pending_feed h, ← isUnfinished_message_iff]
  change _ ↔ isUnfinished e.message = true
  split
  · next unfinished => exact iff_of_true (source_ne_empty d line) unfinished
  · next final => exact iff_of_false (fun waits => waits rfl) final

theorem soundsUnfinished_of_openString {c : ReadError.Cause} (h : c.place = .openString) : c.SoundsUnfinished := by
  cases c <;> trivial

/-- **A dialog waits for more lines exactly if more text can make them readable**, when they cannot be read, unless a
mark has no form behind it, or an open string stands behind tokens that do not go together. -/
theorem waits_iff_completable (h : readAll (d.source line) = .error e) (formed : ∀ name, e.cause ≠ .missingForm name)
    (together : e.cause.place = .openString →
      ∃ stack, (Scanned.ofText (d.source line)).tokens.foldlM advance [] = .ok stack) :
    (d.feed fuel line).2.pending ≠ "" ↔ Completable (d.source line).toList := by
  rw [waits_iff h]
  cases prospects (wholeLines_source d line) (stop_of_readAll h) with
  | final place never =>
    refine iff_of_false (fun sounds => ?_) never
    generalize e.cause = cause at place sounds
    cases cause <;> simp_all [ReadError.Cause.place, ReadError.Cause.SoundsUnfinished]
  | openForm place mended =>
    refine iff_of_true ?_ mended
    generalize e.cause = cause at place formed
    cases cause <;> simp_all [ReadError.Cause.place, ReadError.Cause.SoundsUnfinished]
  | openString place iff => exact iff_of_true (soundsUnfinished_of_openString place) (iff.2 (together place))

/-- A mark without a form behind it is reported at once, although a form may follow. -/
theorem drops_of_missingForm {name : String} (h : readAll (d.source line) = .error e)
    (missing : e.cause = .missingForm name) :
    (d.feed fuel line).2.pending = "" ∧ Completable (d.source line).toList := by
  refine ⟨by_contra fun waits => ?_,
    completable (wholeLines_source d line) (stop_of_readAll h) (by rw [missing, ReadError.Cause.place])⟩
  have sounds := (waits_iff h).1 waits
  rw [missing] at sounds
  exact sounds

/-- A string behind tokens that do not go together is waited for, although nothing mends them. -/
theorem waits_of_openString (h : readAll (d.source line) = .error e) (unfinished : e.cause.place = .openString)
    (apart : ∀ stack, (Scanned.ofText (d.source line)).tokens.foldlM advance [] ≠ .ok stack) :
    (d.feed fuel line).2.pending = d.source line ∧ ¬ Completable (d.source line).toList := by
  have sounds := (isUnfinished_message_iff e.cause).2 (soundsUnfinished_of_openString unfinished)
  refine ⟨(pending_feed h).trans (if_pos sounds), fun mended => ?_⟩
  obtain ⟨stack, together⟩ :=
    (completable_iff_of_openString (wholeLines_source d line) (stop_of_readAll h) unfinished).1 mended
  exact apart stack together

end Dialog

end TwinLisp
