import TwinLisp.Proofs.Syntax.Positions
import TwinLisp.Report.Excerpt

/-!
# Carets under characters

A failure that is blamed on a character of the source shows the line of that character, and the caret stands under it:
there is one blank for each character of the line before it, and a tab for a tab.

## Main statements

* `Fault.report_located`: what a failure that is blamed on a character shows.
* `Scanned.positions_exact`: tokens are located where they are written, and failures that are blamed on them show that.
-/

namespace TwinLisp

open Text (firstLine lastLine)

namespace Excerpt

/-- What stands under the characters of a line in front of a caret. -/
def blanks (cs : List Char) : List Char := cs.map fun c => if c == '\t' then '\t' else ' '

theorem padding_append (cs ds : List Char) :
    padding cs.length (String.ofList (cs ++ ds)) = String.ofList (blanks cs) := by
  rw [padding, String.toList_ofList, List.take_left, blanks]

end Excerpt

namespace Fault

/-- **A failure that is blamed on a character** shows its line, and a caret under the character. -/
theorem report_located (f : Fault) {source : String} {before after : List Char} {c : Char}
    (written : source.toList = before ++ c :: after) (inLine : c ≠ '\n') (origin : String) :
    (f.located (.behind before)).report source origin =
      origin ++ ":" ++ (Location.behind before).text ++ ": " ++ f.message ++ "\n" ++
        (toString (Location.behind before).line ++ " | " ++
          String.ofList (lastLine before ++ firstLine (c :: after)) ++ "\n" ++
          String.ofList (List.replicate (toString (Location.behind before).line).length ' ') ++ " | " ++
          String.ofList (Excerpt.blanks (lastLine before)) ++ "^") := by
  have line : (Text.lines source)[(Location.behind before).line - 1]? =
      some (String.ofList (lastLine before ++ firstLine (c :: after))) := by
    rw [Text.lines, List.getElem?_map, written]
    exact congrArg (Option.map _) (Text.getElem?_linesFrom (by simp) before inLine after)
  have blamed : (f.located (.behind before)).location = some (.behind before) := by simp [located]
  have wording : (f.located (.behind before)).message = f.message := by simp [located, message]
  have column : (Location.behind before).column - 1 = (lastLine before).length := rfl
  rw [report, blamed, Option.filter_some_pos (by simp)]
  dsimp only
  rw [line, wording]
  dsimp only
  rw [Excerpt.marked, column, Excerpt.padding_append]

end Fault

namespace Scanned

/-- **Positions are exact from the scanner to the caret.** A text is laid out in the tokens that are scanned in it, each
located where its first character is written; thirty-two bits are enough for lines and columns in texts of fewer than
that many characters; and a failure that is blamed on a token shows the line of its first character, with the caret
under that character. -/
theorem positions_exact (source : String) :
    ∃ ws : List Lexeme, Lexeme.Lays [] source.toList ws (ofText source) ∧
      ∀ w ∈ ws, ∃ rest, source.toList = w.before ++ w.first :: (w.others ++ rest) ∧
        w.location = ⟨w.before.count '\n' + 1, (lastLine w.before).length + 1⟩ ∧
        (source.length < UInt32.size → w.location.line < UInt32.size ∧ w.location.column < UInt32.size) ∧
        ∀ (f : Fault) (origin : String), (f.located w.location).report source origin =
          origin ++ ":" ++ w.location.text ++ ": " ++ f.message ++ "\n" ++
            (toString w.location.line ++ " | " ++
              String.ofList (lastLine w.before ++ firstLine (w.first :: (w.others ++ rest))) ++ "\n" ++
              String.ofList (List.replicate (toString w.location.line).length ' ') ++ " | " ++
              String.ofList ((lastLine w.before).map fun c => if c == '\t' then '\t' else ' ') ++ "^") := by
  obtain ⟨ws, lays⟩ := lays_ofChars source.toList
  refine ⟨ws, lays, fun w hw => ?_⟩
  obtain ⟨⟨rest, written⟩, ink⟩ := lays.written hw
  rw [List.nil_append, Lexeme.through, List.append_assoc, List.cons_append] at written
  have inLine : w.first ≠ '\n' := by
    intro feed
    rw [feed] at ink
    cases ink
  refine ⟨rest, written, rfl, fun few => ?_, fun f origin => f.report_located written inLine origin⟩
  have inside : w.before.length < source.length := by
    rw [← String.length_toList, written]
    simp
  have line := Location.line_behind_le w.before
  have column := Location.column_behind_le w.before
  rw [Lexeme.location]
  omega

end Scanned

end TwinLisp
