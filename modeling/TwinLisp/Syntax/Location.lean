/-!
# Source locations

A location is a line and a column, both counted from one. Columns count characters: a tab or a
carriage return is one column, and only a line feed starts a line. The location `0:0` stands for
"unknown", which is what a form that no reader made carries.

## Main statements

* `Location.orElse_self`, `Location.orElse_assoc`: falling back is idempotent and associative.
-/

namespace TwinLisp

/-- A position in source text. -/
structure Location where
  /-- The line, from one; zero if unknown. -/
  line : Nat
  /-- The column, from one; zero if unknown. -/
  column : Nat
  deriving DecidableEq, Repr

namespace Location

/-- The location of something that stands nowhere in a text. -/
def unknown : Location := ⟨0, 0⟩

instance : Inhabited Location := ⟨unknown⟩

/-- The location of the first character of a text. -/
def start : Location := ⟨1, 1⟩

/-- Whether the location points into a text. -/
def isKnown (l : Location) : Bool := l.line != 0

/-- `l` if it is known, and `fallback` otherwise. -/
def orElse (l fallback : Location) : Location := if l.isKnown then l else fallback

/-- The location as `line:column`. -/
def text (l : Location) : String := s!"{l.line}:{l.column}"

/-- The location of the character that follows `c`, when `c` stands at `l`. -/
def after (l : Location) (c : Char) : Location :=
  if c == '\n' then ⟨l.line + 1, 1⟩ else ⟨l.line, l.column + 1⟩

@[simp] theorem isKnown_unknown : unknown.isKnown = false := rfl

@[simp] theorem isKnown_start : start.isKnown = true := rfl

@[simp] theorem orElse_unknown (l : Location) : unknown.orElse l = l := rfl

@[simp] theorem orElse_self (l : Location) : l.orElse l = l := by
  unfold orElse; split <;> rfl

theorem orElse_of_isKnown {l : Location} (h : l.isKnown = true) (fallback : Location) :
    l.orElse fallback = l := by
  simp [orElse, h]

theorem orElse_assoc (a b c : Location) : (a.orElse b).orElse c = a.orElse (b.orElse c) := by
  by_cases h : a.isKnown = true <;> simp [orElse, h]

end Location

end TwinLisp
