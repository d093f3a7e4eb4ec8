/-!
# Written texts

How strings and characters are written so that the reader takes them back. A string stands in double
quotes, and five characters in it are escaped by a backslash; everything else, other control
characters included, stands for itself. A character follows a backslash, and six characters that
would be hard to see are written by name.

In a report, a text that stands inside another is put in quotes, too, and there every character that
could not be seen is written as an escape: the usual ones by letter, other control characters by their
code.
-/

namespace TwinLisp.Text

/-! ### Literals -/

/-- A character as it stands inside a string literal. -/
def escapeChar (c : Char) : List Char :=
  match c with
  | '\x22' => ['\\', '\x22']
  | '\\' => ['\\', '\\']
  | '\n' => ['\\', 'n']
  | '\t' => ['\\', 't']
  | '\r' => ['\\', 'r']
  | _ => [c]

/-- A string literal. -/
def quoteString (s : String) : String :=
  String.ofList ('\x22' :: (s.toList.flatMap escapeChar ++ ['\x22']))

/-- A character literal. -/
def quoteChar (c : Char) : String :=
  match c with
  | '\n' => "\\newline"
  | ' ' => "\\space"
  | '\t' => "\\tab"
  | '\r' => "\\return"
  | '\x08' => "\\backspace"
  | '\x0c' => "\\formfeed"
  | _ => String.ofList ['\\', c]

/-! ### Reports -/

/-- A character as it is seen between quotes. -/
def visibleChar (c : Char) : List Char :=
  match c with
  | '\x22' => ['\\', '\x22']
  | '\\' => ['\\', '\\']
  | '\n' => ['\\', 'n']
  | '\r' => ['\\', 'r']
  | '\t' => ['\\', 't']
  | '\x00' => ['\\', '0']
  | c =>
    if c.toNat < 0x20 || c.toNat == 0x7f then
      '\\' :: 'u' :: '\x7b' :: Nat.toDigits 16 c.toNat ++ ['\x7d']
    else [c]

/-- A text in quotes, with everything in it to be seen. -/
def visible (s : String) : String :=
  "\"" ++ String.ofList (s.toList.flatMap visibleChar) ++ "\""

end TwinLisp.Text
