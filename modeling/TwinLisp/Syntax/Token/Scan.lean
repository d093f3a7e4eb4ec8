import TwinLisp.Syntax.Literal
import TwinLisp.Text.Character

/-!
# Scanning tokens

From source text to tokens. Blanks, commas and comments (a semicolon up to the end of the line)
separate tokens; apart from that every character belongs to one. A token is as long as its class
allows, so `a'b#` is one name and `1.5x` one malformed number.

Scanning a whole text gives the tokens up to the first fault, and the fault. Without one the last
token is the end of the text.

## Main definitions

* `Cursor` is the unread text and the location of its first character.
* `skipBlanks` moves past everything that separates tokens.
* `scanToken` reads one token from a cursor that stands on it.
* `Scanned.ofText` scans a whole text.
-/

namespace TwinLisp

open TwinLisp.Text

/-- The unread part of a text. -/
structure Cursor where
  /-- The location of the first unread character. -/
  location : Location
  /-- The unread characters. -/
  rest : List Char

namespace Scan

/-- A fault noticed at the cursor. -/
def fault {α : Type} (cause : ReadError.Cause) (cursor : Cursor) : Except ReadError α :=
  .error ⟨cause, cursor.location⟩

/-! ### Character classes -/

/-- The marks that a name may start with besides letters. -/
def nameMarks : List Char :=
  ['!', '$', '%', '&', '*', '+', '-', '.', '/', '<', '=', '>', '?', '_']

/-- Whether a name may start with `c`. -/
def isNameStart (c : Char) : Bool := isAlphabetic c || nameMarks.contains c

/-- Whether `c` may stand inside a name. -/
def isNameChar (c : Char) : Bool :=
  isNameStart c || isAsciiDigit c || c == '\x27' || c == '#'

/-! ### Runs -/

/-- The longest run of characters with property `p`, and the cursor behind it. -/
def run (p : Char → Bool) (location : Location) : List Char → List Char × Cursor
  | [] => ([], ⟨location, []⟩)
  | c :: cs =>
    if p c then
      let (taken, cursor) := run p (location.after c) cs
      (c :: taken, cursor)
    else ([], ⟨location, c :: cs⟩)

/-- The longest run of characters that a number literal may continue with after `previous`: letters,
digits and points, and a sign directly after an exponent letter. -/
def numberRun (previous : Char) (location : Location) : List Char → List Char × Cursor
  | [] => ([], ⟨location, []⟩)
  | c :: cs =>
    let signed := (c == '+' || c == '-') && (previous == 'e' || previous == 'E')
    if isAsciiAlphanumeric c || c == '.' || signed then
      let (taken, cursor) := numberRun c (location.after c) cs
      (c :: taken, cursor)
    else ([], ⟨location, c :: cs⟩)

/-- Move past blanks, commas and comments; `inComment` says whether the text starts in one. -/
def skipBlanks (inComment : Bool) (location : Location) : List Char → Cursor
  | [] => ⟨location, []⟩
  | c :: cs =>
    if inComment then skipBlanks (c != '\n') (location.after c) cs
    else if isBlank c || c == ',' then skipBlanks false (location.after c) cs
    else if c == ';' then skipBlanks true (location.after c) cs
    else ⟨location, c :: cs⟩

/-! ### Strings -/

/-- Where a scanner stands inside a string literal. -/
inductive StringState where
  /-- Among ordinary characters. -/
  | plain
  /-- Behind a backslash. -/
  | escape
  /-- Inside the four digits of a code point: how many are read, and their value. -/
  | code (count value : Nat)

/-- The character that a backslash and `c` stand for. -/
def escaped? (c : Char) : Option Char :=
  match c with
  | 'n' => some '\n'
  | 't' => some '\t'
  | 'r' => some '\r'
  | '\\' => some '\\'
  | '\x22' => some '\x22'
  | _ => none

/-- What the end of the text means inside a string. -/
def StringState.unterminated : StringState → ReadError.Cause
  | .plain => .unterminatedString
  | .escape => .unterminatedEscape
  | .code _ _ => .unterminatedCodePoint

/-- The rest of a string literal up to its closing quote, after the characters `read`, which are
kept in reverse. -/
def stringRest (state : StringState) (location : Location) (read : List Char) :
    List Char → Except ReadError (Token × Cursor)
  | [] => .error ⟨state.unterminated, location⟩
  | c :: cs =>
    let next := location.after c
    match state with
    | .plain =>
      if c == '\x22' then .ok (.str (String.ofList read.reverse), ⟨next, cs⟩)
      else if c == '\\' then stringRest .escape next read cs
      else stringRest .plain next (c :: read) cs
    | .escape =>
      match escaped? c with
      | some e => stringRest .plain next (e :: read) cs
      | none =>
        if c == 'u' then stringRest (.code 0 0) next read cs
        else .error ⟨.unknownEscape c, next⟩
    | .code count value =>
      match digitValue? 16 c with
      | none => .error ⟨.invalidHexDigit c, next⟩
      | some d =>
        let value := value * 16 + d
        if count < 3 then stringRest (.code (count + 1) value) next read cs
        else
          match Literal.character? value with
          | some e => stringRest .plain next (e :: read) cs
          | none => .error ⟨.invalidCodePoint value, next⟩

/-! ### One token -/

/-- A cause as a fault at the cursor, and a token with the cursor behind it. -/
def settle (token : Except ReadError.Cause Token) (cursor : Cursor) :
    Except ReadError (Token × Cursor) :=
  match token with
  | .ok t => .ok (t, cursor)
  | .error cause => fault cause cursor

/-- The token for a name; three names are literals. -/
def nameToken (name : List Char) : Token :=
  match String.ofList name with
  | "nil" => .nil
  | "true" => .bool true
  | "false" => .bool false
  | text => .symbol text

/-- The special number named after two hash marks. -/
def specialValue (name : String) : Except ReadError.Cause Token :=
  if name == "Inf" then .ok (.float Double.infinity)
  else if name == "-Inf" then .ok (.float Double.negInfinity)
  else if name == "NaN" then .ok (.float (.notANumber false))
  else .error (.unknownSpecialValue name)

/-- The token after a hash mark. -/
def dispatchToken (location : Location) : List Char → Except ReadError (Token × Cursor)
  | [] => .error ⟨.endAfterDispatch, location⟩
  | '(' :: cs => .ok (.openFunction, ⟨location.after '(', cs⟩)
  | '{' :: cs => .ok (.opening .set, ⟨location.after '{', cs⟩)
  | '_' :: cs => .ok (.discard, ⟨location.after '_', cs⟩)
  | '#' :: cs =>
    let (name, cursor) := run isNameChar (location.after '#') cs
    settle (specialValue (String.ofList name)) cursor
  | c :: _ => .error ⟨.unknownDispatch c, location⟩

/-- The character literal after a backslash. A letter starts a name of letters and digits; any other
character stands for itself. -/
def characterLiteral (location : Location) : List Char → Except ReadError (Token × Cursor)
  | [] => .error ⟨.missingCharacter, location⟩
  | c :: cs =>
    if isAsciiLetter c then
      let (more, cursor) := run isAsciiAlphanumeric (location.after c) cs
      settle (Literal.characterToken (c :: more)) cursor
    else .ok (.char c, ⟨location.after c, cs⟩)

/-- The keyword after a colon. -/
def keywordLiteral (location : Location) (cs : List Char) : Except ReadError (Token × Cursor) :=
  let (name, cursor) := run (fun c => isNameChar c || c == ':') location cs
  if name.isEmpty then fault .missingKeywordName cursor
  else .ok (.keyword (String.ofList name), cursor)

/-- The number literal that starts with `first`. -/
def numberLiteral (first : Char) (location : Location) (cs : List Char) :
    Except ReadError (Token × Cursor) :=
  let (more, cursor) := numberRun first location cs
  settle (Literal.numberToken (first :: more)) cursor

/-- The token after a sign: a number if a digit follows, and a name otherwise. -/
def signedLiteral (sign : Char) (location : Location) (cs : List Char) :
    Except ReadError (Token × Cursor) :=
  match cs with
  | c :: _ =>
    if isAsciiDigit c then numberLiteral sign location cs
    else
      let (more, cursor) := run isNameChar location cs
      .ok (.symbol (String.ofList (sign :: more)), cursor)
  | [] => .ok (.symbol (String.ofList [sign]), ⟨location, []⟩)

/-- The token that starts with `c`, which stands at `location` and is followed by `cs`. -/
def tokenFrom (location : Location) (c : Char) (cs : List Char) :
    Except ReadError (Token × Cursor) :=
  let next := location.after c
  let single (t : Token) : Except ReadError (Token × Cursor) := .ok (t, ⟨next, cs⟩)
  match c with
  | '(' => single (.opening .list)
  | ')' => single (.closing .paren)
  | '[' => single (.opening .vector)
  | ']' => single (.closing .square)
  | '{' => single (.opening .map)
  | '}' => single (.closing .brace)
  | '\x27' => single (.mark .quote)
  | '\x60' => single (.mark .template)
  | '@' => single (.mark .deref)
  | '~' =>
    match cs with
    | '@' :: more => .ok (.mark .splice, ⟨next.after '@', more⟩)
    | _ => single (.mark .unquote)
  | '#' => dispatchToken next cs
  | '\x22' => stringRest .plain next [] cs
  | '\\' => characterLiteral next cs
  | ':' => keywordLiteral next cs
  | _ =>
    if c == '-' || c == '+' then signedLiteral c next cs
    else if isAsciiDigit c then numberLiteral c next cs
    else if isNameStart c then
      let (name, cursor) := run isNameChar next cs
      .ok (nameToken (c :: name), cursor)
    else .error ⟨.unexpectedCharacter c, location⟩

end Scan

/-- Read the token at the cursor. -/
def scanToken (cursor : Cursor) : Except ReadError (Token × Cursor) :=
  match cursor.rest with
  | [] => .ok (.endOfInput, cursor)
  | c :: cs => Scan.tokenFrom cursor.location c cs

/-! ### A whole text -/

/-- The tokens of a text up to the first fault. -/
structure Scanned where
  /-- The tokens; the last one is the end of the text unless there is a fault. -/
  tokens : List Located
  /-- What is wrong with the text behind them. -/
  stop : Option ReadError

namespace Scanned

/-- Scan from the cursor on, for at most `fuel` tokens. -/
def fromCursor (cursor : Cursor) : Nat → Scanned
  | 0 => ⟨[], none⟩
  | fuel + 1 =>
    let cursor := Scan.skipBlanks false cursor.location cursor.rest
    match scanToken cursor with
    | .error e => ⟨[], some e⟩
    | .ok (.endOfInput, _) => ⟨[⟨.endOfInput, cursor.location⟩], none⟩
    | .ok (token, next) =>
      let more := fromCursor next fuel
      { more with tokens := ⟨token, cursor.location⟩ :: more.tokens }

/-- Scan the characters of a text. Every token but the end takes at least one character, so there are
never more tokens than characters and one. -/
def ofChars (cs : List Char) : Scanned := fromCursor ⟨.start, cs⟩ (cs.length + 1)

/-- Scan a text. -/
def ofText (source : String) : Scanned := ofChars source.toList

end Scanned

end TwinLisp
