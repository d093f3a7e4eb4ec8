import TwinLisp.Syntax.Placeholder
import TwinLisp.Syntax.Token.Scan

/-!
# Reading forms

From tokens to forms. The reader walks over the tokens once, keeping a stack of everything that has
been opened and not finished: brackets with the items read so far, and marks that still wait for
their form. A finished form is delivered to the top of the stack, which may in turn finish.

A mark wraps the next form in a list, so `'x` is read as `(quote x)`. The discard mark drops the next
form, and then another form has to follow where the mark stood.

A form counts as read only when the token after it could be scanned: a fault in that token takes the
form before it along. Forms that were complete before remain.

## Main definitions

* `Pending` is an entry of the stack, and `deliver` hands a finished form to the stack.
* `ReadState.accept` is one step of the reader.
* `readForms` reads a text as far as it goes, and `readAll` insists on the whole.
-/

namespace TwinLisp

/-- Something that was opened and is not finished. -/
inductive Pending where
  /-- A bracketed form, with its items so far in reverse. -/
  | group (b : Bracket) (location : Location) (items : List Form)
  /-- An anonymous function, with its body so far in reverse. -/
  | function (location : Location) (items : List Form)
  /-- A mark that waits for its form. -/
  | marked (m : Mark) (location : Location)
  /-- A discard mark that waits for the form to drop. -/
  | discarding
  /-- The place of a discard mark whose form was dropped and that waits for another. -/
  | required

namespace Pending

/-- Whether the entry counts as a level of nesting. -/
def isBracket : Pending → Bool
  | .group _ _ _ => true
  | .function _ _ => true
  | _ => false

end Pending

/-- Hand a finished form to a stack. Without anything pending it is complete; otherwise it becomes an
item, finishes a mark, or is dropped. -/
def deliver (f : Form) : List Pending → Form ⊕ List Pending
  | [] => .inl f
  | .group b l items :: stack => .inr (.group b l (f :: items) :: stack)
  | .function l items :: stack => .inr (.function l (f :: items) :: stack)
  | .marked m l :: stack => deliver (.call m.name [f] l) stack
  | .discarding :: stack => .inr (.required :: stack)
  | .required :: stack => deliver f stack

/-- The form that a closed bracket stands for. -/
def closeGroup (b : Bracket) (location : Location) (items : List Form) : Except ReadError Form :=
  if b == .map && items.length % 2 == 1 then .error ⟨.oddMap, location⟩
  else .ok (.group b items location)

/-- What a reader does with a token. -/
inductive Step where
  /-- Something was opened. -/
  | opened (stack : List Pending)
  /-- A form is finished once the next token has been scanned. -/
  | finished (form : Except ReadError Form) (stack : List Pending)
  /-- The text ends between forms. -/
  | ended

/-- The leaf that a token is, if it is one. -/
def Token.leaf? : Token → Option Leaf
  | .nil => some .nil
  | .bool b => some (.bool b)
  | .int n => some (.int n)
  | .float x => some (.float x)
  | .char c => some (.char c)
  | .str s => some (.str s)
  | .symbol name => some (.symbol name)
  | .keyword name => some (.keyword name)
  | _ => none

/-- Open a bracket, unless that is one level too many. -/
def openBracket (entry : Pending) (location : Location) (stack : List Pending) :
    Except ReadError Step :=
  if maxNesting ≤ stack.countP Pending.isBracket then .error ⟨.nestedTooDeeply, location⟩
  else .ok (.opened (entry :: stack))

/-- Close the bracket on top of the stack. -/
def closeBracket (c : Closer) (location : Location) :
    List Pending → Except ReadError Step
  | .group b l items :: stack =>
    if b.closer == c then .ok (.finished (closeGroup b l items.reverse) stack)
    else .error ⟨.unexpectedToken c.text, location⟩
  | .function l items :: stack =>
    if c == .paren then .ok (.finished (.ok (anonymousFunction items.reverse l)) stack)
    else .error ⟨.unexpectedToken c.text, location⟩
  | _ => .error ⟨.unexpectedToken c.text, location⟩

/-- What the end of the text means for the stack. -/
def endText (location : Location) : List Pending → Except ReadError Step
  | [] => .ok .ended
  | .group b l _ :: _ => .error ⟨.unterminatedForm b.closer.text, l⟩
  | .function l _ :: _ => .error ⟨.unterminatedForm Closer.paren.text, l⟩
  | .marked m l :: _ => .error ⟨.missingForm m.name, l⟩
  | .discarding :: _ => .error ⟨.unexpectedEnd, location⟩
  | .required :: _ => .error ⟨.unexpectedEnd, location⟩

/-- One step of the reader. -/
def readStep (stack : List Pending) (t : Located) : Except ReadError Step :=
  match t.token with
  | .opening b => openBracket (.group b t.location []) t.location stack
  | .openFunction => openBracket (.function t.location []) t.location stack
  | .closing c => closeBracket c t.location stack
  | .mark m => .ok (.opened (.marked m t.location :: stack))
  | .discard => .ok (.opened (.discarding :: stack))
  | .endOfInput => endText t.location stack
  | token =>
    match token.leaf? with
    | some d => .ok (.finished (.ok (.leaf d t.location)) stack)
    | none => .ok (.opened stack)

/-- The forms of a text up to the first fault, and the fault. -/
structure ReadResult where
  /-- The complete forms. -/
  forms : List Form
  /-- What is wrong with the text behind them. -/
  stop : Option ReadError

/-- Read `tokens`, behind which scanning stopped for the reason `stop`. -/
def readTokens (stop : Option ReadError) (stack : List Pending) : List Located → ReadResult
  | [] => ⟨[], stop⟩
  | t :: ts =>
    match readStep stack t with
    | .error e => ⟨[], some e⟩
    | .ok .ended => ⟨[], none⟩
    | .ok (.opened stack) => readTokens stop stack ts
    | .ok (.finished form stack) =>
      -- The next token could not be scanned, and that fault comes before any fault of the form.
      if ts.isEmpty then ⟨[], stop⟩
      else
        match form with
        | .error e => ⟨[], some e⟩
        | .ok f =>
          match deliver f stack with
          | .inr stack => readTokens stop stack ts
          | .inl f =>
            let more := readTokens stop [] ts
            { more with forms := f :: more.forms }

/-- Read the forms of a text as far as it goes. -/
def readChars (cs : List Char) : ReadResult :=
  let scanned := Scanned.ofChars cs
  readTokens scanned.stop [] scanned.tokens

/-- Read the forms of a text as far as it goes. -/
def readForms (source : String) : ReadResult := readChars source.toList

/-- Read a whole text. -/
def readAll (source : String) : Except ReadError (List Form) :=
  let result := readForms source
  match result.stop with
  | some e => .error e
  | none => .ok result.forms

end TwinLisp
