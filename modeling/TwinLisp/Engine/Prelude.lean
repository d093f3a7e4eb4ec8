import TwinLisp.Engine.Evaluator

/-!
# What every session starts with

A session starts with the native functions bound at the root, each under its name and in a fixed
order, and with the macros that are written in the language itself.

## Main definitions

* `Prelude.source` is the text of those macros.
* `Evaluator.start` sets a session up.
-/

namespace TwinLisp

namespace Prelude

/-- The text of the macros, line by line. -/
def lines : List String := [
  ";; The macros that are written in the language itself.",
  ";;",
  ";; Every session evaluates these definitions first. They use special forms,",
  ";; native functions, and the macros defined before them.",
  ";;",
  "",
  "(defmacro defn",
  "  \"Define a named function.\"",
  "  [name & body]",
  "  (if (string? (first body))",
  "    `(def ~name (fn ~name ~@(rest body)))",
  "    `(def ~name (fn ~name ~@body))))",
  "",
  "(defmacro when [test & body]",
  "  `(if ~test (do ~@body)))",
  "",
  "(defmacro when-not [test & body]",
  "  `(if ~test nil (do ~@body)))",
  "",
  "(defmacro if-not [test then & else]",
  "  `(if ~test ~(first else) ~then))",
  "",
  "(defmacro cond [& clauses]",
  "  (when clauses",
  "    (if (next clauses)",
  "      `(if ~(first clauses)",
  "         ~(second clauses)",
  "         (cond ~@(rest (rest clauses))))",
  "      (throw (ex-info \"cond requires an even number of forms\" nil)))))",
  "",
  "(defmacro and [& xs]",
  "  (cond",
  "    (nil? xs) true",
  "    (nil? (next xs)) (first xs)",
  "    :else `(let [and# ~(first xs)]",
  "             (if and# (and ~@(rest xs)) and#))))",
  "",
  "(defmacro or [& xs]",
  "  (cond",
  "    (nil? xs) nil",
  "    (nil? (next xs)) (first xs)",
  "    :else `(let [or# ~(first xs)]",
  "             (if or# or# (or ~@(rest xs))))))",
  "",
  "(defmacro ->",
  "  \"Thread x through forms as the first argument.\"",
  "  [x & forms]",
  "  (if (nil? forms)",
  "    x",
  "    (let [form (first forms)",
  "          threaded (if (list? form)",
  "                     `(~(first form) ~x ~@(rest form))",
  "                     (list form x))]",
  "      `(-> ~threaded ~@(rest forms)))))",
  "",
  "(defmacro ->>",
  "  \"Thread x through forms as the last argument.\"",
  "  [x & forms]",
  "  (if (nil? forms)",
  "    x",
  "    (let [form (first forms)",
  "          threaded (if (list? form)",
  "                     `(~(first form) ~@(rest form) ~x)",
  "                     (list form x))]",
  "      `(->> ~threaded ~@(rest forms)))))"]

/-- The text of the macros. -/
def source : String := "\n".intercalate lines

end Prelude

namespace Eval

/-- Bind a native function at the root. -/
def defineNative (name : String) (n : Native) : Eval Unit := do
  let symbol ← intern name
  defineGlobal symbol (← new (.function ⟨some symbol, false, .native n⟩))

/-- Bind every built-in function at the root. -/
def defineBuiltins : Eval Unit := Builtin.all.forM fun b => defineNative b.name (.builtin b)

end Eval

namespace Evaluator

/-- Set up a session in which nothing has happened, with the macros of a text. -/
def start (e : Evaluator) (prelude : String) : Eval Unit := do
  Eval.defineBuiltins
  let _ ← e.evaluateText prelude

end Evaluator

end TwinLisp
