import Mathlib.Data.List.Nodup
import TwinLisp.Proofs.Syntax.Phrases
import TwinLisp.Proofs.Syntax.Reader
import TwinLisp.Proofs.Text.Numerals

/-!
# Placeholders

What becomes of the symbols in the body of an anonymous function. A name that is a placeholder by its spelling
becomes the name of a parameter; all other names are kept. An anonymous function inside the body has been read
before and holds no placeholders any more, so that its own are left to it.

Nothing keeps a program from using the name of a parameter itself. Such a symbol is captured.

## Main definitions

* `Placeholder.Spells`: the spelling of placeholders.
* `Form.symbols` and `Form.mapSymbols`: the symbols of a form, and the form with other symbols.
* `Placeholder.WritesOut`: how an anonymous function is written out.

## Main statements

* `Placeholder.ofName?_eq_some_iff`: which names are recognised.
* `readAll_anonymousFunctions`: the anonymous functions of a text are written out.
* `readAll_anonymousFunctions_captures`: a symbol that is spelled like a parameter is captured.
-/

namespace TwinLisp

open TwinLisp.Text

/-! ### Symbols of forms -/

namespace Form

mutual

/-- The symbols in a form, from left to right. -/
def symbols : Form → List String
  | .leaf (.symbol name) _ => [name]
  | .leaf _ _ => []
  | .group _ items _ => symbolsOf items

/-- The symbols in some forms. -/
def symbolsOf : List Form → List String
  | [] => []
  | f :: fs => symbols f ++ symbolsOf fs

end

mutual

/-- The form with other symbols in their places. -/
def mapSymbols (σ : String → String) : Form → Form
  | .leaf (.symbol name) l => .leaf (.symbol (σ name)) l
  | .leaf d l => .leaf d l
  | .group b items l => .group b (mapAllSymbols σ items) l

/-- Some forms with other symbols in their places. -/
def mapAllSymbols (σ : String → String) : List Form → List Form
  | [] => []
  | f :: fs => mapSymbols σ f :: mapAllSymbols σ fs

end

variable {σ τ : String → String}

theorem symbolsOf_map_symbol (names : List String) (l : Location) :
    symbolsOf (names.map fun name => .symbol name l) = names := by
  induction names with
  | nil => rfl
  | cons name names ih =>
    rw [List.map_cons, symbolsOf, ih]
    rfl

mutual

theorem symbols_mapSymbols (f : Form) : (f.mapSymbols σ).symbols = f.symbols.map σ := by
  cases f with
  | leaf d l => cases d <;> rfl
  | group b items l => exact symbolsOf_mapAllSymbols items

theorem symbolsOf_mapAllSymbols (fs : List Form) : symbolsOf (mapAllSymbols σ fs) = (symbolsOf fs).map σ := by
  cases fs with
  | nil => rfl
  | cons f fs =>
    rw [mapAllSymbols, symbolsOf, symbolsOf, List.map_append, symbols_mapSymbols f, symbolsOf_mapAllSymbols fs]

end

mutual

/-- A form whose symbols are what they become is left as it is. -/
theorem mapSymbols_eq_self {f : Form} (h : ∀ name ∈ f.symbols, σ name = name) : f.mapSymbols σ = f := by
  cases f with
  | leaf d l =>
    cases d with
    | symbol name => rw [mapSymbols, h name (List.mem_singleton.2 rfl)]
    | _ => rfl
  | group b items l => rw [mapSymbols, mapAllSymbols_eq_self h]

theorem mapAllSymbols_eq_self {fs : List Form} (h : ∀ name ∈ symbolsOf fs, σ name = name) :
    mapAllSymbols σ fs = fs := by
  cases fs with
  | nil => rfl
  | cons f fs =>
    obtain ⟨first, rest⟩ := List.forall_mem_append.1 h
    rw [mapAllSymbols, mapSymbols_eq_self first, mapAllSymbols_eq_self rest]

end

end Form

namespace Placeholder

/-! ### Spelling -/

/-- Which placeholder a name is by its spelling: `%`, `%&`, or `%` and digits that write a number of at most
sixty-four bits. -/
inductive Spells : String → Placeholder → Prop where
  | first : Spells "%" (.argument 1)
  | rest : Spells "%&" .rest
  | argument {ds : List Char} (full : ds ≠ []) (digits : ∀ c ∈ ds, c.isDigit = true) (fits : numeral 10 ds < 2 ^ 64) :
    Spells (String.ofList ('%' :: ds)) (.argument (numeral 10 ds))

/-- `%` and digits after a plus sign. -/
inductive SpellsSigned : String → Placeholder → Prop where
  | argument {ds : List Char} (full : ds ≠ []) (digits : ∀ c ∈ ds, c.isDigit = true) (fits : numeral 10 ds < 2 ^ 64) :
    SpellsSigned (String.ofList ('%' :: '+' :: ds)) (.argument (numeral 10 ds))

variable {name : String} {p q : Placeholder}

theorem not_spellsSigned (h : name.toList.take 2 ≠ ['%', '+']) : ¬ SpellsSigned name p := by
  rintro ⟨⟩
  simp at h

theorem readNat?_ten_eq_some_iff {ds : List Char} {n : Nat} :
    readNat? 10 ds = some n ↔ ds ≠ [] ∧ (∀ c ∈ ds, c.isDigit = true) ∧ numeral 10 ds = n := by
  simp only [readNat?_eq_some_iff, isDigit_ten]

theorem index?_eq_some_iff {cs : List Char} {n : Nat} :
    index? cs = some n ↔ ∃ ds, (cs = ds ∨ cs = '+' :: ds) ∧ readNat? 10 ds = some n ∧ n < 2 ^ 64 := by
  have bounded (ds : List Char) :
      (readNat? 10 ds).filter (· < Nat.pow 2 64) = some n ↔ readNat? 10 ds = some n ∧ n < 2 ^ 64 := by
    rw [Option.filter_eq_some_iff, decide_eq_true_eq]
    rfl
  unfold index?
  dsimp only
  split
  · next more =>
    have notDigits : readNat? 10 ('+' :: more) ≠ some n := fun h => by
      have digit := (readNat?_ten_eq_some_iff.1 h).2.1 '+' List.mem_cons_self
      exact absurd digit (by decide)
    rw [bounded]
    constructor
    · exact fun h => ⟨more, .inr rfl, h⟩
    · rintro ⟨ds, rfl | e, h, fits⟩
      · exact absurd h notDigits
      · cases e
        exact ⟨h, fits⟩
  · next unsigned =>
    rw [bounded]
    constructor
    · exact fun h => ⟨cs, .inl rfl, h⟩
    · rintro ⟨ds, rfl | rfl, h⟩
      · exact h
      · exact absurd rfl (unsigned ds)

/-- **The names that are recognised** are the placeholders by their spelling, and besides those with a plus sign. -/
theorem ofName?_eq_some_iff : ofName? name = some p ↔ Spells name p ∨ SpellsSigned name p := by
  have spelled {cs : List Char} (h : name.toList = cs) : name = String.ofList cs := by rw [← h, String.ofList_toList]
  constructor
  · intro h
    unfold ofName? at h
    split at h
    · next e =>
      cases h
      rw [spelled e]
      exact .inl .first
    · next e =>
      cases h
      rw [spelled e]
      exact .inl .rest
    · next cs _ _ e =>
      obtain ⟨n, hn, rfl⟩ := Option.map_eq_some_iff.1 h
      rw [spelled e]
      obtain ⟨ds, digits | digits, read, fits⟩ := index?_eq_some_iff.1 hn <;>
        obtain ⟨full, all, rfl⟩ := readNat?_ten_eq_some_iff.1 read <;> rw [digits]
      · exact .inl (.argument full all fits)
      · exact .inr (.argument full all fits)
    · cases h
  · have numbered {cs ds : List Char} (some : cs = ds ∨ cs = '+' :: ds) (full : ds ≠ [])
        (digits : ∀ c ∈ ds, c.isDigit = true) (fits : numeral 10 ds < 2 ^ 64) :
        ofName? (String.ofList ('%' :: cs)) = .some (.argument (numeral 10 ds)) := by
      have index : index? cs = .some (numeral 10 ds) :=
        index?_eq_some_iff.2 ⟨ds, some, readNat?_ten_eq_some_iff.2 ⟨full, digits, rfl⟩, fits⟩
      unfold ofName?
      rw [String.toList_ofList]
      split
      · next e =>
        cases e
        cases index
      · next e =>
        cases e
        cases index
      · next e =>
        cases e
        rw [index]
        rfl
      · next other => exact absurd rfl (other cs)
    rintro (spells | spells)
    · cases spells with
      | first => rfl
      | rest => rfl
      | argument full digits fits => exact numbered (.inl rfl) full digits fits
    · cases spells with
      | argument full digits fits => exact numbered (.inr rfl) full digits fits

/-! ### Renaming -/

/-- What becomes of a name in the body of an anonymous function. -/
def renamed (name : String) : String := ((ofName? name).map parameter).getD name

mutual

theorem rename_eq (f : Form) : rename f = f.mapSymbols renamed := by
  cases f with
  | leaf d l =>
    cases d with
    | symbol name =>
      rw [rename, Form.mapSymbols, renamed]
      cases ofName? name <;> rfl
    | _ => rfl
  | group b items l => rw [rename, Form.mapSymbols, renameAll_eq items]

theorem renameAll_eq (fs : List Form) : renameAll fs = Form.mapAllSymbols renamed fs := by
  cases fs with
  | nil => rfl
  | cons f fs => rw [renameAll, Form.mapAllSymbols, rename_eq f, renameAll_eq fs]

end

/-! ### Parameters -/

mutual

theorem le_greatest {f : Form} {n : Nat} (h : name ∈ f.symbols) (hn : ofName? name = some (.argument n)) :
    n ≤ greatest f := by
  cases f with
  | leaf d l =>
    cases d with
    | symbol other =>
      obtain rfl := List.mem_singleton.1 h
      rw [greatest, hn]
    | _ => cases h
  | group b items l => exact le_greatestOf h hn

theorem le_greatestOf {fs : List Form} {n : Nat} (h : name ∈ Form.symbolsOf fs)
    (hn : ofName? name = some (.argument n)) : n ≤ greatestOf fs := by
  cases fs with
  | nil => cases h
  | cons f fs =>
    rw [greatestOf]
    rcases List.mem_append.1 h with h | h
    · exact Nat.le_trans (le_greatest h hn) (Nat.le_max_left _ _)
    · exact Nat.le_trans (le_greatestOf h hn) (Nat.le_max_right _ _)

end

mutual

theorem greatest_eq_zero_or (f : Form) :
    greatest f = 0 ∨ ∃ name ∈ f.symbols, ofName? name = some (.argument (greatest f)) := by
  cases f with
  | leaf d l =>
    cases d with
    | symbol name =>
      rw [greatest]
      split
      · next n h => exact .inr ⟨name, List.mem_singleton.2 rfl, h⟩
      · exact .inl rfl
    | _ => exact .inl rfl
  | group b items l => exact greatestOf_eq_zero_or items

theorem greatestOf_eq_zero_or (fs : List Form) :
    greatestOf fs = 0 ∨ ∃ name ∈ Form.symbolsOf fs, ofName? name = some (.argument (greatestOf fs)) := by
  cases fs with
  | nil => exact .inl rfl
  | cons f fs =>
    rw [greatestOf]
    rcases Nat.le_total (greatest f) (greatestOf fs) with h | h
    · rw [Nat.max_eq_right h]
      exact (greatestOf_eq_zero_or fs).imp_right fun ⟨name, hm, hn⟩ => ⟨name, List.mem_append_right _ hm, hn⟩
    · rw [Nat.max_eq_left h]
      exact (greatest_eq_zero_or f).imp_right fun ⟨name, hm, hn⟩ => ⟨name, List.mem_append_left _ hm, hn⟩

end

mutual

theorem usesRest_iff (f : Form) : usesRest f = true ↔ ∃ name ∈ f.symbols, ofName? name = some .rest := by
  cases f with
  | leaf d l => cases d <;> simp [usesRest, Form.symbols]
  | group b items l => exact anyUsesRest_iff items

theorem anyUsesRest_iff (fs : List Form) :
    anyUsesRest fs = true ↔ ∃ name ∈ Form.symbolsOf fs, ofName? name = some .rest := by
  cases fs with
  | nil => simp [anyUsesRest, Form.symbolsOf]
  | cons f fs =>
    rw [anyUsesRest, Bool.or_eq_true, usesRest_iff f, anyUsesRest_iff fs, Form.symbolsOf]
    simp only [List.mem_append, or_and_right, exists_or]

end

theorem ofName?_eq_none (h : name.toList.head? ≠ some '%') : ofName? name = none := by
  unfold ofName?
  split
  · next e => simp [e] at h
  · next e => simp [e] at h
  · next e => simp [e] at h
  · rfl

theorem toList_parameter_argument (n : Nat) :
    (parameter (.argument n)).toList = 'p' :: (Nat.toDigits 10 n ++ "__auto__".toList) := by
  change (toString "p" ++ toString n ++ toString "__auto__").toList = _
  simp only [String.toList_append, Nat.toString_eq_repr, Nat.toList_repr, List.append_assoc]
  rfl

/-- The name of a parameter is no placeholder. -/
theorem ofName?_parameter (p : Placeholder) : ofName? p.parameter = none := by
  refine ofName?_eq_none ?_
  cases p with
  | argument n =>
    simp [toList_parameter_argument]
  | rest => decide

/-- Different placeholders become different parameters. -/
theorem parameter_injective : Function.Injective parameter := by
  intro p q h
  cases p with
  | argument m =>
    cases q with
    | argument n =>
      have same := congrArg String.toList h
      rw [toList_parameter_argument, toList_parameter_argument] at same
      have digits := List.append_cancel_right (List.cons.inj same).2
      rw [← Nat.ofDigitChars_toDigits (b := 10) (n := m) (by decide) (by decide), digits,
        Nat.ofDigitChars_toDigits (by decide) (by decide)]
    | rest =>
      have same := congrArg String.toList h
      rw [toList_parameter_argument] at same
      exact absurd (List.cons.inj same).1 (by decide)
  | rest =>
    cases q with
    | argument n =>
      have same := congrArg String.toList h
      rw [toList_parameter_argument] at same
      exact absurd (List.cons.inj same).1 (by decide)
    | rest => rfl

/-- No symbol in what an anonymous function is read as is a placeholder. -/
theorem ofName?_of_mem_anonymousFunction {body : List Form} {l : Location}
    (h : name ∈ (anonymousFunction body l).symbols) : ofName? name = none := by
  have settled (other : String) : ofName? (renamed other) = none := by
    rw [renamed]
    cases e : ofName? other with
    | none => exact e
    | some p => exact ofName?_parameter p
  unfold anonymousFunction at h
  simp only [Form.symbols, Form.symbolsOf, Form.symbolsOf_map_symbol, renameAll_eq, Form.symbolsOf_mapAllSymbols,
    List.append_nil, List.mem_append, List.mem_singleton, parameters] at h
  rcases h with rfl | (h | h) | h
  · rfl
  · obtain ⟨i, -, rfl⟩ := List.mem_map.1 h
    exact ofName?_parameter _
  · split at h
    · rcases List.mem_cons.1 h with rfl | h
      · rfl
      · rw [List.mem_singleton.1 h]
        exact ofName?_parameter .rest
    · cases h
  · obtain ⟨other, -, rfl⟩ := List.mem_map.1 h
    exact settled other

/-! ### How anonymous functions are written out -/

/-- The names that the parameters of an anonymous function bind. -/
def boundNames (count : Nat) (rest : Bool) : List String :=
  (List.range count).map (fun i => s!"p{i + 1}__auto__") ++ if rest then ["rest__auto__"] else []

/-- The items of its parameter list. -/
def parameterList (count : Nat) (rest : Bool) : List String :=
  (List.range count).map (fun i => s!"p{i + 1}__auto__") ++ if rest then ["&", "rest__auto__"] else []

/-- An anonymous function at `l` with the body `body` is written out as `f`: it has `count` numbered parameters and
perhaps one for the rest, and `σ` says what becomes of the symbols. -/
structure WritesOut (body : List Form) (l : Location) (count : Nat) (rest : Bool) (σ : String → String) (f : Form) :
    Prop where
  shape : f = .list
    [.symbol "fn*" l, .vector ((parameterList count rest).map fun name => .symbol name l) l,
      .list (Form.mapAllSymbols σ body) l] l
  /-- There are as many numbered parameters as the greatest number that is asked for. -/
  atLeast : ∀ name ∈ Form.symbolsOf body, ∀ i, Spells name (.argument i) → i ≤ count
  atMost : count = 0 ∨ ∃ name ∈ Form.symbolsOf body, Spells name (.argument count)
  rest_iff : rest = true ↔ ∃ name ∈ Form.symbolsOf body, Spells name .rest
  /-- A placeholder becomes its parameter. -/
  numbered : ∀ name ∈ Form.symbolsOf body, ∀ i, Spells name (.argument (i + 1)) →
    (boundNames count rest)[i]? = some (σ name)
  further : ∀ name ∈ Form.symbolsOf body, Spells name .rest →
    σ name = "rest__auto__" ∧ "rest__auto__" ∈ boundNames count rest
  distinct : (boundNames count rest).Nodup
  /-- Other symbols are kept, and captured only if they are spelled like a parameter. -/
  kept : ∀ name ∈ Form.symbolsOf body, (∀ p, ¬ Spells name p) → σ name = name
  free : ∀ name ∈ boundNames count rest, ∃ p, name = parameter p

theorem boundNames_eq (count : Nat) (rest : Bool) : boundNames count rest =
    ((List.range count).map (fun i => argument (i + 1)) ++ if rest then [Placeholder.rest] else []).map parameter := by
  rw [List.map_append, List.map_map]
  cases rest <;> rfl

theorem nodup_boundNames (count : Nat) (rest : Bool) : (boundNames count rest).Nodup := by
  rw [boundNames_eq]
  refine List.Nodup.map parameter_injective (List.Nodup.append ?_ ?_ ?_)
  · refine List.Nodup.map (fun i j h => ?_) List.nodup_range
    injection h with h
    exact Nat.succ.inj h
  · cases rest <;> simp
  · intro p hp hr
    obtain ⟨i, -, rfl⟩ := List.mem_map.1 hp
    cases rest <;> simp at hr

theorem writesOut_anonymousFunction {body : List Form} (l : Location)
    (unsigned : ∀ name ∈ Form.symbolsOf body, ∀ p, ¬ SpellsSigned name p) :
    WritesOut body l (greatestOf body) (anyUsesRest body) renamed (anonymousFunction body l) := by
  have recognised {name : String} (h : name ∈ Form.symbolsOf body) (p : Placeholder) :
      ofName? name = some p ↔ Spells name p := by
    rw [ofName?_eq_some_iff, or_iff_left (unsigned name h p)]
  have becomes {name : String} (h : name ∈ Form.symbolsOf body) {p : Placeholder} (spells : Spells name p) :
      renamed name = p.parameter := by
    rw [renamed, (recognised h p).2 spells]
    rfl
  have rest_iff : anyUsesRest body = true ↔ ∃ name ∈ Form.symbolsOf body, Spells name .rest := by
    rw [anyUsesRest_iff]
    exact exists_congr fun name => and_congr_right fun h => recognised h .rest
  refine
    { shape := ?_
      atLeast := fun name h i spells => le_greatestOf h ((recognised h _).2 spells)
      atMost := (greatestOf_eq_zero_or body).imp_right fun ⟨name, h, found⟩ => ⟨name, h, (recognised h _).1 found⟩
      rest_iff := rest_iff
      numbered := fun name h i spells => ?_
      further := fun name h spells => ⟨becomes h spells, ?_⟩
      distinct := nodup_boundNames _ _
      kept := fun name h other => ?_
      free := fun name h => ?_ }
  · unfold anonymousFunction
    rw [renameAll_eq]
    rfl
  · have inRange : i < greatestOf body := le_greatestOf h ((recognised h _).2 spells)
    rw [becomes h spells, boundNames, List.getElem?_append_left (by simpa using inRange), List.getElem?_map,
      List.getElem?_range inRange]
    rfl
  · rw [boundNames, rest_iff.2 ⟨name, h, spells⟩]
    exact List.mem_append_right _ (List.mem_singleton.2 rfl)
  · rw [renamed, Option.eq_none_iff_forall_ne_some.2 fun p found => other p ((recognised h p).1 found)]
    rfl
  · rw [boundNames_eq] at h
    obtain ⟨p, -, rfl⟩ := List.mem_map.1 h
    exact ⟨p, rfl⟩

end Placeholder

open Placeholder in
/-- **The anonymous functions of a text are written out**, one inside another as well. Nothing is said about functions
in which a placeholder is written with a plus sign, nor about the placeholder with the number zero. -/
theorem readAll_anonymousFunctions {source : String} {fs : List Form} (h : readAll source = .ok fs) :
    ∃ ps : List Phrase, Phrase.MakeUp ps source ∧ fs = Phrase.forms ps ∧
      ∀ body l close, .function body l close ∈ Phrase.partsOf ps →
        (∀ name ∈ Form.symbolsOf (Phrase.forms body), ∀ p, ¬ SpellsSigned name p) →
          ∃ count rest σ, WritesOut (Phrase.forms body) l count rest σ (Phrase.function body l close).form ∧
            ∀ inner m close', .function inner m close' ∈ Phrase.partsOf body →
              (Phrase.function inner m close').form.mapSymbols σ = (Phrase.function inner m close').form := by
  obtain ⟨ps, makeUp, forms⟩ := readAll_phrases h
  refine ⟨ps, makeUp, forms, fun body l close _ unsigned => ?_⟩
  refine ⟨_, _, _, writesOut_anonymousFunction l unsigned, fun inner m close' _ => ?_⟩
  refine Form.mapSymbols_eq_self fun name hm => ?_
  rw [renamed, ofName?_of_mem_anonymousFunction hm]
  rfl

/-- A symbol as a phrase. -/
def Phrase.name (name : String) (l : Location) : Phrase := .leaf (.symbol name) (.symbol name) rfl l

/-- The inner function of `#(f %2 #(g %&))`. -/
def Phrase.innerFunction : Phrase := .function [.name "g" ⟨1, 10⟩, .name "%&" ⟨1, 12⟩] ⟨1, 8⟩ ⟨1, 14⟩

open Placeholder in
theorem readAll_anonymousFunctions_nested :
    let body : List Phrase := [.name "f" ⟨1, 3⟩, .name "%2" ⟨1, 5⟩, .innerFunction]
    Phrase.MakeUp [.function body ⟨1, 1⟩ ⟨1, 15⟩] "#(f %2 #(g %&))" ∧
      (∀ name ∈ Form.symbolsOf (Phrase.forms body), ∀ p, ¬ SpellsSigned name p) ∧
      ∃ count rest σ, WritesOut (Phrase.forms body) ⟨1, 1⟩ count rest σ (Phrase.function body ⟨1, 1⟩ ⟨1, 15⟩).form ∧
        Phrase.innerFunction.form.mapSymbols σ = Phrase.innerFunction.form := by
  intro body
  have made : Phrase.MakeUp [.function body ⟨1, 1⟩ ⟨1, 15⟩] "#(f %2 #(g %&))" := ⟨⟨1, 16⟩, rfl⟩
  have unsigned : ∀ name ∈ Form.symbolsOf (Phrase.forms body), ∀ p, ¬ SpellsSigned name p := by
    have starts : ∀ name ∈ Form.symbolsOf (Phrase.forms body), name.toList.take 2 ≠ ['%', '+'] := by decide
    exact fun name h p => not_spellsSigned (starts name h)
  obtain ⟨ps, makeUp, -, written⟩ := @readAll_anonymousFunctions "#(f %2 #(g %&))" _ rfl
  cases makeUp.eq made
  obtain ⟨count, rest, σ, out, nested⟩ := written body _ _ List.mem_cons_self unsigned
  have inside : Phrase.innerFunction ∈ Phrase.partsOf body := by
    simp [Phrase.partsOf, Phrase.parts, body, Phrase.innerFunction]
  exact ⟨made, unsigned, count, rest, σ, out, nested _ _ _ inside⟩

open Placeholder in
/-- **A symbol that is spelled like a parameter is captured:** in `#(+ % p1__auto__)` both arguments of `+` become the
parameter, although `p1__auto__` is no placeholder. -/
theorem readAll_anonymousFunctions_captures :
    readAll "#(+ % p1__auto__)" = .ok [.list
      [.symbol "fn*" ⟨1, 1⟩, .vector [.symbol "p1__auto__" ⟨1, 1⟩] ⟨1, 1⟩,
        .list [.symbol "+" ⟨1, 3⟩, .symbol "p1__auto__" ⟨1, 5⟩, .symbol "p1__auto__" ⟨1, 7⟩] ⟨1, 1⟩] ⟨1, 1⟩] ∧
      ∀ p, ¬ Spells "p1__auto__" p := by
  have read : readAll "#(+ % p1__auto__)" =
    .ok [anonymousFunction [.symbol "+" ⟨1, 3⟩, .symbol "%" ⟨1, 5⟩, .symbol "p1__auto__" ⟨1, 7⟩] ⟨1, 1⟩] := rfl
  refine ⟨read.trans rfl, fun p spells => ?_⟩
  have spelled : parameter (.argument 1) = "p1__auto__" := by decide
  have recognised := ofName?_eq_some_iff.2 (.inl spells)
  rw [← spelled, ofName?_parameter] at recognised
  cases recognised

end TwinLisp
