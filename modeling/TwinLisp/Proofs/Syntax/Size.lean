import TwinLisp.Proofs.Syntax.Placeholders

/-!
# How much is read

A token adds a bounded number of nodes to what is read, with one exception: the number in a placeholder decides how many
parameters its function has. As that number has at most sixty-four bits, what is read is linear in the length of the
text all the same, but only texts without great placeholders have a small factor.

## Main definitions

* `Form.size`: the number of nodes.

## Main statements

* `Phrase.size_form_le`: the tokens of a phrase bound the size of its form.
* `readAll_linear`: the size of what is read is linear in the length of the text.
* `readAll_placeholder`: no small factor does for great placeholders.
-/

namespace TwinLisp

open Placeholder (ofName?)

namespace Form

mutual

/-- The number of nodes in a form. -/
def size : Form → Nat
  | .leaf _ _ => 1
  | .group _ items _ => sizes items + 1

/-- The number of nodes in some forms. -/
def sizes : List Form → Nat
  | [] => 0
  | f :: fs => size f + sizes fs

end

mutual

theorem length_walk (depth : Nat) (f : Form) : (f.walk depth).length = f.size := by
  cases f with
  | leaf d l => rfl
  | group b items l => rw [walk, size, List.length_cons, length_walkAll (depth + 1) items]

theorem length_walkAll (depth : Nat) (fs : List Form) : (walkAll depth fs).length = sizes fs := by
  cases fs with
  | nil => rfl
  | cons f fs => rw [walkAll, sizes, List.length_append, length_walk depth f, length_walkAll depth fs]

end

mutual

theorem size_mapSymbols (σ : String → String) (f : Form) : (f.mapSymbols σ).size = f.size := by
  cases f with
  | leaf d l => cases d <;> rfl
  | group b items l => rw [mapSymbols, size, size, sizes_mapAllSymbols σ items]

theorem sizes_mapAllSymbols (σ : String → String) (fs : List Form) : sizes (mapAllSymbols σ fs) = sizes fs := by
  cases fs with
  | nil => rfl
  | cons f fs => rw [mapAllSymbols, sizes, sizes, size_mapSymbols σ f, sizes_mapAllSymbols σ fs]

end

theorem sizes_map_symbol (names : List String) (l : Location) :
    sizes (names.map fun name => .symbol name l) = names.length := by
  induction names with
  | nil => rfl
  | cons name names ih =>
    rw [List.map_cons, sizes, ih, List.length_cons, Nat.add_comm]
    rfl

/-- An anonymous function has its body, its parameters and four nodes around them. -/
theorem size_anonymousFunction (body : List Form) (l : Location) : (anonymousFunction body l).size =
    sizes body + Placeholder.greatestOf body + (if Placeholder.anyUsesRest body then 2 else 0) + 4 := by
  have parameters (n : Nat) (rest : Bool) : (Placeholder.parameters n rest).length = n + if rest then 2 else 0 := by
    rw [Placeholder.parameters, List.length_append, List.length_map, List.length_range]
    cases rest <;> rfl
  unfold anonymousFunction
  simp only [size, sizes, sizes_map_symbol, Placeholder.renameAll_eq, sizes_mapAllSymbols, parameters]
  omega

end Form

namespace Phrase

/-- All numbers in the placeholders among some tokens are at most `m`. -/
def AsksUpTo (m : Nat) (ts : List Located) : Prop :=
  ∀ t ∈ ts, ∀ name i, t.token = .symbol name → ofName? name = some (.argument i) → i ≤ m

mutual

/-- A placeholder that is left in a form has been written among its tokens. -/
theorem written_of_mem_symbols {p : Phrase} {name : String} {a : Placeholder} (h : name ∈ p.form.symbols)
    (found : ofName? name = some a) : ∃ t ∈ p.tokens, t.token = .symbol name := by
  cases p with
  | leaf t d hd l =>
    cases d with
    | symbol other =>
      obtain rfl := List.mem_singleton.1 h
      refine ⟨_, List.mem_singleton.2 rfl, ?_⟩
      cases t <;> cases hd
      rfl
    | _ => cases h
  | group b items l close =>
    obtain ⟨t, ht, token⟩ := written_of_mem_symbolsOf h found
    exact ⟨t, List.mem_append_left _ (List.mem_cons_of_mem _ ht), token⟩
  | function body l close =>
    cases (Placeholder.ofName?_of_mem_anonymousFunction h).symm.trans found
  | marked m p l =>
    have inside : name ∈ p.form.symbols := by
      rcases List.mem_cons.1 h with rfl | h
      · cases m <;> cases found
      · simpa [Form.symbolsOf] using h
    obtain ⟨t, ht, token⟩ := written_of_mem_symbols inside found
    exact ⟨t, List.mem_cons_of_mem _ ht, token⟩
  | dropping l dropped kept =>
    obtain ⟨t, ht, token⟩ := written_of_mem_symbols (p := kept) h found
    exact ⟨t, List.mem_append_right _ ht, token⟩

theorem written_of_mem_symbolsOf {ps : List Phrase} {name : String} {a : Placeholder}
    (h : name ∈ Form.symbolsOf (forms ps)) (found : ofName? name = some a) :
    ∃ t ∈ tokensOf ps, t.token = .symbol name := by
  cases ps with
  | nil => cases h
  | cons p ps =>
    rcases List.mem_append.1 h with h | h
    · obtain ⟨t, ht, token⟩ := written_of_mem_symbols h found
      exact ⟨t, List.mem_append_left _ ht, token⟩
    · obtain ⟨t, ht, token⟩ := written_of_mem_symbolsOf h found
      exact ⟨t, List.mem_append_right _ ht, token⟩

end

variable {m : Nat}

theorem greatestOf_forms_le {ps : List Phrase} (small : AsksUpTo m (tokensOf ps)) :
    Placeholder.greatestOf (forms ps) ≤ m := by
  rcases Placeholder.greatestOf_eq_zero_or (forms ps) with none | ⟨name, h, found⟩
  · rw [none]
    exact Nat.zero_le m
  · obtain ⟨t, ht, token⟩ := written_of_mem_symbolsOf h found
    exact small t ht name _ token found

mutual

/-- **The tokens of a phrase bound the size of its form.** -/
theorem size_form_le (p : Phrase) (small : AsksUpTo m p.tokens) : p.form.size ≤ (m + 3) * p.tokens.length := by
  cases p with
  | leaf t d h l => exact Nat.le_trans (by decide : 1 ≤ 3) (by simp [tokens])
  | group b items l close =>
    have inside := sizes_forms_le items fun t ht => small t (List.mem_append_left _ (List.mem_cons_of_mem _ ht))
    simp only [form, Form.size, tokens, List.length_append, List.length_cons, List.length_nil, Nat.mul_add]
    omega
  | function body l close =>
    have within : AsksUpTo m (tokensOf body) :=
      fun t ht => small t (List.mem_append_left _ (List.mem_cons_of_mem _ ht))
    have inside := sizes_forms_le body within
    have parameters := greatestOf_forms_le within
    have rest : (if Placeholder.anyUsesRest (forms body) then 2 else 0) ≤ 2 := by split <;> decide
    simp only [form, Form.size_anonymousFunction, tokens, List.length_append, List.length_cons, List.length_nil,
      Nat.mul_add]
    omega
  | marked mark p l =>
    have inside := size_form_le p fun t ht => small t (List.mem_cons_of_mem _ ht)
    simp only [form, Form.call, Form.size, Form.sizes, tokens, List.length_cons, Nat.mul_add]
    omega
  | dropping l dropped kept =>
    have inside := size_form_le kept fun t ht => small t (List.mem_append_right _ ht)
    simp only [form, tokens, List.length_append, List.length_cons, Nat.mul_add]
    omega

theorem sizes_forms_le (ps : List Phrase) (small : AsksUpTo m (tokensOf ps)) :
    Form.sizes (forms ps) ≤ (m + 3) * (tokensOf ps).length := by
  cases ps with
  | nil => exact Nat.zero_le _
  | cons p ps =>
    have first := size_form_le p fun t ht => small t (List.mem_append_left _ ht)
    have rest := sizes_forms_le ps fun t ht => small t (List.mem_append_right _ ht)
    rw [forms, Form.sizes, tokensOf_cons, List.length_append, Nat.mul_add]
    exact Nat.add_le_add first rest

end

/-- A text has at most as many tokens as characters. -/
theorem MakeUp.length_le {ps : List Phrase} {source : String} (h : MakeUp ps source) :
    (tokensOf ps).length ≤ source.length := by
  obtain ⟨l, scanned⟩ := h
  have settles := Scanned.settles_ofChars source.toList
  unfold Scanned.ofText at scanned
  rw [scanned] at settles
  generalize e : tokensOf ps ++ [⟨.endOfInput, l⟩] = ts at settles
  cases settles with
  | whole ts' l' _ length =>
    rw [(List.append_inj' e rfl).1]
    exact length

end Phrase

/-- The number in a placeholder has at most sixty-four bits. -/
theorem Placeholder.lt_of_ofName? {name : String} {i : Nat} (h : ofName? name = some (.argument i)) : i < 2 ^ 64 := by
  rcases ofName?_eq_some_iff.1 h with spells | spells
  · cases spells with
    | first => exact Nat.one_lt_two_pow (Nat.succ_ne_zero 63)
    | argument _ _ fits => exact fits
  · cases spells with
    | argument _ _ fits => exact fits

theorem Placeholder.exists_bound : ∃ m, ∀ name i, ofName? name = some (.argument i) → i ≤ m :=
  ⟨2 ^ 64, fun _ _ h => Nat.le_of_lt (lt_of_ofName? h)⟩

/-- **The size of what is read is linear in the length of the text.** The factor depends on the placeholders only. -/
theorem readAll_linear : ∃ K, ∀ source fs, readAll source = .ok fs →
    (Form.walkAll 0 fs).length ≤ K * source.length ∧
      ∀ m, Phrase.AsksUpTo m (Scanned.ofText source).tokens → (Form.walkAll 0 fs).length ≤ (m + 3) * source.length := by
  obtain ⟨greatest, bound⟩ := Placeholder.exists_bound
  refine ⟨greatest + 3, fun source fs read => ?_⟩
  obtain ⟨ps, makeUp, rfl⟩ := readAll_phrases read
  have bounded (m : Nat) (small : Phrase.AsksUpTo m (Phrase.tokensOf ps)) :
      (Form.walkAll 0 (Phrase.forms ps)).length ≤ (m + 3) * source.length := by
    rw [Form.length_walkAll]
    exact Nat.le_trans (Phrase.sizes_forms_le ps small) (Nat.mul_le_mul_left _ makeUp.length_le)
  refine ⟨bounded greatest fun _ _ name i _ found => bound name i found, fun m small => bounded m ?_⟩
  obtain ⟨l, scanned⟩ := makeUp
  rw [scanned] at small
  exact fun t ht => small t (List.mem_append_left _ ht)

/-- The factor for two numbered placeholders. -/
theorem readAll_linear_two_parameters :
    ∃ K fs, readAll "#(+ % %2)" = .ok fs ∧ (Form.walkAll 0 fs).length ≤ K * 9 := by
  obtain ⟨K, linear⟩ := readAll_linear
  exact ⟨K, _, rfl, (linear "#(+ % %2)" _ rfl).1⟩

/-! ### Great placeholders -/

section

variable {ds : List Char}

theorem nameToken_placeholder (ds : List Char) : Scan.nameToken ('%' :: ds) = .symbol (String.ofList ('%' :: ds)) := by
  unfold Scan.nameToken
  split
  case h_4 => rfl
  all_goals
    next e =>
      have first := congrArg (fun s => s.toList.head?) e
      simp at first

/-- The tokens of an anonymous function whose body is a placeholder. -/
theorem tokens_placeholder (digits : ∀ c ∈ ds, c.isDigit = true) : ∃ l l',
    Scanned.ofChars ('#' :: '(' :: '%' :: (ds ++ [')'])) =
      ⟨[⟨.openFunction, ⟨1, 1⟩⟩, ⟨.symbol (String.ofList ('%' :: ds)), ⟨1, 3⟩⟩, ⟨.closing .paren, l⟩,
        ⟨.endOfInput, l'⟩], none⟩ := by
  have letters : ∀ c ∈ ds, Scan.isNameChar c = true := fun c hc => by
    rw [Scan.isNameChar, Text.isAsciiDigit_eq, digits c hc]
    simp
  have name : scanToken ⟨⟨1, 3⟩, '%' :: (ds ++ [')'])⟩ =
      .ok (.symbol (String.ofList ('%' :: ds)), ⟨ds.foldl .after ⟨1, 4⟩, [')']⟩) := by
    rw [← nameToken_placeholder]
    have taken : Scan.run Scan.isNameChar ⟨1, 4⟩ (ds ++ [')']) = (ds, ⟨ds.foldl .after ⟨1, 4⟩, [')']⟩) :=
      Scan.run_append letters (by simp; decide) _
    exact congrArg (fun run => Except.ok (Scan.nameToken ('%' :: run.1), run.2)) taken
  generalize ds.foldl .after (⟨1, 4⟩ : Location) = l at name
  refine ⟨l, l.after ')', ?_⟩
  have opening : scanToken ⟨.start, '#' :: '(' :: '%' :: (ds ++ [')'])⟩ =
      .ok (.openFunction, ⟨⟨1, 3⟩, '%' :: (ds ++ [')'])⟩) := rfl
  have closing : scanToken ⟨l, [')']⟩ = .ok (.closing .paren, ⟨l.after ')', []⟩) := rfl
  have length : ('#' :: '(' :: '%' :: (ds ++ [')'])).length + 1 = ds.length + 2 + 1 + 1 + 1 := by simp
  rw [Scanned.ofChars, length, Scanned.fromCursor_succ opening rfl (by decide),
    Scanned.fromCursor_succ name rfl (fun e => nomatch e), Scanned.fromCursor_succ closing rfl (by decide)]
  rfl

/-- **A great placeholder makes a great form of a short text:** the number in it is the number of parameters. -/
theorem readAll_placeholder (full : ds ≠ []) (digits : ∀ c ∈ ds, c.isDigit = true)
    (fits : Text.numeral 10 ds < 2 ^ 64) : ∃ fs, readAll (String.ofList ('#' :: '(' :: '%' :: (ds ++ [')']))) = .ok fs ∧
      (Form.walkAll 0 fs).length = Text.numeral 10 ds + 5 := by
  obtain ⟨l, l', scanned⟩ := tokens_placeholder digits
  have found := Placeholder.ofName?_eq_some_iff.2 (.inl (.argument full digits fits))
  generalize String.ofList ('%' :: ds) = name at scanned found
  refine ⟨[anonymousFunction [.symbol name ⟨1, 3⟩] ⟨1, 1⟩], ?_, ?_⟩
  · unfold readAll readForms readChars
    rw [String.toList_ofList, scanned]
    rfl
  · have greatest : Placeholder.greatestOf [.symbol name ⟨1, 3⟩] = Text.numeral 10 ds := by
      simp only [Placeholder.greatestOf, Placeholder.greatest, found, Nat.max_zero]
    have rest : Placeholder.anyUsesRest [.symbol name ⟨1, 3⟩] = false := by
      simp [Placeholder.anyUsesRest, Placeholder.usesRest, found]
    rw [Form.length_walkAll, Form.sizes, Form.size_anonymousFunction, greatest, rest]
    simp only [Form.sizes, Form.size, Bool.false_eq_true, if_false]
    omega

end

end TwinLisp
