import TwinLisp.Proofs.Syntax.Continuing
import TwinLisp.Proofs.Syntax.Data
import TwinLisp.Proofs.Syntax.Integers
import TwinLisp.Proofs.Syntax.Readable

/-!
# Literals as they are written

Forms made of nil, booleans, integers, characters and strings by brackets are read from the text that they are
written as, unless brackets are nested too deeply. Only their locations are lost.

## Main definitions

* `Form.IsLiteral`: a form made of such leaves.
* `Form.unlocated`: a form without its locations.
* `Scan.Stops`: what does not continue the word in front of it.

## Main statements

* `Leaf.IsLiteral.yields`: the text of a leaf is one token, which stands for the leaf.
* `Form.IsLiteral.readAll_text`: a text that is written from a form is read as that form.
-/

namespace TwinLisp

open TwinLisp.Text (isBlank isAsciiDigit isAsciiLetter isAsciiAlphanumeric escapeChar)

/-! ### Literals -/

/-- The leaf is nil, a boolean, an integer, a character or a string. -/
def Leaf.IsLiteral : Leaf → Prop
  | .nil => True
  | .bool _ => True
  | .int _ => True
  | .char _ => True
  | .str _ => True
  | _ => False

namespace Form

/-- A form made of literals by brackets, in which every key of a map has a value. -/
inductive IsLiteral : Form → Prop where
  | leaf {d : Leaf} {l : Location} (h : d.IsLiteral) : IsLiteral (.leaf d l)
  | group {b : Bracket} {fs : List Form} {l : Location} (hs : ∀ f ∈ fs, f.IsLiteral)
    (even : b = .map → fs.length % 2 = 0) : IsLiteral (.group b fs l)

mutual

/-- The form without its locations. -/
def unlocated : Form → Form
  | .leaf d _ => .leaf d .unknown
  | .group b items _ => .group b (unlocatedAll items) .unknown

/-- Some forms without their locations. -/
def unlocatedAll : List Form → List Form
  | [] => []
  | f :: fs => unlocated f :: unlocatedAll fs

end

theorem unlocatedAll_eq_map (fs : List Form) : unlocatedAll fs = fs.map unlocated := by
  induction fs with
  | nil => rfl
  | cons f fs ih => rw [unlocatedAll, ih, List.map_cons]

theorem unlocated_group (b : Bracket) (fs : List Form) (l : Location) :
    (group b fs l).unlocated = .group b (fs.map unlocated) .unknown := by
  rw [unlocated, unlocatedAll_eq_map]

theorem IsLiteral.isWritten {f : Form} (h : f.IsLiteral) : f.IsWritten := by
  induction h with
  | leaf known =>
    refine .leaf fun n object => ?_
    subst object
    cases known
  | group _ even ih => exact .group ih even

/-- Locations make no difference to what a form is made of. -/
theorem isLiteral_unlocated {f : Form} : f.unlocated.IsLiteral ↔ f.IsLiteral := by
  induction f using structural with
  | leaf d l =>
    rw [unlocated]
    constructor
    all_goals
      rintro ⟨known⟩
      exact .leaf known
  | group b items l ih =>
    rw [unlocated_group]
    constructor
    · rintro (_ | ⟨hs, even⟩)
      rw [List.length_map] at even
      exact .group (fun f hf => (ih f hf).1 (hs _ (List.mem_map_of_mem hf))) even
    · rintro (_ | ⟨hs, even⟩)
      refine .group (List.forall_mem_map.2 fun f hf => (ih f hf).2 (hs f hf)) ?_
      rwa [List.length_map]

/-- Locations make no difference to keys. -/
theorem keyBy_unlocated (names : String → Key) (f : Form) : f.unlocated.keyBy names = f.keyBy names := by
  induction f using structural with
  | leaf d l => rfl
  | group b items l ih =>
    have keys : keysBy names (items.map unlocated) = keysBy names items := by
      rw [keysBy_eq_map, keysBy_eq_map, List.map_map]
      exact List.map_congr_left ih
    rw [unlocated_group]
    cases b <;> simp only [keyBy, keys]

theorem key_unlocated (f : Form) : f.unlocated.key = f.key := keyBy_unlocated nameKey f

/-- Locations make no difference to which keys and members are equal. -/
theorem isDistinct_unlocated {f : Form} : f.unlocated.IsDistinct ↔ f.IsDistinct := by
  induction f using structural with
  | leaf d l => exact iff_of_true .leaf .leaf
  | group b items l ih =>
    have members : (items.map unlocated).map key = items.map key := by
      rw [List.map_map]
      exact List.map_congr_left fun f _ => key_unlocated f
    have keys : ((entries (items.map unlocated)).map fun e => e.1.key) = (entries items).map fun e => e.1.key := by
      have paired : entries (items.map unlocated) = (entries items).map (Prod.map unlocated unlocated) :=
        pairsOr_map unlocated (.leaf .nil .unknown) items
      rw [paired, List.map_map]
      exact List.map_congr_left fun e _ => key_unlocated e.1
    rw [unlocated_group, isDistinct_group, isDistinct_group, members, keys, List.forall_mem_map]
    exact and_congr_left' (forall₂_congr ih)

/-- Without its locations a form is what it is as data. -/
theorem unlocated_asData {f : Form} (hw : f.IsWritten) (hd : f.IsDistinct) : f.asData.unlocated = f.unlocated := by
  induction hw with
  | leaf => rfl
  | group hs even ih =>
    have parts := (isDistinct_group.1 hd).1
    rw [asData_group (.group hs even) hd, unlocated_group, unlocated_group, List.map_map]
    exact congrArg (group _ · _) (List.map_congr_left fun f hf => ih f hf (parts f hf))

end Form

/-! ### Words -/

namespace Scan

/-- The characters that end every word but an open string: a blank, a comma and closing brackets. -/
def stopChars : List Char := [' ', ',', ')', ']', '\x7d']

/-- What does not continue the word in front of it: nothing, or a text that starts with a character that ends words. -/
def Stops (rest : List Char) : Prop := ∀ c ∈ rest.head?, c ∈ stopChars

theorem Stops.cons {c : Char} (h : c ∈ stopChars) (rest : List Char) : Stops (c :: rest) := by
  intro d hd
  cases hd
  exact h

theorem Stops.nil : Stops [] := nofun

variable {c : Char} {rest : List Char}

theorem not_isNameChar_of_mem_stopChars (h : c ∈ stopChars) : isNameChar c = false := by
  have all : stopChars.all (!isNameChar ·) = true := rfl
  simpa using List.all_eq_true.1 all c h

theorem not_isAsciiAlphanumeric_of_mem_stopChars (h : c ∈ stopChars) : isAsciiAlphanumeric c = false := by
  have all : stopChars.all (!isAsciiAlphanumeric ·) = true := rfl
  simpa using List.all_eq_true.1 all c h

theorem not_continues_of_mem_stopChars (h : c ∈ stopChars) (previous : Char) : continues previous c = false := by
  have all : stopChars.all (fun c => c != '.' && c != '+' && c != '-') = true := rfl
  have marks := List.all_eq_true.1 all c h
  simp only [Bool.and_eq_true, bne_iff_ne, ne_eq] at marks
  simp [continues, not_isAsciiAlphanumeric_of_mem_stopChars h, marks]

/-- The text is one token, which stands for the leaf, wherever nothing continues it. -/
def Yields (cs : List Char) (d : Leaf) : Prop :=
  ∃ t : Token, t.leaf? = some d ∧ ∀ l rest, Stops rest →
    skipBlanks false l (cs ++ rest) = ⟨l, cs ++ rest⟩ ∧
      scanToken ⟨l, cs ++ rest⟩ = .ok (t, ⟨cs.foldl .after l, rest⟩)

/-- Whether `c` belongs to a token wherever it stands outside comments. -/
def isInk (c : Char) : Bool := !isBlank c && c != ',' && c != ';'

/-- The scanner stands still in front of a token. -/
theorem skipBlanks_ink (ink : isInk c = true) (l : Location) (cs : List Char) :
    skipBlanks false l (c :: cs) = ⟨l, c :: cs⟩ := by
  simp only [isInk, Bool.and_eq_true, Bool.not_eq_true', bne_iff_ne, ne_eq] at ink
  obtain ⟨⟨blank, comma⟩, semicolon⟩ := ink
  rw [skipBlanks, if_neg Bool.false_ne_true, if_neg (by simp [blank, comma]), if_neg (by simpa using semicolon)]

theorem isInk_of_isAsciiAlphanumeric (letter : isAsciiAlphanumeric c = true) : isInk c = true := by
  have range : 48 ≤ c.toNat ∧ c.toNat ≤ 122 ∧ c.toNat ≠ 59 := by
    simp only [isAsciiAlphanumeric, isAsciiLetter, isAsciiDigit, Bool.or_eq_true, Bool.and_eq_true, decide_eq_true_eq,
      Char.le_def, UInt32.le_iff_toNat_le] at letter
    have bounds : '0'.val.toNat = 48 ∧ '9'.val.toNat = 57 ∧ 'a'.val.toNat = 97 ∧ 'z'.val.toNat = 122 ∧
      'A'.val.toNat = 65 ∧ 'Z'.val.toNat = 90 := by decide
    unfold Char.toNat
    omega
  have blank : isBlank c = false := by
    simp only [isBlank, Bool.or_eq_false_iff, Bool.and_eq_false_iff, decide_eq_false_iff_not, beq_eq_false_iff_ne]
    omega
  have comma : c ≠ ',' := by
    rintro rfl
    cases letter
  have semicolon : c ≠ ';' := by
    rintro rfl
    cases letter
  simp [isInk, blank, comma, semicolon]

theorem isNameStart_of_isAsciiLetter (letter : isAsciiLetter c = true) : isNameStart c = true := by
  have alpha : c.isAlpha = true := by
    change (c.isUpper || c.isLower) = true
    rwa [Bool.or_comm, ← Text.isLower_eq, ← Text.isUpper_eq]
  rw [isNameStart, Text.isAlphabetic_of_isAlpha alpha, Bool.true_or]

theorem tokenFrom_letter (letter : isAsciiLetter c = true) (l : Location) (cs : List Char) : tokenFrom l c cs =
    .ok (nameToken (c :: (run isNameChar (l.after c) cs).1), (run isNameChar (l.after c) cs).2) := by
  unfold tokenFrom
  dsimp only
  split
  case h_15 =>
    rw [if_neg, if_neg, if_pos (isNameStart_of_isAsciiLetter letter)]
    · intro digit
      simp only [isAsciiLetter, isAsciiDigit, Bool.or_eq_true, Bool.and_eq_true, decide_eq_true_eq, Char.le_def,
        UInt32.le_iff_toNat_le] at letter digit
      have bounds : '9'.val.toNat = 57 ∧ 'a'.val.toNat = 97 ∧ 'A'.val.toNat = 65 := by decide
      omega
    · intro sign
      simp only [Bool.or_eq_true, beq_iff_eq] at sign
      rcases sign with rfl | rfl <;> cases letter
  all_goals cases letter

/-- A name that stands alone is one token. -/
theorem yields_name (c : Char) (cs : List Char) {d : Leaf} (letter : isAsciiLetter c = true)
    (all : cs.all isNameChar = true) (known : (nameToken (c :: cs)).leaf? = some d) : Yields (c :: cs) d := by
  have ink : isInk c = true := isInk_of_isAsciiAlphanumeric (by rw [isAsciiAlphanumeric, letter, Bool.true_or])
  refine ⟨_, known, fun l rest stops => ⟨skipBlanks_ink ink l _, ?_⟩⟩
  have ends : ∀ c ∈ rest.head?, isNameChar c = false := fun c hc => not_isNameChar_of_mem_stopChars (stops c hc)
  change tokenFrom l c (cs ++ rest) = _
  rw [tokenFrom_letter letter, run_append (List.all_eq_true.1 all) ends]
  rfl

end Scan

/-! ### Integers -/

namespace Text

theorem numeral_eq_ofDigitChars {ds : List Char} (digits : ∀ c ∈ ds, c.isDigit = true) :
    numeral 10 ds = Nat.ofDigitChars 10 ds 0 := by
  induction ds using List.reverseRecOn with
  | nil => rfl
  | append_singleton ds c ih =>
    obtain ⟨front, last⟩ := List.forall_mem_append.1 digits
    have digit : digitNumber c = c.toNat - '0'.toNat := if_pos (last c (List.mem_singleton_self c))
    rw [numeral_append_singleton, ih front, digit, Nat.ofDigitChars_append, Nat.ofDigitChars_cons, Nat.mul_comm]
    rfl

theorem numeral_toDigits (n : Nat) : numeral 10 (Nat.toDigits 10 n) = n := by
  rw [numeral_eq_ofDigitChars fun _ => isDigit_of_mem_toDigits,
    Nat.ofDigitChars_toDigits (by decide) (by decide)]

end Text

namespace Numeral

/-- The decimal digits of a number behind a sign. -/
def decimal (s : Sign) (n : Nat) : Numeral where
  sign := s
  marker := .decimal
  digits := Nat.toDigits 10 n
  full := Nat.toDigits_ne_nil
  all _ h := Text.isDigit_ten.2 (Text.isDigit_of_mem_toDigits h)

theorem value_decimal (s : Sign) (n : Nat) : (decimal s n).value = s.apply n :=
  congrArg s.apply (Text.numeral_toDigits n)

/-- Every integer is written as a numeral. -/
theorem exists_text_eq (i : Int) : ∃ w : Numeral, w.marker = .decimal ∧ w.value = i ∧ (toString i).toList = w.text := by
  cases i with
  | ofNat n => exact ⟨decimal .none n, rfl, value_decimal _ n, Nat.toList_repr⟩
  | negSucc n =>
    refine ⟨decimal .minus (n + 1), rfl, (value_decimal _ _).trans (Int.negSucc_eq n).symm, ?_⟩
    change ("-" ++ (n + 1).repr).toList = _
    rw [String.toList_append, Nat.toList_repr]
    rfl

/-- The scanner does not skip a numeral. -/
theorem skipBlanks_text (w : Numeral) (l : Location) (cs : List Char) :
    Scan.skipBlanks false l (w.text ++ cs) = ⟨l, w.text ++ cs⟩ := by
  obtain ⟨c, ds, e, digit, -⟩ := w.exists_digit
  rw [text, e]
  cases w.sign with
  | plus => rfl
  | minus => rfl
  | none => exact Scan.skipBlanks_ink (Scan.isInk_of_isAsciiAlphanumeric (by simp [isAsciiAlphanumeric, digit])) l _

end Numeral

namespace Scan

theorem yields_int (n : Int64) : Yields (toString n.toInt).toList (.int n) := by
  obtain ⟨w, decimal, value, text⟩ := Numeral.exists_text_eq n.toInt
  refine ⟨.int n, rfl, fun l rest stops => ?_⟩
  rw [text]
  refine ⟨w.skipBlanks_text l rest, ?_⟩
  have ends : Ends w.text rest := fun c hc => not_continues_of_mem_stopChars (stops c hc) _
  obtain ⟨token, denotes, scanned⟩ := w.scanToken_text l ends
  rw [scanned]
  cases denotes with
  | exact same plain =>
    obtain rfl := Int64.toInt_inj.1 (same.trans value)
    rfl
  | refused beyond =>
    have range : -2 ^ 63 ≤ n.toInt ∧ n.toInt < 2 ^ 63 := ⟨n.le_toInt, n.toInt_lt⟩
    rw [value] at beyond
    rcases beyond with low | high | least
    · omega
    · omega
    · exact absurd decimal least.1

/-! ### Characters -/

/-- No name is a single character. -/
theorem characterToken_singleton (c : Char) : Literal.characterToken [c] = .ok (.char c) := by
  have longer : ∀ e ∈ Literal.characterNames, e.1.length ≠ 1 := by decide
  have unnamed : Literal.characterNames.lookup (String.ofList [c]) = none := by
    rw [List.lookup_eq_none_iff]
    intro e known
    have other : String.ofList [c] ≠ e.1 := fun same => longer e known (by rw [← same, String.length_ofList]; rfl)
    exact bne_iff_ne.2 other
  unfold Literal.characterToken
  dsimp only
  rw [unnamed]

theorem yields_char (c : Char) : Yields (Text.quoteChar c).toList (.char c) := by
  refine ⟨.char c, rfl, fun l rest stops => ?_⟩
  have ends : ∀ c ∈ rest.head?, isAsciiAlphanumeric c = false := fun c hc =>
    not_isAsciiAlphanumeric_of_mem_stopChars (stops c hc)
  have named {name : List Char} {first : Char} (letter : isAsciiLetter first = true)
      (all : name.all isAsciiAlphanumeric = true) (known : Literal.characterToken (first :: name) = .ok (.char c)) :
      scanToken ⟨l, '\\' :: first :: name ++ rest⟩ =
        .ok (.char c, ⟨('\\' :: first :: name).foldl .after l, rest⟩) := by
    change characterLiteral (l.after '\\') (first :: (name ++ rest)) = _
    rw [characterLiteral, if_pos letter, run_append (List.all_eq_true.1 all) ends]
    dsimp only
    rw [known]
    rfl
  unfold Text.quoteChar
  split
  case h_7 =>
    rw [String.toList_ofList]
    refine ⟨rfl, ?_⟩
    by_cases letter : isAsciiLetter c = true
    · exact named letter rfl (characterToken_singleton c)
    · change characterLiteral (l.after '\\') (c :: rest) = _
      rw [characterLiteral, if_neg letter]
      rfl
  all_goals exact ⟨rfl, named rfl rfl rfl⟩

/-! ### Strings -/

/-- An escaped character is read as what it stands for. -/
theorem stringRest_escapeChar (c : Char) (l : Location) (read cs : List Char) :
    stringRest .plain l read (escapeChar c ++ cs) = stringRest .plain ((escapeChar c).foldl .after l) (c :: read) cs := by
  unfold escapeChar
  split
  case h_6 quote slash _ _ _ =>
    rw [List.singleton_append, stringRest, if_neg (by simpa using quote), if_neg (by simpa using slash)]
    rfl
  all_goals rfl

theorem stringRest_text (s : List Char) (l : Location) (read rest : List Char) :
    stringRest .plain l read (s.flatMap escapeChar ++ '\x22' :: rest) =
      .ok (.str (String.ofList (read.reverse ++ s)), ⟨(s.flatMap escapeChar ++ ['\x22']).foldl .after l, rest⟩) := by
  induction s generalizing l read with
  | nil =>
    rw [List.append_nil]
    rfl
  | cons c s ih =>
    simp only [List.flatMap_cons, List.append_assoc, stringRest_escapeChar, ih, List.reverse_cons, List.foldl_append,
      List.singleton_append]

theorem yields_str (s : String) : Yields (Text.quoteString s).toList (.str s) := by
  refine ⟨.str s, rfl, fun l rest _ => ?_⟩
  rw [Text.quoteString, String.toList_ofList]
  refine ⟨rfl, ?_⟩
  change stringRest .plain (l.after '\x22') [] (s.toList.flatMap escapeChar ++ ['\x22'] ++ rest) = _
  rw [List.append_assoc, List.singleton_append, stringRest_text, List.reverse_nil, List.nil_append, String.ofList_toList]
  rfl

end Scan

/-- **The text of a literal is one token**, which stands for the literal. -/
theorem Leaf.IsLiteral.yields {d : Leaf} (h : d.IsLiteral) : Scan.Yields d.text.toList d := by
  cases d with
  | nil => exact Scan.yields_name 'n' ['i', 'l'] rfl rfl rfl
  | bool b =>
    cases b with
    | true => exact Scan.yields_name 't' ['r', 'u', 'e'] rfl rfl rfl
    | false => exact Scan.yields_name 'f' ['a', 'l', 's', 'e'] rfl rfl rfl
  | int n => exact Scan.yields_int n
  | char c => exact Scan.yields_char c
  | str s => exact Scan.yields_str s
  | _ => cases h

/-! ### Forms -/

namespace Scanned

open Scan (Stops)
open Phrase (tokensOf)

/-- Some phrases are what is scanned from the text `cs` at `l`, whatever follows that does not continue it. -/
def Writes (ps : List Phrase) (l : Location) (cs : List Char) : Prop :=
  ∀ rest, Stops rest → ofCursor ⟨l, cs ++ rest⟩ = (ofCursor ⟨cs.foldl .after l, rest⟩).behind (tokensOf ps)

theorem behind_behind (ts us : List Located) (more : Scanned) : (more.behind us).behind ts = more.behind (ts ++ us) :=
  congrArg (Scanned.mk · more.stop) (List.append_assoc ts us more.tokens).symm

variable {l : Location}

theorem writes_leaf {d : Leaf} (h : d.IsLiteral) (l : Location) :
    ∃ t known, Writes [.leaf t d known l] l d.text.toList := by
  obtain ⟨t, known, yields⟩ := h.yields
  refine ⟨t, known, fun rest stops => ?_⟩
  obtain ⟨stands, scanned⟩ := yields l rest stops
  exact ofCursor_token stands scanned (by rintro rfl; cases known)

/-- Blanks and commas between two texts. -/
theorem Writes.gap {p : Phrase} {ps : List Phrase} {cs gap ds : List Char} (first : Writes [p] l cs)
    (gapped : gap = [' '] ∨ gap = [',', ' ']) (others : Writes ps ((cs ++ gap).foldl .after l) ds) :
    Writes (p :: ps) l (cs ++ gap ++ ds) := by
  intro rest stops
  have starts : Stops (gap ++ (ds ++ rest)) := by
    obtain rfl | rfl := gapped <;> exact .cons (by decide) _
  have skipped : ofCursor ⟨cs.foldl .after l, gap ++ (ds ++ rest)⟩ =
      ofCursor ⟨(cs ++ gap).foldl .after l, ds ++ rest⟩ := by
    rw [List.foldl_append]
    obtain rfl | rfl := gapped <;> exact ofCursor_congr rfl
  rw [List.append_assoc, List.append_assoc, first _ starts, skipped, others rest stops, behind_behind, tokensOf,
    tokensOf, List.append_nil, ← List.foldl_append]
  rfl

theorem ofCursor_opening (b : Bracket) (l : Location) (cs : List Char) : ofCursor ⟨l, b.opening.toList ++ cs⟩ =
    (ofCursor ⟨b.opening.toList.foldl .after l, cs⟩).behind [⟨.opening b, l⟩] := by
  cases b <;> exact ofCursor_token rfl rfl nofun

theorem ofCursor_closing (b : Bracket) (l : Location) (cs : List Char) : ofCursor ⟨l, b.closer.text.toList ++ cs⟩ =
    (ofCursor ⟨b.closer.text.toList.foldl .after l, cs⟩).behind [⟨.closing b.closer, l⟩] := by
  cases b <;> exact ofCursor_token rfl rfl nofun

theorem stops_closing (b : Bracket) (cs : List Char) : Stops (b.closer.text.toList ++ cs) := by
  cases b <;> exact .cons (by decide) _

/-- Brackets around phrases. -/
theorem Writes.group {ps : List Phrase} {cs : List Char} (b : Bracket)
    (inside : Writes ps (b.opening.toList.foldl .after l) cs) :
    Writes [.group b ps l ((b.opening.toList ++ cs).foldl .after l)] l
      (b.opening.toList ++ cs ++ b.closer.text.toList) := by
  intro rest _
  rw [List.append_assoc, List.append_assoc, ofCursor_opening, inside _ (stops_closing b rest), ← List.foldl_append,
    ofCursor_closing, behind_behind, behind_behind, ← List.foldl_append, tokensOf, tokensOf, Phrase.tokens,
    List.append_nil]
  rfl

end Scanned

namespace Form

/-- How a group writes its items: with a blank between them, or a comma and a blank. -/
inductive LaidOut : List Form → List Char → Prop where
  | nil : LaidOut [] []
  | one (f : Form) : LaidOut [f] f.text.toList
  | more (f : Form) {g : Form} {fs : List Form} {gap cs : List Char} (gapped : gap = [' '] ∨ gap = [',', ' '])
    (others : LaidOut (g :: fs) cs) : LaidOut (f :: g :: fs) (f.text.toList ++ gap ++ cs)

theorem laidOut_itemTexts : (fs : List Form) → LaidOut fs (itemTexts fs).toList
  | [] => .nil
  | [f] => .one f
  | f :: g :: fs => by
    rw [itemTexts_cons_cons, String.toList_append, String.toList_append]
    exact .more f (.inl rfl) (laidOut_itemTexts (g :: fs))

theorem laidOut_entryTexts : (fs : List Form) → LaidOut fs (entryTexts fs).toList
  | [] => .nil
  | [k] => .one k
  | [k, v] => by
    rw [entryTexts, String.toList_append, String.toList_append]
    exact .more k (.inl rfl) (.one v)
  | k :: v :: g :: fs => by
    rw [entryTexts_cons_cons, String.toList_append, String.toList_append, String.toList_append, String.toList_append,
      List.append_assoc, List.append_assoc, ← List.append_assoc v.text.toList]
    exact .more k (.inl rfl) (.more v (.inr rfl) (laidOut_entryTexts (g :: fs)))

theorem text_group {b : Bracket} (other : b ≠ .map) (fs : List Form) (l : Location) :
    (group b fs l).text = b.opening ++ itemTexts fs ++ b.closer.text := by
  rw [text]
  exact other

/-- A group is written between its brackets. -/
theorem exists_laidOut (b : Bracket) (fs : List Form) (l : Location) : ∃ cs, LaidOut fs cs ∧
    (group b fs l).text.toList = b.opening.toList ++ cs ++ b.closer.text.toList := by
  by_cases map : b = .map
  · subst map
    exact ⟨_, laidOut_entryTexts fs, by rw [text, String.toList_append, String.toList_append]⟩
  · exact ⟨_, laidOut_itemTexts fs, by rw [text_group map, String.toList_append, String.toList_append]⟩

/-- The form is written by a phrase, which is not nested more deeply than the form, wherever it stands. -/
def Writable (f : Form) : Prop :=
  ∀ l, ∃ p : Phrase, p.form.unlocated = f.unlocated ∧ p.nesting ≤ f.height ∧ p.Paired ∧
    Scanned.Writes [p] l f.text.toList

theorem LaidOut.writes {fs : List Form} {cs : List Char} (h : LaidOut fs cs) (items : ∀ f ∈ fs, f.Writable)
    (l : Location) : ∃ ps : List Phrase, (Phrase.forms ps).map unlocated = fs.map unlocated ∧
      Phrase.nestings ps ≤ heights fs ∧ Phrase.AllPaired ps ∧ Scanned.Writes ps l cs := by
  induction h generalizing l with
  | nil => exact ⟨[], rfl, Nat.zero_le _, trivial, fun _ _ => rfl⟩
  | one f =>
    obtain ⟨p, form, nesting, paired, writes⟩ := items f (List.mem_singleton_self f) l
    refine ⟨[p], by simp [Phrase.forms, form], ?_, ⟨paired, trivial⟩, writes⟩
    simp only [Phrase.nestings, heights]
    omega
  | @more f g fs gap cs gapped _ ih =>
    obtain ⟨first, others⟩ := List.forall_mem_cons.1 items
    obtain ⟨p, form, nesting, paired, writes⟩ := first l
    obtain ⟨ps, forms, nestings, allPaired, allWrite⟩ := ih others ((f.text.toList ++ gap).foldl .after l)
    refine ⟨p :: ps, ?_, ?_, ⟨paired, allPaired⟩, writes.gap gapped allWrite⟩
    · rw [Phrase.forms, List.map_cons, List.map_cons, form, forms]
    · rw [Phrase.nestings, heights]
      omega

/-- **Literal forms are written by phrases.** -/
theorem IsLiteral.writable {f : Form} (h : f.IsLiteral) : f.Writable := by
  induction h with
  | @leaf d l' literal =>
    intro l
    obtain ⟨t, known, writes⟩ := Scanned.writes_leaf literal l
    exact ⟨.leaf t d known l, rfl, Nat.zero_le _, trivial, writes⟩
  | @group b fs l' hs even ih =>
    intro l
    obtain ⟨cs, laidOut, text⟩ := exists_laidOut b fs l'
    obtain ⟨ps, forms, nestings, allPaired, writes⟩ := laidOut.writes ih (b.opening.toList.foldl .after l)
    have length : ps.length = fs.length := by
      have both := congrArg List.length forms
      rwa [List.length_map, List.length_map, Phrase.forms_eq_map, List.length_map] at both
    have even' : b = .map → ps.length % 2 = 0 := fun map => length ▸ even map
    let close : Location := (b.opening.toList ++ cs).foldl .after l
    refine ⟨.group b ps l close, ?_, Nat.succ_le_succ nestings, ⟨even', allPaired⟩, text ▸ writes.group b⟩
    rw [Phrase.form, unlocated, unlocated, unlocatedAll_eq_map, unlocatedAll_eq_map, forms]

/-- **A text that is written from literals is read as they are**, unless brackets are nested too deeply. -/
theorem IsLiteral.readAll_text {f : Form} (h : f.IsLiteral) (fits : f.height ≤ maxNesting) :
    ∃ g, readAll f.text = .ok [g] ∧ g.unlocated = f.unlocated := by
  obtain ⟨p, form, nesting, paired, writes⟩ := h.writable .start
  refine ⟨p.form, ?_, form⟩
  have makeUp : Phrase.MakeUp [p] f.text := by
    have scanned := writes [] .nil
    rw [List.append_nil, Scanned.ofCursor_nil] at scanned
    exact ⟨_, scanned⟩
  refine readAll_of_makeUp makeUp ⟨paired, trivial⟩ ?_
  rw [Phrase.nestings, Phrase.nestings]
  omega

end Form

end TwinLisp
