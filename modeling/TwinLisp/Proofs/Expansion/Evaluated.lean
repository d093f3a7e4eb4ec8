import TwinLisp.Proofs.Expansion.Expanded
import TwinLisp.Proofs.Special.Safety
import TwinLisp.Proofs.Special.Shape

/-!
# What is evaluated is code

The shapes of special forms say what is evaluated in them, while expansion looks at forms on its own account.
All forms that are evaluated in a program are among those that expansion looks at.

## Main statements

* `Form.Part.hasCode`: the parts of a form that are evaluated are code in it.
* `Form.Contains.hasCode`: whatever is evaluated in a program is code in it.
-/

namespace TwinLisp

/-- All of the forms stand among the pieces of code. -/
def Form.AreAmong (parts : List (List String × Form)) (fs : List Form) : Prop :=
  ∀ g ∈ fs, ∃ names, (names, g) ∈ parts

namespace Form.AreAmong

variable {parts parts' : List (List String × Form)} {fs : List Form}

theorem map (names : List String) (fs : List Form) : AreAmong (fs.map (names, ·)) fs :=
  fun _ hg => ⟨names, List.mem_map_of_mem hg⟩

theorem mono (h : AreAmong parts fs) (hp : parts ⊆ parts') : AreAmong parts' fs := fun g hg => by
  obtain ⟨names, mem⟩ := h g hg
  exact ⟨names, hp mem⟩

theorem naming (h : AreAmong parts fs) (names : List String) :
    AreAmong (parts.map fun e => (e.1 ++ names, e.2)) fs := fun g hg => by
  obtain ⟨inner, mem⟩ := h g hg
  exact ⟨inner ++ names, List.mem_map.2 ⟨_, mem, rfl⟩⟩

end Form.AreAmong

namespace Shape

open Form (AreAmong)

variable (head : Form) (rest : List Form) (l : Location)

/-! ### Functions -/

theorem parts_overload_body (form : String) (vector : Form) (body : List Form) (l : Location) :
    Parts (fun o => o.body = body) (overload form vector body l) := by
  unfold overload
  split
  · exact .malformed ..
  · exact (parts_parameterNames form _ _).bind fun _ _ => .ok rfl

theorem parts_overloadClause_code (form : String) (whole clause : Form) :
    Parts (fun o => AreAmong clause.overloadParts o.body) (overloadClause form whole clause) := by
  unfold overloadClause
  dsimp only
  split
  · exact .malformed ..
  · exact .malformed ..
  · next vector body h =>
    refine (parts_overload_body form vector body _).imp fun o ho => ?_
    unfold Form.listItems? at h
    split at h
    · cases h
      rw [ho]
      exact .map _ _
    · cases h

theorem parts_overloads_code (form : String) (whole : Form) (fs : List Form) :
    Parts (fun os => ∀ o ∈ os, AreAmong (Form.functionParts fs) o.body) (overloads form whole fs) := by
  unfold overloads
  cases fs with
  | nil => exact .malformed ..
  | cons first body =>
    dsimp only
    split
    · next vector =>
      refine (parts_overload_body form first body _).bind fun o ho => parts_distinct form whole [o] ?_
      unfold Form.vectorItems? at vector
      split at vector
      · intro o' mem
        rw [List.mem_singleton.1 mem, ho]
        exact .map _ _
      · cases vector
    · next other =>
      have clauses : Form.functionParts (first :: body) = (first :: body).flatMap Form.overloadParts := by
        rw [Form.functionParts]
        rintro params l body ⟨⟩
        exact other rfl
      rw [clauses]
      refine (Parts.mapM (P := (· ∈ first :: body)) (fun _ => id) fun clause mem => ?_).bind
        (parts_distinct form whole)
      exact (parts_overloadClause_code form whole clause).imp fun o ho =>
        ho.mono fun _ he => List.mem_flatMap.2 ⟨clause, mem, he⟩

theorem parts_function_code : Parts
    (fun s => ∀ o ∈ s.overloads, AreAmong (Form.specialParts .function head rest) o.body)
    (function (.list (head :: rest) l)) := by
  unfold function
  refine Parts.bind (Q := (· = head :: rest)) (.ok rfl) ?_
  rintro _ rfl
  cases rest with
  | nil => exact (parts_overloads_code "fn" _ []).bind fun os hos => .ok hos
  | cons first more =>
    unfold Form.specialParts
    dsimp only [List.drop, List.head?, Option.bind]
    cases first.symbolName? with
    | some name =>
      exact (parts_overloads_code "fn" _ more).bind fun os hos => .ok fun o ho => (hos o ho).naming _
    | none => exact (parts_overloads_code "fn" _ (first :: more)).bind fun os hos => .ok hos

theorem parts_macroDefinition_code : Parts
    (fun s => ∀ o ∈ s.2, AreAmong (Form.specialParts .macroDefinition head rest) o.body)
    (macroDefinition (.list (head :: rest) l)) := by
  unfold macroDefinition
  refine Parts.bind (Q := (· = head :: rest)) (.ok rfl) ?_
  rintro _ rfl
  cases rest with
  | nil => exact .malformed ..
  | cons name rest =>
    refine (parts_symbolName ..).bind fun name _ => ?_
    refine (parts_overloads_code "defmacro" _ _).bind fun os hos => .ok fun o ho => ?_
    have among := hos o ho
    cases rest with
    | nil => exact among
    | cons doc more =>
      unfold Form.specialParts
      dsimp only
      cases more with
      | nil =>
        rw [if_neg (by simp)]
        exact among
      | cons second more =>
        unfold withoutDocumentation at among
        dsimp only at among
        split at among
        · next documented =>
          rw [if_pos (by simp [documented])]
          exact among
        · next undocumented =>
          rw [if_neg (by simp [undocumented])]
          exact among

/-! ### Bindings -/

theorem parts_bindingPairs_code (form : String) (l : Location) : (bound : List String) → (fs : List Form) →
    Parts (fun bs => AreAmong (Form.valueParts bound fs) (bs.map Prod.snd)) (bindingPairs form l fs)
  | _, [] => .ok fun _ h => absurd h List.not_mem_nil
  | _, [_] => .ok fun _ h => absurd h List.not_mem_nil
  | bound, name :: value :: rest => by
    unfold bindingPairs
    split
    · exact .malformed ..
    · have rest := parts_bindingPairs_code form l (name.symbolName?.toList ++ bound) rest
      refine rest.bind fun bs hbs => .ok ?_
      exact List.forall_mem_cons.2 ⟨⟨bound, List.mem_cons_self ..⟩, hbs.mono (List.subset_cons_self _ _)⟩

theorem parts_bindings_code (form : String) : Parts
    (fun bs => AreAmong (Form.specialParts .letBinding head rest) (bs.map Prod.snd))
    (bindings form (.list (head :: rest) l)) := by
  unfold bindings
  refine Parts.bind (Q := (· = head :: rest)) (.ok rfl) ?_
  rintro _ rfl
  cases rest with
  | nil => exact .malformed ..
  | cons vector body =>
    dsimp only [List.drop]
    split
    · exact .malformed ..
    · next pairs hp =>
      split
      · exact .malformed ..
      · unfold Form.vectorItems? at hp
        split at hp
        · cases hp
          refine (parts_bindingPairs_code form _ [] pairs).imp fun bs hbs => ?_
          exact hbs.mono (List.subset_append_left ..)
        · cases hp

theorem bindingBody_code (head : Form) (rest : List Form) (l : Location) :
    AreAmong (Form.specialParts .letBinding head rest) (bindingBody (.list (head :: rest) l)) := by
  unfold Form.specialParts bindingBody
  cases rest with
  | nil => exact fun _ h => absurd h List.not_mem_nil
  | cons bindings body =>
    dsimp only [Form.items, List.drop]
    split
    · next e => cases e
    · next pairs l body' e =>
      cases e
      exact (AreAmong.map _ _).mono (List.subset_append_right ..)
    · next e =>
      cases e
      exact .map _ _

/-! ### Definitions -/

theorem parts_definition_code : Parts (fun d => ∀ v, d.2 = some v → v ∈ rest)
    (definition (.list (head :: rest) l)) := by
  unfold definition
  refine Parts.bind (Q := (· = head :: rest)) (.ok rfl) ?_
  intro items hi
  split
  · exact (parts_symbolName ..).bind fun _ _ => .ok fun v hv => by cases hv
  · cases hi
    refine (parts_symbolName ..).bind fun _ _ => .ok ?_
    rintro v ⟨⟩
    simp
  · cases hi
    refine (parts_symbolName ..).bind fun _ _ => ?_
    split
    · refine .ok ?_
      rintro v ⟨⟩
      simp
    · exact .malformed ..
  · exact .malformed ..

/-! ### Failures -/

theorem exists_of_isCallTo {f : Form} {name : String} (h : f.isCallTo name = true) :
    ∃ head rest l, f = .list (head :: rest) l ∧ head.symbolName? = some name := by
  have head := eq_of_beq h
  unfold Form.headSymbol? at head
  split at head
  · cases head
    exact ⟨_, _, _, rfl, rfl⟩
  · cases head

theorem attemptParts_of_not_catch {f : Form} (h : f.isCallTo "catch" = false) :
    f.attemptParts = [([], f)] := by
  fun_cases Form.attemptParts f with
  | case1 head type binding body l handler =>
    have head := Form.headSymbol?_list head (type :: binding :: body) l
    rw [eq_of_beq handler] at head
    rw [Form.isCallTo, head] at h
    cases h
  | case2 => rfl
  | case3 => rfl

/-- The bodies of handlers are code, and the cleanup stands in a clause. -/
def ClausesAreCode (fs : List Form) (handlers : List (String × List Form)) (cleanup : Option (List Form)) :
    Prop :=
  (∀ h ∈ handlers, AreAmong (fs.flatMap Form.attemptParts) h.2) ∧
    ∀ gs, cleanup = some gs → ∃ clause ∈ fs, clause.isCallTo "finally" = true ∧ gs = clause.items.drop 1

theorem ClausesAreCode.mono {fs fs' : List Form} {handlers : List (String × List Form)}
    {cleanup : Option (List Form)} (h : ClausesAreCode fs handlers cleanup) (hs : fs ⊆ fs') :
    ClausesAreCode fs' handlers cleanup := by
  refine ⟨fun e he => (h.1 e he).mono fun e he => ?_, fun gs hgs => ?_⟩
  · obtain ⟨f, hf, he⟩ := List.mem_flatMap.1 he
    exact List.mem_flatMap.2 ⟨f, hs hf, he⟩
  · obtain ⟨c, mem, hc⟩ := h.2 gs hgs
    exact ⟨c, hs mem, hc⟩

theorem parts_clauses_code (fs : List Form) : Parts (fun c => ClausesAreCode fs c.1 c.2) (clauses fs) := by
  induction fs with
  | nil => exact .ok ⟨fun _ h => absurd h List.not_mem_nil, fun _ h => by cases h⟩
  | cons clause more ih =>
    unfold clauses
    split
    · next handler =>
      split
      · next first type binding body items =>
        refine (parts_symbolName ..).bind fun _ _ => ?_
        refine (parts_symbolName ..).bind fun name _ => ?_
        refine ih.bind fun c hc => ?_
        have hc := hc.mono (List.subset_cons_self clause more)
        refine .ok ⟨List.forall_mem_cons.2 ⟨?_, hc.1⟩, hc.2⟩
        obtain ⟨head, rest, l, rfl, named⟩ := exists_of_isCallTo handler
        cases items
        refine AreAmong.mono ?_ (List.subset_append_left ..)
        rw [Form.attemptParts, if_pos (by rw [named]; rfl)]
        exact .map _ _
      · exact .malformed ..
    · split
      · next cleanup =>
        split
        · refine .ok ⟨fun _ h => absurd h List.not_mem_nil, ?_⟩
          rintro _ ⟨⟩
          exact ⟨clause, List.mem_cons_self .., cleanup, rfl⟩
        · exact .malformed ..
      · exact .malformed ..

theorem parts_attempt_code : Parts
    (fun s => AreAmong (Form.specialParts .attempt head rest) s.body ∧
      ClausesAreCode rest s.handlers s.cleanup)
    (attempt (.list (head :: rest) l)) := by
  unfold attempt
  refine Parts.bind (Q := (· = head :: rest)) (.ok rfl) ?_
  rintro _ rfl
  dsimp only [List.drop]
  refine (parts_clauses_code _).bind fun c hc => .ok ⟨fun g hg => ?_, ?_⟩
  · have plain := List.all_eq_true.1 (List.all_takeWhile (p := fun g => !isClause g) (l := rest)) g hg
    have handler : g.isCallTo "catch" = false := by
      rw [isClause, Bool.not_eq_true', Bool.or_eq_false_iff] at plain
      exact plain.1
    refine ⟨[], List.mem_flatMap.2 ⟨g, List.takeWhile_sublist _ |>.subset hg, ?_⟩⟩
    rw [attemptParts_of_not_catch handler]
    exact List.mem_singleton_self _
  · exact hc.mono (List.dropWhile_sublist _).subset

end Shape

/-! ### Places -/

namespace Form

variable {target target' : Option RecurTarget} {isLast isLast' : Bool} {f g : Form}

theorem exists_of_special {kind : SpecialForm} (h : f.special? = some kind) : ∃ head rest l,
    f = .list (head :: rest) l ∧ head.symbolName?.bind SpecialForm.ofName? = some kind := by
  obtain ⟨name, hn, hk⟩ := Option.bind_eq_some_iff.1 h
  obtain ⟨head, rest, l, rfl, named⟩ := Shape.exists_of_isCallTo (beq_iff_eq.2 hn)
  exact ⟨head, rest, l, rfl, by rw [named]; exact hk⟩

theorem codeParts_special {kind : SpecialForm} {head : Form} (rest : List Form) (l : Location)
    (hk : head.symbolName?.bind SpecialForm.ofName? = some kind) :
    (Form.list (head :: rest) l).codeParts = specialParts kind head rest := by
  unfold codeParts
  dsimp only
  rw [hk]

theorem codeParts_plain (h : f.special? = none) : f.codeParts = f.items.map (([] : List String), ·) := by
  unfold codeParts
  split
  · rw [special?_list] at h
    rw [h]
    rfl
  · rfl

theorem HasCode.of_mem {e : List String × Form} (h : e ∈ f.codeParts) : f.HasCode e.1 e.2 := by
  have part := HasCode.self.part h
  rwa [List.append_nil] at part

theorem HasCode.trans {f g h : Form} {names names' : List String} (hf : f.HasCode names g)
    (hg : g.HasCode names' h) : f.HasCode (names' ++ names) h := by
  induction hg with
  | self => exact hf
  | part _ he ih =>
    rw [List.append_assoc]
    exact ih.part he

theorem InBody.mem {fs : List Form} (h : InBody isLast fs isLast' g) : g ∈ fs := by
  cases h with
  | last h => exact List.mem_of_getLast? h
  | before h => exact List.mem_of_mem_dropLast h

/-- **The parts of a form that are evaluated are code in it.** -/
theorem Part.hasCode (h : f.Part target isLast target' isLast' g) : ∃ names, f.HasCode names g := by
  have among {kind : SpecialForm} {fs : List Form} (hk : f.special? = some kind) (hg : g ∈ fs)
      (code : ∀ head rest l, f = .list (head :: rest) l → AreAmong (specialParts kind head rest) fs) :
      ∃ names, f.HasCode names g := by
    obtain ⟨head, rest, l, rfl, named⟩ := exists_of_special hk
    obtain ⟨names, mem⟩ := code head rest l rfl g hg
    rw [← codeParts_special rest l named] at mem
    exact ⟨names, .of_mem mem⟩
  have item {kind : SpecialForm} (hk : f.special? = some kind) (hg : g ∈ f.items.drop 1)
      (all : ∀ head rest, specialParts kind head rest = (head :: rest).map (([] : List String), ·)) :
      ∃ names, f.HasCode names g := by
    refine among hk hg ?_
    rintro head rest l rfl
    rw [all]
    exact fun g hg => AreAmong.map [] (head :: rest) g (List.mem_cons_of_mem _ hg)
  cases h with
  | item plain hg =>
    refine ⟨[], .of_mem (e := ([], g)) ?_⟩
    rw [codeParts_plain plain]
    exact List.mem_map_of_mem hg
  | test h hi => exact item h (by simp [hi]) fun _ _ => rfl
  | branch h hi hg => exact item h (by simp [hi, hg]) fun _ _ => rfl
  | sequence h hg => exact item h hg.mem fun _ _ => rfl
  | letValue h hs hb =>
    refine among h (List.mem_map_of_mem hb) ?_
    rintro head rest l rfl
    have code := Shape.parts_bindings_code head rest l "let"
    rw [hs] at code
    cases code
    assumption
  | letBody h hg =>
    refine among h hg.mem ?_
    rintro head rest l rfl
    exact Shape.bindingBody_code head rest l
  | loopValue h hs hb =>
    refine among h (List.mem_map_of_mem hb) ?_
    rintro head rest l rfl
    have code := Shape.parts_bindings_code head rest l "loop"
    rw [hs] at code
    cases code
    assumption
  | loopBody h _ hg =>
    refine among h hg.mem ?_
    rintro head rest l rfl
    exact Shape.bindingBody_code head rest l
  | functionBody h hs ho hg =>
    refine among h hg.mem ?_
    rintro head rest l rfl
    have code := Shape.parts_function_code head rest l
    rw [hs] at code
    cases code with
    | ok code => exact code _ ho
  | macroBody h hs ho hg =>
    refine among h hg.mem ?_
    rintro head rest l rfl
    have code := Shape.parts_macroDefinition_code head rest l
    rw [hs] at code
    cases code with
    | ok code => exact code _ ho
  | defined h hs =>
    refine item h ?_ fun _ _ => rfl
    obtain ⟨head, rest, l, rfl, -⟩ := exists_of_special h
    have code := Shape.parts_definition_code head rest l
    rw [hs] at code
    cases code with
    | ok code => exact code _ rfl
  | recurValue h hg => exact item h hg fun _ _ => rfl
  | raised h hi => exact item h (by simp [hi]) fun _ _ => rfl
  | attempted h hs hg =>
    obtain ⟨head, rest, l, rfl, named⟩ := exists_of_special h
    have code := Shape.parts_attempt_code head rest l
    rw [hs] at code
    cases code with
    | ok code =>
      obtain ⟨body, handlers, cleanup⟩ := code
      have stands {g : Form} (h : ∃ names, (names, g) ∈ rest.flatMap attemptParts) :
          ∃ names, (Form.list (head :: rest) l).HasCode names g := by
        obtain ⟨names, mem⟩ := h
        exact ⟨names, .of_mem (e := (names, g)) (codeParts_special rest l named ▸ mem)⟩
      rcases hg with hg | ⟨e, he, hg⟩ | ⟨gs, hgs, hg⟩
      · exact stands (body g hg)
      · exact stands (handlers e he g hg)
      · obtain ⟨clause, mem, isFinally, rfl⟩ := cleanup gs hgs
        obtain ⟨first, more, at', rfl, name⟩ := Shape.exists_of_isCallTo isFinally
        have plain : (Form.list (first :: more) at').isCallTo "catch" = false := by
          rw [isCallTo, headSymbol?_list, name]
          decide
        obtain ⟨names, around⟩ := stands ⟨[], List.mem_flatMap.2 ⟨_, mem, by
          rw [Shape.attemptParts_of_not_catch plain]
          exact List.mem_singleton_self _⟩⟩
        have inside : (([] : List String), g) ∈ (Form.list (first :: more) at').codeParts := by
          rw [codeParts_special more at' (by rw [name]; rfl)]
          exact List.mem_map_of_mem (List.mem_cons_of_mem _ hg)
        exact ⟨_, around.part inside⟩

/-- **Whatever is evaluated in a program is code in it.** -/
theorem Contains.hasCode (h : f.Contains target isLast g) : ∃ names, f.HasCode names g := by
  induction h with
  | self => exact ⟨[], .self⟩
  | part _ h ih =>
    obtain ⟨names, hf⟩ := ih
    obtain ⟨names', hg⟩ := h.hasCode
    exact ⟨names' ++ names, hf.trans hg⟩

end Form

end TwinLisp
