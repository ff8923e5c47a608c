import VyattaCfg.Cliexec.EvalVa
import VyattaCfg.Cliexec.VarRefPaths

namespace VyattaCfg.Cliexec

open ByteString VyattaCfg.Client

namespace VarRef

variable (v : VarRef)

/-- The values that a path stands for. One that is not there stands for an empty value. -/
def valuesOf (found : Found) : List Bytes := if v.missing found then [[]] else found.values

def live (paths : List Found) : List Found := paths.filter (fun found => found.path ≠ [])

def readings (paths : List Found) : List (List Bytes) := (live paths).map v.valuesOf

/-- The types of the paths make text of their values: there are several, or theirs is text or
    there is none. -/
def Textual (paths : List Found) : Prop :=
  (live paths).length ≠ 1 ∨ ∀ found ∈ live paths, found.type = .text ∨ found.type = .error

end VarRef

section Reference

variable (uri : UriParser) (h : Handle) (cfgPath : CfgPath) (refStr : Bytes) (active : Bool)

def refPaths : Option (VarRef × Resolved) :=
  (Ctemplate.get h.configd cfgPath.text).map fun tmpl =>
    VarRef.construct uri h.configd h.atString (setCfgPath (workingPath uri cfgPath tmpl)).text refStr active

/-- The values `v1..vn` of a reference. -/
def refValues : List Bytes :=
  match refPaths uri h cfgPath refStr active with
  | none => []
  | some (v, resolved) => (v.readings resolved.paths).flatten

def RefTextual : Prop := ∀ pair ∈ refPaths uri h cfgPath refStr active, VarRef.Textual pair.2.paths

end Reference

/-- What holds of all that resolving finds: the last component is the joined values. -/
structure Joined (found : Found) : Prop where
  plain : 0 ∉ back found.path
  joined : back found.path = joinValues found.values
  filled : found.values ≠ []
  one : found.type = .text ∨ ∃ s, found.values = [s]

theorem joinValues_plain {values : List Bytes} (plain : ∀ s ∈ values, 0 ∉ s) : 0 ∉ joinValues values := by
  induction values with
  | nil => exact List.not_mem_nil
  | cons s values ih =>
    have here := plain s List.mem_cons_self
    have rest := ih fun s member => plain s (List.mem_cons_of_mem _ member)
    by_cases more : values = []
    · rw [more, joinValues, Words.join_singleton]
      exact here
    · rw [joinValues, Words.join_cons space s more]
      have differs : (0 : UInt8) ≠ space := by decide
      rw [joinValues] at rest
      simp [here, rest, differs]

theorem back_plain {path : Cpath} (plain : ∀ c ∈ path, 0 ∉ c) : 0 ∉ back path := by
  rw [back, List.getLastD_eq_getLast?]
  cases last : path.getLast? with
  | none => exact List.not_mem_nil
  | some c => exact plain c (List.mem_of_getLast? last)

theorem traverses_joined : VarRef.Traverses (fun path => ∀ c ∈ path, 0 ∉ c) Joined where
  push p c plain comp member := by
    rcases List.mem_append.mp member with member | member
    · exact plain comp member
    · rw [List.mem_singleton.mp member]
      exact cstr_nul_free c
  up p plain comp member := plain comp (List.dropLast_subset p member)
  node p t plain := ⟨back_plain plain, (Words.join_singleton space _).symm, List.cons_ne_nil _ _, .inr ⟨_, rfl⟩⟩
  leaf p values plain filled free := by
    have whole : back (Cpath.push p (joinValues values)) = joinValues values := by
      rw [Cpath.push, back, List.getLastD_concat, cstr_of_nul_free (joinValues_plain free)]
    refine ⟨?_, whole, filled, .inl rfl⟩
    rw [whole]
    exact joinValues_plain free

theorem construct_joined (uri : UriParser) (configd : Configd) (atString cfgPath ref : Bytes) (active : Bool) :
    ∀ found ∈ (VarRef.construct uri configd atString cfgPath ref active).2.paths, Joined found := by
  apply VarRef.processRef_found traverses_joined
  intro c member
  dsimp only [VarRef.construct] at member
  split at member
  · cases member
  · exact Cpath.ofString_nul_free cfgPath c member

theorem construct_single (uri : UriParser) (configd : Configd) (atString cfgPath ref : Bytes) (active : Bool) :
    VarRef.Single (VarRef.construct uri configd atString cfgPath ref active).2 := VarRef.processRef_single _ _ _

namespace VarRef

variable {v : VarRef}

theorem foldl_gather_live (multi : Bool) (paths : List Found) (g : Gathered) :
    paths.foldl (v.gather multi) g = (live paths).foldl (v.gather multi) g := by
  induction paths generalizing g with
  | nil => rfl
  | cons found paths ih =>
    by_cases root : found.path = []
    · have skipped : v.gather multi g found = g := by rw [gather, if_pos root]
      have dropped : live (found :: paths) = live paths := by simp [live, root]
      rw [List.foldl_cons, skipped, ih, dropped]
    · have kept : live (found :: paths) = found :: live paths := by simp [live, root]
      rw [List.foldl_cons, ih, kept, List.foldl_cons]

theorem result_gather_multi {found : Found} (joined : Joined found) (inside : found.path ≠ []) (g : Gathered) :
    (v.gather true g found).result = g.result ++ [joinValues (v.valuesOf found)] := by
  simp only [gather, if_neg inside, Bool.not_true, Bool.false_and, Bool.false_eq_true, if_false, valuesOf]
  cases missing : v.missing found with
  | true => simp [joinValues, Words.join_singleton]
  | false => simp [joined.joined]

theorem result_foldl_gather {paths : List Found} (joined : ∀ found ∈ paths, Joined found)
    (inside : ∀ found ∈ paths, found.path ≠ []) (g : Gathered) :
    (paths.foldl (v.gather true) g).result = g.result ++ (paths.map v.valuesOf).map joinValues := by
  induction paths generalizing g with
  | nil => simp
  | cons found paths ih =>
    rw [List.foldl_cons, ih (fun f member => joined f (List.mem_cons_of_mem _ member))
      (fun f member => inside f (List.mem_cons_of_mem _ member)),
      result_gather_multi (joined found List.mem_cons_self) (inside found List.mem_cons_self)]
    simp

theorem mem_live {paths : List Found} {found : Found} :
    found ∈ live paths ↔ found ∈ paths ∧ found.path ≠ [] := by
  simp [live, List.mem_filter]

theorem gathered_of_single {multi : Bool} {paths : List Found} (single : multi = false → paths.length ≤ 1) :
    v.gathered multi paths = v.gathered true paths := by
  cases multi with
  | true => rfl
  | false =>
    match paths, single rfl with
    | [], _ => rfl
    | [found], _ => simp [gathered, gather]

theorem joinValues_valuesOf_plain {found : Found} (joined : Joined found) : 0 ∉ joinValues (v.valuesOf found) := by
  unfold valuesOf
  split
  · rw [joinValues, Words.join_singleton]
    exact List.not_mem_nil
  · rw [← joined.joined]
    exact joined.plain

theorem valuesOf_filled {found : Found} (joined : Joined found) : v.valuesOf found ≠ [] := by
  unfold valuesOf
  split
  · exact List.cons_ne_nil _ _
  · exact joined.filled

theorem defType_gather (found : Found) (inside : found.path ≠ []) :
    (v.gather true ⟨[], [], .error⟩ found).defType = found.type := by
  simp only [gather, if_neg inside, Bool.not_true, Bool.false_and, Bool.false_eq_true, if_false]
  cases missing : v.missing found with
  | true =>
    simp only [VarRef.missing, decide_eq_true_eq] at missing
    simp [missing.1]
  | false =>
    simp only [Bool.false_eq_true, if_false]
    split
    · rfl
    · rename_i untyped
      exact (not_not.mp untyped).symm

theorem readings_of_not_textual {paths : List Found} (joined : ∀ found ∈ paths, Joined found)
    (typed : ¬ Textual paths) : ∃ s, (v.readings paths).flatten = [s] := by
  rw [Textual, not_or, not_not, List.length_eq_one_iff] at typed
  rcases typed with ⟨⟨found, only⟩, typed⟩
  rw [only, List.forall_mem_singleton, not_or] at typed
  have member : found ∈ paths := (mem_live.mp (only ▸ List.mem_singleton_self found)).1
  have there : v.missing found = false := by simp [VarRef.missing, typed.2]
  obtain ⟨s, value⟩ := (joined found member).one.resolve_left typed.1
  exact ⟨s, by simp [readings, only, valuesOf, there, value]⟩

/-- The string that `getValue` makes is the joined values, and it is text exactly as their
    types make it. -/
theorem getValue_eq {multi : Bool} {paths : List Found} (joined : ∀ found ∈ paths, Joined found)
    (single : multi = false → paths.length ≤ 1) (filled : live paths ≠ []) :
    0 ∉ joinValues (v.readings paths).flatten ∧
      ∃ type, v.getValue multi paths = some (joinValues (v.readings paths).flatten, type) ∧
        (type = .text ↔ Textual paths) := by
  have inside : ∀ found ∈ live paths, found.path ≠ [] := fun found member => (mem_live.mp member).2
  have live_joined : ∀ found ∈ live paths, Joined found := fun found member => joined found (mem_live.mp member).1
  have result : (v.gathered true paths).result = (v.readings paths).map joinValues := by
    rw [gathered, foldl_gather_live, result_foldl_gather live_joined inside]
    rfl
  have length : (v.gathered true paths).result.length = (live paths).length := by
    rw [result, List.length_map, readings, List.length_map]
  have readings_filled : ∀ values ∈ v.readings paths, values ≠ [] := by
    intro values member
    obtain ⟨found, inside, rfl⟩ := List.mem_map.mp member
    exact valuesOf_filled (live_joined found inside)
  have whole : joinValues ((v.readings paths).map joinValues) = joinValues (v.readings paths).flatten :=
    Words.join_map_join space readings_filled
  have plain : ∀ s ∈ (v.readings paths).map joinValues, 0 ∉ s := by
    intro s member
    obtain ⟨_, reading, rfl⟩ := List.mem_map.mp member
    obtain ⟨found, inside, rfl⟩ := List.mem_map.mp reading
    exact joinValues_valuesOf_plain (live_joined found inside)
  have nonempty : (v.gathered true paths).result.length ≠ 0 := by
    rw [length]
    exact fun empty => filled (List.length_eq_zero_iff.mp empty)
  refine ⟨whole ▸ joinValues_plain plain,
    if (v.gathered true paths).result.length > 1 ∨ (v.gathered true paths).defType = .error then .text
    else (v.gathered true paths).defType, ?_, ?_⟩
  · rw [getValue, gathered_of_single single]
    simp only [if_neg nonempty, Option.some.injEq, Prod.mk.injEq, and_true]
    rw [result, whole]
  · rw [Textual, ← length]
    by_cases several : (v.gathered true paths).result.length = 1
    · rw [length, List.length_eq_one_iff] at several
      rcases several with ⟨found, only⟩
      have type : (v.gathered true paths).defType = found.type := by
        rw [gathered, foldl_gather_live, only]
        exact defType_gather found (inside found (only ▸ List.mem_singleton_self found))
      rw [length, type, only]
      by_cases untyped : found.type = .error
      · simp [untyped]
      · simp [untyped]
    · have more : (v.gathered true paths).result.length > 1 := by omega
      simp [more, several]

end VarRef

theorem splitValue_values (ismulti : Bool) (value : VarRefValue) :
    (splitValue ismulti value).values =
      if value.type = .text then
        if strtok value.val = [] then [value.val] else strtok value.val
      else [value.val] := by
  have added : ∀ (rest : List Bytes) (res : ValStruct),
      (rest.foldl (fun res pch => addVal res { str2val pch with valType := value.type }) res).values =
        res.values ++ rest := by
    intro rest
    induction rest with
    | nil => simp
    | cons pch rest ih =>
      intro res
      have one : (addVal res { str2val pch with valType := value.type }).values = res.values ++ [pch] := by
        unfold addVal ValStruct.values
        by_cases empty : res.vals = []
        · simp [empty, str2val]
        · simp [empty, str2val]
      rw [List.foldl_cons, ih, one, List.append_assoc, List.singleton_append]
  unfold splitValue
  by_cases text : value.type = .text
  · simp only [text, if_true]
    cases tokens : strtok value.val with
    | nil => rfl
    | cons pch rest =>
      have all := added rest ⟨value.type, ismulti, some pch, []⟩
      simp only [text] at all
      rw [all]
      simp [ValStruct.values]
  · simp only [text, if_false]
    rfl

/-- The operand is the list of the values, and a single text value equals what it is. -/
structure OperandExact (res : ValStruct) (values : List Bytes) : Prop where
  listed : res.values = values
  equals : ∀ v, values = [v] → res.valType = .text → ∀ s, equalsText res s ↔ v = s

theorem operandExact_iff (res : ValStruct) (values : List Bytes) :
    OperandExact res values ↔ res.values = values := by
  constructor
  · exact OperandExact.listed
  · intro same
    refine ⟨same, ?_⟩
    intro v given text s
    subst given
    simp [equalsText, same, text]

theorem cstoreGetVarRef_value {uri : UriParser} {h : Handle} {cfgPath : CfgPath} {refStr : Bytes} {active : Bool}
    (resolves : refValues uri h cfgPath refStr active ≠ []) :
    ∃ type, (cstoreGetVarRef uri h cfgPath refStr active).result.value =
        some ⟨type, joinValues (refValues uri h cfgPath refStr active)⟩ ∧
      (type = .text ↔ RefTextual uri h cfgPath refStr active) ∧
      (¬ RefTextual uri h cfgPath refStr active → ∃ s, refValues uri h cfgPath refStr active = [s]) := by
  unfold refValues refPaths at resolves ⊢
  unfold RefTextual refPaths cstoreGetVarRef
  cases template : Ctemplate.get h.configd cfgPath.text with
  | none => simp [template] at resolves
  | some tmpl =>
    simp only [template, Option.map_some] at resolves ⊢
    have joined := construct_joined uri h.configd h.atString (setCfgPath (workingPath uri cfgPath tmpl)).text
      refStr active
    have single := construct_single uri h.configd h.atString (setCfgPath (workingPath uri cfgPath tmpl)).text
      refStr active
    generalize VarRef.construct uri h.configd h.atString (setCfgPath (workingPath uri cfgPath tmpl)).text
      refStr active = pair at resolves joined single ⊢
    rcases pair with ⟨v, resolved⟩
    have filled : VarRef.live resolved.paths ≠ [] := by
      intro empty
      simp [VarRef.readings, empty] at resolves
    obtain ⟨plain, type, value, textual⟩ := VarRef.getValue_eq (v := v) joined single filled
    refine ⟨type, ?_, ?_, ?_⟩
    · rw [value, Option.map_some, cstr_of_nul_free plain]
    · simpa using textual
    · intro typed
      exact VarRef.readings_of_not_textual joined (by simpa using typed)

theorem not_self_closed {refStr : Bytes}
    (other : ¬ (refStr.head? = some (ch '@') ∧ refStr[1]? ≠ some (ch '@'))) :
    ¬ ((refStr ++ str ")").head? = some (ch '@') ∧ (refStr ++ str ")")[1]? ≠ some (ch '@')) := by
  match refStr with
  | [] => decide
  | [c] =>
    intro self
    exact other ⟨self.1, nofun⟩
  | c :: d :: rest => exact other

theorem evalVar_closed {uri : UriParser} {h : Handle} {cfgPath : CfgPath} {validateValue : ValStruct}
    {inDeleteAction : Bool} {refStr : Bytes} (closed : ch ')' ∉ refStr)
    (other : ¬ (refStr.head? = some (ch '@') ∧ refStr[1]? ≠ some (ch '@'))) :
    evalVar uri (some h) cfgPath validateValue inDeleteAction (refStr ++ str ")") =
      let got := (cstoreGetVarRef uri h cfgPath refStr inDeleteAction).result
      match got.value with
      | some value => .ok (splitValue got.ismulti value)
      | none => if got.ismulti then .ok ⟨.text, true, some [], []⟩ else .error (-1) := by
  have paren : str ")" = [ch ')'] := rfl
  have cut : (refStr ++ str ")").takeWhile (· ≠ ch ')') = refStr := by
    rw [paren, List.takeWhile_append_of_pos]
    · simp
    · intro b member
      have differs : b ≠ ch ')' := fun h => closed (h ▸ member)
      simpa using differs
  have present : ch ')' ∈ refStr ++ str ")" := List.mem_append_right _ List.mem_cons_self
  rw [evalVar, if_neg (not_self_closed other), if_neg (not_not.mpr present)]
  rewrite [cut]
  rfl

theorem evalVar_ref {uri : UriParser} {h : Handle} {cfgPath : CfgPath} {validateValue : ValStruct}
    {inDeleteAction : Bool} {refStr : Bytes} (closed : ch ')' ∉ refStr)
    (other : ¬ (refStr.head? = some (ch '@') ∧ refStr[1]? ≠ some (ch '@'))) {value : VarRefValue}
    (found : (cstoreGetVarRef uri h cfgPath refStr inDeleteAction).result.value = some value) :
    evalVar uri (some h) cfgPath validateValue inDeleteAction (refStr ++ str ")") =
      .ok (splitValue (cstoreGetVarRef uri h cfgPath refStr inDeleteAction).result.ismulti value) := by
  rw [evalVar_closed closed other]
  simp only [found]

/-- The operand of a reference that resolves to some value. -/
theorem operand_exact_iff (uri : UriParser) (h : Handle) (cfgPath : CfgPath) (validateValue : ValStruct)
    (inDeleteAction : Bool) (refStr : Bytes) (closed : ch ')' ∉ refStr)
    (other : ¬ (refStr.head? = some (ch '@') ∧ refStr[1]? ≠ some (ch '@')))
    (resolves : refValues uri h cfgPath refStr inDeleteAction ≠ []) :
    ∃ res, evalVar uri (some h) cfgPath validateValue inDeleteAction (refStr ++ str ")") = .ok res ∧
      (OperandExact res (refValues uri h cfgPath refStr inDeleteAction) ↔
        (RefTextual uri h cfgPath refStr inDeleteAction →
          (∀ s ∈ refValues uri h cfgPath refStr inDeleteAction, s ≠ [] ∧ space ∉ s) ∨
            ∃ s, refValues uri h cfgPath refStr inDeleteAction = [s] ∧ ∀ b ∈ s, b = space)) := by
  obtain ⟨type, found, textual, one⟩ := cstoreGetVarRef_value resolves
  refine ⟨_, evalVar_ref closed other found, ?_⟩
  rw [operandExact_iff, splitValue_values]
  by_cases text : RefTextual uri h cfgPath refStr inDeleteAction
  · rw [if_pos (textual.mpr text)]
    have whole := Words.tokens_or_whole_iff space resolves
    exact whole.trans ⟨fun plain _ => plain, fun plain => plain text⟩
  · rw [if_neg (fun isText => text (textual.mp isText))]
    obtain ⟨s, value⟩ := one text
    rw [value, joinValues, Words.join_singleton]
    exact iff_of_true rfl (fun isText => absurd isText text)

def leafHandle (values : List Bytes) : Handle where
  configd :=
    { nodeGet _ path := if path = str "/leaf" then some values else none
      nodeExists _ _ := 1
      nodeGetStatus _ _ := 0
      nodeGetType _ := 1
      tmplGet path := some (if path = str "/leaf" then [str "type=txt", str "multi=1"] else [])
      tmplGetAllowed _ := .given []
      getHelp _ _ := none
      set _ := .refused none
      sessExists := 1 }
  atString := []

theorem operand_exact_words : ∃ res,
    evalVar uriparser (some (leafHandle [str "left", str "right"])) (setCfgPath (str "/node")) .zero false
      (str "/leaf/@" ++ str ")") = .ok res ∧ OperandExact res [str "left", str "right"] := by
  have values : refValues uriparser (leafHandle [str "left", str "right"]) (setCfgPath (str "/node"))
      (str "/leaf/@") false = [str "left", str "right"] := by decide +kernel
  have exact_iff := operand_exact_iff uriparser (leafHandle [str "left", str "right"])
    (setCfgPath (str "/node")) .zero false (str "/leaf/@") (by decide) (by decide) (by rw [values]; decide)
  rw [values] at exact_iff
  rcases exact_iff with ⟨res, evaluated, exactness⟩
  exact ⟨res, evaluated, exactness.mpr fun _ => .inl (by decide)⟩

/-- One value with a blank in it becomes two. -/
theorem operand_blank_splits : ¬ ∀ (uri : UriParser) (h : Handle) (cfgPath : CfgPath) (validateValue : ValStruct)
    (inDeleteAction : Bool) (refStr : Bytes), ch ')' ∉ refStr →
      ¬ (refStr.head? = some (ch '@') ∧ refStr[1]? ≠ some (ch '@')) →
      refValues uri h cfgPath refStr inDeleteAction ≠ [] →
      ∃ res, evalVar uri (some h) cfgPath validateValue inDeleteAction (refStr ++ str ")") = .ok res ∧
        OperandExact res (refValues uri h cfgPath refStr inDeleteAction) := by
  intro all
  have values : refValues uriparser (leafHandle [str "left right"]) (setCfgPath (str "/node"))
      (str "/leaf/@") false = [str "left right"] := by decide +kernel
  obtain ⟨res, evaluated, exactness⟩ := all uriparser (leafHandle [str "left right"])
    (setCfgPath (str "/node")) .zero false (str "/leaf/@") (by decide) (by decide) (by rw [values]; decide)
  have operand : (evalVar uriparser (some (leafHandle [str "left right"])) (setCfgPath (str "/node")) .zero false
      (str "/leaf/@" ++ str ")")).map ValStruct.values = .ok [str "left", str "right"] := by decide +kernel
  rw [evaluated] at operand
  have listed : res.values = [str "left", str "right"] := Except.ok.inj operand
  rw [exactness.listed, values] at listed
  exact absurd listed (by decide)

end VyattaCfg.Cliexec
