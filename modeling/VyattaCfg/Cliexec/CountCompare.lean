import VyattaCfg.Cliexec.OperandValues
import VyattaCfg.Cliexec.ValCmp

namespace VyattaCfg.Cliexec

open ByteString VyattaCfg.Client

def VtwCond.truth (cond : VtwCond) (n k : Nat) : Bool :=
  match cond with
  | .eqCond | .inCond => n = k
  | .neCond => n ≠ k
  | .ltCond => n < k
  | .leCond => n ≤ k
  | .gtCond => k < n
  | .geCond => k ≤ n

theorem holds_order (cond : VtwCond) (n k : Nat) :
    cond.holds (if k < n then 1 else if n < k then -1 else 0) = cond.truth n k := by
  have order : n < k ∨ n = k ∨ k < n := by omega
  rcases order with less | same | more
  · have notMore : ¬ k < n := by omega
    rw [if_neg notMore, if_pos less]
    cases cond <;> simp [VtwCond.holds, VtwCond.cond1, VtwCond.cond2, VtwCond.truth] <;> omega
  · subst same
    rw [if_neg (lt_irrefl n), if_neg (lt_irrefl n)]
    cases cond <;> simp [VtwCond.holds, VtwCond.cond1, VtwCond.cond2, VtwCond.truth]
  · rw [if_pos more]
    cases cond <;> simp [VtwCond.holds, VtwCond.cond1, VtwCond.cond2, VtwCond.truth] <;> omega

structure IsU32 (text : Bytes) (k : Nat) : Prop where
  nonempty : text ≠ []
  digits : ∀ c ∈ text, Scanf.IsDigit 10 c
  value : Scanf.number 10 text = k
  fits : k < 0x100000000

theorem sscanf_u32 {text : Bytes} {k : Nat} (literal : IsU32 text k) : sscanf text (str "%u") = [k] := by
  have format : Scanf.directives (str "%u") = [.unsigned 10] := by decide
  have small : Scanf.number 10 text < 0x100000000 := literal.value ▸ literal.fits
  have stop : ∀ c ∈ ([] : Bytes).head?, ¬ Scanf.IsDigit 10 c ∧ c ≠ ch 'x' ∧ c ≠ ch 'X' := nofun
  have read := Scanf.readUnsigned_digits literal.nonempty literal.digits stop small
  rw [List.append_nil, literal.value] at read
  rw [sscanf, format, Scanf.scan, read]
  rfl

theorem compareOperands_count (rightPart : Nat) {left : ValStruct} (multi : left.ismulti = true) {text : Bytes}
    {k : Nat} (literal : IsU32 text k) (literalMulti : Bool) {cond : VtwCond} (notIn : cond ≠ .inCond) :
    compareOperands rightPart left ⟨.int, literalMulti, some text, []⟩ cond =
      .ok (cond.truth left.vals.length k) := by
  have sameKind : ¬ (left.valType ≠ .int ∧ left.ismulti = false) := by simp [multi]
  have counted : left.ismulti = true ∧ cond ≠ .inCond ∧ ([] : List (Bytes × VtwType)) = [] ∧
      VtwType.int = VtwType.int := ⟨multi, notIn, rfl, rfl⟩
  rw [compareOperands, if_neg sameKind, valCmp, if_pos counted]
  simp only [cmpCount, sscanf_u32 literal, List.headD_cons, holds_order]

theorem addVal_count (first second : ValStruct) :
    (addVal first second).vals.length = if first.vals = [] then 2 else first.vals.length + 1 := by
  unfold addVal
  split <;> simp

theorem foldl_addVal_count (f : Bytes → ValStruct) (rest : List Bytes) (first : ValStruct)
    (several : first.vals ≠ []) :
    (rest.foldl (fun res pch => addVal res (f pch)) first).vals.length = first.vals.length + rest.length := by
  induction rest generalizing first with
  | nil => rfl
  | cons pch rest ih =>
    have grown := addVal_count first (f pch)
    rw [if_neg several] at grown
    have filled : (addVal first (f pch)).vals ≠ [] := by
      intro empty
      rw [empty] at grown
      cases grown
    rw [List.foldl_cons, ih _ filled, grown, List.length_cons]
    omega

theorem splitValue_count (ismulti : Bool) (value : VarRefValue) :
    (splitValue ismulti value).vals.length =
      if value.type = .text ∧ 2 ≤ (strtok value.val).length then (strtok value.val).length else 0 := by
  unfold splitValue
  by_cases text : value.type = .text
  · cases tokens : strtok value.val with
    | nil => simp [text]
    | cons pch rest =>
      cases rest with
      | nil => simp [text]
      | cons next rest =>
        simp only [text, if_true, List.foldl_cons]
        rw [foldl_addVal_count]
        · rw [addVal_count]
          simp
          omega
        · simp [addVal]
  · simp [text]

theorem splitValue_ismulti (ismulti : Bool) (value : VarRefValue) :
    (splitValue ismulti value).ismulti = ismulti := by
  have added : ∀ (rest : List Bytes) (res : ValStruct),
      (rest.foldl (fun res pch => addVal res { str2val pch with valType := value.type }) res).ismulti =
        res.ismulti := by
    intro rest
    induction rest with
    | nil => simp
    | cons pch rest ih =>
      intro res
      rw [List.foldl_cons, ih]
      unfold addVal
      split <;> rfl
  unfold splitValue
  split
  · split
    · rfl
    · exact added _ _
  · rfl

theorem cstoreGetVarRef_none {uri : UriParser} {h : Handle} {cfgPath : CfgPath} {refStr : Bytes} {active : Bool}
    (unresolved : refValues uri h cfgPath refStr active = []) :
    (cstoreGetVarRef uri h cfgPath refStr active).result.value = none := by
  unfold refValues refPaths at unresolved
  unfold cstoreGetVarRef
  cases template : Ctemplate.get h.configd cfgPath.text with
  | none => rfl
  | some tmpl =>
    simp only [template, Option.map_some] at unresolved ⊢
    have joined := construct_joined uri h.configd h.atString (setCfgPath (workingPath uri cfgPath tmpl)).text
      refStr active
    generalize VarRef.construct uri h.configd h.atString (setCfgPath (workingPath uri cfgPath tmpl)).text
      refStr active = pair at unresolved joined ⊢
    rcases pair with ⟨v, resolved⟩
    have dead : VarRef.live resolved.paths = [] := by
      rw [List.eq_nil_iff_forall_not_mem]
      intro found member
      rw [List.flatten_eq_nil_iff] at unresolved
      have empty := unresolved _ (List.mem_map_of_mem member)
      exact VarRef.valuesOf_filled (joined found (VarRef.mem_live.mp member).1) empty
    have nothing : v.getValue resolved.ismulti resolved.paths = none := by
      simp [VarRef.getValue, VarRef.gathered, VarRef.foldl_gather_live, dead]
    simp [nothing]

/-- The operand of a multi-valued reference: its `cnt` is the number of values, except that one
    value is not counted. -/
theorem evalVar_count {uri : UriParser} {h : Handle} {cfgPath : CfgPath} {validateValue : ValStruct}
    {inDeleteAction : Bool} {refStr : Bytes} (closed : ch ')' ∉ refStr)
    (other : ¬ (refStr.head? = some (ch '@') ∧ refStr[1]? ≠ some (ch '@')))
    (multi : (cstoreGetVarRef uri h cfgPath refStr inDeleteAction).result.ismulti = true)
    (plain : ∀ s ∈ refValues uri h cfgPath refStr inDeleteAction, s ≠ [] ∧ space ∉ s) :
    ∃ res, evalVar uri (some h) cfgPath validateValue inDeleteAction (refStr ++ str ")") = .ok res ∧
      res.ismulti = true ∧
      res.vals.length =
        if (refValues uri h cfgPath refStr inDeleteAction).length = 1 then 0
        else (refValues uri h cfgPath refStr inDeleteAction).length := by
  by_cases unresolved : refValues uri h cfgPath refStr inDeleteAction = []
  · refine ⟨⟨.text, true, some [], []⟩, ?_, rfl, by simp [unresolved]⟩
    rw [evalVar_closed closed other]
    simp [cstoreGetVarRef_none unresolved, multi]
  · obtain ⟨type, found, textual, one⟩ := cstoreGetVarRef_value unresolved
    refine ⟨_, evalVar_ref closed other found, ?_, ?_⟩
    · rw [splitValue_ismulti, multi]
    · rw [splitValue_count]
      by_cases text : RefTextual uri h cfgPath refStr inDeleteAction
      · have tokens : strtok (joinValues (refValues uri h cfgPath refStr inDeleteAction)) =
            refValues uri h cfgPath refStr inDeleteAction := Words.tokens_join space plain
        have some : 0 < (refValues uri h cfgPath refStr inDeleteAction).length := List.length_pos_iff.mpr unresolved
        simp only [textual.mpr text, tokens, true_and]
        split <;> split <;> omega
      · obtain ⟨s, value⟩ := one text
        have typed : ¬ type = .text := fun isText => text (textual.mp isText)
        simp [typed, value]

/-- The conditions under which 0 and 1 fare the same. -/
def VtwCond.IgnoresOne (cond : VtwCond) (k : Nat) : Prop :=
  1 < k ∨ (k = 0 ∧ (cond = .ltCond ∨ cond = .geCond)) ∨ (k = 1 ∧ (cond = .leCond ∨ cond = .gtCond))

theorem truth_zero_iff (cond : VtwCond) (k : Nat) :
    cond.truth 0 k = cond.truth 1 k ↔ cond.IgnoresOne k := by
  unfold VtwCond.IgnoresOne
  match k with
  | 0 => cases cond <;> decide
  | 1 => cases cond <;> decide
  | k + 2 => cases cond <;> simp [VtwCond.truth]

theorem count_compared_iff (uri : UriParser) (h : Handle) (cfgPath : CfgPath) (validateValue : ValStruct)
    (inDeleteAction : Bool) (rightPart : Nat) (refStr : Bytes) (closed : ch ')' ∉ refStr)
    (other : ¬ (refStr.head? = some (ch '@') ∧ refStr[1]? ≠ some (ch '@')))
    (multi : (cstoreGetVarRef uri h cfgPath refStr inDeleteAction).result.ismulti = true)
    (plain : ∀ s ∈ refValues uri h cfgPath refStr inDeleteAction, s ≠ [] ∧ space ∉ s)
    (text : Bytes) (k : Nat) (literal : IsU32 text k) (literalMulti : Bool) (cond : VtwCond)
    (notIn : cond ≠ .inCond) :
    checkComp rightPart (evalVar uri (some h) cfgPath validateValue inDeleteAction (refStr ++ str ")"))
        (.ok ⟨.int, literalMulti, some text, []⟩) cond =
      .ok (cond.truth (refValues uri h cfgPath refStr inDeleteAction).length k) ↔
    (refValues uri h cfgPath refStr inDeleteAction).length ≠ 1 ∨ cond.IgnoresOne k := by
  obtain ⟨res, evaluated, isMulti, count⟩ := evalVar_count closed other multi plain
  rw [evaluated, checkComp, compareOperands_count rightPart isMulti literal literalMulti notIn, count,
    Except.ok.injEq]
  by_cases single : (refValues uri h cfgPath refStr inDeleteAction).length = 1
  · rw [if_pos single, single, truth_zero_iff]
    simp
  · simp [single]

theorem count_compared_two : checkComp 0
    (evalVar uriparser (some (leafHandle [str "left", str "right"])) (setCfgPath (str "/node")) .zero false
      (str "/leaf/@" ++ str ")")) (.ok ⟨.int, false, some (str "2"), []⟩) .geCond =
    .ok (VtwCond.truth .geCond 2 2) := by
  have values : refValues uriparser (leafHandle [str "left", str "right"]) (setCfgPath (str "/node"))
      (str "/leaf/@") false = [str "left", str "right"] := by decide +kernel
  have compared := count_compared_iff uriparser (leafHandle [str "left", str "right"])
    (setCfgPath (str "/node")) .zero false 0 (str "/leaf/@") (by decide) (by decide) (by decide +kernel)
    (by rw [values]; decide +kernel) (str "2") 2 ⟨by decide, by decide +kernel, by decide, by decide⟩ false .geCond (by decide)
  rw [values] at compared
  exact compared.mpr (.inl (by decide))

theorem count_single_missed : ¬ ∀ (uri : UriParser) (h : Handle) (cfgPath : CfgPath) (validateValue : ValStruct)
    (inDeleteAction : Bool) (rightPart : Nat) (refStr : Bytes), ch ')' ∉ refStr →
      ¬ (refStr.head? = some (ch '@') ∧ refStr[1]? ≠ some (ch '@')) →
      (cstoreGetVarRef uri h cfgPath refStr inDeleteAction).result.ismulti = true →
      (∀ s ∈ refValues uri h cfgPath refStr inDeleteAction, s ≠ [] ∧ space ∉ s) →
      ∀ (text : Bytes) (k : Nat), IsU32 text k → ∀ (literalMulti : Bool) (cond : VtwCond), cond ≠ .inCond →
        checkComp rightPart (evalVar uri (some h) cfgPath validateValue inDeleteAction (refStr ++ str ")"))
            (.ok ⟨.int, literalMulti, some text, []⟩) cond =
          .ok (cond.truth (refValues uri h cfgPath refStr inDeleteAction).length k) := by
  intro all
  have values : refValues uriparser (leafHandle [str "left"]) (setCfgPath (str "/node"))
      (str "/leaf/@") false = [str "left"] := by decide +kernel
  have compared := all uriparser (leafHandle [str "left"]) (setCfgPath (str "/node")) .zero false 0
    (str "/leaf/@") (by decide) (by decide) (by decide +kernel) (by rw [values]; decide +kernel) (str "1") 1
    ⟨by decide, by decide +kernel, by decide, by decide⟩ false .eqCond (by decide)
  have computed : checkComp 0
      (evalVar uriparser (some (leafHandle [str "left"])) (setCfgPath (str "/node")) .zero false
        (str "/leaf/@" ++ str ")")) (.ok ⟨.int, false, some (str "1"), []⟩) .eqCond = .ok false := by
    decide +kernel
  rw [computed, values] at compared
  exact absurd compared (by decide)

end VyattaCfg.Cliexec
