import VyattaCfg.Cliexec.OperandValues

namespace VyattaCfg.Cliexec

open ByteString VyattaCfg.Client Relation

namespace VarRef

/-- The call adds the joined values of a multi-value node. -/
def RefCall.JoinsValues (v : VarRef) (call : RefCall) : Prop :=
  ∃ crComp ∈ call.rcomps.head?, ∃ t ∈ v.leafAt crComp call.pcomps,
    t.isMulti = true ∧ (v.getValues call.pcomps).isSome = true

/-- configd has one value for a single-value node. -/
def ServesOne (v : VarRef) : Prop :=
  ∀ node t values, v.template node = some t → t.isSingleLeafNode = true → v.getValues node = some values →
    values.length = 1

/-- Nothing, the component in which the reference ends, or the value of a single-value node. -/
def OneValue (v : VarRef) (ref : List Bytes) (value : Bytes) : Prop :=
  value = [] ∨ ∃ call, v.Makes ref call ∧
    ((call.rcomps = [] ∧ value = back call.pcomps) ∨
      ∃ crComp ∈ call.rcomps.head?, ∃ t ∈ v.leafAt crComp call.pcomps,
        t.isSingleLeafNode = true ∧ v.getValues call.pcomps = some [value])

/-- What `*ismulti` says of a resolved reference. -/
structure Marks (v : VarRef) (ref : List Bytes) (resolved : Resolved) : Prop where
  several : 1 < resolved.paths.length → resolved.ismulti = true
  joined : ∀ call, v.Makes ref call → call.JoinsValues v → resolved.ismulti = true
  lone : resolved.ismulti = false → ∀ value type, v.getValue false resolved.paths = some (value, type) →
    (∃ found, resolved.paths = [found] ∧ value = if v.missing found then [] else back found.path) ∧
      (v.ServesOne → v.OneValue ref value)

variable {v : VarRef}

theorem sets_of_joins {call : RefCall} (joins : call.JoinsValues v) : call.sets v = true := by
  obtain ⟨crComp, first, t, leaf, multi, -⟩ := joins
  obtain ⟨rest, comps⟩ := List.head?_eq_some_iff.mp first
  rw [RefCall.sets, comps]
  exact (leafAt_spec leaf).2.1 multi

theorem joinValues_singleton (value : Bytes) : joinValues [value] = value := Words.join_singleton space value

/-- What a call adds is one value where `*ismulti` stays as it is. -/
theorem back_of_added (one : v.ServesOne) {ref : List Bytes} {call : RefCall} (made : v.Makes ref call)
    (unset : call.sets v = false) {found : Found} (added : found ∈ call.adds v) : v.OneValue ref (back found.path) := by
  obtain ⟨rcomps, pcomps, defType⟩ := call
  cases rcomps with
  | nil =>
    obtain rfl := List.mem_singleton.mp added
    exact .inr ⟨_, made, .inl ⟨rfl, rfl⟩⟩
  | cons crComp rcomps =>
    obtain ⟨t, leaf, own⟩ := mem_ownPaths added
    obtain ⟨template, multi, single⟩ := leafAt_spec leaf
    have notMulti : ¬ t.isMulti = true := fun is => Bool.false_ne_true (unset.symm.trans (multi is))
    rw [handleLeaf, if_neg notMulti] at own
    cases got : v.getValues pcomps with
    | none =>
      rw [got] at own
      obtain rfl := List.mem_singleton.mp own
      exact .inl (by simp [back, Cpath.push, cstr])
    | some values =>
      obtain ⟨value, rfl⟩ := List.length_eq_one_iff.mp (one pcomps t values template (single unset) got)
      have plain : 0 ∉ value := (getValues_plain got).2 value List.mem_cons_self
      rw [got] at own
      obtain rfl := List.mem_singleton.mp own
      have last : back (pcomps.push (joinValues [value])) = value := by
        rw [joinValues_singleton, back, Cpath.push, List.getLastD_concat, cstr_of_nul_free plain]
      rw [last]
      exact .inr ⟨_, made, .inr ⟨crComp, rfl, t, leaf, single unset, got⟩⟩

/-- The value of a lone path is its last component. -/
theorem getValue_singleton {found : Found} {value : Bytes} {type : VtwType}
    (given : v.getValue false [found] = some (value, type)) :
    value = if v.missing found then [] else back found.path := by
  unfold getValue gathered gather at given
  by_cases root : found.path = []
  · simp [root] at given
  · cases missing : v.missing found with
    | true =>
      simp [root, missing, joinValues_singleton] at given
      simp [given.1]
    | false =>
      simp [root, missing, joinValues_singleton] at given
      simp [given.1]

theorem processRef_marks (v : VarRef) (ref : List Bytes) : v.Marks ref (v.processRef ref v.origPathComps .error) where
  several more := by
    by_contra unset
    have few := processRef_single ref v.origPathComps .error (Bool.eq_false_iff.mpr unset)
    omega
  joined call made joins := ismulti_processRef_iff.mpr ⟨call, made, sets_of_joins joins⟩
  lone unset value type given := by
    have few := processRef_single ref v.origPathComps .error unset
    match paths : (v.processRef ref v.origPathComps .error).paths with
    | [] =>
      rw [paths] at given
      cases given
    | [found] =>
      rw [paths] at given
      have whole := getValue_singleton given
      refine ⟨⟨found, rfl, whole⟩, ?_⟩
      intro one
      have member : found ∈ (v.processRef ref v.origPathComps .error).paths := by simp [paths]
      obtain ⟨call, made, added⟩ := mem_processRef_iff.mp member
      have quiet : call.sets v = false := by
        by_contra sets
        rw [ismulti_processRef_iff.mpr ⟨call, made, Bool.not_eq_false _ ▸ sets⟩] at unset
        cases unset
      rw [whole]
      split
      · exact .inl rfl
      · exact back_of_added one made quiet added
    | _ :: _ :: _ =>
      rw [paths, List.length_cons, List.length_cons] at few
      omega

end VarRef

/-- `*ismulti` is set for more than one path and for joined values; what comes without it is the value of
    one path, and `cstore_get_var_ref` gives that value. -/
theorem ismulti_marks_several (uri : UriParser) (h : Handle) (refStr : Bytes) (active : Bool) :
    (∀ path, (VarRef.construct uri h.configd h.atString path refStr active).1.Marks (refComps refStr)
      (VarRef.construct uri h.configd h.atString path refStr active).2) ∧
    ∀ cfgPath, (cstoreGetVarRef uri h cfgPath refStr active).result.ismulti = false →
      ∀ value ∈ (cstoreGetVarRef uri h cfgPath refStr active).result.value,
        ∃ v resolved, refPaths uri h cfgPath refStr active = some (v, resolved) ∧ resolved.paths.length = 1 ∧
          (v.ServesOne → v.OneValue (refComps refStr) value.val) := by
  have marks : ∀ path, (VarRef.construct uri h.configd h.atString path refStr active).1.Marks (refComps refStr)
      (VarRef.construct uri h.configd h.atString path refStr active).2 := by
    intro path
    exact VarRef.processRef_marks _ _
  refine ⟨marks, ?_⟩
  intro cfgPath unset value given
  unfold cstoreGetVarRef at unset given
  unfold refPaths
  cases got : Ctemplate.get h.configd cfgPath.text with
  | none =>
    rw [got] at given
    cases given
  | some tmpl =>
    rw [got] at unset given
    have marked := marks (setCfgPath (workingPath uri cfgPath tmpl)).text
    have joined := construct_joined uri h.configd h.atString (setCfgPath (workingPath uri cfgPath tmpl)).text refStr active
    simp only at unset given
    rw [unset] at given
    obtain ⟨⟨text, type⟩, found, rfl⟩ := Option.map_eq_some_iff.mp given
    obtain ⟨⟨lone, paths, whole⟩, single⟩ := marked.lone unset text type found
    refine ⟨_, _, rfl, congrArg List.length paths, ?_⟩
    intro one
    have plain : 0 ∉ text := by
      rw [whole]
      split
      · exact List.not_mem_nil
      · exact (joined lone (by simp [paths])).plain
    rw [cstr_of_nul_free plain]
    exact single one

/-- Every node is a leaf with the value 1500. -/
def mtuHandle : Handle where
  configd :=
    { nodeGet _ _ := some [str "1500"]
      nodeExists _ _ := 1
      nodeGetStatus _ _ := 0
      nodeGetType _ := nodeTypeLeaf
      tmplGet _ := some [str "type=u32"]
      tmplGetAllowed _ := .given []
      getHelp _ _ := none
      set _ := .refused none
      sessExists := 1 }
  atString := []

theorem ismulti_marks_several_leaf :
    ∃ v resolved, refPaths uriparser mtuHandle (setCfgPath (str "/interfaces")) (str "/mtu/@") false =
      some (v, resolved) ∧ resolved.paths.length = 1 ∧ v.OneValue (refComps (str "/mtu/@")) (str "1500") := by
  have given : (cstoreGetVarRef uriparser mtuHandle (setCfgPath (str "/interfaces")) (str "/mtu/@") false).result =
      ⟨some ⟨.int, str "1500"⟩, false⟩ := by rfl
  obtain ⟨v, resolved, paths, lone, one⟩ := (ismulti_marks_several uriparser mtuHandle (str "/mtu/@") false).2
    (setCfgPath (str "/interfaces")) (by rw [given]) ⟨.int, str "1500"⟩ (by rw [given]; rfl)
  have served : v.configd = mtuHandle.configd := by
    obtain ⟨tmpl, -, constructed⟩ := Option.map_eq_some_iff.mp paths
    exact (congrArg (fun pair => pair.1.configd) constructed).symm
  refine ⟨v, resolved, paths, lone, one ?_⟩
  intro node t values _ _ got
  rw [VarRef.getValues, served] at got
  rw [← Option.some.inj got]
  rfl

end VyattaCfg.Cliexec
