import VyattaCfg.Cliexec.VarRef

namespace VyattaCfg.Cliexec

open ByteString VyattaCfg.Client

namespace VarRef

variable {v : VarRef}

/-- A component that `process_ref` takes for the name of a node. -/
abbrev IsName (crComp : Bytes) : Prop :=
  crComp ≠ str "@" ∧ crComp ≠ str "." ∧ crComp ≠ str ".." ∧ crComp ≠ str "@@"

theorem processRef_name {crComp : Bytes} (isName : IsName crComp) {pcomps node : Cpath}
    (tagged : v.tagged pcomps (v.template pcomps) = some node) (rcomps : List Bytes) (defType : VtwType) :
    v.processRef (crComp :: rcomps) pcomps defType = v.processRef rcomps (node.push crComp) .error := by
  rcases isName with ⟨notAt, notDot, notUp, notWildcard⟩
  simp only [processRef, if_neg notAt, if_neg notDot, if_neg notUp, if_neg notWildcard, tagged]

theorem processRef_dot (rcomps : List Bytes) (pcomps : Cpath) (defType : VtwType) :
    v.processRef (str "." :: rcomps) pcomps defType = v.processRef rcomps pcomps .error := by
  have notAt : ¬ str "." = str "@" := by decide
  rw [processRef]
  simp only [if_neg notAt, if_true]

theorem processRef_up {pcomps up : Cpath} {t : Ctemplate} (template : v.template pcomps = some t)
    (parent : v.parent pcomps = some up) (rcomps : List Bytes) (defType : VtwType) :
    v.processRef (str ".." :: rcomps) pcomps defType = v.processRef rcomps up .error := by
  have notAt : ¬ str ".." = str "@" := by decide
  have notDot : ¬ str ".." = str "." := by decide
  rw [processRef]
  simp only [if_neg notAt, if_neg notDot, if_true, template, parent]

theorem tagged_plain {pcomps : Cpath} (plain : (v.template pcomps).any Ctemplate.isTagNode = false) :
    v.tagged pcomps (v.template pcomps) = some pcomps := by
  rw [tagged, if_neg (by simp [plain])]

theorem tagged_below {pcomps node : Cpath} (tag : (v.template pcomps).any Ctemplate.isTagNode = true)
    (tagged : v.tagged pcomps (v.template pcomps) = some node) : ∃ comp, node = pcomps.push comp := by
  rw [VarRef.tagged, if_pos tag] at tagged
  split at tagged
  · exact ⟨_, (Option.some.inj tagged).symm⟩
  · split at tagged
    · exact ⟨_, (Option.some.inj tagged).symm⟩
    · cases tagged

/-- A way down by names on which every node has a template, the tag values in between included. -/
inductive Descends (v : VarRef) : Cpath → List Bytes → Prop where
  | here (pcomps : Cpath) : Descends v pcomps []
  | down {pcomps node : Cpath} {name : Bytes} {names : List Bytes} (isName : IsName name)
      (tagged : v.tagged pcomps (v.template pcomps) = some node)
      (value : node ≠ pcomps → ∃ t, v.template node = some t)
      (valid : ∃ t, v.template (node.push name) = some t)
      (rest : Descends v (node.push name) names) : Descends v pcomps (name :: names)

/-- The values of a tag node are tag values. -/
def TagValues (v : VarRef) : Prop :=
  ∀ pcomps comp t value, v.template pcomps = some t → t.isTagNode = true →
    v.template (pcomps.push comp) = some value → value.isTagValue = true

/-- No other nodes are. -/
def OnlyTagValues (v : VarRef) : Prop :=
  ∀ pcomps comp value, v.template (pcomps.push comp) = some value → value.isTagValue = true →
    (v.template pcomps).any Ctemplate.isTagNode = true

/-- The nodes that `..` comes back to: the root, and any node but a tag value. -/
def Stands (v : VarRef) (pcomps : Cpath) : Prop :=
  pcomps = [] ∨ ∃ t, v.template pcomps = some t ∧ t.isTagValue = false

theorem parent_push {pcomps : Cpath} (stands : v.Stands pcomps) (comp : Bytes) :
    v.parent (pcomps.push comp) = some pcomps := by
  have filled : pcomps.push comp ≠ [] := by simp [Cpath.push]
  have up : (pcomps.push comp).dropLast = pcomps := by simp [Cpath.push]
  rw [parent, if_neg filled, up]
  rcases stands with root | ⟨t, template, plain⟩
  · rw [if_pos root]
  · by_cases root : pcomps = []
    · rw [if_pos root]
    · simp [root, template, plain]

theorem parent_push_value {pcomps : Cpath} {value : Bytes} {t : Ctemplate}
    (template : v.template (pcomps.push value) = some t) (isValue : t.isTagValue = true) (comp : Bytes) :
    v.parent ((pcomps.push value).push comp) = some pcomps := by
  have filled : (pcomps.push value).push comp ≠ [] := by simp [Cpath.push]
  have up : ((pcomps.push value).push comp).dropLast = pcomps.push value := by simp [Cpath.push]
  have inner : pcomps.push value ≠ [] := by simp [Cpath.push]
  have twice : (pcomps.push value).dropLast = pcomps := by simp [Cpath.push]
  rw [parent, if_neg filled, up, if_neg inner]
  simp [template, isValue, twice]

/-- What a name pushes, one component or two, `..` pops. -/
theorem parent_of_tagged (tagValues : v.TagValues) {pcomps node : Cpath} (stands : v.Stands pcomps)
    (tagged : v.tagged pcomps (v.template pcomps) = some node)
    (value : node ≠ pcomps → ∃ t, v.template node = some t) (name : Bytes) :
    v.parent (node.push name) = some pcomps := by
  cases tag : (v.template pcomps).any Ctemplate.isTagNode with
  | false =>
    have same := (tagged_plain tag).symm.trans tagged
    rw [← Option.some.inj same]
    exact parent_push stands name
  | true =>
    obtain ⟨comp, rfl⟩ := tagged_below tag tagged
    obtain ⟨t, template, isTagNode⟩ := (Option.any_eq_true _ _).mp tag
    have pushed : pcomps.push comp ≠ pcomps := by simp [Cpath.push]
    rcases value pushed with ⟨valueDef, resolved⟩
    exact parent_push_value resolved (tagValues pcomps comp t valueDef template isTagNode resolved) name

/-- A name never leads to a tag value: below a tag node it leads below one. -/
theorem stands_of_tagged (tagValues : v.TagValues) (only : v.OnlyTagValues) {pcomps node : Cpath} {name : Bytes}
    (tagged : v.tagged pcomps (v.template pcomps) = some node)
    (value : node ≠ pcomps → ∃ t, v.template node = some t)
    (valid : ∃ t, v.template (node.push name) = some t) : v.Stands (node.push name) := by
  rcases valid with ⟨t, resolved⟩
  refine .inr ⟨t, resolved, ?_⟩
  cases isTagValue : t.isTagValue with
  | false => rfl
  | true =>
    have above := only node name t resolved isTagValue
    cases tag : (v.template pcomps).any Ctemplate.isTagNode with
    | false =>
      have same := (tagged_plain tag).symm.trans tagged
      rw [← Option.some.inj same, tag] at above
      cases above
    | true =>
      obtain ⟨comp, rfl⟩ := tagged_below tag tagged
      obtain ⟨def_, template, isTagNode⟩ := (Option.any_eq_true _ _).mp tag
      have pushed : pcomps.push comp ≠ pcomps := by simp [Cpath.push]
      rcases value pushed with ⟨valueDef, valueResolved⟩
      have isValue := tagValues pcomps comp def_ valueDef template isTagNode valueResolved
      rw [valueResolved, Option.any_some, Ctemplate.isTagNode] at above
      rw [Ctemplate.isTagValue] at isValue
      simp_all

/-- Names and as many `..` after them come back to where they started, at any depth. -/
theorem processRef_down_up (tagValues : v.TagValues) (only : v.OnlyTagValues) {pcomps : Cpath} {names : List Bytes}
    (stands : v.Stands pcomps) (descends : v.Descends pcomps names) (rest : List Bytes) :
    v.processRef (names ++ (List.replicate names.length (str "..") ++ rest)) pcomps .error =
      v.processRef (str "." :: rest) pcomps .error := by
  induction descends generalizing rest with
  | here pcomps =>
    rw [processRef_dot]
    rfl
  | @down pcomps node name names isName tagged value valid next ih =>
    have below := stands_of_tagged tagValues only tagged value valid
    have back := parent_of_tagged tagValues stands tagged value name
    rcases valid with ⟨t, resolved⟩
    have turn : List.replicate (name :: names).length (str "..") ++ rest =
        List.replicate names.length (str "..") ++ (str ".." :: rest) := by
      rw [List.length_cons, List.replicate_succ', List.append_assoc]
      rfl
    calc v.processRef (name :: names ++ (List.replicate (name :: names).length (str "..") ++ rest)) pcomps .error
        = v.processRef (names ++ (List.replicate (name :: names).length (str "..") ++ rest)) (node.push name)
            .error := processRef_name isName tagged _ _
      _ = v.processRef (names ++ (List.replicate names.length (str "..") ++ (str ".." :: rest))) (node.push name)
            .error := by rw [turn]
      _ = v.processRef (str "." :: str ".." :: rest) (node.push name) .error := ih below (str ".." :: rest)
      _ = v.processRef (str ".." :: rest) (node.push name) .error := processRef_dot _ _ _
      _ = v.processRef rest pcomps .error := processRef_up resolved back rest .error
      _ = v.processRef (str "." :: rest) pcomps .error := (processRef_dot rest pcomps .error).symm

theorem count_slash (uri : UriParser) (comp : Bytes) (path : Cpath) :
    (Cpath.toPathString uri (comp :: path)).count slash = path.length + 1 := by
  have escaped : ∀ comp : Bytes, (urlEscape uri comp).count slash = 0 := fun comp =>
    List.count_eq_zero.mpr (Cpath.slash_not_mem_urlEscape comp)
  have tail : ∀ path : Cpath, (path.flatMap fun comp => slash :: urlEscape uri comp).count slash = path.length := by
    intro path
    induction path with
    | nil => rfl
    | cons comp path ih => rw [List.flatMap_cons, List.count_append, List.count_cons_self, escaped, ih,
        List.length_cons, Nat.zero_add, Nat.add_comm]
  rw [Cpath.toPathString_cons, List.cons_append, List.count_cons_self, List.count_append, escaped, tail, Nat.zero_add]

/-- A schema that tells its nodes by their depth: a tag node at the second level. -/
def levelTemplate : Nat → Option (List Bytes)
  | 1 => some []
  | 2 => some [str "type=txt", str "tag=1"]
  | 3 => some [str "type=txt", str "tag=1", str "is_value=1"]
  | 4 => some [str "type=txt"]
  | _ => none

def schemaRef (tmplGet : Bytes → Option (List Bytes)) (origPathComps : Cpath) : VarRef where
  uri := uriparser
  configd :=
    { nodeGet _ _ := none
      nodeExists _ _ := 0
      nodeGetStatus _ _ := 0
      nodeGetType _ := 1
      tmplGet
      tmplGetAllowed _ := .given []
      getHelp _ _ := none
      set _ := .refused none
      sessExists := 1 }
  active := false
  atString := []
  origPathComps

def levelRef : VarRef :=
  schemaRef (fun path => levelTemplate (path.count slash)) [str "interfaces", str "ethernet", str "eth0"]

theorem levelRef_tmplGet (path : Cpath) :
    levelRef.configd.tmplGet (Cpath.toPathString uriparser path) = levelTemplate (max 1 path.length) := by
  cases path with
  | nil => rfl
  | cons comp path =>
    have level : max 1 (comp :: path).length = path.length + 1 := by rw [List.length_cons]; omega
    rw [level, ← count_slash uriparser comp path]
    rfl

theorem template_tags {path : Cpath} {t : Ctemplate} (template : v.template path = some t) :
    ∃ m, v.configd.tmplGet (path.toPathString v.uri) = some m ∧
      t.isTagNode = (decide (Envz.get m (str "tag") = some (str "1")) &&
        !decide (Envz.get m (str "is_value") = some (str "1"))) ∧
      t.isTagValue = (decide (Envz.get m (str "tag") = some (str "1")) &&
        decide (Envz.get m (str "is_value") = some (str "1"))) := by
  obtain ⟨m, got, built⟩ := Option.bind_eq_some_iff.mp template
  obtain rfl := Option.some.inj built
  exact ⟨m, got, rfl, rfl⟩

theorem levelRef_kind {path : Cpath} {t : Ctemplate} (template : levelRef.template path = some t) :
    (t.isTagNode = true ↔ path.length = 2) ∧ (t.isTagValue = true ↔ path.length = 3) := by
  obtain ⟨m, got, node, value⟩ := template_tags template
  rw [node, value]
  change levelRef.configd.tmplGet (Cpath.toPathString uriparser path) = some m at got
  rw [levelRef_tmplGet] at got
  have level : path.length ≤ 1 ∨ path.length = 2 ∨ path.length = 3 ∨ path.length = 4 ∨ 5 ≤ path.length := by omega
  rcases level with level | level | level | level | level
  · have first : max 1 path.length = 1 := by omega
    rw [first] at got
    cases got
    have second : path.length ≠ 2 := by omega
    have third : path.length ≠ 3 := by omega
    simp only [second, third, iff_false]
    decide +kernel
  · rw [level] at got ⊢
    cases got
    decide +kernel
  · rw [level] at got ⊢
    cases got
    decide +kernel
  · rw [level] at got ⊢
    cases got
    decide +kernel
  · obtain ⟨n, deep⟩ : ∃ n, max 1 path.length = n + 5 := ⟨path.length - 5, by omega⟩
    rw [deep] at got
    cases got

theorem tagValues_levelRef : levelRef.TagValues := by
  intro pcomps comp t value template isTagNode resolved
  have length := (levelRef_kind template).1.mp isTagNode
  apply (levelRef_kind resolved).2.mpr
  simp [Cpath.push, length]

theorem onlyTagValues_levelRef : levelRef.OnlyTagValues := by
  intro pcomps comp value resolved isTagValue
  have length := (levelRef_kind resolved).2.mp isTagValue
  have two : pcomps.length = 2 := by simpa [Cpath.push] using length
  cases template : levelRef.template pcomps with
  | some t => exact (levelRef_kind template).1.mpr two
  | none =>
    have level := levelRef_tmplGet pcomps
    rw [two] at level
    have got := Option.bind_eq_none_iff.mp template _ level
    cases got

/-- A name below the tag node: the tag value in between goes with it. -/
theorem processRef_down_up_tag :
    levelRef.processRef [str "address", str ".."] [str "interfaces", str "ethernet"] .error =
      levelRef.processRef [str "."] [str "interfaces", str "ethernet"] .error := by
  have descends : levelRef.Descends [str "interfaces", str "ethernet"] [str "address"] := by
    have tagged : levelRef.tagged [str "interfaces", str "ethernet"]
        (levelRef.template [str "interfaces", str "ethernet"]) =
          some [str "interfaces", str "ethernet", str "eth0"] := rfl
    exact .down (by decide +kernel) tagged (fun _ => ⟨_, rfl⟩) ⟨_, rfl⟩ (.here _)
  have stands : levelRef.Stands [str "interfaces", str "ethernet"] := .inr ⟨_, rfl, by decide +kernel⟩
  exact processRef_down_up tagValues_levelRef onlyTagValues_levelRef stands descends []

/-- A schema with a tag value below a node that is no tag node. -/
def strayRef : VarRef :=
  schemaRef (fun path =>
    if path = str "/a" ∨ path = str "/a/b/c" then some []
    else if path = str "/a/b" then some [str "type=txt", str "tag=1", str "is_value=1"]
    else none) [str "a"]

theorem processRef_down_up_stray : ¬ ∀ (v : VarRef), v.TagValues → ∀ (pcomps : Cpath) (t : Ctemplate),
    v.template pcomps = some t → t.isValue = false → pcomps.length ≤ v.origPathComps.length →
    ∀ (names rest : List Bytes), v.Descends pcomps names →
      v.processRef (names ++ (List.replicate names.length (str "..") ++ rest)) pcomps .error =
        v.processRef (str "." :: rest) pcomps .error := by
  intro cancel
  have untagged : strayRef.TagValues := by
    intro pcomps comp t value template isTagNode resolved
    obtain ⟨m, got, node, -⟩ := template_tags template
    rw [node] at isTagNode
    have cases : m = [] ∨ m = [str "type=txt", str "tag=1", str "is_value=1"] := by
      change (if _ then _ else _) = _ at got
      split_ifs at got
      · exact .inl (Option.some.inj got).symm
      · exact .inr (Option.some.inj got).symm
    rcases cases with rfl | rfl <;> exact absurd isTagNode (by decide +kernel)
  have descends : strayRef.Descends [str "a"] [str "b", str "c"] := by
    have first : strayRef.tagged [str "a"] (strayRef.template [str "a"]) = some [str "a"] := rfl
    have second : strayRef.tagged [str "a", str "b"] (strayRef.template [str "a", str "b"]) =
        some [str "a", str "b"] := rfl
    exact .down (by decide +kernel) first (fun other => absurd rfl other) ⟨_, rfl⟩
      (.down (by decide +kernel) second (fun other => absurd rfl other) ⟨_, rfl⟩ (.here _))
  have same := cancel strayRef untagged [str "a"] _ rfl (by decide +kernel) (by decide) _ [] descends
  have paths := congrArg (fun resolved => resolved.paths.map Found.path) same
  exact absurd paths (by decide +kernel)

end VarRef

end VyattaCfg.Cliexec
