import VyattaCfg.Cliexec.OperandValues

namespace VyattaCfg.Cliexec

open ByteString VyattaCfg.Client

namespace VarRef

variable {v : VarRef}

def belowChildren (v : VarRef) (pcomps : Cpath) (t : Ctemplate) (rcomps : List Bytes) : List Found :=
  (v.children pcomps).flatMap fun c => (v.processRef rcomps (pcomps.push c) t.type).paths

/-- What a wildcard is for: it goes on with each child once, and its value lists them. -/
structure ListsChildren (v : VarRef) (pcomps : Cpath) (t : Ctemplate) : Prop where
  resolved : ∀ rcomps defType,
    (v.processRef (str "@@" :: rcomps) pcomps defType).paths = v.belowChildren pcomps t rcomps
  value : ∀ defType,
    -- configd finds the nodes whose names it gives
    (∀ c ∈ v.children pcomps, v.configd.nodeExists (if v.active then .running else .candidate)
      ((pcomps.push c).toPathString v.uri) = 1) →
    (v.getValue (v.processRef [str "@@"] pcomps defType).ismulti
        (v.processRef [str "@@"] pcomps defType).paths).map Prod.fst =
      if v.children pcomps = [] then none else some (joinValues ((v.children pcomps).map cstr))

theorem getValues_none {pcomps : Cpath} : v.getValues pcomps = none ↔ v.children pcomps = [] := by
  unfold getValues children
  cases v.configd.nodeGet (if v.active then .running else .candidate) (pcomps.toPathString v.uri) with
  | none => simp
  | some values => cases values <;> simp

theorem handleLeaf_length {pcomps : Cpath} (t : Ctemplate) (inhabited : v.children pcomps ≠ []) :
    (v.handleLeaf pcomps t).paths.length = 1 := by
  obtain ⟨values, got⟩ := Option.ne_none_iff_exists'.mp (mt getValues_none.mp inhabited)
  unfold handleLeaf
  rw [got]
  split <;> rfl

theorem belowChildren_nil (pcomps : Cpath) (t : Ctemplate) :
    v.belowChildren pcomps t [] =
      (v.children pcomps).map fun c => ⟨pcomps.push c, t.type, [back (pcomps.push c)]⟩ :=
  List.flatMap_pure_eq_map _ _

theorem back_push (pcomps : Cpath) (c : Bytes) : back (pcomps.push c) = cstr c := by
  rw [back, Cpath.push, List.getLastD_concat]

/-- The paths of a wildcard, where it stands at a typeless or a tag node: a typeless node gets
    the paths of its children and then what the other templates get, too. -/
theorem processRef_wildcard {pcomps : Cpath} {t : Ctemplate} (template : v.template pcomps = some t)
    (kind : t.isTypeless ∨ t.isTagNode) (rcomps : List Bytes) (defType : VtwType) :
    (v.processRef (str "@@" :: rcomps) pcomps defType).paths =
      if t.isTypeless ∧ v.children pcomps ≠ [] ∧ t.isValue = false then
        v.belowChildren pcomps t rcomps ++
          if t.isTag then v.belowChildren pcomps t rcomps else (v.handleLeaf pcomps t).paths
      else v.belowChildren pcomps t rcomps := by
  have notSelf : ¬ str "@@" = str "@" := by decide
  have notDot : ¬ str "@@" = str "." := by decide
  have notUp : ¬ str "@@" = str ".." := by decide
  have loop := eachChild_paths (v := v) pcomps fun child => v.processRef rcomps child t.type
  rw [processRef, template]
  simp only [if_neg notSelf, if_neg notDot, if_neg notUp, if_true]
  by_cases typeless : t.isTypeless
  · by_cases empty : v.children pcomps = []
    · simp [typeless, empty, Resolved.multi, loop, belowChildren]
    · cases value : t.isValue with
      | true => simp [typeless, empty, Resolved.multi, loop, belowChildren]
      | false =>
        cases tag : t.isTag <;>
          simp [typeless, empty, Resolved.multi, Resolved.append, loop, belowChildren]
  · have tagNode := kind.resolve_left typeless
    rw [Ctemplate.isTagNode, Bool.and_eq_true, Bool.not_eq_true'] at tagNode
    simp [typeless, tagNode, Resolved.multi, Resolved.append, Resolved.nothing, loop, belowChildren]

theorem getValue_children {pcomps : Cpath} {t : Ctemplate} {resolved : Resolved} (single : Single resolved)
    (paths : resolved.paths = v.belowChildren pcomps t [])
    (there : ∀ c ∈ v.children pcomps, v.configd.nodeExists (if v.active then .running else .candidate)
      ((pcomps.push c).toPathString v.uri) = 1) :
    (v.getValue resolved.ismulti resolved.paths).map Prod.fst =
      if v.children pcomps = [] then none else some (joinValues ((v.children pcomps).map cstr)) := by
  rw [belowChildren_nil] at paths
  by_cases empty : v.children pcomps = []
  · simp [paths, empty, getValue, gathered]
  · have joined : ∀ found ∈ resolved.paths, Joined found := by
      intro found member
      rw [paths] at member
      obtain ⟨c, -, rfl⟩ := List.mem_map.mp member
      refine ⟨?_, (Words.join_singleton space _).symm, List.cons_ne_nil _ _, .inr ⟨_, rfl⟩⟩
      rw [back_push]
      exact cstr_nul_free c
    have all : live resolved.paths = resolved.paths := by
      apply List.filter_eq_self.mpr
      intro found member
      rw [paths] at member
      obtain ⟨c, -, rfl⟩ := List.mem_map.mp member
      simp [Cpath.push]
    have filled : live resolved.paths ≠ [] := by
      rw [all, paths]
      exact fun none => empty (List.map_eq_nil_iff.mp none)
    have readings : v.readings resolved.paths = (v.children pcomps).map fun c => [cstr c] := by
      rw [VarRef.readings, all, paths, List.map_map]
      apply List.map_congr_left
      intro c member
      have present : v.missing ⟨pcomps.push c, t.type, [cstr c]⟩ = false := by
        simp [missing, there c member]
      simp [valuesOf, present, back_push]
    obtain ⟨-, type, value, -⟩ := getValue_eq (v := v) joined single filled
    have flat : ((v.children pcomps).map fun c => [cstr c]).flatten = (v.children pcomps).map cstr :=
      List.flatMap_pure_eq_map _ _
    rw [value, if_neg empty, readings, flat]
    rfl

theorem lists_children_iff {pcomps : Cpath} {t : Ctemplate} (template : v.template pcomps = some t)
    (kind : t.isTypeless ∨ t.isTagNode) :
    v.ListsChildren pcomps t ↔ ¬ t.isTypeless ∨ v.children pcomps = [] ∨ t.isValue := by
  have resolved := processRef_wildcard template kind
  constructor
  · intro lists
    by_contra other
    rw [not_or, not_or, not_not, Bool.not_eq_true] at other
    have once := lists.resolved [] .error
    rw [resolved, if_pos other] at once
    have more := congrArg List.length once
    have some : 0 < (v.belowChildren pcomps t []).length := by
      rw [belowChildren_nil, List.length_map]
      exact List.length_pos_iff.mpr other.2.1
    rw [List.length_append] at more
    split at more
    · omega
    · rw [handleLeaf_length t other.2.1] at more
      omega
  · intro condition
    have other : ¬ (t.isTypeless ∧ v.children pcomps ≠ [] ∧ t.isValue = false) := by
      intro bad
      rcases condition with typed | empty | value
      · exact typed bad.1
      · exact bad.2.1 empty
      · simp [bad.2.2] at value
    have paths : ∀ rcomps defType,
        (v.processRef (str "@@" :: rcomps) pcomps defType).paths = v.belowChildren pcomps t rcomps := by
      intro rcomps defType
      rw [resolved, if_neg other]
    exact ⟨paths, fun defType there => getValue_children (processRef_single _ _ _) (paths [] defType) there⟩

def wildcardRef (template : List Bytes) : VarRef where
  uri := uriparser
  configd :=
    { nodeGet _ path := if path = str "/interfaces" then some [str "ethernet", str "loopback"] else none
      nodeExists _ path := if path = str "/interfaces/ethernet" ∨ path = str "/interfaces/loopback" then 1 else 0
      nodeGetStatus _ _ := 0
      nodeGetType _ := 1
      tmplGet path := if path = str "/interfaces" then some template else none
      tmplGetAllowed _ := .given []
      getHelp _ _ := none
      set _ := .refused none
      sessExists := 1 }
  active := false
  atString := []
  origPathComps := [str "interfaces"]

theorem lists_children_tag : ∃ t, (wildcardRef [str "type=txt", str "tag=1"]).template [str "interfaces"] = some t ∧
    (wildcardRef [str "type=txt", str "tag=1"]).ListsChildren [str "interfaces"] t :=
  ⟨_, rfl, (lists_children_iff rfl (.inr (by decide +kernel))).mpr (.inl (by decide +kernel))⟩

/-- The block for a typeless node goes on to the leaf: the names of all children, joined, are
    one more path. -/
theorem typeless_lists_more : ¬ ∀ (v : VarRef) (pcomps : Cpath) (t : Ctemplate), v.template pcomps = some t →
    t.isTypeless ∨ t.isTagNode → v.ListsChildren pcomps t := by
  intro all
  have lists := all (wildcardRef []) [str "interfaces"] _ rfl (.inl (by decide +kernel))
  have paths := congrArg (List.map Found.path) (lists.resolved [] .error)
  have found : ((wildcardRef []).processRef [str "@@"] [str "interfaces"] .error).paths.map Found.path =
      [[str "interfaces", str "ethernet"], [str "interfaces", str "loopback"],
        [str "interfaces", str "ethernet loopback"]] := by decide +kernel
  rw [found, belowChildren_nil] at paths
  have children : (wildcardRef []).children [str "interfaces"] = [str "ethernet", str "loopback"] := by
    decide +kernel
  rw [children] at paths
  exact absurd (congrArg List.length paths) (by decide)

end VarRef

end VyattaCfg.Cliexec
