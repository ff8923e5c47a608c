import VyattaCfg.Cliexec.VarRef
import VyattaCfg.Library.Runs

namespace VyattaCfg.Cliexec

open ByteString VyattaCfg.Client Relation

namespace VarRef

variable {v : VarRef}

theorem eachChild_eq (pcomps : Cpath) (descend : Cpath → Resolved) :
    v.eachChild pcomps descend = ⟨(v.children pcomps).flatMap fun c => (descend (pcomps.push c)).paths,
      (v.children pcomps).any fun c => (descend (pcomps.push c)).ismulti⟩ := by
  have loop : ∀ (children : List Bytes) (resolved : Resolved),
      children.foldl (fun resolved c => resolved.append (descend (pcomps.push c))) resolved =
        resolved.append ⟨children.flatMap fun c => (descend (pcomps.push c)).paths,
          children.any fun c => (descend (pcomps.push c)).ismulti⟩ := by
    intro children
    induction children with
    | nil => intro resolved; simp [Resolved.append]
    | cons c children ih =>
      intro resolved
      rw [List.foldl_cons, ih, List.flatMap_cons, List.any_cons, Resolved.append, Resolved.append, Resolved.append,
        List.append_assoc, Bool.or_assoc]
  exact loop _ _

theorem eachChild_paths (pcomps : Cpath) (descend : Cpath → Resolved) :
    (v.eachChild pcomps descend).paths = (v.children pcomps).flatMap fun c => (descend (pcomps.push c)).paths :=
  congrArg Resolved.paths (eachChild_eq pcomps descend)

/-- Where a component that the reference does not name is taken from. -/
inductive Source where
  | origPath
  | atString
  deriving DecidableEq, Repr

/-- A recursive call of `process_ref`, and what was inserted into the path on the way to it. -/
structure Move where
  inserted : Option Source
  next : Cpath
  defType : VtwType
  deriving DecidableEq

def Move.plain (next : Cpath) (defType : VtwType) : Move := ⟨none, next, defType⟩

/-- The recursive calls that `process_ref` makes for a component. -/
def moves (v : VarRef) (crComp : Bytes) (pcomps : Cpath) : List Move :=
  let got := v.template pcomps
  if crComp = str "@" then
    match got with
    | none => []
    | some t =>
      if t.isTypeless then [.plain pcomps .error]
      else if pcomps.length = v.origPathComps.length ∧ (pcomps.length = 0 ∨ pcomps = v.origPathComps) then
        [⟨some .atString, pcomps.push v.atString, t.type⟩]
      else if !t.isSingleLeafNode && !t.isMultiLeafNode then
        match v.origPathComps[pcomps.length]? with
        | some comp => [⟨some .origPath, pcomps.push comp, t.type⟩]
        | none => []
      else []
  else if crComp = str "." then [.plain pcomps .error]
  else if crComp = str ".." then
    match got, v.parent pcomps with
    | some _, some up => [.plain up .error]
    | _, _ => []
  else if crComp = str "@@" then
    match got with
    | none => []
    | some t =>
      let children := (v.children pcomps).map fun c => Move.plain (pcomps.push c) t.type
      let first := if t.isTypeless then children else []
      if t.isTypeless && v.children pcomps = [] then first
      else if t.isValue then first
      else if t.isTag then first ++ children
      else first
  else
    match v.tagged pcomps got with
    | some node =>
      let inserted :=
        if got.any Ctemplate.isTagNode then
          some (if pcomps.length < v.origPathComps.length then Source.origPath else .atString)
        else none
      [⟨inserted, node.push crComp, .error⟩]
    | none => []

/-- The paths that a component adds itself, at a leaf. -/
def ownPaths (v : VarRef) (crComp : Bytes) (pcomps : Cpath) : List Found :=
  let got := v.template pcomps
  if crComp = str "@" then
    match got with
    | none => []
    | some t =>
      if t.isTypeless then []
      else if pcomps.length = v.origPathComps.length ∧ (pcomps.length = 0 ∨ pcomps = v.origPathComps) then []
      else if !t.isSingleLeafNode && !t.isMultiLeafNode then []
      else (v.handleLeaf pcomps t).paths
  else if crComp = str "@@" then
    match got with
    | none => []
    | some t =>
      if t.isTypeless && v.children pcomps = [] then []
      else if t.isValue || t.isTag then []
      else (v.handleLeaf pcomps t).paths
  else []

/-- A component sets `*ismulti` itself: in the two blocks with a loop and at a multi-value node. -/
def setsMulti (v : VarRef) (crComp : Bytes) (pcomps : Cpath) : Bool :=
  let got := v.template pcomps
  if crComp = str "@" then
    match got with
    | none => false
    | some t =>
      if t.isTypeless then false
      else if pcomps.length = v.origPathComps.length ∧ (pcomps.length = 0 ∨ pcomps = v.origPathComps) then false
      else if !t.isSingleLeafNode && !t.isMultiLeafNode then false
      else t.isMulti
  else if crComp = str "@@" then
    match got with
    | none => false
    | some t => t.isTypeless || (!t.isValue && (t.isTag || t.isMulti))
  else false

/-- What the recursive calls add, and then what the component adds itself. -/
def ofMoves (v : VarRef) (crComp : Bytes) (rcomps : List Bytes) (pcomps : Cpath) : Resolved :=
  ⟨(v.moves crComp pcomps).flatMap (fun move => (v.processRef rcomps move.next move.defType).paths) ++
      v.ownPaths crComp pcomps,
    v.setsMulti crComp pcomps ||
      (v.moves crComp pcomps).any fun move => (v.processRef rcomps move.next move.defType).ismulti⟩

theorem handleLeaf_ismulti (pcomps : Cpath) (t : Ctemplate) : (v.handleLeaf pcomps t).ismulti = t.isMulti := by
  unfold handleLeaf
  cases t.isMulti <;> cases v.getValues pcomps <;> rfl

theorem handleLeaf_eq (pcomps : Cpath) (t : Ctemplate) :
    v.handleLeaf pcomps t = ⟨(v.handleLeaf pcomps t).paths, t.isMulti⟩ := by rw [← handleLeaf_ismulti]

theorem processRef_moves (crComp : Bytes) (rcomps : List Bytes) (pcomps : Cpath) (defType : VtwType) :
    v.processRef (crComp :: rcomps) pcomps defType = v.ofMoves crComp rcomps pcomps := by
  rw [processRef]
  unfold ofMoves moves ownPaths setsMulti
  dsimp only
  by_cases atSign : crComp = str "@"
  · simp only [if_pos atSign]
    cases v.template pcomps with
    | none => rfl
    | some t =>
      dsimp only
      split_ifs
      · simp [Move.plain]
      · simp
      · cases v.origPathComps[pcomps.length]? with
        | none => rfl
        | some comp => simp
      · simpa using handleLeaf_eq pcomps t
  · simp only [if_neg atSign]
    by_cases dot : crComp = str "."
    · have notWildcard : ¬ crComp = str "@@" := by rw [dot]; decide
      simp only [if_pos dot, if_neg notWildcard]
      simp [Move.plain]
    · simp only [if_neg dot]
      by_cases up : crComp = str ".."
      · have notWildcard : ¬ crComp = str "@@" := by rw [up]; decide
        simp only [if_pos up, if_neg notWildcard]
        cases v.template pcomps with
        | none => rfl
        | some t =>
          cases v.parent pcomps with
          | none => rfl
          | some up => simp [Move.plain]
      · simp only [if_neg up]
        by_cases wildcard : crComp = str "@@"
        · simp only [if_pos wildcard]
          cases v.template pcomps with
          | none => rfl
          | some t =>
            dsimp only
            rw [handleLeaf_eq, eachChild_eq]
            split_ifs <;>
              simp_all [Resolved.append, Resolved.nothing, Resolved.multi, Move.plain, List.flatMap_map, Function.comp_def]
        · simp only [if_neg wildcard]
          cases v.tagged pcomps (v.template pcomps) with
          | none => rfl
          | some node => simp

/-- A call of `process_ref`: the components to come and the current path. -/
structure RefCall where
  rcomps : List Bytes
  pcomps : Cpath
  defType : VtwType

inductive Steps (v : VarRef) : RefCall → RefCall → Prop where
  | step {crComp : Bytes} {rcomps : List Bytes} {pcomps : Cpath} {defType : VtwType} {move : Move}
      (made : move ∈ v.moves crComp pcomps) :
      Steps v ⟨crComp :: rcomps, pcomps, defType⟩ ⟨rcomps, move.next, move.defType⟩

def RefCall.adds (v : VarRef) (call : RefCall) : List Found :=
  match call.rcomps with
  | [] => [⟨call.pcomps, call.defType, [back call.pcomps]⟩]
  | crComp :: _ => v.ownPaths crComp call.pcomps

/-- A path is found just where one of the calls adds it. -/
theorem mem_processRef_iff {rcomps : List Bytes} {pcomps : Cpath} {defType : VtwType} {found : Found} :
    found ∈ (v.processRef rcomps pcomps defType).paths ↔
      ∃ call, ReflTransGen (Steps v) ⟨rcomps, pcomps, defType⟩ call ∧ found ∈ call.adds v := by
  induction rcomps generalizing pcomps defType with
  | nil =>
    constructor
    · intro member
      exact ⟨_, .refl, member⟩
    · intro held
      rcases held with ⟨call, run, member⟩
      rcases run.cases_head with rfl | ⟨next, step, -⟩
      · exact member
      · cases step
  | cons crComp rcomps ih =>
    rw [processRef_moves, ofMoves, List.mem_append, List.mem_flatMap]
    constructor
    · intro held
      rcases held with ⟨move, made, member⟩ | own
      · rcases ih.mp member with ⟨call, run, added⟩
        exact ⟨call, .head (.step made) run, added⟩
      · exact ⟨_, .refl, own⟩
    · intro held
      rcases held with ⟨call, run, added⟩
      rcases run.cases_head with rfl | ⟨next, step, rest⟩
      · exact .inr added
      · cases step with
        | step made => exact .inl ⟨_, made, ih.mpr ⟨call, rest, added⟩⟩

def RefCall.sets (v : VarRef) (call : RefCall) : Bool :=
  match call.rcomps with
  | [] => false
  | crComp :: _ => v.setsMulti crComp call.pcomps

theorem ismulti_processRef_iff {rcomps : List Bytes} {pcomps : Cpath} {defType : VtwType} :
    (v.processRef rcomps pcomps defType).ismulti = true ↔
      ∃ call, ReflTransGen (Steps v) ⟨rcomps, pcomps, defType⟩ call ∧ call.sets v = true := by
  induction rcomps generalizing pcomps defType with
  | nil =>
    refine iff_of_false Bool.false_ne_true ?_
    rintro ⟨call, run, sets⟩
    rcases run.cases_head with rfl | ⟨next, step, -⟩
    · cases sets
    · cases step
  | cons crComp rcomps ih =>
    rw [processRef_moves, ofMoves, Bool.or_eq_true, List.any_eq_true]
    constructor
    · intro held
      rcases held with own | ⟨move, made, below⟩
      · exact ⟨_, .refl, own⟩
      · obtain ⟨call, run, sets⟩ := ih.mp below
        exact ⟨call, .head (.step made) run, sets⟩
    · rintro ⟨call, run, sets⟩
      rcases run.cases_head with rfl | ⟨next, step, rest⟩
      · exact .inl sets
      · cases step with
        | step made => exact .inr ⟨_, made, ih.mpr ⟨call, rest, sets⟩⟩

/-- The calls that resolving a reference from the original path makes. -/
def Makes (v : VarRef) (ref : List Bytes) (call : RefCall) : Prop :=
  ReflTransGen (Steps v) ⟨ref, v.origPathComps, .error⟩ call

/-- The template of the leaf at which the block behind the components' cases reads values. -/
def leafAt (v : VarRef) (crComp : Bytes) (pcomps : Cpath) : Option Ctemplate :=
  let got := v.template pcomps
  if crComp = str "@" then
    match got with
    | none => none
    | some t =>
      if t.isTypeless then none
      else if pcomps.length = v.origPathComps.length ∧ (pcomps.length = 0 ∨ pcomps = v.origPathComps) then none
      else if !t.isSingleLeafNode && !t.isMultiLeafNode then none
      else some t
  else if crComp = str "@@" then
    match got with
    | none => none
    | some t =>
      if t.isTypeless && v.children pcomps = [] then none
      else if t.isValue || t.isTag then none
      else some t
  else none

theorem ownPaths_eq (crComp : Bytes) (pcomps : Cpath) :
    v.ownPaths crComp pcomps = (v.leafAt crComp pcomps).elim [] fun t => (v.handleLeaf pcomps t).paths := by
  unfold ownPaths leafAt
  dsimp only
  cases v.template pcomps with
  | none => split_ifs <;> rfl
  | some t =>
    dsimp only
    split_ifs <;> rfl

theorem mem_ownPaths {crComp : Bytes} {pcomps : Cpath} {found : Found} (own : found ∈ v.ownPaths crComp pcomps) :
    ∃ t ∈ v.leafAt crComp pcomps, found ∈ (v.handleLeaf pcomps t).paths := by
  rw [ownPaths_eq] at own
  cases leaf : v.leafAt crComp pcomps with
  | none =>
    rw [leaf] at own
    cases own
  | some t =>
    rw [leaf] at own
    exact ⟨t, rfl, own⟩

theorem handleLeaf_length_le (pcomps : Cpath) (t : Ctemplate) : (v.handleLeaf pcomps t).paths.length ≤ 1 := by
  unfold handleLeaf
  split
  · split
    · exact Nat.zero_le 1
    · exact le_refl 1
  · split <;> exact le_refl 1

theorem leafAt_spec {crComp : Bytes} {pcomps : Cpath} {t : Ctemplate} (leaf : t ∈ v.leafAt crComp pcomps) :
    v.template pcomps = some t ∧ (t.isMulti = true → v.setsMulti crComp pcomps = true) ∧
      (v.setsMulti crComp pcomps = false → t.isSingleLeafNode = true) := by
  unfold leafAt at leaf
  unfold setsMulti
  dsimp only at leaf ⊢
  cases got : v.template pcomps with
  | none =>
    rw [got] at leaf
    split_ifs at leaf <;> cases leaf
  | some other =>
    rw [got] at leaf
    dsimp only at leaf ⊢
    split_ifs at leaf with atSign typeless self inner wildcard empty inner' <;> cases leaf
    · simp only [if_pos atSign, if_neg typeless, if_neg self, if_neg inner]
      refine ⟨trivial, id, ?_⟩
      intro single
      simpa [Ctemplate.isMultiLeafNode, single] using inner
    · simp only [if_neg atSign, if_pos wildcard]
      simp only [Bool.or_eq_true, not_or, Bool.not_eq_true] at inner'
      refine ⟨trivial, ?_, ?_⟩
      · intro multi
        simp [inner', multi]
      · intro single
        simpa [Ctemplate.isSingleLeafNode, inner', and_comm] using single

/-- A component that does not set `*ismulti` itself has no loop: it goes on once, or it is a leaf. -/
theorem moves_lone {crComp : Bytes} {pcomps : Cpath} (unset : v.setsMulti crComp pcomps = false) :
    (v.moves crComp pcomps).length + (v.ownPaths crComp pcomps).length ≤ 1 := by
  have leaf := fun t => handleLeaf_length_le (v := v) pcomps t
  unfold setsMulti at unset
  unfold moves ownPaths
  dsimp only at unset ⊢
  by_cases atSign : crComp = str "@"
  · simp only [if_pos atSign] at unset ⊢
    cases got : v.template pcomps with
    | none => exact Nat.zero_le 1
    | some t =>
      dsimp only
      split_ifs
      · exact le_refl 1
      · exact le_refl 1
      · cases v.origPathComps[pcomps.length]? with
        | none => exact Nat.zero_le 1
        | some comp => exact le_refl 1
      · rw [List.length_nil, Nat.zero_add]
        exact leaf t
  · simp only [if_neg atSign] at unset ⊢
    by_cases wildcard : crComp = str "@@"
    · have notDot : ¬ crComp = str "." := by rw [wildcard]; decide
      have notUp : ¬ crComp = str ".." := by rw [wildcard]; decide
      simp only [if_pos wildcard, if_neg notDot, if_neg notUp] at unset ⊢
      cases got : v.template pcomps with
      | none => exact Nat.zero_le 1
      | some t =>
        simp only [got, Bool.or_eq_false_iff] at unset
        simp only [unset.1, Bool.false_and, Bool.false_eq_true, if_false, List.nil_append, Bool.or_eq_true]
        by_cases inner : t.isValue = true
        · simp [inner]
        · have bottom : t.isTag = false := by simp_all
          simp [inner, bottom, leaf t]
    · simp only [if_neg wildcard, List.length_nil, Nat.add_zero]
      split
      · exact le_refl 1
      · split
        · split
          · exact le_refl 1
          · exact Nat.zero_le 1
        · cases v.tagged pcomps (v.template pcomps) with
          | none => exact Nat.zero_le 1
          | some node => exact le_refl 1

end VarRef

end VyattaCfg.Cliexec
