import VyattaCfg.Cliexec.Ascend
import VyattaCfg.Cliexec.Wildcard
import VyattaCfg.Library.Runs

namespace VyattaCfg.Cliexec

open ByteString VyattaCfg.Client Relation

namespace VarRef

variable {v : VarRef}

/-- A component of the original path goes to a prefix of that path, the at-string to all of it. -/
def Belongs (v : VarRef) (source : Source) (pcomps : Cpath) : Prop :=
  match source with
  | .origPath => pcomps <+: v.origPathComps
  | .atString => pcomps = v.origPathComps

def InsertsWithin (v : VarRef) (call : RefCall) : Prop :=
  ∀ crComp ∈ call.rcomps.head?, ∀ move ∈ v.moves crComp call.pcomps, ∀ source ∈ move.inserted,
    v.Belongs source call.pcomps

/-- The tests by which `process_ref` takes a path to be within the original one: its length, and
    for a name the tag node, for `@` a node with a type that is no leaf. -/
def TakenWithin (v : VarRef) (crComp : Bytes) (pcomps : Cpath) : Prop :=
  ∃ t, v.template pcomps = some t ∧
    ((IsName crComp ∧ t.isTagNode = true ∧ pcomps.length ≤ v.origPathComps.length) ∨
      (crComp = str "@" ∧ t.isTypeless = false ∧ t.isSingleLeafNode = false ∧ t.isMultiLeafNode = false ∧
        pcomps.length < v.origPathComps.length))

/-- A path that has branched off is not taken to be within the original one. -/
def KeepsApart (v : VarRef) (call : RefCall) : Prop :=
  ∀ crComp ∈ call.rcomps.head?, ¬ call.pcomps <+: v.origPathComps → ¬ v.TakenWithin crComp call.pcomps

theorem moves_name {crComp : Bytes} (isName : IsName crComp) {pcomps : Cpath} {move : Move}
    (made : move ∈ v.moves crComp pcomps) :
    (v.tagged pcomps (v.template pcomps)).isSome = true ∧
      move.inserted =
        if (v.template pcomps).any Ctemplate.isTagNode then
          some (if pcomps.length < v.origPathComps.length then Source.origPath else .atString)
        else none := by
  rcases isName with ⟨notAt, notDot, notUp, notWildcard⟩
  unfold moves at made
  simp only [if_neg notAt, if_neg notDot, if_neg notUp, if_neg notWildcard] at made
  split at made
  · rename_i node reached
    rw [List.mem_singleton.mp made, reached]
    exact ⟨rfl, rfl⟩
  · cases made

/-- The steps that insert nothing: all but a name below a tag node and `@`. -/
theorem moves_plain {crComp : Bytes} (notAt : crComp ≠ str "@") (notName : ¬ IsName crComp) {pcomps : Cpath}
    {move : Move} (made : move ∈ v.moves crComp pcomps) : move.inserted = none := by
  unfold moves at made
  simp only [if_neg notAt] at made
  split at made
  · rw [List.mem_singleton.mp made]
    rfl
  · rename_i notDot
    split at made
    · split at made
      · rw [List.mem_singleton.mp made]
        rfl
      · cases made
    · rename_i notUp
      split at made
      · split at made
        · cases made
        · rename_i t got
          have children : ∀ move ∈ (v.children pcomps).map fun c => Move.plain (pcomps.push c) t.type,
              move.inserted = none := by
            intro move member
            rcases List.mem_map.mp member with ⟨c, -, rfl⟩
            rfl
          have first : ∀ move ∈ (if t.isTypeless = true then
              (v.children pcomps).map fun c => Move.plain (pcomps.push c) t.type else []), move.inserted = none := by
            intro move member
            split at member
            · exact children move member
            · cases member
          split at made
          · exact first move made
          · split at made
            · exact first move made
            · split at made
              · rcases List.mem_append.mp made with member | member
                · exact first move member
                · exact children move member
              · exact first move made
      · rename_i notWildcard
        exact absurd ⟨notAt, notDot, notUp, notWildcard⟩ notName

/-- What is inserted is inserted within the original path as its length tells, or at the whole of it. -/
theorem takenWithin_of_inserted {crComp : Bytes} {pcomps : Cpath} {move : Move}
    (made : move ∈ v.moves crComp pcomps) {source : Source} (inserted : source ∈ move.inserted) :
    (v.TakenWithin crComp pcomps ∧ (source = .atString → pcomps.length = v.origPathComps.length)) ∨
      (source = .atString ∧ pcomps = v.origPathComps) := by
  by_cases isName : IsName crComp
  · rcases moves_name isName made with ⟨reached, same⟩
    rw [same] at inserted
    cases tag : (v.template pcomps).any Ctemplate.isTagNode with
    | false => simp [tag] at inserted
    | true =>
      obtain ⟨t, template, isTagNode⟩ := (Option.any_eq_true _ _).mp tag
      have within : pcomps.length ≤ v.origPathComps.length := by
        by_contra beyond
        have none : v.origPathComps[pcomps.length]? = none := List.getElem?_eq_none (by omega)
        have differs : pcomps.length ≠ v.origPathComps.length := by omega
        simp [tagged, tag, none, differs] at reached
      refine .inl ⟨⟨t, template, .inl ⟨isName, isTagNode, within⟩⟩, ?_⟩
      intro atString
      rw [atString] at inserted
      by_contra differs
      have shorter : pcomps.length < v.origPathComps.length := by omega
      simp [tag, shorter] at inserted
  · by_cases atSign : crComp = str "@"
    · unfold moves at made
      simp only [if_pos atSign] at made
      split at made
      · cases made
      · rename_i t template
        split_ifs at made with typeless here inner
        · rw [List.mem_singleton.mp made] at inserted
          cases inserted
        · rw [List.mem_singleton.mp made] at inserted
          cases inserted
          refine .inr ⟨rfl, ?_⟩
          rcases here with ⟨length, root | same⟩
          · rw [root] at length
            rw [List.length_eq_zero_iff.mp root, List.length_eq_zero_iff.mp length.symm]
          · exact same
        · split at made
          · rename_i comp found
            rw [List.mem_singleton.mp made] at inserted
            cases inserted
            have shorter := (List.getElem?_eq_some_iff.mp found).1
            have leafless : t.isSingleLeafNode = false ∧ t.isMultiLeafNode = false := by simpa using inner
            refine .inl ⟨⟨t, template, .inr ⟨atSign, by simpa using typeless, leafless.1, leafless.2, shorter⟩⟩, ?_⟩
            intro atString
            cases atString
          · cases made
        · cases made
    · have none := moves_plain atSign isName made
      rw [none] at inserted
      cases inserted

theorem inserts_of_takenWithin {crComp : Bytes} {pcomps : Cpath} (within : v.TakenWithin crComp pcomps) :
    ∃ move ∈ v.moves crComp pcomps, ∃ source ∈ move.inserted,
      source = .atString → pcomps.length = v.origPathComps.length := by
  rcases within with ⟨t, template, ⟨isName, isTagNode, length⟩ | ⟨rfl, typed, single, multi, shorter⟩⟩
  · rcases isName with ⟨notAt, notDot, notUp, notWildcard⟩
    unfold moves
    simp only [if_neg notAt, if_neg notDot, if_neg notUp, if_neg notWildcard]
    rcases Nat.lt_or_eq_of_le length with shorter | same
    · simp [tagged, template, isTagNode, shorter]
    · simp [tagged, template, isTagNode, same]
  · have unequal : pcomps.length ≠ v.origPathComps.length := by omega
    unfold moves
    simp [template, typed, single, multi, unequal, shorter]

theorem insertsWithin_iff (call : RefCall) : v.InsertsWithin call ↔ v.KeepsApart call := by
  constructor
  · intro inserts crComp next apart within
    rcases inserts_of_takenWithin within with ⟨move, made, source, inserted, atString⟩
    have belongs := inserts crComp next move made source inserted
    cases source with
    | origPath => exact apart belongs
    | atString =>
      have whole : call.pcomps = v.origPathComps := belongs
      have pre : call.pcomps <+: v.origPathComps := whole ▸ List.prefix_rfl
      exact apart pre
  · intro keeps crComp next move made source inserted
    rcases takenWithin_of_inserted made inserted with ⟨within, length⟩ | ⟨rfl, whole⟩
    · have pre : call.pcomps <+: v.origPathComps := by
        by_contra apart
        exact keeps crComp next apart within
      cases source with
      | origPath => exact pre
      | atString => exact pre.eq_of_length (length rfl)
    · exact whole

/-- The level schema again, with an original path that goes on below the tag value. -/
def besideRef : VarRef :=
  schemaRef (fun path => levelTemplate (path.count slash))
    [str "interfaces", str "ethernet", str "eth0", str "address"]

end VarRef

end VyattaCfg.Cliexec
