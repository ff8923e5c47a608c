import VyattaCfg.Cliexec.RefCalls

namespace VyattaCfg.Cliexec

open ByteString VyattaCfg.Client

namespace VarRef

variable {v : VarRef} {P : Cpath → Prop} {Q : Found → Prop}

theorem getValues_plain {pcomps : Cpath} {values : List Bytes} (got : v.getValues pcomps = some values) :
    values ≠ [] ∧ ∀ s ∈ values, 0 ∉ s := by
  unfold getValues at got
  split at got
  · cases got
  · cases got
  · rename_i answer nonempty answered
    obtain rfl := Option.some.inj got
    constructor
    · intro empty
      exact nonempty (List.map_eq_nil_iff.mp empty)
    · intro s member
      obtain ⟨value, -, rfl⟩ := List.mem_map.mp member
      exact cstr_nul_free value

/-- What holds of every path that resolving passes through gives what holds of all it finds. -/
structure Traverses (P : Cpath → Prop) (Q : Found → Prop) : Prop where
  push : ∀ p c, P p → P (Cpath.push p c)
  up : ∀ p, P p → P p.dropLast
  node : ∀ p t, P p → Q ⟨p, t, [back p]⟩
  leaf : ∀ p values, P p → values ≠ [] → (∀ s ∈ values, 0 ∉ s) →
    Q ⟨Cpath.push p (joinValues values), .text, values⟩

theorem handleLeaf_found (traverses : Traverses P Q) {pcomps : Cpath} (here : P pcomps) (t : Ctemplate) :
    ∀ f ∈ (v.handleLeaf pcomps t).paths, Q f := by
  intro f member
  unfold handleLeaf at member
  split at member
  · split at member
    · cases member
    · rename_i values got
      have plain := getValues_plain got
      obtain rfl := List.mem_singleton.mp member
      exact traverses.leaf pcomps values here plain.1 plain.2
  · split at member
    · obtain rfl := List.mem_singleton.mp member
      exact traverses.node _ _ (traverses.push _ _ here)
    · obtain rfl := List.mem_singleton.mp member
      exact traverses.node _ _ (traverses.push _ _ here)

theorem parent_found (traverses : Traverses P Q) {pcomps up : Cpath} (here : P pcomps)
    (parent : v.parent pcomps = some up) : P up := by
  unfold VarRef.parent at parent
  split at parent
  · cases parent
  · simp only at parent
    split at parent
    · obtain rfl := Option.some.inj parent
      exact traverses.up _ here
    · obtain ⟨parentDef, -, climbed⟩ := Option.bind_eq_some_iff.mp parent
      obtain rfl := Option.some.inj climbed
      split
      · exact traverses.up _ (traverses.up _ here)
      · exact traverses.up _ here

theorem tagged_found (traverses : Traverses P Q) {pcomps node : Cpath} {t : Option Ctemplate} (here : P pcomps)
    (tagged : v.tagged pcomps t = some node) : P node := by
  unfold VarRef.tagged at tagged
  split at tagged
  · split at tagged
    · obtain rfl := Option.some.inj tagged
      exact traverses.push _ _ here
    · split at tagged
      · obtain rfl := Option.some.inj tagged
        exact traverses.push _ _ here
      · cases tagged
  · obtain rfl := Option.some.inj tagged
    exact here

theorem moves_found (traverses : Traverses P Q) {pcomps : Cpath} (here : P pcomps) {crComp : Bytes} :
    ∀ move ∈ v.moves crComp pcomps, P move.next := by
  have down : ∀ c, P (pcomps.push c) := fun c => traverses.push pcomps c here
  have children : ∀ t : VtwType, ∀ move ∈ (v.children pcomps).map (fun c => Move.plain (pcomps.push c) t),
      P move.next := by
    intro t move member
    obtain ⟨c, -, rfl⟩ := List.mem_map.mp member
    exact down c
  intro move member
  unfold moves at member
  dsimp only at member
  split at member
  · -- "@"
    split at member
    · cases member
    · split at member
      · obtain rfl := List.mem_singleton.mp member
        exact here
      · split at member
        · obtain rfl := List.mem_singleton.mp member
          exact down _
        · split at member
          · split at member
            · obtain rfl := List.mem_singleton.mp member
              exact down _
            · cases member
          · cases member
  · split at member
    · -- "."
      obtain rfl := List.mem_singleton.mp member
      exact here
    · split at member
      · -- ".."
        split at member
        · rename_i climbed
          obtain rfl := List.mem_singleton.mp member
          exact parent_found traverses here climbed
        · cases member
      · split at member
        · -- "@@"
          split at member
          · cases member
          · rename_i t got
            have first : ∀ move ∈ (if t.isTypeless then
                (v.children pcomps).map (fun c => Move.plain (pcomps.push c) t.type) else []), P move.next := by
              split
              · exact children t.type
              · exact nofun
            split at member
            · exact first move member
            · split at member
              · exact first move member
              · split at member
                · rcases List.mem_append.mp member with member | member
                  · exact first move member
                  · exact children t.type move member
                · exact first move member
        · split at member
          · rename_i node reached
            obtain rfl := List.mem_singleton.mp member
            exact traverses.push _ _ (tagged_found traverses here reached)
          · cases member

theorem ownPaths_found (traverses : Traverses P Q) {pcomps : Cpath} (here : P pcomps) {crComp : Bytes} :
    ∀ f ∈ v.ownPaths crComp pcomps, Q f := by
  intro f member
  obtain ⟨t, -, own⟩ := mem_ownPaths member
  exact handleLeaf_found traverses here t f own

theorem processRef_found (traverses : Traverses P Q) (rcomps : List Bytes) {pcomps : Cpath} (here : P pcomps)
    (defType : VtwType) : ∀ f ∈ (v.processRef rcomps pcomps defType).paths, Q f := by
  intro f member
  obtain ⟨call, run, added⟩ := mem_processRef_iff.mp member
  have kept : ∀ s t : RefCall, P s.pcomps → Steps v s t → P t.pcomps := by
    intro s t inside step
    cases step with
    | step made => exact moves_found traverses inside _ made
  have reached : P call.pcomps := Runs.invariant_of_step kept run here
  unfold RefCall.adds at added
  split at added
  · obtain rfl := List.mem_singleton.mp added
    exact traverses.node _ _ reached
  · exact ownPaths_found traverses reached f added

/-- Without `*ismulti` there is one path at most. -/
def Single (resolved : Resolved) : Prop := resolved.ismulti = false → resolved.paths.length ≤ 1

theorem processRef_single (rcomps : List Bytes) (pcomps : Cpath) (defType : VtwType) :
    Single (v.processRef rcomps pcomps defType) := by
  induction rcomps generalizing pcomps defType with
  | nil => exact fun _ => le_refl 1
  | cons crComp rcomps ih =>
    rw [processRef_moves]
    intro unset
    obtain ⟨own, calls⟩ := Bool.or_eq_false_iff.mp unset
    have lone := moves_lone own
    rw [ofMoves, List.length_append]
    cases moves : v.moves crComp pcomps with
    | nil =>
      rw [moves] at lone
      rw [List.flatMap_nil]
      exact lone
    | cons move others =>
      rw [moves] at lone calls
      cases others with
      | nil =>
        rw [List.any_cons, Bool.or_eq_false_iff] at calls
        have below := ih move.next move.defType calls.1
        rw [List.flatMap_cons, List.flatMap_nil, List.append_nil]
        rw [List.length_singleton] at lone
        omega
      | cons other others =>
        simp only [List.length_cons] at lone
        omega

end VarRef

end VyattaCfg.Cliexec
