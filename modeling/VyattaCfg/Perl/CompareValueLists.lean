import VyattaCfg.Library.Bytes
import VyattaCfg.Library.CommonPrefix
import Std.Data.ExtTreeMap
import Mathlib.Data.List.Nodup

namespace VyattaCfg.Perl

open ByteString CommonPrefix

abbrev IndexHash := Std.ExtTreeMap Bytes Nat

/-- `map { $_ => ($idx++) } @vals` -/
def indexHash (vals : List Bytes) : IndexHash :=
  vals.zipIdx.foldl (fun hash (value, idx) => hash.insert value idx) ∅

structure CompHash where
  deleted : List Bytes
  added : List Bytes
  deriving DecidableEq, Repr

structure Compare where
  compHash : CompHash
  dhash : IndexHash
  minChangedIdx : Nat

def Compare.start : Compare := ⟨⟨[], []⟩, ∅, 0x80000000⟩

def Compare.pushDeleted (state : Compare) (value : Bytes) : Compare :=
  { state with
    compHash := { state.compHash with deleted := state.compHash.deleted ++ [value] }
    dhash := state.dhash.insert value 1 }

def Compare.pushAdded (state : Compare) (value : Bytes) : Compare :=
  { state with compHash := { state.compHash with added := state.compHash.added ++ [value] } }

def Compare.lowerMin (state : Compare) (idx : Nat) : Compare :=
  if idx < state.minChangedIdx then { state with minChangedIdx := idx } else state

/-- One round of the first loop, over the original values. -/
def findMissing (ohash nhash : IndexHash) (state : Compare) (value : Bytes) : Compare :=
  match nhash[value]? with
  | none => (state.pushDeleted value).lowerMin (ohash.getD value 0)
  | some _ => state

/-- One round of the second loop, over the new values. -/
def findMoved (ohash nhash : IndexHash) (state : Compare) (value : Bytes) : Compare :=
  match ohash[value]? with
  | none => state
  | some oidx => if oidx ≠ nhash.getD value 0 then state.lowerMin oidx else state

def Compare.rewrite (state : Compare) (value : Bytes) : Compare :=
  match state.dhash[value]? with
  | none => (state.pushDeleted value).pushAdded value
  | some _ => state.pushAdded value

/-- One round of the third loop, over the new values. -/
def findAdded (ohash nhash : IndexHash) (state : Compare) (value : Bytes) : Compare :=
  match ohash[value]? with
  | none => state.pushAdded value
  | some oidx =>
    if oidx ≠ nhash.getD value 0 then state.rewrite value
    -- ordering unchanged, but something before it is changed
    else if state.minChangedIdx ≤ oidx then state.rewrite value
    else state

def compareValueLists (ovals nvals : List Bytes) : CompHash :=
  let ohash := indexHash ovals
  let nhash := indexHash nvals
  let missing := ovals.foldl (findMissing ohash nhash) Compare.start
  let moved := nvals.foldl (findMoved ohash nhash) missing
  (nvals.foldl (findAdded ohash nhash) moved).compHash

section Index

theorem getElem?_foldl_insert {vals : List Bytes} (distinct : vals.Nodup) (start : Nat)
    (hash : IndexHash) (value : Bytes) :
    ((vals.zipIdx start).foldl (fun hash (value, idx) => hash.insert value idx) hash)[value]? =
      if value ∈ vals then some (start + vals.idxOf value) else hash[value]? := by
  induction vals generalizing start hash with
  | nil => rfl
  | cons first vals ih =>
    rw [List.nodup_cons] at distinct
    rw [List.zipIdx_cons, List.foldl_cons, ih distinct.2, Std.ExtTreeMap.getElem?_insert]
    by_cases same : value = first
    · subst same
      simp [distinct.1]
    · have apart : ¬ compare first value = .eq := by
        rw [Std.LawfulEqCmp.compare_eq_iff_eq]
        exact fun equal => same equal.symm
      rw [if_neg apart]
      by_cases member : value ∈ vals
      · have later : (first :: vals).idxOf value = vals.idxOf value + 1 :=
          List.idxOf_cons_ne _ fun equal => same equal.symm
        rw [if_pos member, if_pos (List.mem_cons_of_mem _ member), later]
        congr 1
        omega
      · rw [if_neg member, if_neg (by simp [same, member])]

theorem getElem?_indexHash {vals : List Bytes} (distinct : vals.Nodup) (value : Bytes) :
    (indexHash vals)[value]? = if value ∈ vals then some (vals.idxOf value) else none := by
  rw [indexHash, getElem?_foldl_insert distinct, Nat.zero_add]
  rfl

end Index

section Loops

variable (ohash nhash : IndexHash)

/-- The values that the deletion hash holds are those pushed to `deleted`. -/
def Compare.Tracked (state : Compare) : Prop :=
  ∀ value, state.dhash[value]?.isSome ↔ value ∈ state.compHash.deleted

theorem Compare.start_tracked : Compare.start.Tracked := by
  intro value
  simp [start]

theorem Compare.pushDeleted_tracked {state : Compare} (tracked : state.Tracked) (value : Bytes) :
    (state.pushDeleted value).Tracked := by
  intro other
  have before := tracked other
  rw [pushDeleted, Std.ExtTreeMap.getElem?_insert]
  by_cases same : value = other
  · subst same
    simp
  · have apart : ¬ compare value other = .eq := by
      rwa [Std.LawfulEqCmp.compare_eq_iff_eq]
    rw [if_neg apart, before, List.mem_append, List.mem_singleton]
    grind

@[simp] theorem Compare.lowerMin_compHash (state : Compare) (idx : Nat) :
    (state.lowerMin idx).compHash = state.compHash := by
  unfold lowerMin
  split <;> rfl

@[simp] theorem Compare.lowerMin_dhash (state : Compare) (idx : Nat) :
    (state.lowerMin idx).dhash = state.dhash := by
  unfold lowerMin
  split <;> rfl

theorem Compare.lt_lowerMin (state : Compare) (idx bound : Nat) :
    bound < (state.lowerMin idx).minChangedIdx ↔ bound < state.minChangedIdx ∧ bound < idx := by
  unfold lowerMin
  split
  · show bound < idx ↔ _
    omega
  · omega

def isMissing (nhash : IndexHash) (value : Bytes) : Bool := nhash[value]?.isNone

theorem findMissing_tracked {state : Compare} (tracked : state.Tracked) (value : Bytes) :
    (findMissing ohash nhash state value).Tracked := by
  unfold findMissing
  split
  · intro other
    simpa using Compare.pushDeleted_tracked tracked value other
  · exact tracked

theorem foldl_findMissing (vals : List Bytes) (state : Compare) (tracked : state.Tracked) :
    let final := vals.foldl (findMissing ohash nhash) state
    final.Tracked ∧
    final.compHash.deleted = state.compHash.deleted ++ vals.filter (isMissing nhash) ∧
    final.compHash.added = state.compHash.added ∧
    ∀ bound, bound < final.minChangedIdx ↔ bound < state.minChangedIdx ∧
      ∀ value ∈ vals, isMissing nhash value → bound < ohash.getD value 0 := by
  induction vals generalizing state with
  | nil => simp [tracked]
  | cons value vals ih =>
    have rest := ih (findMissing ohash nhash state value) (findMissing_tracked ohash nhash tracked value)
    rw [List.foldl_cons]
    refine ⟨rest.1, ?_, ?_, ?_⟩
    · rw [rest.2.1]
      cases found : nhash[value]? <;> simp [findMissing, isMissing, found, Compare.pushDeleted]
    · rw [rest.2.2.1]
      cases found : nhash[value]? <;> simp [findMissing, found, Compare.pushDeleted]
    · intro bound
      rw [rest.2.2.2, List.forall_mem_cons]
      cases found : nhash[value]? with
      | none =>
        have missing : isMissing nhash value := by simp [isMissing, found]
        simp only [findMissing, found, Compare.lt_lowerMin, Compare.pushDeleted, missing, forall_const]
        tauto
      | some idx =>
        have present : ¬ isMissing nhash value := by simp [isMissing, found]
        simp [findMissing, found, present]

def isMoved (ohash nhash : IndexHash) (value : Bytes) : Bool :=
  match ohash[value]? with
  | none => false
  | some oidx => oidx ≠ nhash.getD value 0

theorem foldl_findMoved (vals : List Bytes) (state : Compare) :
    let final := vals.foldl (findMoved ohash nhash) state
    final.compHash = state.compHash ∧ final.dhash = state.dhash ∧
    ∀ bound, bound < final.minChangedIdx ↔ bound < state.minChangedIdx ∧
      ∀ value ∈ vals, isMoved ohash nhash value → bound < ohash.getD value 0 := by
  induction vals generalizing state with
  | nil => simp
  | cons value vals ih =>
    have rest := ih (findMoved ohash nhash state value)
    rw [List.foldl_cons]
    cases found : ohash[value]? with
    | none => 
      have stays : ¬ isMoved ohash nhash value := by simp [isMoved, found]
      simpa [findMoved, found, stays] using rest
    | some oidx =>
      have index : ohash.getD value 0 = oidx := by
        rw [Std.ExtTreeMap.getD_eq_getD_getElem?, found]
        rfl
      by_cases moved : oidx = nhash.getD value 0
      · have stays : ¬ isMoved ohash nhash value := by simp [isMoved, found, ← moved]
        simpa [findMoved, found, ← moved, stays] using rest
      · have moves : isMoved ohash nhash value := by simp [isMoved, found, moved]
        rw [findMoved, found] at rest ⊢
        simp only [if_pos moved, Compare.lowerMin_compHash, Compare.lowerMin_dhash,
          Compare.lt_lowerMin, ne_eq] at rest ⊢
        refine ⟨rest.1, rest.2.1, ?_⟩
        intro bound
        rw [rest.2.2, List.forall_mem_cons, index]
        simp only [moves, forall_const]
        tauto

def isRewritten (ohash nhash : IndexHash) (minChangedIdx : Nat) (value : Bytes) : Bool :=
  match ohash[value]? with
  | none => false
  | some oidx => oidx ≠ nhash.getD value 0 ∨ minChangedIdx ≤ oidx

def isAdded (ohash nhash : IndexHash) (minChangedIdx : Nat) (value : Bytes) : Bool :=
  ohash[value]?.isNone || isRewritten ohash nhash minChangedIdx value

theorem Compare.rewrite_fresh {state : Compare} (tracked : state.Tracked) {value : Bytes}
    (fresh : value ∉ state.compHash.deleted) :
    state.rewrite value = (state.pushDeleted value).pushAdded value := by
  have absent : state.dhash[value]? = none := by
    rw [← Option.not_isSome_iff_eq_none, tracked]
    exact fresh
  rw [rewrite, absent]

theorem findAdded_fresh {state : Compare} (tracked : state.Tracked) {value : Bytes}
    (fresh : value ∉ state.compHash.deleted) :
    findAdded ohash nhash state value =
      if isRewritten ohash nhash state.minChangedIdx value then
        (state.pushDeleted value).pushAdded value
      else if isAdded ohash nhash state.minChangedIdx value then state.pushAdded value
      else state := by
  rw [← Compare.rewrite_fresh tracked fresh]
  unfold findAdded isAdded isRewritten
  cases ohash[value]? with
  | none => rfl
  | some oidx =>
    generalize nhash.getD value 0 = nidx
    by_cases moved : oidx = nidx
    · subst moved
      by_cases behind : state.minChangedIdx ≤ oidx <;> simp [behind]
    · simp [moved]

theorem foldl_findAdded {vals : List Bytes} (distinct : vals.Nodup) (state : Compare)
    (tracked : state.Tracked) (fresh : ∀ value ∈ vals, value ∉ state.compHash.deleted) :
    (vals.foldl (findAdded ohash nhash) state).compHash =
      ⟨state.compHash.deleted ++ vals.filter (isRewritten ohash nhash state.minChangedIdx),
       state.compHash.added ++ vals.filter (isAdded ohash nhash state.minChangedIdx)⟩ := by
  induction vals generalizing state with
  | nil => simp
  | cons value vals ih =>
    rw [List.nodup_cons] at distinct
    rw [List.forall_mem_cons] at fresh
    rw [List.foldl_cons, findAdded_fresh ohash nhash tracked fresh.1]
    by_cases rewritten : isRewritten ohash nhash state.minChangedIdx value
    · have added : isAdded ohash nhash state.minChangedIdx value := by simp [isAdded, rewritten]
      rw [if_pos rewritten, ih distinct.2]
      · simp [Compare.pushDeleted, Compare.pushAdded, rewritten, added]
      · exact Compare.pushDeleted_tracked tracked value
      · intro other member
        have apart : other ≠ value := fun same => distinct.1 (same ▸ member)
        simp [Compare.pushDeleted, Compare.pushAdded, fresh.2 other member, apart]
    · rw [if_neg rewritten]
      by_cases added : isAdded ohash nhash state.minChangedIdx value
      · rw [if_pos added, ih distinct.2 (state.pushAdded value) tracked fresh.2]
        simp [Compare.pushAdded, rewritten, added]
      · rw [if_neg added, ih distinct.2 state tracked fresh.2]
        simp [rewritten, added]

end Loops

section Lists

variable {ovals nvals : List Bytes}

/-- What tells one list of values from the other, and how to get from one to the other. -/
structure ListDiff (ovals nvals : List Bytes) (diff : CompHash) : Prop where
  deleted_nodup : diff.deleted.Nodup
  added_nodup : diff.added.Nodup
  deleted_subset : diff.deleted ⊆ ovals
  replayed : ovals.filter (· ∉ diff.deleted) ++ diff.added = nvals
  untouched : IsLongest (ovals.filter fun value => value ∉ diff.deleted ∧ value ∉ diff.added) ovals nvals
  untouched_new :
    nvals.filter (fun value => value ∉ diff.deleted ∧ value ∉ diff.added) =
      ovals.filter fun value => value ∉ diff.deleted ∧ value ∉ diff.added

def Changed (ovals nvals : List Bytes) (value : Bytes) : Prop :=
  value ∉ nvals ∨ ovals.idxOf value ≠ nvals.idxOf value

/-- The values before the first changed one are those at which both lists are the same so far. -/
theorem before_changed_iff (distinct : ovals.Nodup) (distinct' : nvals.Nodup)
    {value : Bytes} (member : value ∈ ovals) :
    (∀ other ∈ ovals, Changed ovals nvals other → ovals.idxOf value < ovals.idxOf other) ↔
      value ∈ commonPrefix ovals nvals := by
  have inside : ovals.idxOf value < ovals.length := List.idxOf_lt_length_of_mem member
  rw [mem_commonPrefix_iff distinct member, List.prefix_iff_getElem?]
  constructor
  · intro before i bound
    have place : i < ovals.length := by
      rw [List.length_take] at bound
      omega
    have index : ovals.idxOf ovals[i] = i := distinct.idxOf_getElem i place
    have unchanged : ¬ Changed ovals nvals ovals[i] := by
      intro changed
      have later := before _ (List.getElem_mem place) changed
      rw [List.length_take] at bound
      omega
    have present : ovals[i] ∈ nvals := by
      by_contra missing
      exact unchanged (Or.inl missing)
    have unmoved : i = nvals.idxOf ovals[i] := by
      by_contra moved
      exact unchanged (Or.inr fun same => moved (index.symm.trans same))
    rw [List.getElem_take]
    calc nvals[i]? = nvals[nvals.idxOf ovals[i]]? := congrArg (nvals[·]?) unmoved
      _ = some ovals[i] := List.getElem?_idxOf present
  · intro same other member' changed
    by_contra early
    have place : ovals.idxOf other < ovals.length := List.idxOf_lt_length_of_mem member'
    have bound : ovals.idxOf other < (ovals.take (ovals.idxOf value + 1)).length := by
      rw [List.length_take]
      omega
    have found := same _ bound
    rw [List.getElem_take, List.getElem_idxOf] at found
    have there : ovals.idxOf other < nvals.length := (List.getElem?_eq_some_iff.mp found).1
    have value' : nvals[ovals.idxOf other] = other := (List.getElem?_eq_some_iff.mp found).2
    have index := distinct'.idxOf_getElem _ there
    rw [value'] at index
    rcases changed with missing | moved
    · exact missing (List.mem_of_getElem value')
    · exact moved index.symm

theorem isMissing_indexHash (distinct' : nvals.Nodup) (value : Bytes) :
    isMissing (indexHash nvals) value = decide (value ∉ nvals) := by
  rw [isMissing, getElem?_indexHash distinct']
  by_cases member : value ∈ nvals <;> simp [member]

theorem getD_indexHash (distinct : ovals.Nodup) {value : Bytes} (member : value ∈ ovals) :
    (indexHash ovals).getD value 0 = ovals.idxOf value := by
  rw [Std.ExtTreeMap.getD_eq_getD_getElem?, getElem?_indexHash distinct, if_pos member]
  rfl

theorem isMoved_indexHash (distinct : ovals.Nodup) (distinct' : nvals.Nodup) {value : Bytes}
    (member : value ∈ nvals) :
    isMoved (indexHash ovals) (indexHash nvals) value ↔
      value ∈ ovals ∧ ovals.idxOf value ≠ nvals.idxOf value := by
  rw [isMoved, getElem?_indexHash distinct, getD_indexHash distinct' member]
  by_cases found : value ∈ ovals <;> simp [found]

theorem isRewritten_indexHash (distinct : ovals.Nodup) (distinct' : nvals.Nodup) {value : Bytes}
    (member : value ∈ nvals) (minChangedIdx : Nat) :
    isRewritten (indexHash ovals) (indexHash nvals) minChangedIdx value ↔
      value ∈ ovals ∧ (ovals.idxOf value ≠ nvals.idxOf value ∨ minChangedIdx ≤ ovals.idxOf value) := by
  rw [isRewritten, getElem?_indexHash distinct, getD_indexHash distinct' member]
  by_cases found : value ∈ ovals <;> simp [found]

theorem isAdded_indexHash (distinct : ovals.Nodup) (value : Bytes) (nhash : IndexHash)
    (minChangedIdx : Nat) :
    isAdded (indexHash ovals) nhash minChangedIdx value ↔
      value ∉ ovals ∨ isRewritten (indexHash ovals) nhash minChangedIdx value := by
  rw [isAdded, getElem?_indexHash distinct]
  by_cases found : value ∈ ovals <;> simp [found]

theorem compareValueLists_eq (distinct : ovals.Nodup) (distinct' : nvals.Nodup)
    (short : ovals.length < 0x80000000) :
    compareValueLists ovals nvals =
      ⟨ovals.filter (· ∉ nvals) ++
         nvals.filter (fun value => value ∈ ovals ∧ value ∉ commonPrefix ovals nvals),
       nvals.filter (· ∉ commonPrefix ovals nvals)⟩ := by
  rcases foldl_findMissing (indexHash ovals) (indexHash nvals) ovals Compare.start
    Compare.start_tracked with ⟨tracked, deleted, added, missingMin⟩
  have moved := foldl_findMoved (indexHash ovals) (indexHash nvals) nvals
    (ovals.foldl (findMissing (indexHash ovals) (indexHash nvals)) Compare.start)
  show (nvals.foldl (findAdded (indexHash ovals) (indexHash nvals))
    (nvals.foldl (findMoved (indexHash ovals) (indexHash nvals))
      (ovals.foldl (findMissing (indexHash ovals) (indexHash nvals)) Compare.start))).compHash = _
  generalize ovals.foldl (findMissing (indexHash ovals) (indexHash nvals)) Compare.start = missing at *
  rcases moved with ⟨sameLists, sameHash, movedMin⟩
  generalize nvals.foldl (findMoved (indexHash ovals) (indexHash nvals)) missing = state at *
  have deletedOnly : state.compHash.deleted = ovals.filter (· ∉ nvals) := by
    rw [sameLists, deleted, Compare.start, List.nil_append]
    exact List.filter_congr fun value _ => isMissing_indexHash distinct' value
  have addedNone : state.compHash.added = [] := by
    rw [sameLists, added]
    rfl
  have behind : ∀ value ∈ ovals,
      ovals.idxOf value < state.minChangedIdx ↔ value ∈ commonPrefix ovals nvals := by
    intro value member
    have inside : ovals.idxOf value < ovals.length := List.idxOf_lt_length_of_mem member
    have start : ovals.idxOf value < Compare.start.minChangedIdx := inside.trans short
    rw [movedMin, missingMin, ← before_changed_iff distinct distinct' member]
    constructor
    · intro bounds other member' changed
      by_cases present : other ∈ nvals
      · have differs := changed.resolve_left fun absent => absent present
        have bound := bounds.2 other present
          ((isMoved_indexHash distinct distinct' present).mpr ⟨member', differs⟩)
        rwa [getD_indexHash distinct member'] at bound
      · have bound := bounds.1.2 other member' (by simp [isMissing_indexHash distinct', present])
        rwa [getD_indexHash distinct member'] at bound
    · intro bounds
      refine ⟨⟨start, ?_⟩, ?_⟩
      · intro other member' absent
        rw [isMissing_indexHash distinct', decide_eq_true_iff] at absent
        rw [getD_indexHash distinct member']
        exact bounds other member' (Or.inl absent)
      · intro other present moves
        rw [isMoved_indexHash distinct distinct' present] at moves
        rw [getD_indexHash distinct moves.1]
        exact bounds other moves.1 (Or.inr moves.2)
  have rewritten : ∀ value ∈ nvals,
      isRewritten (indexHash ovals) (indexHash nvals) state.minChangedIdx value =
        decide (value ∈ ovals ∧ value ∉ commonPrefix ovals nvals) := by
    intro value member
    rw [Bool.eq_iff_iff, isRewritten_indexHash distinct distinct' member, decide_eq_true_iff]
    constructor
    · intro both
      refine ⟨both.1, fun shared => ?_⟩
      have before := (before_changed_iff distinct distinct' both.1).mpr shared value both.1
      rcases both.2 with moves | late
      · exact absurd (before (Or.inr moves)) (by omega)
      · have early := (behind value both.1).mpr shared
        omega
    · intro both
      refine ⟨both.1, Or.inr ?_⟩
      have late := mt (behind value both.1).mp both.2
      omega
  have fresh : ∀ value ∈ nvals, value ∉ state.compHash.deleted := by
    intro value member gone
    rw [deletedOnly] at gone
    simp [member] at gone
  have tracked' : state.Tracked := by
    intro value
    rw [sameHash, sameLists]
    exact tracked value
  have shared : commonPrefix ovals nvals ⊆ ovals := (commonPrefix_left ovals nvals).subset
  rw [foldl_findAdded _ _ distinct' state tracked' fresh, deletedOnly, addedNone, List.nil_append,
    List.filter_congr rewritten]
  congr 1
  apply List.filter_congr
  intro value member
  rw [Bool.eq_iff_iff, isAdded_indexHash distinct, rewritten value member, decide_eq_true_iff,
    decide_eq_true_iff]
  have inOvals : value ∈ commonPrefix ovals nvals → value ∈ ovals := fun inside => shared inside
  tauto

theorem filter_eq_commonPrefix {vals : List Bytes} (nodup : vals.Nodup)
    (isPrefix : commonPrefix ovals nvals <+: vals) {P : Bytes → Prop} [DecidablePred P]
    (same : ∀ value ∈ vals, P value ↔ value ∈ commonPrefix ovals nvals) :
    vals.filter (fun value => P value) = commonPrefix ovals nvals := by
  refine Eq.trans ?_ (filter_mem_of_prefix_nodup nodup isPrefix)
  apply List.filter_congr
  intro value member
  rw [decide_eq_decide]
  exact same value member

theorem compareValueLists_diff (distinct : ovals.Nodup) (distinct' : nvals.Nodup)
    (short : ovals.length < 0x80000000) :
    ListDiff ovals nvals (compareValueLists ovals nvals) := by
  have left := commonPrefix_left ovals nvals
  have right := commonPrefix_right ovals nvals
  generalize result : compareValueLists ovals nvals = diff
  have deleted : ∀ value, value ∈ diff.deleted ↔ value ∈ ovals ∧ value ∉ commonPrefix ovals nvals := by
    intro value
    rw [← result, compareValueLists_eq distinct distinct' short]
    simp only [List.mem_append, List.mem_filter, decide_eq_true_eq]
    have inNvals : value ∈ commonPrefix ovals nvals → value ∈ nvals := fun inside => right.subset inside
    tauto
  have added : diff.added = nvals.filter (· ∉ commonPrefix ovals nvals) := by
    rw [← result, compareValueLists_eq distinct distinct' short]
  have untouched : ∀ value, value ∈ ovals ∨ value ∈ nvals →
      (value ∉ diff.deleted ∧ value ∉ diff.added ↔ value ∈ commonPrefix ovals nvals) := by
    intro value member
    rw [deleted, added, List.mem_filter, decide_eq_true_eq]
    have inOvals : value ∈ commonPrefix ovals nvals → value ∈ ovals := fun inside => left.subset inside
    have inNvals : value ∈ commonPrefix ovals nvals → value ∈ nvals := fun inside => right.subset inside
    tauto
  have remaining : ovals.filter (· ∉ diff.deleted) = commonPrefix ovals nvals := by
    apply filter_eq_commonPrefix distinct left
    intro value member
    rw [deleted]
    tauto
  have old : ovals.filter (fun value => value ∉ diff.deleted ∧ value ∉ diff.added) =
      commonPrefix ovals nvals :=
    filter_eq_commonPrefix distinct left fun value member => untouched value (Or.inl member)
  have new : nvals.filter (fun value => value ∉ diff.deleted ∧ value ∉ diff.added) =
      commonPrefix ovals nvals :=
    filter_eq_commonPrefix distinct' right fun value member => untouched value (Or.inr member)
  exact {
    deleted_nodup := by
      rw [← result, compareValueLists_eq distinct distinct' short, List.nodup_append]
      refine ⟨distinct.filter _, distinct'.filter _, ?_⟩
      intro value gone other again same
      subst same
      simp only [List.mem_filter, decide_eq_true_eq] at gone again
      exact gone.2 again.1
    added_nodup := added ▸ distinct'.filter _
    deleted_subset := fun value gone => ((deleted value).mp gone).1
    replayed := by rw [remaining, added, prefix_append_filter distinct' right]
    untouched := by
      rw [old]
      exact isLongest_commonPrefix ovals nvals
    untouched_new := new.trans old.symm }

theorem compareValueLists_reordered :
    ([str "a", str "b", str "c"].Nodup ∧ [str "a", str "c", str "d", str "b"].Nodup) ∧
    ListDiff [str "a", str "b", str "c"] [str "a", str "c", str "d", str "b"]
      (compareValueLists [str "a", str "b", str "c"] [str "a", str "c", str "d", str "b"]) :=
  ⟨by decide, compareValueLists_diff (by decide) (by decide) (by decide)⟩

end Lists

end VyattaCfg.Perl
