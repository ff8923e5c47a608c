import VyattaCfg.Cliexec.TextLines
import VyattaCfg.Cliexec.CliParse

namespace VyattaCfg.Cliexec

open ByteString VyattaCfg.Client

attribute [ext] ValStruct

/-- `valstruct` as it lies in memory. A pointer to an array is what it points to, an entry `none` while
    nothing is written there; NULL is no entries. -/
structure StoredVal where
  valType : VtwType
  freeMe : Bool
  ismulti : Bool
  val : Option Bytes
  cnt : Nat
  vals : List (Option Bytes)
  valTypes : List (Option VtwType)

section Arrays

variable {α : Type}

/-- `my_realloc` to this many entries. -/
def reallocTo (size : Nat) (entries : List (Option α)) : List (Option α) :=
  entries.take size ++ List.replicate (size - entries.length) none

def storeAt (entries : List (Option α)) (i : Nat) (entry : Option α) : Except Abort (List (Option α)) :=
  if i < entries.length then .ok (entries.set i entry) else .error .overrun

end Arrays

namespace StoredVal

/-- single value - convert -/
def convert (first : StoredVal) : Except Abort StoredVal := do
  let vals ← storeAt first.vals 0 first.val
  let valTypes ← storeAt first.valTypes 0 (some first.valType)
  .ok { first with vals, valTypes, cnt := 1, val := none }

def grow (first : StoredVal) : Except Abort StoredVal :=
  let grown := { first with
    vals := reallocTo (first.cnt + multiAlloc) first.vals
    valTypes := reallocTo (first.cnt + multiAlloc) first.valTypes }
  if grown.cnt = 0 then grown.convert else .ok grown

def push (first second : StoredVal) : Except Abort StoredVal := do
  let vals ← storeAt first.vals first.cnt second.val
  let valTypes ← storeAt first.valTypes first.cnt (some second.valType)
  .ok { first with vals, valTypes, cnt := first.cnt + 1 }

/-- The values listed: `val`, or `vals[0..cnt-1]`. -/
def values (res : StoredVal) : List (Option Bytes) := if res.cnt = 0 then [res.val] else res.vals.take res.cnt

def types (res : StoredVal) : List (Option VtwType) :=
  if res.cnt = 0 then [some res.valType] else res.valTypes.take res.cnt

def entries (values : List (Option Bytes)) (types : List (Option VtwType)) : List (Bytes × VtwType) :=
  (values.zip types).map fun (value, type) => (value.getD [], type.getD .error)

/-- The value without its arrays' spare entries. -/
def listed (res : StoredVal) : ValStruct where
  valType := res.valType
  ismulti := res.ismulti
  val := res.val
  vals := entries (res.vals.take res.cnt) (res.valTypes.take res.cnt)

/-- A value with nothing else in it: both arrays are NULL. -/
structure SingleOwned (res : StoredVal) : Prop where
  freeMe : res.freeMe = true
  cnt : res.cnt = 0
  vals : res.vals = []
  valTypes : res.valTypes = []

def owned (res : StoredVal) : Owned := ⟨res.listed, res.freeMe⟩

end StoredVal

def str2valStored (cp : Bytes) : StoredVal := ⟨.text, true, false, some cp, 0, [], []⟩

/-- `add_val`, its allocations succeeding: both operands as they are afterwards. -/
def addValStored (first second : StoredVal) : Except Abort (StoredVal × StoredVal) :=
  if ¬ (first.freeMe ∧ second.freeMe) ∨ second.cnt ≠ 0 then .error .assertion
  else do
    let first ← if first.cnt % multiAlloc = 0 then first.grow else .ok first
    .ok (← first.push second, { second with freeMe := false })

def addAll (first : StoredVal) (seconds : List StoredVal) : Except Abort StoredVal :=
  seconds.foldlM (fun first second => do .ok (← addValStored first second).1) first

/-- A text value in its arrays: the types are all `ERROR_TYPE`, the entries behind the last line unwritten. -/
def StoredVal.ofText (valp : ValStruct) (room : Nat) : StoredVal where
  valType := valp.valType
  freeMe := true
  ismulti := valp.ismulti
  val := valp.val
  cnt := valp.vals.length
  vals := valp.vals.map (fun line => some line.1) ++ List.replicate (room - valp.vals.length) none
  valTypes := List.replicate room (some .error)

def char2valTextStored (value : Bytes) : Except Abort StoredVal := do
  let text ← char2valTextIn value
  .ok (.ofText text.valp text.room)

/-- Both arrays have room for `cnt` rounded up, none for a single value. -/
structure Sized (res : StoredVal) : Prop where
  freeMe : res.freeMe = true
  vals : res.vals.length = roundUp res.cnt
  valTypes : res.valTypes.length = roundUp res.cnt

/-- A list with room for one more entry in both arrays. -/
structure HasRoom (res : StoredVal) : Prop where
  freeMe : res.freeMe = true
  filled : res.cnt ≠ 0
  vals : res.vals.length = roundUp (res.cnt + 1)
  valTypes : res.valTypes.length = roundUp (res.cnt + 1)

/-- What `add_val` makes of its first operand. -/
structure Appended (first second res : StoredVal) : Prop where
  sized : Sized res
  filled : res.cnt ≠ 0
  values : res.values = first.values ++ [second.val]
  types : res.types = first.types ++ [some second.valType]
  single : res.val = if first.cnt = 0 then none else first.val
  valType : res.valType = first.valType
  ismulti : res.ismulti = first.ismulti


section Arrays

variable {α : Type} {entries : List (Option α)}

theorem length_reallocTo {size : Nat} (more : entries.length ≤ size) : (reallocTo size entries).length = size := by
  rw [reallocTo, List.length_append, List.length_take, List.length_replicate]
  omega

theorem take_reallocTo {cnt more : Nat} (length : entries.length = cnt) :
    (reallocTo (cnt + more) entries).take cnt = entries.take cnt := by
  rw [reallocTo, List.take_of_length_le (length.trans_le (Nat.le_add_right cnt more)), ← length, List.take_left,
    List.take_length]

theorem storeAt_ok {i : Nat} (inside : i < entries.length) (entry : Option α) :
    storeAt entries i entry = .ok (entries.set i entry) := if_pos inside

theorem take_set_succ {i : Nat} (inside : i < entries.length) (entry : Option α) :
    (entries.set i entry).take (i + 1) = entries.take i ++ [entry] := by
  have long : i < (entries.set i entry).length := by rwa [List.length_set]
  rw [List.take_succ_eq_append_getElem long, List.take_set_of_le (le_refl i), List.getElem_set_self]

end Arrays

theorem roundUp_bounds (cnt : Nat) : cnt ≤ roundUp cnt ∧ roundUp cnt < cnt + multiAlloc := by
  unfold roundUp multiAlloc
  omega

theorem roundUp_full {cnt : Nat} (full : cnt % multiAlloc = 0) :
    roundUp cnt = cnt ∧ roundUp (cnt + 1) = cnt + multiAlloc := by
  unfold roundUp multiAlloc at *
  omega

theorem roundUp_open {cnt : Nat} (room : cnt % multiAlloc ≠ 0) : roundUp (cnt + 1) = roundUp cnt := by
  unfold roundUp multiAlloc at *
  omega

theorem roundUp_eq_iff (cnt : Nat) : roundUp cnt = cnt ↔ cnt % multiAlloc = 0 := by
  unfold roundUp multiAlloc
  omega

section Steps

open StoredVal

variable {first second : StoredVal}

theorem singleOwned_sized (single : SingleOwned first) : Sized first where
  freeMe := single.freeMe
  vals := by rw [single.vals, single.cnt]; rfl
  valTypes := by rw [single.valTypes, single.cnt]; rfl

theorem push_eq (vals : first.cnt < first.vals.length) (valTypes : first.cnt < first.valTypes.length)
    (second : StoredVal) : first.push second = .ok { first with
      vals := first.vals.set first.cnt second.val
      valTypes := first.valTypes.set first.cnt (some second.valType)
      cnt := first.cnt + 1 } := by
  rw [push, storeAt_ok vals, storeAt_ok valTypes]
  rfl

theorem convert_eq (vals : 0 < first.vals.length) (valTypes : 0 < first.valTypes.length) :
    first.convert = .ok { first with
      vals := first.vals.set 0 first.val
      valTypes := first.valTypes.set 0 (some first.valType)
      cnt := 1
      val := none } := by
  rw [convert, storeAt_ok vals, storeAt_ok valTypes]
  rfl

theorem push_spec (room : HasRoom first) (second : StoredVal) :
    ∃ res, first.push second = .ok res ∧ Appended first second res := by
  have bounds := roundUp_bounds (first.cnt + 1)
  have vals : first.cnt < first.vals.length := by
    rw [room.vals]
    omega
  have valTypes : first.cnt < first.valTypes.length := by
    rw [room.valTypes]
    omega
  refine ⟨_, push_eq vals valTypes second, ⟨room.freeMe, ?_, ?_⟩, Nat.succ_ne_zero _, ?_, ?_, ?_, rfl, rfl⟩
  · exact List.length_set.trans room.vals
  · exact List.length_set.trans room.valTypes
  · rw [values, values, if_neg room.filled, if_neg (Nat.succ_ne_zero _)]
    exact take_set_succ vals _
  · rw [types, types, if_neg room.filled, if_neg (Nat.succ_ne_zero _)]
    exact take_set_succ valTypes _
  · rw [if_neg room.filled]

/-- The arrays are full, or there are none yet and the single value is put in front. -/
theorem grow_spec (sized : Sized first) (full : first.cnt % multiAlloc = 0) :
    ∃ res, first.grow = .ok res ∧ HasRoom res ∧ res.values = first.values ∧ res.types = first.types ∧
      res.val = (if first.cnt = 0 then none else first.val) ∧ res.valType = first.valType ∧
      res.ismulti = first.ismulti := by
  have rounded := roundUp_full full
  have vals : first.vals.length = first.cnt := sized.vals.trans rounded.1
  have valTypes : first.valTypes.length = first.cnt := sized.valTypes.trans rounded.1
  have longVals := length_reallocTo (vals.trans_le (Nat.le_add_right first.cnt multiAlloc))
  have longTypes := length_reallocTo (valTypes.trans_le (Nat.le_add_right first.cnt multiAlloc))
  by_cases single : first.cnt = 0
  · have some : 0 < first.cnt + multiAlloc := Nat.add_pos_right _ (by decide)
    have two : roundUp 2 = first.cnt + multiAlloc := by
      rw [single]
      rfl
    have insideVals := some.trans_eq longVals.symm
    have insideTypes := some.trans_eq longTypes.symm
    refine ⟨_, (if_pos single).trans (convert_eq insideVals insideTypes), ⟨sized.freeMe, Nat.one_ne_zero, ?_, ?_⟩,
      ?_, ?_, ?_, rfl, rfl⟩
    · rw [List.length_set, longVals, two]
    · rw [List.length_set, longTypes, two]
    · rw [values, values, if_pos single, if_neg Nat.one_ne_zero]
      exact take_set_succ insideVals _
    · rw [types, types, if_pos single, if_neg Nat.one_ne_zero]
      exact take_set_succ insideTypes _
    · rw [if_pos single]
  · refine ⟨_, if_neg single, ⟨sized.freeMe, single, ?_, ?_⟩, ?_, ?_, ?_, rfl, rfl⟩
    · rw [rounded.2]
      exact longVals
    · rw [rounded.2]
      exact longTypes
    · rw [values, values, if_neg single, if_neg single]
      exact take_reallocTo vals
    · rw [types, types, if_neg single, if_neg single]
      exact take_reallocTo valTypes
    · rw [if_neg single]

theorem addValStored_spec (sized : Sized first) (single : SingleOwned second) :
    ∃ res, addValStored first second = .ok (res, { second with freeMe := false }) ∧ Appended first second res := by
  have assertions : ¬ (¬ (first.freeMe ∧ second.freeMe) ∨ second.cnt ≠ 0) := by
    simp [sized.freeMe, single.freeMe, single.cnt]
  rw [addValStored, if_neg assertions]
  by_cases full : first.cnt % multiAlloc = 0
  · obtain ⟨grown, grew, room, values, types, val, valType, ismulti⟩ := grow_spec sized full
    obtain ⟨res, pushed, appended⟩ := push_spec room second
    refine ⟨res, ?_, appended.sized, appended.filled, ?_, ?_, ?_, ?_, ?_⟩
    · simp only [if_pos full, grew, bind, Except.bind, pushed]
    · rw [appended.values, values]
    · rw [appended.types, types]
    · rw [appended.single, if_neg room.filled, val]
    · rw [appended.valType, valType]
    · rw [appended.ismulti, ismulti]
  · have filled : first.cnt ≠ 0 := fun zero => full (by rw [zero]; rfl)
    have room : HasRoom first := by
      refine ⟨sized.freeMe, filled, ?_, ?_⟩
      · rw [roundUp_open full, sized.vals]
      · rw [roundUp_open full, sized.valTypes]
    obtain ⟨res, pushed, appended⟩ := push_spec room second
    refine ⟨res, ?_, appended⟩
    simp only [if_neg full, bind, Except.bind, pushed]

theorem addAll_cons {next released : StoredVal} (added : addValStored first second = .ok (next, released))
    (seconds : List StoredVal) : addAll first (second :: seconds) = addAll next seconds := by
  rw [addAll, List.foldlM_cons, added]
  rfl

theorem addAll_spec (sized : Sized first) {seconds : List StoredVal} (owned : ∀ second ∈ seconds, SingleOwned second) :
    ∃ res, addAll first seconds = .ok res ∧ Sized res ∧ (seconds ≠ [] → res.cnt ≠ 0) ∧
      res.values = first.values ++ seconds.map val ∧
      res.types = first.types ++ seconds.map (fun second => some second.valType) := by
  induction seconds generalizing first with
  | nil => exact ⟨first, rfl, sized, nofun, by simp⟩
  | cons second seconds ih =>
    obtain ⟨next, added, appended⟩ := addValStored_spec sized (owned second List.mem_cons_self)
    obtain ⟨res, ran, sized, filled, listed, typed⟩ :=
      ih appended.sized fun other member => owned other (List.mem_cons_of_mem _ member)
    refine ⟨res, (addAll_cons added seconds).trans ran, sized, fun _ => ?_, ?_, ?_⟩
    · by_cases last : seconds = []
      · subst last
        obtain rfl := Except.ok.inj ran
        exact appended.filled
      · exact filled last
    · rw [listed, appended.values, List.map_cons, List.append_assoc, List.singleton_append]
    · rw [typed, appended.types, List.map_cons, List.append_assoc, List.singleton_append]

end Steps

section Refinement

open StoredVal

variable {first second res : StoredVal}

theorem length_values (sized : Sized res) : res.values.length = res.types.length := by
  have bounds := roundUp_bounds res.cnt
  have vals := sized.vals
  have valTypes := sized.valTypes
  unfold values types
  split
  · rfl
  · rw [List.length_take, List.length_take, vals, valTypes]

theorem listed_vals_filled (filled : res.cnt ≠ 0) : res.listed.vals = entries res.values res.types := by
  rw [values, types, if_neg filled, if_neg filled]
  rfl

theorem listed_vals_eq_nil_iff (sized : Sized res) : res.listed.vals = [] ↔ res.cnt = 0 := by
  constructor
  · intro empty
    by_contra filled
    have none := (listed_vals_filled filled).symm.trans empty
    have length := congrArg List.length none
    have bounds := roundUp_bounds res.cnt
    have values : res.values.length = res.cnt := by
      rw [values, if_neg filled, List.length_take, sized.vals]
      omega
    rw [entries, List.length_map, List.length_zip, ← length_values sized, values, List.length_nil] at length
    omega
  · intro single
    simp [listed, entries, single]

/-- The list model's `add_val` is this one with the arrays left out. -/
theorem addValStored_refines (sized : Sized first) (single : SingleOwned second) :
    ∃ res, addValStored first second = .ok (res, { second with freeMe := false }) ∧ Sized res ∧
      addValOwned first.owned second.owned = .ok res.owned := by
  obtain ⟨res, added, appended⟩ := addValStored_spec sized single
  refine ⟨res, added, appended.sized, ?_⟩
  have plain : second.listed.vals = [] := (listed_vals_eq_nil_iff (singleOwned_sized single)).mpr single.cnt
  have whole := length_values sized
  have vals : res.listed.vals =
      entries first.values first.types ++ [(second.val.getD [], second.valType)] := by
    rw [listed_vals_filled appended.filled, appended.values, appended.types, entries, List.zip_append whole,
      List.map_append]
    rfl
  have same : addVal first.listed second.listed = res.listed := by
    by_cases empty : first.cnt = 0
    · have start : first.values = [first.val] ∧ first.types = [some first.valType] := by
        rw [values, types, if_pos empty, if_pos empty]
        exact ⟨rfl, rfl⟩
      have emptied := appended.single
      rw [start.1, start.2] at vals
      rw [if_pos empty] at emptied
      rw [addVal, if_pos ((listed_vals_eq_nil_iff sized).mpr empty)]
      apply ValStruct.ext appended.valType.symm appended.ismulti.symm emptied.symm
      rw [vals]
      rfl
    · have kept := appended.single
      rw [← listed_vals_filled empty] at vals
      rw [if_neg empty] at kept
      rw [addVal, if_neg (mt (listed_vals_eq_nil_iff sized).mp empty)]
      exact ValStruct.ext appended.valType.symm appended.ismulti.symm kept.symm vals.symm
  rw [addValOwned_ok sized.freeMe single.freeMe plain, owned, owned, owned, appended.sized.freeMe, same]

theorem addAll_refines (sized : Sized first) {seconds : List StoredVal} (single : ∀ second ∈ seconds, SingleOwned second) :
    ∃ res, addAll first seconds = .ok res ∧ (seconds.map owned).foldlM addValOwned first.owned = .ok res.owned := by
  induction seconds generalizing first with
  | nil => exact ⟨first, rfl, rfl⟩
  | cons second seconds ih =>
    obtain ⟨next, added, sized, listed⟩ := addValStored_refines sized (single second List.mem_cons_self)
    obtain ⟨res, ran, same⟩ := ih sized fun other member => single other (List.mem_cons_of_mem _ member)
    refine ⟨res, ?_, ?_⟩
    · rw [addAll_cons added, ran]
    · rw [List.map_cons, List.foldlM_cons, listed]
      exact same

theorem str2valStored_single (cp : Bytes) : SingleOwned (str2valStored cp) := ⟨rfl, rfl, rfl, rfl⟩

theorem str2valStored_listed (cp : Bytes) : (str2valStored cp).listed = str2val cp := rfl

theorem char2valText_types (value : Bytes) : ∀ line ∈ (char2valText value).vals, line.2 = .error := by
  intro line member
  unfold char2valText at member
  split at member
  · cases member
  · obtain ⟨text, -, rfl⟩ := List.mem_map.mp member
    rfl

theorem entries_untyped {lines : List (Bytes × VtwType)} (untyped : ∀ line ∈ lines, line.2 = .error) :
    entries (lines.map fun line => some line.1) (List.replicate lines.length (some .error)) = lines := by
  induction lines with
  | nil => rfl
  | cons line lines ih =>
    obtain ⟨text, type⟩ := line
    obtain ⟨rfl, rest⟩ := List.forall_mem_cons.mp untyped
    rw [List.map_cons, List.length_cons, List.replicate_succ, entries, List.zip_cons_cons, List.map_cons]
    exact congrArg _ (ih rest)

theorem ofText_lines (valp : ValStruct) (room : Nat) :
    (ofText valp room).vals.take valp.vals.length = valp.vals.map fun line => some line.1 := by
  apply List.take_left'
  exact List.length_map _

theorem ofText_values (valp : ValStruct) (room : Nat) : (ofText valp room).values =
    if valp.vals = [] then [valp.val] else valp.vals.map fun line => some line.1 := by
  by_cases none : valp.vals = []
  · have single : (ofText valp room).cnt = 0 := List.length_eq_zero_iff.mpr none
    rw [values, if_pos single, if_pos none]
    rfl
  · have filled : (ofText valp room).cnt ≠ 0 := mt List.length_eq_zero_iff.mp none
    rw [values, if_neg filled, if_neg none]
    exact ofText_lines valp room

theorem ofText_sized (valp : ValStruct) : Sized (ofText valp (roundUp valp.vals.length)) where
  freeMe := rfl
  vals := by
    have bounds := roundUp_bounds valp.vals.length
    have size : (ofText valp (roundUp valp.vals.length)).vals.length =
        valp.vals.length + (roundUp valp.vals.length - valp.vals.length) := by simp [ofText]
    rw [size, Nat.add_sub_cancel' bounds.1]
    rfl
  valTypes := List.length_replicate

theorem ofText_listed {valp : ValStruct} (untyped : ∀ line ∈ valp.vals, line.2 = .error) :
    (ofText valp (roundUp valp.vals.length)).listed = valp := by
  have bounds := roundUp_bounds valp.vals.length
  have types : (List.replicate (roundUp valp.vals.length) (some VtwType.error)).take valp.vals.length =
      List.replicate valp.vals.length (some .error) := by
    rw [List.take_replicate, Nat.min_eq_left bounds.1]
  apply ValStruct.ext
  · rfl
  · rfl
  · rfl
  · exact (congrArg₂ entries (ofText_lines _ _) types).trans (entries_untyped untyped)

/-- The arrays of lines have the size that `add_val` takes them to have. -/
theorem char2valTextStored_spec {value : Bytes} (free : 0 ∉ value) :
    ∃ res, char2valTextStored (value ++ [0]) = .ok res ∧ Sized res ∧ res.listed = char2valText value ∧
      res.values = (textLines value).map some := by
  refine ⟨_, ?_, ofText_sized (char2valText value), ofText_listed (char2valText_types value), ?_⟩
  · rw [char2valTextStored, char2valTextIn_eq free]
    rfl
  · rw [ofText_values, ← char2valText_values]
    by_cases none : (char2valText value).vals = []
    · obtain ⟨line, only, listed⟩ := char2valText_single value none
      rw [if_pos none, listed, only]
      rfl
    · rw [if_neg none, ValStruct.values, if_neg none, List.map_map]
      rfl

end Refinement

/-- The values and their types stand in order, from a single value or from the lines of a text, and the arrays
    are full exactly where `add_val` takes them to be. -/
theorem addAll_lists {first : StoredVal}
    (start : first.SingleOwned ∨ ∃ value, 0 ∉ value ∧ char2valTextStored (value ++ [0]) = .ok first)
    {seconds : List StoredVal} (owned : ∀ second ∈ seconds, second.SingleOwned) :
    ∃ res, addAll first seconds = .ok res ∧
      res.values = first.values ++ seconds.map StoredVal.val ∧
      (seconds ≠ [] → res.cnt = first.values.length + seconds.length ∧
        res.valTypes.take res.cnt = first.types ++ seconds.map (fun second => some second.valType)) ∧
      res.vals.length = roundUp res.cnt ∧ res.valTypes.length = roundUp res.cnt ∧
      res.cnt ≤ res.vals.length ∧ (res.cnt % multiAlloc = 0 ↔ res.cnt = res.vals.length) := by
  have sized : Sized first := by
    rcases start with single | ⟨value, free, built⟩
    · exact singleOwned_sized single
    · obtain ⟨res, found, sized, -⟩ := char2valTextStored_spec free
      obtain rfl := Except.ok.inj (found.symm.trans built)
      exact sized
  obtain ⟨res, ran, sized', filled, values, types⟩ := addAll_spec sized owned
  have bounds := roundUp_bounds res.cnt
  refine ⟨res, ran, values, ?_, sized'.vals, sized'.valTypes, ?_, ?_⟩
  · intro some
    have count := congrArg List.length values
    rw [StoredVal.types, if_neg (filled some)] at types
    rw [StoredVal.values, if_neg (filled some), List.length_take, sized'.vals, List.length_append,
      List.length_map] at count
    exact ⟨by omega, types⟩
  · rw [sized'.vals]
    exact bounds.1
  · rw [sized'.vals, eq_comm (a := res.cnt), roundUp_eq_iff]

/-- The sixth value makes the arrays of five lines longer. -/
theorem addAll_lists_sixth : ∃ first res, char2valTextStored (str "a\nb\nc\nd\ne" ++ [0]) = .ok first ∧
    addAll first [str2valStored (str "f")] = .ok res ∧
    res.values = [str "a", str "b", str "c", str "d", str "e", str "f"].map some ∧ res.vals.length = 10 := by
  have free : 0 ∉ str "a\nb\nc\nd\ne" := by decide
  obtain ⟨first, built, -, -, lines⟩ := char2valTextStored_spec free
  have five : textLines (str "a\nb\nc\nd\ne") = [str "a", str "b", str "c", str "d", str "e"] := by decide
  have single : ∀ second ∈ [str2valStored (str "f")], second.SingleOwned :=
    List.forall_mem_singleton.mpr (str2valStored_single _)
  obtain ⟨res, ran, values, listed, size, -⟩ := addAll_lists (.inr ⟨_, free, built⟩) single
  have six := (listed (List.cons_ne_nil _ _)).1
  rw [lines, five] at values six
  refine ⟨first, res, built, ran, values, ?_⟩
  rw [size, six]
  rfl

end VyattaCfg.Cliexec
