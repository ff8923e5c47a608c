import VyattaCfg.Client.Response
import Mathlib.Data.List.Forall2

namespace VyattaCfg.Client

open ByteString

/-- `configd_mgmt_err_list`: the counter and the array, whose slots are NULL until they are filled. -/
structure ErrList where
  numEntries : Nat := 0
  meList : Option (List (Option MgmtError)) := none

/-- `extract_mgmt_error_info_as_map`: `none` is the return value -1, `some none` a NULL map. -/
def extractMgmtErrorInfoAsMap (jobj : Json) : Option (Option Envz.Vector) :=
  let jinfo := jobj.objectGet (str "error-info")
  if jobjIsNull jinfo then some none else (jinfo.bind jarrayToMap).map some

/-- One round of the loop over the array; an error is a jump to the exit that frees the list. -/
def errlistRound (errlist : ErrList) (i : Nat) (jmap : Json) : Except ErrList ErrList :=
  match jmap with
  | .object _ =>
    match jobjToMap jmap false with
    | none => .error errlist
    | some fields =>
      match extractMgmtErrorInfoAsMap jmap with
      | none => .error errlist
      | some info =>
        let me := configdMgmtErrorSetFromMaps {} fields info
        .ok { numEntries := errlist.numEntries + 1, meList := errlist.meList.map (·.set i (some me)) }
  | _ => .error errlist

def errlistRounds (errlist : ErrList) (i : Nat) : List Json → Except ErrList ErrList
  | [] => .ok errlist
  | jmap :: rest => do
    let errlist ← errlistRound errlist i jmap
    errlistRounds errlist (i + 1) rest

/-- The loop of the error exit, which follows the first `num_entries` slots of the array. It
    dies on a NULL one. -/
def freeEntries (errlist : ErrList) : Except Fault Unit :=
  if ((errlist.meList.getD []).take errlist.numEntries).all Option.isSome then .ok ()
  else .error .nullString

/-- `process_errlist_array`, its return value and the list as it leaves it. -/
def processErrlist (errlist : ErrList) (jarray : List Json) : Except Fault (Int × ErrList) :=
  let errlist := { errlist with meList := some (List.replicate jarray.length none) }
  match errlistRounds errlist 0 jarray with
  | .ok errlist => .ok (0, errlist)
  | .error errlist => do
    freeEntries errlist
    .ok (-1, { errlist with numEntries := 0, meList := none })

/-- The list while the loop runs: the entries it has made, and the slots it has not filled. -/
def filled (entries : List MgmtError) (left : Nat) : ErrList where
  numEntries := entries.length
  meList := some (entries.map some ++ List.replicate left none)

theorem extractMgmtError_object (members : List (Bytes × Json)) :
    extractMgmtError (.object members) =
      (jobjToMap (.object members) false).bind fun fields =>
        (extractMgmtErrorInfoAsMap (.object members)).map fun info => configdMgmtErrorSetFromMaps {} fields info := by
  unfold extractMgmtError extractMgmtErrorInfoAsMap
  cases jobjToMap (.object members) false with
  | none => rfl
  | some fields =>
    dsimp only [Option.bind_eq_bind, Option.bind_some]
    split
    · rfl
    · cases ((Json.object members).objectGet (str "error-info")).bind jarrayToMap <;> rfl

theorem errlistRound_some {jmap : Json} {me : MgmtError} (decoded : extractMgmtError jmap = some me)
    (entries : List MgmtError) (left : Nat) :
    errlistRound (filled entries (left + 1)) entries.length jmap = .ok (filled (entries ++ [me]) left) := by
  cases jmap with
  | object members =>
    rw [extractMgmtError_object] at decoded
    rw [errlistRound]
    cases fields : jobjToMap (.object members) false with
    | none => simp [fields] at decoded
    | some fields' =>
      cases info : extractMgmtErrorInfoAsMap (.object members) with
      | none => simp [fields, info] at decoded
      | some info' =>
        simp only [fields, info, Option.bind_some, Option.map_some, Option.some.injEq] at decoded
        simp [filled, List.replicate_succ, decoded]
  | _ => cases decoded

theorem errlistRound_none {jmap : Json} (undecoded : extractMgmtError jmap = none) (errlist : ErrList) (i : Nat) :
    errlistRound errlist i jmap = .error errlist := by
  cases jmap with
  | object members =>
    rw [extractMgmtError_object] at undecoded
    rw [errlistRound]
    cases fields : jobjToMap (.object members) false with
    | none => rfl
    | some fields' =>
      cases info : extractMgmtErrorInfoAsMap (.object members) with
      | none => rfl
      | some info' => simp [fields, info] at undecoded
  | _ => rfl

theorem processErrlistArray_cons {jmap : Json} {rest : List Json} {list : List MgmtError} :
    processErrlistArray (jmap :: rest) = some list ↔ ∃ me others,
      extractMgmtError jmap = some me ∧ processErrlistArray rest = some others ∧ list = me :: others := by
  cases decoded : extractMgmtError jmap with
  | none => simp [processErrlistArray, decoded]
  | some me =>
    cases tail : rest.mapM extractMgmtError with
    | none => simp [processErrlistArray, decoded, tail]
    | some others => simp [processErrlistArray, decoded, tail, eq_comm]

theorem errlistRounds_some {jarray : List Json} {list : List MgmtError}
    (decoded : processErrlistArray jarray = some list) (entries : List MgmtError) :
    errlistRounds (filled entries jarray.length) entries.length jarray = .ok (filled (entries ++ list) 0) := by
  induction jarray generalizing entries list with
  | nil =>
    cases decoded
    simp [errlistRounds]
  | cons jmap rest ih =>
    rcases processErrlistArray_cons.mp decoded with ⟨me, others, first, tail, rfl⟩
    have next := ih tail (entries ++ [me])
    rw [List.length_append, List.length_singleton, List.append_assoc] at next
    rw [errlistRounds, List.length_cons, errlistRound_some first]
    exact next

/-- Wherever the loop jumps out, the counter says how many slots are filled. -/
theorem errlistRounds_none {jarray : List Json} (undecoded : processErrlistArray jarray = none)
    (entries : List MgmtError) :
    ∃ made left, errlistRounds (filled entries jarray.length) entries.length jarray = .error (filled made left) := by
  induction jarray generalizing entries with
  | nil => cases undecoded
  | cons jmap rest ih =>
    rw [errlistRounds, List.length_cons]
    cases first : extractMgmtError jmap with
    | none =>
      rw [errlistRound_none first]
      exact ⟨entries, rest.length + 1, rfl⟩
    | some me =>
      have tail : processErrlistArray rest = none := by
        apply Option.eq_none_iff_forall_ne_some.mpr
        intro others decoded
        have whole := processErrlistArray_cons.mpr ⟨me, others, first, decoded, rfl⟩
        rw [undecoded] at whole
        cases whole
      have next := ih tail (entries ++ [me])
      rw [List.length_append, List.length_singleton] at next
      rw [errlistRound_some first]
      exact next

theorem freeEntries_filled (entries : List MgmtError) (left : Nat) : freeEntries (filled entries left) = .ok () := by
  have slots : (((filled entries left).meList.getD []).take (filled entries left).numEntries) = entries.map some := by
    simp [filled]
  rw [freeEntries, slots, if_pos]
  simp

theorem processErrlist_some {jarray : List Json} {list : List MgmtError}
    (decoded : processErrlistArray jarray = some list) :
    processErrlist {} jarray = .ok (0, { numEntries := list.length, meList := some (list.map some) }) := by
  have rounds := errlistRounds_some decoded []
  have start : filled [] jarray.length = { meList := some (List.replicate jarray.length none) } := rfl
  rw [start, List.length_nil] at rounds
  rw [processErrlist]
  dsimp only
  rw [rounds]
  simp [filled]

theorem processErrlist_none {jarray : List Json} (undecoded : processErrlistArray jarray = none) :
    processErrlist {} jarray = .ok (-1, {}) := by
  rcases errlistRounds_none undecoded [] with ⟨made, left, rounds⟩
  have start : filled [] jarray.length = { meList := some (List.replicate jarray.length none) } := rfl
  rw [start, List.length_nil] at rounds
  rw [processErrlist]
  dsimp only
  rw [rounds]
  dsimp only
  rw [freeEntries_filled]
  rfl

/-- What an object says under a name: absent also where the member is no string. -/
def stringAt (jmap : Json) (key : Bytes) : Option Bytes := (jmap.objectGet key).bind Json.stringValue

/-- The error-info of an element, when it is present and not null. -/
def infoSection (jmap : Json) : Option Json := (jmap.objectGet (str "error-info")).filter fun jinfo => !jinfo.isNull

def infoEntries (jinfo : Json) : List (Bytes × Json) := jinfo.items.flatMap Json.members

def infoMap (jinfo : Json) : Envz.Vector := (Envz.lastOfName (stringMembers (infoEntries jinfo))).map Envz.entry

structure Decodable (jmap : Json) : Prop where
  object : ∃ members, jmap = .object members
  info : ∀ jinfo, infoSection jmap = some jinfo → ∀ entry ∈ infoEntries jinfo, entry.2.stringValue ≠ none

structure DecodedFrom (jmap : Json) (me : MgmtError) : Prop where
  tag : me.tag = stringAt jmap (str "error-tag")
  type : me.type = stringAt jmap (str "error-type")
  severity : me.severity = stringAt jmap (str "error-severity")
  appTag : me.appTag = stringAt jmap (str "error-app-tag")
  path : me.path = stringAt jmap (str "error-path")
  message : me.message = stringAt jmap (str "error-message")
  info : me.info = (infoSection jmap).map infoMap

/-- The keys of an object are distinct, as jansson keeps them, and none has an `=`. -/
structure PlainKeys (jmap : Json) : Prop where
  distinct : (jmap.members.map Prod.fst).Nodup
  plain : ∀ member ∈ jmap.members, Envz.sep ∉ member.1
  info : ∀ jinfo, infoSection jmap = some jinfo → ∀ entry ∈ infoEntries jinfo, Envz.sep ∉ entry.1

theorem stringMembers_plain {members : List (Bytes × Json)} (plain : ∀ member ∈ members, Envz.sep ∉ member.1) :
    ∀ pair ∈ stringMembers members, Envz.sep ∉ pair.1 := by
  intro pair inside
  rw [stringMembers, List.mem_filterMap] at inside
  rcases inside with ⟨member, given, value⟩
  rw [Option.map_eq_some_iff] at value
  rcases value with ⟨vstr, -, rfl⟩
  exact plain member given

theorem stringMembers_fst_sublist (members : List (Bytes × Json)) :
    ((stringMembers members).map Prod.fst).Sublist (members.map Prod.fst) := by
  induction members with
  | nil => exact List.Sublist.slnil
  | cons member members ih =>
    rw [stringMembers, List.filterMap_cons]
    cases member.2.stringValue with
    | none => exact List.Sublist.cons _ ih
    | some vstr => exact List.Sublist.cons_cons _ ih

theorem lookup_stringMembers {members : List (Bytes × Json)} (distinct : (members.map Prod.fst).Nodup)
    (key : Bytes) : (stringMembers members).lookup key = (members.lookup key).bind Json.stringValue := by
  induction members with
  | nil => rfl
  | cons member members ih =>
    rw [List.map_cons, List.nodup_cons] at distinct
    have rest := ih distinct.2
    rw [stringMembers] at rest
    rw [stringMembers, List.filterMap_cons, List.lookup_cons]
    by_cases same : key = member.1
    · have equal : (key == member.1) = true := by simpa using same
      rw [equal]
      cases value : member.2.stringValue with
      | some vstr =>
        simp only [Option.map_some, List.lookup_cons, equal, Option.bind_some]
        exact value.symm
      | none =>
        have absent : members.lookup key = none := by
          rw [List.lookup_eq_none_iff]
          intro other given
          have shared : other.1 ∈ members.map Prod.fst := List.mem_map_of_mem given
          have differs : key ≠ other.1 := by
            intro equal
            rw [← same, equal] at distinct
            exact distinct.1 shared
          simpa using differs
        simp [rest, absent, value]
    · have unequal : (key == member.1) = false := by simpa using same
      rw [unequal]
      cases value : member.2.stringValue with
      | none => exact rest
      | some vstr =>
        simp only [Option.map_some, List.lookup_cons, unequal]
        exact rest

theorem jobjToMap_get {members : List (Bytes × Json)} {fields : Envz.Vector} (keys : PlainKeys (.object members))
    (decoded : jobjToMap (.object members) false = some fields) {key : Bytes} (keyPlain : Envz.sep ∉ key) :
    Envz.get fields key = stringAt (.object members) key := by
  have plain : ∀ pair ∈ stringMembers members, Envz.sep ∉ pair.1 := stringMembers_plain keys.plain
  have distinct := (stringMembers_fst_sublist members).nodup keys.distinct
  have all := foldlM_addMember_false members []
  rw [jobjToMap] at decoded
  change members.foldlM (addMember false) [] = some fields at decoded
  rw [all, Envz.addAll_nil plain, Envz.lastOfName_of_distinct distinct, Option.some.injEq] at decoded
  rw [← decoded, Envz.get_entries plain keyPlain]
  exact lookup_stringMembers keys.distinct key

theorem jarrayToMap_eq_some_iff {jinfo : Json} {m : Envz.Vector}
    (plain : ∀ entry ∈ infoEntries jinfo, Envz.sep ∉ entry.1) :
    jarrayToMap jinfo = some m ↔ (∀ entry ∈ infoEntries jinfo, entry.2.stringValue ≠ none) ∧ m = infoMap jinfo := by
  rw [jarrayToMap, foldlM_members, ← infoEntries, foldlM_addMember_true, Envz.addAll_nil (stringMembers_plain plain),
    infoMap]

theorem extractMgmtErrorInfoAsMap_eq_some_iff {jmap : Json} (keys : PlainKeys jmap) {info : Option Envz.Vector} :
    extractMgmtErrorInfoAsMap jmap = some info ↔
      (∀ jinfo, infoSection jmap = some jinfo → ∀ entry ∈ infoEntries jinfo, entry.2.stringValue ≠ none) ∧
        info = (infoSection jmap).map infoMap := by
  have plain := keys.info
  rw [extractMgmtErrorInfoAsMap]
  unfold infoSection at plain ⊢
  cases found : jmap.objectGet (str "error-info") with
  | none =>
    rw [jobjIsNull, if_pos rfl]
    simp [eq_comm]
  | some jinfo =>
    cases null : jinfo.isNull with
    | true =>
      have gone : (some jinfo).filter (fun jinfo => !jinfo.isNull) = none := by simp [null]
      rw [jobjIsNull, if_pos null, gone]
      simp [eq_comm]
    | false =>
      have kept : (some jinfo).filter (fun jinfo => !jinfo.isNull) = some jinfo := by simp [null]
      have given := plain jinfo (by rw [found, kept])
      rw [jobjIsNull, if_neg (by simp [null]), kept, Option.bind_some, Option.map_eq_some_iff]
      constructor
      · intro decoded
        rcases decoded with ⟨m, decoded, rfl⟩
        rcases (jarrayToMap_eq_some_iff given).mp decoded with ⟨strings, rfl⟩
        refine ⟨?_, rfl⟩
        intro other same
        rw [← Option.some.inj same]
        exact strings
      · intro parts
        rcases parts with ⟨strings, rfl⟩
        exact ⟨infoMap jinfo, (jarrayToMap_eq_some_iff given).mpr ⟨strings jinfo rfl, rfl⟩, rfl⟩

theorem extractMgmtError_decoded {jmap : Json} {me : MgmtError} (keys : PlainKeys jmap)
    (decoded : extractMgmtError jmap = some me) : Decodable jmap ∧ DecodedFrom jmap me := by
  cases jmap with
  | object members =>
    rw [extractMgmtError_object] at decoded
    rcases Option.bind_eq_some_iff.mp decoded with ⟨fields, fieldsDecoded, rest⟩
    rcases Option.map_eq_some_iff.mp rest with ⟨info, infoDecoded, rfl⟩
    rcases (extractMgmtErrorInfoAsMap_eq_some_iff keys).mp infoDecoded with ⟨strings, rfl⟩
    have read : ∀ key, Envz.sep ∉ key → setValue (Envz.get fields key) none = stringAt (.object members) key := by
      intro key keyPlain
      rw [setValue, jobjToMap_get keys fieldsDecoded keyPlain]
      cases stringAt (.object members) key <;> rfl
    refine ⟨⟨⟨members, rfl⟩, strings⟩, ?_⟩
    exact {
      tag := read _ (by decide +kernel)
      type := read _ (by decide +kernel)
      severity := read _ (by decide +kernel)
      appTag := read _ (by decide +kernel)
      path := read _ (by decide +kernel)
      message := read _ (by decide +kernel)
      info := by simp [configdMgmtErrorSetFromMaps] }
  | _ => cases decoded

theorem extractMgmtError_of_decodable {jmap : Json} (keys : PlainKeys jmap) (decodable : Decodable jmap) :
    ∃ me, extractMgmtError jmap = some me := by
  rcases decodable.object with ⟨members, rfl⟩
  have fields := foldlM_addMember_false members []
  have info := (extractMgmtErrorInfoAsMap_eq_some_iff keys).mpr ⟨decodable.info, rfl⟩
  change jobjToMap (.object members) false = _ at fields
  rw [extractMgmtError_object, fields, info]
  exact ⟨_, rfl⟩

theorem processErrlistArray_decoded {jarray : List Json} {list : List MgmtError}
    (keys : ∀ jmap ∈ jarray, PlainKeys jmap) (decoded : processErrlistArray jarray = some list) :
    (∀ jmap ∈ jarray, Decodable jmap) ∧ List.Forall₂ DecodedFrom jarray list := by
  induction jarray generalizing list with
  | nil =>
    cases decoded
    simp
  | cons jmap rest ih =>
    rcases processErrlistArray_cons.mp decoded with ⟨me, others, first, tail, rfl⟩
    have here := extractMgmtError_decoded (keys jmap List.mem_cons_self) first
    have there := ih (fun jmap member => keys jmap (List.mem_cons_of_mem _ member)) tail
    exact ⟨List.forall_mem_cons.mpr ⟨here.1, there.1⟩, .cons here.2 there.2⟩

theorem processErrlistArray_of_decodable {jarray : List Json} (keys : ∀ jmap ∈ jarray, PlainKeys jmap)
    (decodable : ∀ jmap ∈ jarray, Decodable jmap) : ∃ list, processErrlistArray jarray = some list := by
  induction jarray with
  | nil => exact ⟨[], rfl⟩
  | cons jmap rest ih =>
    rcases extractMgmtError_of_decodable (keys jmap List.mem_cons_self) (decodable jmap List.mem_cons_self)
      with ⟨me, first⟩
    rcases ih (fun jmap member => keys jmap (List.mem_cons_of_mem _ member))
      (fun jmap member => decodable jmap (List.mem_cons_of_mem _ member)) with ⟨others, tail⟩
    exact ⟨me :: others, processErrlistArray_cons.mpr ⟨me, others, first, tail, rfl⟩⟩

theorem processErrlist_all_or_nothing (jarray : List Json) (keys : ∀ jmap ∈ jarray, PlainKeys jmap) :
    ∃ retval errlist, processErrlist {} jarray = .ok (retval, errlist) ∧
      (retval = 0 ↔ ∀ jmap ∈ jarray, Decodable jmap) ∧
      (retval = 0 → ∃ list, List.Forall₂ DecodedFrom jarray list ∧
        errlist = { numEntries := jarray.length, meList := some (list.map some) }) ∧
      (retval ≠ 0 → retval = -1 ∧ errlist = { numEntries := 0, meList := none }) := by
  cases decoded : processErrlistArray jarray with
  | some list =>
    rcases processErrlistArray_decoded keys decoded with ⟨decodable, read⟩
    refine ⟨0, _, processErrlist_some decoded, ?_, ?_, ?_⟩
    · simpa using decodable
    · intro _
      rw [List.Forall₂.length_eq read]
      exact ⟨list, read, rfl⟩
    · intro nonzero
      exact absurd rfl nonzero
  | none =>
    refine ⟨-1, {}, processErrlist_none decoded, ?_, ?_, ?_⟩
    · constructor
      · intro zero
        cases zero
      · intro decodable
        rcases processErrlistArray_of_decodable keys decodable with ⟨list, given⟩
        rw [decoded] at given
        cases given
    · intro zero
      cases zero
    · intro _
      exact ⟨rfl, rfl⟩

def badAttribute : Json :=
  .object [(str "error-tag", .string (str "bad-attribute")), (str "error-message", .string (str "just testing")),
    (str "error-path", .null),
    (str "error-info", .array [.object [(str "bad-element", .string (str "a"))],
      .object [(str "bad-element", .string (str "b"))]])]

theorem badAttribute_plainKeys : PlainKeys badAttribute where
  distinct := by decide +kernel
  plain := by decide +kernel
  info := by
    intro jinfo given
    cases given
    decide +kernel

theorem processErrlist_all_or_nothing_second :
    ∃ retval errlist, processErrlist {} [badAttribute, .null] = .ok (retval, errlist) ∧ retval = -1 ∧
      errlist.numEntries = 0 := by
  have keys : ∀ jmap ∈ [badAttribute, Json.null], PlainKeys jmap := by
    intro jmap member
    rw [List.mem_cons, List.mem_singleton] at member
    rcases member with rfl | rfl
    · exact badAttribute_plainKeys
    · exact ⟨by decide, by decide, by intro jinfo given; cases given⟩
  rcases processErrlist_all_or_nothing [badAttribute, .null] keys with ⟨retval, errlist, run, zero, -, failed⟩
  have nonzero : retval ≠ 0 := by
    intro success
    rcases (zero.mp success .null (by simp)).object with ⟨members, same⟩
    cases same
  exact ⟨retval, errlist, run, (failed nonzero).1, by rw [(failed nonzero).2]⟩

/-- The text that several errors should give: one line for each message there is. -/
def messageLines (list : List MgmtError) : Bytes := (list.filterMap MgmtError.message).flatMap (· ++ str "\n")

theorem mergeMessages_of_present {list : List MgmtError} (present : ∀ me ∈ list, me.message ≠ none) :
    mergeMessages list = .ok (messageLines list) := by
  have read : list.mapM MgmtError.message = some (list.filterMap MgmtError.message) := by
    induction list with
    | nil => rfl
    | cons me list ih =>
      rcases List.forall_mem_cons.mp present with ⟨here, there⟩
      rcases Option.ne_none_iff_exists'.mp here with ⟨message, given⟩
      rw [List.mapM_cons, given, ih there, List.filterMap_cons, given]
      rfl
  rw [mergeMessages, read]
  rfl

/-- Several errors are merged just when each of them brings a message. -/
theorem errorSetFromMgmtErrorList_lines_iff (e : ConfigdError) (list : List MgmtError)
    (several : 2 ≤ list.length) :
    (∃ e', errorSetFromMgmtErrorList (some e) list = .ok (some e') ∧ e'.text = some (messageLines list)) ↔
      ∀ me ∈ list, me.message ≠ none := by
  constructor
  · intro merged me member absent
    rcases merged with ⟨e', ended, -⟩
    rcases (errorSetFromMgmtErrorList_error_iff e list).mpr ⟨several, me, member, absent⟩ with ⟨fault, died⟩
    rw [died] at ended
    cases ended
  · intro present
    have merged := mergeMessages_of_present present
    rcases list with _ | ⟨first, _ | ⟨second, rest⟩⟩
    · contradiction
    · simp at several
    · refine ⟨{ e with mgmtErrs := first :: second :: rest, isMgmtError := true,
                       text := some (messageLines (first :: second :: rest)) }, ?_, rfl⟩
      simp only [errorSetFromMgmtErrorList]
      rw [merged]
      rfl

theorem errorSetFromMgmtErrorList_lines_two :
    ∃ e', errorSetFromMgmtErrorList (some {}) [{ message := some (str "a") }, { message := some (str "b") }] =
      .ok (some e') ∧ e'.text = some (str "a\nb\n") :=
  (errorSetFromMgmtErrorList_lines_iff {} [{ message := some (str "a") }, { message := some (str "b") }]
    (by decide)).mpr (by decide)

/-- Two errors of which the second has no message. -/
theorem errorSetFromMgmtErrorList_no_message :
    ¬ ∀ (e : ConfigdError) (jarray : List Json) (list : List MgmtError), 2 ≤ list.length →
      processErrlistArray jarray = some list →
      ∃ e', errorSetFromMgmtErrorList (some e) list = .ok (some e') ∧ e'.text = some (messageLines list) := by
  intro merged
  rcases merged {} [badAttribute, .object []] _ (by decide) rfl with ⟨e', ended, -⟩
  cases ended

end VyattaCfg.Client
