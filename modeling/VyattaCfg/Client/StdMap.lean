import VyattaCfg.Client.Json
import Std.Data.ExtTreeMap

namespace VyattaCfg.Client

open ByteString

abbrev StdMap := Std.ExtTreeMap Bytes Bytes

/-- One round of the loops over `map_next`: the entry is split at its first `=`, one without
    is passed over. -/
def readEntry (result : StdMap) (entry : Bytes) : StdMap :=
  match entry.dropWhile (· ≠ Envz.sep) with
  | [] => result
  | _ :: value => result.insert (Envz.name entry) value

def mapToStdMap (m : Envz.Vector) : StdMap := m.foldl readEntry ∅

structure StringObject where
  pairs : List (Bytes × Bytes)
  distinct : (pairs.map Prod.fst).Nodup
  nulFree : ∀ pair ∈ pairs, 0 ∉ pair.1 ∧ 0 ∉ pair.2

def StringObject.json (object : StringObject) : Json :=
  .object (object.pairs.map fun (key, value) => (key, .string value))

theorem addMember_string (onlyAllowStrings : Bool) (envz : Envz.Vector) (key value : Bytes) :
    addMember onlyAllowStrings envz (key, .string value) = some (Envz.add envz key value) := rfl

theorem jobjToMap_json (object : StringObject) (onlyAllowStrings : Bool) :
    jobjToMap object.json onlyAllowStrings =
      some (object.pairs.foldl (fun envz (key, value) => Envz.add envz key value) []) := by
  have run : ∀ (pairs : List (Bytes × Bytes)) (envz : Envz.Vector),
      (pairs.map fun (key, value) => (key, Json.string value)).foldlM (addMember onlyAllowStrings) envz =
        some (pairs.foldl (fun envz (key, value) => Envz.add envz key value) envz) := by
    intro pairs
    induction pairs with
    | nil => intro envz; rfl
    | cons pair pairs ih =>
      intro envz
      rw [List.map_cons, List.foldlM_cons, addMember_string, List.foldl_cons]
      exact ih _
  exact run object.pairs []

/-- Where no key has a separator, every entry has a name of its own and none is removed. -/
theorem foldl_add_plain {pairs : List (Bytes × Bytes)} (distinct : (pairs.map Prod.fst).Nodup)
    (plain : ∀ pair ∈ pairs, Envz.sep ∉ pair.1) (envz : Envz.Vector)
    (fresh : ∀ pair ∈ pairs, ∀ entry ∈ envz, Envz.name entry ≠ pair.1) :
    pairs.foldl (fun envz (key, value) => Envz.add envz key value) envz =
      envz ++ pairs.map fun (key, value) => key ++ Envz.sep :: value := by
  induction pairs generalizing envz with
  | nil => simp
  | cons pair pairs ih =>
    rcases pair with ⟨key, value⟩
    rw [List.map_cons, List.nodup_cons] at distinct
    have keyPlain : Envz.sep ∉ key := plain (key, value) List.mem_cons_self
    have added : Envz.add envz key value = envz ++ [key ++ Envz.sep :: value] := by
      apply Envz.add_fresh
      rw [Envz.name_of_plain keyPlain]
      exact fresh (key, value) List.mem_cons_self
    rw [List.foldl_cons, List.map_cons]
    simp only [added]
    rw [ih distinct.2 (fun pair member => plain pair (List.mem_cons_of_mem _ member))]
    · simp
    · intro pair member entry inside
      rcases List.mem_append.mp inside with earlier | last
      · exact fresh pair (List.mem_cons_of_mem _ member) entry earlier
      · rw [List.mem_singleton.mp last, Envz.name_entry keyPlain]
        have shared : pair.1 ∈ pairs.map Prod.fst := List.mem_map_of_mem member
        intro given
        subst given
        exact distinct.1 shared

theorem readEntry_plain {key : Bytes} (plain : Envz.sep ∉ key) (value : Bytes) (result : StdMap) :
    readEntry result (key ++ Envz.sep :: value) = result.insert key value := by
  rw [readEntry, Envz.dropWhile_entry plain value, Envz.name_entry plain]

theorem lookup_foldl_readEntry {pairs : List (Bytes × Bytes)} (distinct : (pairs.map Prod.fst).Nodup)
    (plain : ∀ pair ∈ pairs, Envz.sep ∉ pair.1) (result : StdMap) (key : Bytes) :
    ((pairs.map fun (key, value) => key ++ Envz.sep :: value).foldl readEntry result)[key]? =
      (pairs.lookup key).or result[key]? := by
  induction pairs generalizing result with
  | nil => simp
  | cons pair pairs ih =>
    rcases pair with ⟨first, value⟩
    rw [List.map_cons, List.nodup_cons] at distinct
    have rest := ih distinct.2 (fun pair member => plain pair (List.mem_cons_of_mem _ member))
    rw [List.map_cons, List.foldl_cons, readEntry_plain (plain (first, value) List.mem_cons_self), rest,
      Std.ExtTreeMap.getElem?_insert, List.lookup_cons]
    by_cases same : first = key
    · subst same
      have absent : pairs.lookup first = none := by
        rw [List.lookup_eq_none_iff]
        intro pair member
        have shared : pair.1 ∈ pairs.map Prod.fst := List.mem_map_of_mem member
        have differs : first ≠ pair.1 := fun h => distinct.1 (h ▸ shared)
        simpa using differs
      simp [absent]
    · have unequal : (key == first) = false := by simpa using Ne.symm same
      have compared : ¬ compare first key = .eq := by simpa [Std.LawfulEqOrd.compare_eq_iff_eq] using same
      simp [unequal, compared]

theorem getElem?_foldl_readEntry {m : Envz.Vector} {result : StdMap} {key value : Bytes}
    (stored : (m.foldl readEntry result)[key]? = some value) : Envz.sep ∉ key ∨ result[key]? = some value := by
  induction m generalizing result with
  | nil => exact .inr stored
  | cons entry m ih =>
    rw [List.foldl_cons] at stored
    rcases ih stored with plain | earlier
    · exact .inl plain
    · unfold readEntry at earlier
      split at earlier
      · exact .inr earlier
      · rw [Std.ExtTreeMap.getElem?_insert] at earlier
        split at earlier
        · rename_i named
          rw [Std.LawfulEqOrd.compare_eq_iff_eq] at named
          exact .inl (named ▸ Envz.sep_not_mem_name entry)
        · exact .inr earlier

/-- Decoding a JSON object of strings and reading the result gives its pairs back. -/
theorem map_round_trip_iff (object : StringObject) (onlyAllowStrings : Bool) :
    (∃ m, jobjToMap object.json onlyAllowStrings = some m ∧
      ∀ key, (mapToStdMap m)[key]? = object.pairs.lookup key) ↔
    ∀ pair ∈ object.pairs, Envz.sep ∉ pair.1 := by
  rw [jobjToMap_json]
  constructor
  · intro held given member
    rcases held with ⟨m, -, same⟩
    rcases given with ⟨key, value⟩
    have present : object.pairs.lookup key ≠ none := by
      intro absent
      have differs := List.lookup_eq_none_iff.mp absent (key, value) member
      simp at differs
    obtain ⟨value, found⟩ := Option.ne_none_iff_exists'.mp present
    rw [← same] at found
    rcases getElem?_foldl_readEntry found with plain | empty
    · exact plain
    · simp at empty
  · intro plain
    refine ⟨_, rfl, ?_⟩
    intro key
    rw [foldl_add_plain object.distinct plain [] (by simp), List.nil_append, mapToStdMap,
      lookup_foldl_readEntry object.distinct plain]
    simp

/-- Two keys that begin alike, such as two values with an `=` that are offered as completions. -/
def equalsObject : StringObject where
  pairs := [(str "a=1", str "one"), (str "a=2", str "two")]
  distinct := by decide
  nulFree := by decide

theorem map_round_trip_equals : ¬ ∀ (object : StringObject) (onlyAllowStrings : Bool),
    ∃ m, jobjToMap object.json onlyAllowStrings = some m ∧
      ∀ key, (mapToStdMap m)[key]? = object.pairs.lookup key := by
  intro same
  obtain ⟨m, decoded, read⟩ := same equalsObject true
  have entries : jobjToMap equalsObject.json true = some [str "a=2=two"] := by decide +kernel
  obtain rfl : [str "a=2=two"] = m := Option.some.inj (entries.symm.trans decoded)
  have lost : (mapToStdMap [str "a=2=two"])[str "a=1"]? = none := by decide +kernel
  have kept := read (str "a=1")
  rw [lost] at kept
  exact absurd kept (by decide)

end VyattaCfg.Client
