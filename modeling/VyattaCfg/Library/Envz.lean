import VyattaCfg.Library.Bytes
import Mathlib.Data.List.Induction
import Mathlib.Data.List.Pairwise

namespace Envz

open ByteString

abbrev sep : UInt8 := ch '='

/-- The name part of an entry, or of a name that is looked up: what precedes the first `=`. -/
def name (entry : Bytes) : Bytes := entry.takeWhile (· ≠ sep)

abbrev Vector := List Bytes

def remove (envz : Vector) (key : Bytes) : Vector := envz.eraseP (fun entry => name entry = name key)

/-- `envz_add`: an entry with the same name goes away, the new one comes last. -/
def add (envz : Vector) (key value : Bytes) : Vector := remove envz key ++ [key ++ sep :: value]

/-- `envz_get`: what follows the first `=` of the entry with that name. -/
def get (envz : Vector) (key : Bytes) : Option Bytes := do
  let entry ← envz.find? (fun entry => name entry = name key)
  match entry.dropWhile (· ≠ sep) with
  | [] => none
  | _ :: value => some value

theorem name_of_plain {key : Bytes} (plain : sep ∉ key) : name key = key := by
  rw [name, List.takeWhile_eq_self_iff]
  intro b member
  have differs : b ≠ sep := fun h => plain (h ▸ member)
  simpa using differs

theorem sep_not_mem_name (entry : Bytes) : sep ∉ name entry := by
  intro member
  have kept := List.mem_takeWhile_imp member
  simp at kept

theorem takeWhile_entry {key : Bytes} (plain : sep ∉ key) (value : Bytes) :
    (key ++ sep :: value).takeWhile (· ≠ sep) = key := by
  rw [List.takeWhile_append_of_pos]
  · simp
  · intro b member
    have differs : b ≠ sep := fun h => plain (h ▸ member)
    simpa using differs

theorem dropWhile_entry {key : Bytes} (plain : sep ∉ key) (value : Bytes) :
    (key ++ sep :: value).dropWhile (· ≠ sep) = sep :: value := by
  rw [List.dropWhile_append_of_pos]
  · simp
  · intro b member
    have differs : b ≠ sep := fun h => plain (h ▸ member)
    simpa using differs

theorem name_entry {key : Bytes} (plain : sep ∉ key) (value : Bytes) :
    name (key ++ sep :: value) = key := takeWhile_entry plain value

theorem add_fresh {envz : Vector} {key : Bytes} (fresh : ∀ entry ∈ envz, name entry ≠ name key)
    (value : Bytes) : add envz key value = envz ++ [key ++ sep :: value] := by
  rw [add, remove, List.eraseP_of_forall_not (by simpa using fresh)]

def entry (pair : Bytes × Bytes) : Bytes := pair.1 ++ sep :: pair.2

def addAll (envz : Vector) (pairs : List (Bytes × Bytes)) : Vector :=
  pairs.foldl (fun envz pair => add envz pair.1 pair.2) envz

/-- Of several pairs with one name only the last one is kept. -/
def lastOfName (pairs : List (Bytes × Bytes)) : List (Bytes × Bytes) := pairs.pwFilter fun a b => a.1 ≠ b.1

theorem remove_entries {pairs : List (Bytes × Bytes)} (plain : ∀ pair ∈ pairs, sep ∉ pair.1)
    (distinct : pairs.Pairwise fun a b => a.1 ≠ b.1) {key : Bytes} (keyPlain : sep ∉ key) :
    remove (pairs.map entry) key = (pairs.filter fun pair => pair.1 ≠ key).map entry := by
  induction pairs with
  | nil => rfl
  | cons pair pairs ih =>
    have named : name (entry pair) = pair.1 := name_entry (plain pair List.mem_cons_self) pair.2
    rw [List.pairwise_cons] at distinct
    have rest := ih (fun pair member => plain pair (List.mem_cons_of_mem _ member)) distinct.2
    rw [remove, name_of_plain keyPlain] at rest
    rw [List.map_cons, remove, name_of_plain keyPlain]
    by_cases same : pair.1 = key
    · have others : pairs.filter (fun pair => pair.1 ≠ key) = pairs := by
        rw [List.filter_eq_self]
        intro other member
        have differs := distinct.1 other member
        rw [same] at differs
        simpa using differs.symm
      rw [List.eraseP_cons_of_pos (by simpa [named] using same), List.filter_cons_of_neg (by simpa using same),
        others]
    · rw [List.eraseP_cons_of_neg (by simpa [named] using same), List.filter_cons_of_pos (by simpa using same),
        rest, List.map_cons]

theorem lastOfName_append (pairs : List (Bytes × Bytes)) (last : Bytes × Bytes) :
    lastOfName (pairs ++ [last]) = (lastOfName pairs).filter (fun pair => pair.1 ≠ last.1) ++ [last] := by
  induction pairs with
  | nil => rfl
  | cons pair pairs ih =>
    rw [lastOfName] at ih
    rw [List.cons_append, lastOfName, lastOfName]
    by_cases kept : ∀ b ∈ pairs.pwFilter (fun a b => a.1 ≠ b.1), pair.1 ≠ b.1
    · rw [List.pwFilter_cons_of_pos kept]
      by_cases same : pair.1 = last.1
      · rw [List.pwFilter_cons_of_neg (by rw [ih]; simp [same]), ih, List.filter_cons_of_neg (by simpa using same),
          lastOfName]
      · rw [List.pwFilter_cons_of_pos, ih, List.filter_cons_of_pos (by simpa using same), lastOfName,
          List.cons_append]
        intro b member
        rw [ih] at member
        rcases List.mem_append.mp member with earlier | new
        · exact kept b (List.mem_filter.mp earlier).1
        · rw [List.mem_singleton.mp new]
          exact same
    · rw [List.pwFilter_cons_of_neg kept, List.pwFilter_cons_of_neg, ih, lastOfName]
      intro still
      apply kept
      intro b member
      by_cases same : b.1 = last.1
      · rw [same]
        exact still last (by rw [ih]; simp)
      · apply still
        rw [ih, List.mem_append, List.mem_filter]
        exact .inl ⟨member, by simpa using same⟩

theorem addAll_nil {pairs : List (Bytes × Bytes)} (plain : ∀ pair ∈ pairs, sep ∉ pair.1) :
    addAll [] pairs = (lastOfName pairs).map entry := by
  induction pairs using List.reverseRecOn with
  | nil => rfl
  | append_singleton pairs last ih =>
    have earlier : ∀ pair ∈ pairs, sep ∉ pair.1 := fun pair member => plain pair (List.mem_append_left _ member)
    have kept : ∀ pair ∈ lastOfName pairs, sep ∉ pair.1 := fun pair member =>
      earlier pair (List.pwFilter_subset pairs member)
    have lastPlain : sep ∉ last.1 := plain last (by simp)
    have run : addAll [] (pairs ++ [last]) = add (addAll [] pairs) last.1 last.2 := by
      simp [addAll, List.foldl_append]
    rw [run, ih earlier, add, remove_entries kept (List.pairwise_pwFilter pairs) lastPlain, lastOfName_append,
      List.map_append]
    rfl

theorem lastOfName_of_distinct {pairs : List (Bytes × Bytes)} (distinct : (pairs.map Prod.fst).Nodup) :
    lastOfName pairs = pairs := by
  apply List.pwFilter_eq_self.mpr
  exact List.pairwise_map.mp distinct

theorem get_entries {pairs : List (Bytes × Bytes)} (plain : ∀ pair ∈ pairs, sep ∉ pair.1) {key : Bytes}
    (keyPlain : sep ∉ key) : get (pairs.map entry) key = pairs.lookup key := by
  induction pairs with
  | nil => rfl
  | cons pair pairs ih =>
    have pairPlain : sep ∉ pair.1 := plain pair List.mem_cons_self
    have named : name (entry pair) = pair.1 := name_entry pairPlain pair.2
    have rest := ih fun pair member => plain pair (List.mem_cons_of_mem _ member)
    rw [get, name_of_plain keyPlain] at rest
    rw [List.map_cons, get, name_of_plain keyPlain, List.lookup_cons]
    by_cases same : pair.1 = key
    · have value : (entry pair).dropWhile (· ≠ sep) = sep :: pair.2 := dropWhile_entry pairPlain pair.2
      have equal : (key == pair.1) = true := by simpa using same.symm
      rw [List.find?_cons_of_pos (by simpa [named] using same), equal, Option.bind_eq_bind, Option.bind_some, value]
    · have unequal : (key == pair.1) = false := by simpa using Ne.symm same
      rw [List.find?_cons_of_neg (by simpa [named] using same), unequal]
      exact rest

end Envz
