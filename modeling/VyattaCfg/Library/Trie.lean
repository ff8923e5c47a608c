import Mathlib.Data.List.Nodup

namespace VyattaCfg

/-- A hash of hashes. The order of the entries of a hash means nothing. -/
inductive Trie (α : Type) where
  | node (entries : List (α × Trie α))

namespace Trie

variable {α β : Type} [DecidableEq α]

def setEntry (key : α) (value : β) : List (α × β) → List (α × β)
  | [] => [(key, value)]
  | entry :: entries =>
    if entry.1 = key then (key, value) :: entries else entry :: setEntry key value entries

def empty : Trie α := node []

def entries : Trie α → List (α × Trie α)
  | node entries => entries

def keys (t : Trie α) : List α := t.entries.map Prod.fst

def child (t : Trie α) (key : α) : Option (Trie α) := t.entries.lookup key

/-- Goes down the path and makes what is missing of it. -/
def insert : List α → Trie α → Trie α
  | [], t => t
  | key :: path, t => node (setEntry key (insert path ((t.child key).getD empty)) t.entries)

def find : List α → Trie α → Option (Trie α)
  | [], t => some t
  | key :: path, t => (t.child key).bind (find path)

def ofPaths (paths : List (List α)) : Trie α := paths.foldl (fun t path => t.insert path) empty

/-- No hash has a key twice. -/
def Distinct (t : Trie α) : Prop := ∀ path found, t.find path = some found → found.keys.Nodup

section Entries

theorem lookup_entry (other : α) (entry : α × β) (entries : List (α × β)) :
    (entry :: entries).lookup other = if other = entry.1 then some entry.2 else entries.lookup other := by
  rw [List.lookup_cons]
  by_cases same : other = entry.1
  · rw [if_pos same, beq_iff_eq.mpr same]
  · rw [if_neg same, beq_eq_false_iff_ne.mpr same]

theorem lookup_setEntry (key other : α) (value : β) (entries : List (α × β)) :
    (setEntry key value entries).lookup other = if other = key then some value else entries.lookup other := by
  induction entries with
  | nil => exact lookup_entry other (key, value) []
  | cons entry entries ih =>
    rw [setEntry]
    by_cases here : entry.1 = key
    · rw [if_pos here, lookup_entry, lookup_entry, here]
      split_ifs <;> rfl
    · rw [if_neg here, lookup_entry, lookup_entry, ih]
      by_cases same : other = key
      · rw [if_pos same, if_pos same, if_neg]
        exact fun first => here (first.symm.trans same)
      · rw [if_neg same, if_neg same]

theorem mem_keys_setEntry (key other : α) (value : β) (entries : List (α × β)) :
    other ∈ (setEntry key value entries).map Prod.fst ↔ other = key ∨ other ∈ entries.map Prod.fst := by
  induction entries with
  | nil => simp [setEntry]
  | cons entry entries ih =>
    rw [setEntry]
    by_cases here : entry.1 = key
    · rw [if_pos here, List.map_cons, List.map_cons, List.mem_cons, List.mem_cons, here]
      tauto
    · rw [if_neg here, List.map_cons, List.map_cons, List.mem_cons, List.mem_cons, ih]
      tauto

theorem nodup_setEntry {entries : List (α × β)} (distinct : (entries.map Prod.fst).Nodup) (key : α) (value : β) :
    ((setEntry key value entries).map Prod.fst).Nodup := by
  induction entries with
  | nil => exact List.nodup_singleton key
  | cons entry entries ih =>
    rw [List.map_cons, List.nodup_cons] at distinct
    rw [setEntry]
    by_cases here : entry.1 = key
    · rw [if_pos here, List.map_cons, List.nodup_cons]
      show key ∉ _ ∧ _
      rw [← here]
      exact distinct
    · rw [if_neg here, List.map_cons, List.nodup_cons, mem_keys_setEntry]
      exact ⟨fun member => member.elim here distinct.1, ih distinct.2⟩

end Entries

section Paths

theorem find_append (path rest : List α) (t : Trie α) : t.find (path ++ rest) = (t.find path).bind (find rest) := by
  induction path generalizing t with
  | nil => rfl
  | cons key path ih =>
    rw [List.cons_append, find, find]
    cases t.child key with
    | none => rfl
    | some next => exact ih next

theorem mem_keys_iff (t : Trie α) (key : α) : key ∈ t.keys ↔ (t.find [key]).isSome := by
  rw [keys, List.mem_map, find, child]
  simp only [Option.isSome_bind, find, Option.isSome_some]
  rw [Option.any_true, List.lookup_isSome_iff]
  constructor
  · rintro ⟨entry, inside, rfl⟩
    exact ⟨entry, inside, by simp⟩
  · rintro ⟨entry, inside, same⟩
    exact ⟨entry, inside, (eq_of_beq same).symm⟩

theorem mem_keys_find {t found : Trie α} {path : List α} (here : t.find path = some found) (key : α) :
    key ∈ found.keys ↔ (t.find (path ++ [key])).isSome := by
  rw [find_append, here, mem_keys_iff]
  rfl

theorem child_insert (key other : α) (path : List α) (t : Trie α) :
    (t.insert (key :: path)).child other =
      if other = key then some (((t.child key).getD empty).insert path) else t.child other :=
  lookup_setEntry key other _ t.entries

theorem find_empty (path : List α) : (find path (empty : Trie α)).isSome ↔ path = [] := by
  cases path with
  | nil => exact iff_of_true rfl rfl
  | cons key path => exact iff_of_false nofun nofun

theorem find_insert (path other : List α) (t : Trie α) :
    ((t.insert path).find other).isSome ↔ (t.find other).isSome ∨ other <+: path := by
  induction path generalizing other t with
  | nil =>
    rw [insert, List.prefix_nil]
    constructor
    · exact .inl
    · rintro (there | rfl)
      · exact there
      · rfl
  | cons key path ih =>
    cases other with
    | nil => exact iff_of_true rfl (.inl rfl)
    | cons next other =>
      rw [find, child_insert, find, List.cons_prefix_cons]
      by_cases same : next = key
      · subst same
        rw [if_pos rfl, Option.bind_some, ih]
        cases t.child next with
        | none =>
          rw [Option.getD_none, find_empty]
          constructor
          · rintro (rfl | below)
            · exact .inr ⟨rfl, List.nil_prefix⟩
            · exact .inr ⟨rfl, below⟩
          · rintro (there | ⟨-, below⟩)
            · cases there
            · exact .inr below
        | some found => simp
      · rw [if_neg same]
        simp [same]

theorem find_ofPaths (paths : List (List α)) (other : List α) :
    ((ofPaths paths).find other).isSome ↔ other = [] ∨ ∃ path ∈ paths, other <+: path := by
  have inserted : ∀ t : Trie α, ((paths.foldl (fun t path => t.insert path) t).find other).isSome ↔
      (t.find other).isSome ∨ ∃ path ∈ paths, other <+: path := by
    induction paths with
    | nil => simp
    | cons path paths ih =>
      intro t
      rw [List.foldl_cons, ih, find_insert, List.exists_mem_cons_iff, or_assoc]
  rw [ofPaths, inserted, find_empty]

end Paths

section Invariant

theorem distinct_empty : Distinct (empty : Trie α) := by
  intro path found here
  have root := (find_empty path).mp (by rw [here]; rfl)
  subst root
  cases here
  exact List.nodup_nil

theorem Distinct.child {t next : Trie α} (distinct : t.Distinct) {key : α} (here : t.child key = some next) :
    next.Distinct := by
  intro path found there
  apply distinct (key :: path) found
  rw [find, here]
  exact there

theorem Distinct.insert {t : Trie α} (distinct : t.Distinct) (path : List α) : (t.insert path).Distinct := by
  induction path generalizing t with
  | nil => exact distinct
  | cons key path ih =>
    have below : ((t.child key).getD empty).Distinct := by
      cases here : t.child key with
      | none => exact distinct_empty
      | some next => exact distinct.child here
    intro other found there
    cases other with
    | nil =>
      cases there
      exact nodup_setEntry (distinct [] t rfl) key _
    | cons next other =>
      rw [find, child_insert] at there
      by_cases same : next = key
      · rw [if_pos same] at there
        exact ih below other found there
      · rw [if_neg same] at there
        exact distinct (next :: other) found there

theorem distinct_ofPaths (paths : List (List α)) : (ofPaths paths).Distinct := by
  have kept : ∀ t : Trie α, t.Distinct → (paths.foldl (fun t path => t.insert path) t).Distinct := by
    induction paths with
    | nil => exact fun t distinct => distinct
    | cons path paths ih => exact fun t distinct => ih _ (distinct.insert path)
  exact kept empty distinct_empty

end Invariant

end Trie

end VyattaCfg
