import VyattaCfg.Library.Trie
import VyattaCfg.Perl.EnumerateBranch
import VyattaCfg.Perl.FindValues
import Mathlib.Data.List.Dedup
import Mathlib.Data.List.DropRight

namespace VyattaCfg.Perl

open ByteString Shell

/-- The nested hashes: as Perl's are, without a key that is there twice. -/
structure Hierarchy where
  tree : Trie Bytes
  distinct : tree.Distinct

def Hierarchy.insert (hash : Hierarchy) (path : List Bytes) : Hierarchy :=
  ⟨hash.tree.insert path, hash.distinct.insert path⟩

/-- `%hash` and `%node_order`. -/
structure Generated where
  hash : Hierarchy
  nodeOrder : IndexHash

def generateHierarchy (nodeList : List (List Bytes)) : Generated where
  hash := nodeList.foldl Hierarchy.insert ⟨Trie.empty, Trie.distinct_empty⟩
  nodeOrder := indexHash (nodeList.map level)

/-- `split("/", $root_node)`: empty fields are left out at the end. -/
def splitSlash (rootNode : Bytes) : List Bytes := (rootNode.splitOn (ch '/')).rdropWhile (·.isEmpty)

/-- `loadConfigHierarchy`, with what the parser finds at the root node. -/
def loadConfigHierarchy (rootNode : Option Bytes) (root : ConfigNode) : Generated :=
  let rootPath := ((rootNode.map splitSlash).getD []).dropLast
  generateHierarchy (enumerateBranch root rootPath ⟨[], []⟩).allNakedNodes

/-- The statements that a file is enumerated to. -/
def statements (rootNode : Option Bytes) (root : ConfigNode) : List (List Bytes) :=
  (terminalPaths root).map (((rootNode.map splitSlash).getD []).dropLast ++ ·)

/-- The values that statements give the node, as often and in the order that they do. -/
def statedValues (nodeList : List (List Bytes)) (npath : List Bytes) : List Bytes :=
  nodeList.filterMap fun path => if path ≠ [] ∧ path.dropLast = npath then path.getLast? else none

/-- No other statement reads like one of a value of the node. -/
def Unambiguous (nodeList : List (List Bytes)) (npath : List Bytes) : Prop :=
  ∀ path ∈ nodeList, ∀ value, level path = level npath ++ [space] ++ value → path = npath ++ [value]

section Order

variable {α : Type} [DecidableEq α]

/-- Where a text stands last. -/
def lastIdx : List α → α → Nat
  | [], _ => 0
  | _ :: texts, text => if text ∈ texts then lastIdx texts text + 1 else 0

theorem mergeSort_eq_of_rank {list ordered : List α} (rank : α → Nat) (perm : list.Perm ordered)
    (increasing : ordered.Pairwise fun first second => rank first < rank second) :
    list.mergeSort (fun first second => decide (rank first ≤ rank second)) = ordered := by
  have sorted : (list.mergeSort fun first second => decide (rank first ≤ rank second)).Pairwise
      fun first second => decide (rank first ≤ rank second) = true := by
    apply List.pairwise_mergeSort
    · intro a b c
      simpa using Nat.le_trans
    · intro a b
      simpa using Nat.le_total (rank a) (rank b)
  have same := (List.mergeSort_perm list fun first second => decide (rank first ≤ rank second)).trans perm
  apply List.Perm.eq_of_pairwise _ sorted (increasing.imp fun before => decide_eq_true (Nat.le_of_lt before)) same
  intro first second here there le ge
  rw [decide_eq_true_eq] at le ge
  have apart := List.pairwise_iff_getElem.mp increasing
  obtain ⟨i, bound, rfl⟩ := List.getElem_of_mem (same.subset here)
  obtain ⟨j, bound', rfl⟩ := List.getElem_of_mem there
  rcases Nat.lt_trichotomy i j with before | rfl | after
  · have less := apart i j bound bound' before
    omega
  · rfl
  · have less := apart j i bound' bound after
    omega

theorem getElem?_foldl_insert_last (texts : List Bytes) (start : Nat) (hash : IndexHash) (text : Bytes) :
    ((texts.zipIdx start).foldl (fun hash (value, idx) => hash.insert value idx) hash)[text]? =
      if text ∈ texts then some (start + lastIdx texts text) else hash[text]? := by
  induction texts generalizing start hash with
  | nil => rfl
  | cons first texts ih =>
    rw [List.zipIdx_cons, List.foldl_cons, ih, Std.ExtTreeMap.getElem?_insert, lastIdx]
    by_cases later : text ∈ texts
    · rw [if_pos later, if_pos (List.mem_cons_of_mem _ later), if_pos later]
      congr 1
      omega
    · rw [if_neg later]
      by_cases same : first = text
      · subst same
        simp [later]
      · have apart : ¬ compare first text = .eq := by rwa [Std.LawfulEqCmp.compare_eq_iff_eq]
        have absent : text ∉ first :: texts := by
          rw [List.mem_cons, not_or]
          exact ⟨Ne.symm same, later⟩
        rw [if_neg apart, if_neg absent]

theorem getElem?_indexHash_last (texts : List Bytes) (text : Bytes) :
    (indexHash texts)[text]? = if text ∈ texts then some (lastIdx texts text) else none := by
  rw [indexHash, getElem?_foldl_insert_last, Nat.zero_add]
  rfl

end Order

section Values

variable {nodeList : List (List Bytes)} {npath : List Bytes}

theorem level_value (below : npath ≠ []) (value : Bytes) :
    level (npath ++ [value]) = level npath ++ [space] ++ value := by
  rw [level, Words.join_append _ below (List.cons_ne_nil _ _), Words.join_singleton, List.append_assoc]
  rfl

theorem statedValue_eq_some {path : List Bytes} {value : Bytes} :
    (if path ≠ [] ∧ path.dropLast = npath then path.getLast? else none) = some value ↔ path = npath ++ [value] := by
  constructor
  · intro stated
    split_ifs at stated with here
    obtain ⟨start, rfl⟩ := List.getLast?_eq_some_iff.mp stated
    rw [← here.2, List.dropLast_concat]
  · rintro rfl
    simp

theorem mem_statedValues {value : Bytes} : value ∈ statedValues nodeList npath ↔ npath ++ [value] ∈ nodeList := by
  rw [statedValues, List.mem_filterMap]
  simp only [statedValue_eq_some]
  constructor
  · rintro ⟨path, inside, rfl⟩
    exact inside
  · exact fun inside => ⟨_, inside, rfl⟩

theorem text_mem_iff (below : npath ≠ []) (unambiguous : Unambiguous nodeList npath) (value : Bytes) :
    level npath ++ [space] ++ value ∈ nodeList.map level ↔ value ∈ statedValues nodeList npath := by
  rw [mem_statedValues, List.mem_map]
  constructor
  · rintro ⟨path, inside, same⟩
    rw [← unambiguous path inside value same]
    exact inside
  · exact fun inside => ⟨_, inside, level_value below value⟩

/-- The values in the order in which they are stated last. -/
theorem statedValues_pairwise (below : npath ≠ []) (unambiguous : Unambiguous nodeList npath) :
    (statedValues nodeList npath).dedup.Pairwise fun first second =>
      lastIdx (nodeList.map level) (level npath ++ [space] ++ first) <
        lastIdx (nodeList.map level) (level npath ++ [space] ++ second) := by
  induction nodeList with
  | nil => exact List.Pairwise.nil
  | cons path nodeList ih =>
    have rest : Unambiguous nodeList npath :=
      fun other inside => unambiguous other (List.mem_cons_of_mem _ inside)
    have shifted : (statedValues nodeList npath).dedup.Pairwise fun first second =>
        lastIdx ((path :: nodeList).map level) (level npath ++ [space] ++ first) <
          lastIdx ((path :: nodeList).map level) (level npath ++ [space] ++ second) := by
      apply (ih rest).imp_of_mem
      intro first second here there before
      rw [List.map_cons, lastIdx, lastIdx, if_pos ((text_mem_iff below rest first).mpr (List.mem_dedup.mp here)),
        if_pos ((text_mem_iff below rest second).mpr (List.mem_dedup.mp there))]
      omega
    cases stated : (if path ≠ [] ∧ path.dropLast = npath then path.getLast? else none) with
    | none =>
      rw [show statedValues (path :: nodeList) npath = statedValues nodeList npath from List.filterMap_cons_none stated]
      exact shifted
    | some value =>
      rw [show statedValues (path :: nodeList) npath = value :: statedValues nodeList npath from
        List.filterMap_cons_some stated]
      by_cases again : value ∈ statedValues nodeList npath
      · rw [List.dedup_cons_of_mem again]
        exact shifted
      · rw [List.dedup_cons_of_notMem again, List.pairwise_cons]
        refine ⟨?_, shifted⟩
        intro later inside
        rw [List.map_cons, lastIdx, lastIdx, if_neg (mt (text_mem_iff below rest value).mp again),
          if_pos ((text_mem_iff below rest later).mpr (List.mem_dedup.mp inside))]
        omega

/-- However the hash gives its keys, they are sorted into the order of the statements. -/
theorem getSortedMultiValues_eq (below : npath ≠ []) (unambiguous : Unambiguous nodeList npath) {keys : List Bytes}
    (perm : keys.Perm (statedValues nodeList npath).dedup) :
    getSortedMultiValues (indexHash (nodeList.map level)) keys npath = (statedValues nodeList npath).dedup := by
  have ranked : ∀ value ∈ (statedValues nodeList npath).dedup,
      (indexHash (nodeList.map level)).getD (level npath ++ [space] ++ value) 0 =
        lastIdx (nodeList.map level) (level npath ++ [space] ++ value) := by
    intro value inside
    rw [Std.ExtTreeMap.getD_eq_getD_getElem?, getElem?_indexHash_last,
      if_pos ((text_mem_iff below unambiguous value).mpr (List.mem_dedup.mp inside)), Option.getD_some]
  have sorted := mergeSort_eq_of_rank (fun entry : Bytes × Nat => entry.2)
    (perm.map fun value => (value, (indexHash (nodeList.map level)).getD (level npath ++ [space] ++ value) 0)) <| by
      apply List.pairwise_map.mpr
      apply (statedValues_pairwise below unambiguous).imp_of_mem
      intro first second here there before
      rw [ranked first here, ranked second there]
      exact before
  rw [getSortedMultiValues, sorted, List.map_map]
  exact List.map_id' _

end Values

section Loaded

theorem generateHierarchy_tree (nodeList : List (List Bytes)) :
    (generateHierarchy nodeList).hash.tree = Trie.ofPaths nodeList := by
  have folded : ∀ hash : Hierarchy, (nodeList.foldl Hierarchy.insert hash).tree =
      nodeList.foldl (fun t path => t.insert path) hash.tree := by
    induction nodeList with
    | nil => exact fun hash => rfl
    | cons path nodeList ih => exact fun hash => ih (hash.insert path)
  exact folded _

theorem loadConfigHierarchy_eq (rootNode : Option Bytes) (root : ConfigNode) :
    loadConfigHierarchy rootNode root = generateHierarchy (statements rootNode root) := by
  rw [loadConfigHierarchy, enumerateBranch_eq]
  rfl

end Loaded

/-- What the hierarchy of a file has is what its statements begin with. -/
theorem loadConfigHierarchy_paths (rootNode : Option Bytes) (root : ConfigNode) (path : List Bytes) :
    ((loadConfigHierarchy rootNode root).hash.tree.find path).isSome ↔
      path = [] ∨ ∃ statement ∈ statements rootNode root, path <+: statement := by
  rw [loadConfigHierarchy_eq, generateHierarchy_tree, Trie.find_ofPaths]

/-- The values of a node whose children are all stated come once each, in the order in which the file states them
    last, whatever the order of the hash is. -/
theorem sorted_values_of_file (rootNode : Option Bytes) (root : ConfigNode) (npath : List Bytes) (nref : Trie Bytes)
    (below : npath ≠ []) (found : (loadConfigHierarchy rootNode root).hash.tree.find npath = some nref)
    (stated : ∀ value ∈ nref.keys, npath ++ [value] ∈ statements rootNode root)
    (unambiguous : Unambiguous (statements rootNode root) npath) (keys : List Bytes) (perm : keys.Perm nref.keys) :
    getSortedMultiValues (loadConfigHierarchy rootNode root).nodeOrder keys npath =
      (statedValues (statements rootNode root) npath).dedup := by
  have distinct := (loadConfigHierarchy rootNode root).hash.distinct npath nref found
  have same : nref.keys.Perm (statedValues (statements rootNode root) npath).dedup := by
    apply (List.perm_ext_iff_of_nodup distinct (List.nodup_dedup _)).mpr
    intro value
    rw [List.mem_dedup, mem_statedValues]
    constructor
    · exact stated value
    · intro inside
      rw [Trie.mem_keys_find found, loadConfigHierarchy_paths]
      exact .inr ⟨_, inside, List.prefix_refl _⟩
  rw [loadConfigHierarchy_eq]
  exact getSortedMultiValues_eq below unambiguous (perm.trans same)

/-- A value that is there twice. -/
def nameServers : ConfigNode :=
  .mk none none (some [.mk (some (str "system")) none (some
    ([str "10.0.0.2", str "10.0.0.1", str "10.0.0.2"].map fun value => .mk (some (str "name-server")) (some value) none))])

theorem sorted_values_of_file_twice :
    getSortedMultiValues (loadConfigHierarchy none nameServers).nodeOrder [str "10.0.0.2", str "10.0.0.1"]
      [str "system", str "name-server"] = [str "10.0.0.1", str "10.0.0.2"] := by
  have listed : statements none nameServers = [str "10.0.0.2", str "10.0.0.1", str "10.0.0.2"].map
      ([str "system", str "name-server"] ++ [·]) := by decide
  have unambiguous : Unambiguous (statements none nameServers) [str "system", str "name-server"] := by
    intro path inside value same
    rw [listed] at inside
    obtain ⟨own, -, rfl⟩ := List.mem_map.mp inside
    rw [level_value (by decide)] at same
    rw [List.append_cancel_left same]
  have sorted := sorted_values_of_file none nameServers [str "system", str "name-server"]
    (.node [(str "10.0.0.2", .node []), (str "10.0.0.1", .node [])]) (by decide) rfl (by decide) unambiguous
    [str "10.0.0.2", str "10.0.0.1"] (List.Perm.refl _)
  rw [sorted]
  decide

end VyattaCfg.Perl
