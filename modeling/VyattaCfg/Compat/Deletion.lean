import VyattaCfg.Client.CpathRoundTrip
import VyattaCfg.Compat.Cstore

namespace VyattaCfg.Compat

open ByteString VyattaCfg.Client

/-- A configuration: the values of a leaf are children as the nodes below a node are. -/
inductive Tree where
  | node (children : List (Bytes × Tree))

namespace Tree

def entries : Tree → List (Bytes × Tree)
  | node children => children

def find : Tree → List Bytes → Option Tree
  | t, [] => some t
  | t, name :: path => (t.entries.lookup name).bind (·.find path)

def children (t : Tree) (path : List Bytes) : Option (List Bytes) :=
  (t.find path).map fun found => found.entries.map Prod.fst

def HasChild (t : Tree) (path : List Bytes) (v : Bytes) : Prop := ∃ names, t.children path = some names ∧ v ∈ names

theorem find_append (t : Tree) (path rest : List Bytes) :
    t.find (path ++ rest) = (t.find path).bind (·.find rest) := by
  induction path generalizing t with
  | nil => rfl
  | cons name path ih =>
    simp only [List.cons_append, find]
    cases t.entries.lookup name with
    | none => rfl
    | some child => exact ih child

theorem find_child_isSome (t : Tree) (path : List Bytes) (v : Bytes) :
    (t.find (path ++ [v])).isSome ↔ t.HasChild path v := by
  rw [find_append, HasChild, children]
  cases t.find path with
  | none => simp
  | some child =>
    have present : (child.entries.lookup v).isSome ↔ v ∈ child.entries.map Prod.fst := by
      simp only [List.lookup_isSome_iff, List.mem_map, beq_iff_eq]
      constructor <;> rintro ⟨entry, member, same⟩ <;> exact ⟨entry, member, same.symm⟩
    simp only [Option.bind_some, find, Option.map_some, Option.some.injEq, exists_eq_left', ← present]
    cases child.entries.lookup v <;> simp

end Tree

/-- What is relied on of configd: `Get` answers the children of a path that exists in the
    database and fails for one that does not, and a path of the candidate has no status of a
    deleted one, one that is only in running has it or none. -/
structure Serves (configd : Configd) (names : Bytes → List Bytes) (running candidate : Tree) : Prop where
  getRunning : ∀ s, configd.nodeGet .running s = running.children (names s)
  getCandidate : ∀ s, configd.nodeGet .candidate s = candidate.children (names s)
  statusGone : ∀ s, (running.find (names s)).isSome → candidate.find (names s) = none →
    configd.nodeGetStatus .candidate s = NodeStatus.deleted.code ∨ configd.nodeGetStatus .candidate s = -1
  statusKept : ∀ s, (candidate.find (names s)).isSome →
    configd.nodeGetStatus .candidate s ≠ NodeStatus.deleted.code ∧ configd.nodeGetStatus .candidate s ≠ -1

/-- The path strings that the API sends for a path and its children name these. -/
structure Named (uri : UriParser) (names : Bytes → List Bytes) (running candidate : Tree) (path : List Bytes) :
    Prop where
  self : names (strVecToChar uri path) = path
  child : ∀ v, running.HasChild path v ∨ candidate.HasChild path v →
    names (strVecToChar uri (path ++ [v])) = path ++ [v]

def Removed (running candidate : Tree) (path : List Bytes) (v : Bytes) : Prop :=
  running.HasChild path v ∧ ¬ candidate.HasChild path v

/-- The five views of the deletion of one child. -/
structure ViewsAgree (cstore : Cstore) (path : List Bytes) (v : Bytes) (removed : Prop) : Prop where
  childNodes : v ∈ cstore.cfgPathGetDeletedChildNodes path ↔ removed
  values : v ∈ cstore.cfgPathGetDeletedValues path ↔ removed
  status : (cstore.cfgPathGetChildNodesStatus path).bind (·[v]?) = some (str "deleted") ↔ removed
  deleted : cstore.cfgPathDeleted (path ++ [v]) = some true ↔ removed
  changed : removed → cstore.cfgPathChanged (path ++ [v]) = some true

structure InSession (cstore : Cstore) : Prop where
  established : cstore.connEstablished = true
  session : cstore.configd.sessExists = 1

section Views

variable {cstore : Cstore} {names : Bytes → List Bytes} {running candidate : Tree} {path : List Bytes}

theorem statusName_deleted (status : Int) :
    Cstore.statusName status = str "deleted" ↔ status = NodeStatus.deleted.code ∨ status = -1 := by
  unfold Cstore.statusName
  by_cases changed : status = NodeStatus.changed.code
  · subst changed
    decide
  · by_cases added : status = NodeStatus.added.code
    · subst added
      decide
    · rw [if_neg changed, if_neg added]
      split
      · rename_i gone
        exact iff_of_true rfl gone.symm
      · rename_i kept
        exact iff_of_false (by decide) (fun gone => kept gone.symm)

theorem nodeGetDB_running (session : InSession cstore) (serves : Serves cstore.configd names running candidate)
    (named : Named cstore.uri names running candidate path) :
    cstore.nodeGetDB .running path = running.children path := by
  rw [Cstore.nodeGetDB, if_pos session.established, serves.getRunning, named.self]

theorem nodeGetDB_candidate (session : InSession cstore) (serves : Serves cstore.configd names running candidate)
    (named : Named cstore.uri names running candidate path) :
    cstore.nodeGetDB .candidate path = candidate.children path := by
  rw [Cstore.nodeGetDB, if_pos session.established, serves.getCandidate, named.self]

theorem mem_getD_children (t : Tree) (path : List Bytes) (v : Bytes) :
    v ∈ (t.children path).getD [] ↔ t.HasChild path v := by
  unfold Tree.HasChild
  cases t.children path <;> simp

theorem mem_deletedValues (session : InSession cstore) (serves : Serves cstore.configd names running candidate)
    (named : Named cstore.uri names running candidate path) (v : Bytes) :
    v ∈ cstore.cfgPathGetDeletedValues path ↔
      Removed running candidate path v ∧ (candidate.find path).isSome := by
  rw [Cstore.cfgPathGetDeletedValues, nodeGetDB_running session serves named,
    nodeGetDB_candidate session serves named, Removed, Tree.HasChild, Tree.HasChild, Tree.children, Tree.children]
  cases running.find path with
  | none => simp
  | some active =>
    cases candidate.find path with
    | none => simp
    | some working => simp [List.any_beq']

theorem nodeStatus_kept (serves : Serves cstore.configd names running candidate)
    (named : Named cstore.uri names running candidate path) {v : Bytes} (kept : candidate.HasChild path v) :
    cstore.nodeStatus (path ++ [v]) ≠ NodeStatus.deleted.code ∧ cstore.nodeStatus (path ++ [v]) ≠ -1 := by
  apply serves.statusKept
  rw [named.child v (.inr kept), Tree.find_child_isSome]
  exact kept

theorem nodeStatus_removed (serves : Serves cstore.configd names running candidate)
    (named : Named cstore.uri names running candidate path) {v : Bytes}
    (removed : Removed running candidate path v) :
    cstore.nodeStatus (path ++ [v]) = NodeStatus.deleted.code ∨ cstore.nodeStatus (path ++ [v]) = -1 := by
  have name := named.child v (.inl removed.1)
  apply serves.statusGone
  · rw [name, Tree.find_child_isSome]
    exact removed.1
  · rw [name, ← Option.not_isSome_iff_eq_none, Tree.find_child_isSome]
    exact removed.2

theorem cfgPathDeleted_iff (session : InSession cstore) (path : List Bytes) :
    cstore.cfgPathDeleted path = some true ↔ cstore.nodeStatus path = NodeStatus.deleted.code := by
  rw [Cstore.cfgPathDeleted, Cstore.nodeIsStatus, if_pos session.established, Cstore.assertSession,
    if_pos session.session]
  simp

theorem childNodesStatus_deleted_iff (session : InSession cstore)
    (serves : Serves cstore.configd names running candidate)
    (named : Named cstore.uri names running candidate path) {v : Bytes}
    (child : running.HasChild path v ∨ candidate.HasChild path v) :
    (cstore.cfgPathGetChildNodesStatus path).bind (·[v]?) = some (str "deleted") ↔
      Removed running candidate path v := by
  have listed : v ∈ cstore.childNames path := by
    rw [mem_childNames, nodeGetDB_running session serves named, nodeGetDB_candidate session serves named,
      mem_getD_children, mem_getD_children]
    exact child
  have status : (cstore.cfgPathGetChildNodesStatus path).bind (·[v]?) =
      some (Cstore.statusName (cstore.nodeStatus (path ++ [v]))) := by
    rw [Cstore.cfgPathGetChildNodesStatus, Cstore.assertSession, if_pos session.session]
    have found := getElem?_statuses (fun c => Cstore.statusName (cstore.nodeStatus (path ++ [c])))
      (cstore.childNames path) ∅ v
    rw [if_pos listed] at found
    exact found
  rw [status, Option.some.injEq, statusName_deleted]
  constructor
  · intro gone
    have absent : ¬ candidate.HasChild path v := by
      intro kept
      have live := nodeStatus_kept serves named kept
      exact gone.elim live.1 live.2
    exact ⟨child.resolve_right absent, absent⟩
  · exact nodeStatus_removed serves named

end Views

def treeConfigd (running candidate : Tree) : Configd where
  nodeGet db s :=
    match db with
    | .running | .effective => running.children (Cpath.ofString uriparser s)
    | .auto | .candidate => candidate.children (Cpath.ofString uriparser s)
  nodeExists db s :=
    match db with
    | .running | .effective => if (running.find (Cpath.ofString uriparser s)).isSome then 1 else 0
    | .auto | .candidate => if (candidate.find (Cpath.ofString uriparser s)).isSome then 1 else 0
  nodeGetStatus _ s :=
    if (candidate.find (Cpath.ofString uriparser s)).isSome then
      if (running.find (Cpath.ofString uriparser s)).isSome then NodeStatus.unchanged.code else NodeStatus.added.code
    else NodeStatus.deleted.code
  nodeGetType _ := -1
  tmplGet _ := none
  tmplGetAllowed _ := .refused none
  getHelp _ _ := none
  set _ := .refused none
  sessExists := 1

theorem serves_treeConfigd (running candidate : Tree) :
    Serves (treeConfigd running candidate) (Cpath.ofString uriparser) running candidate where
  getRunning _ := rfl
  getCandidate _ := rfl
  statusGone s _ absent := by
    left
    simp [treeConfigd, absent]
  statusKept s kept := by
    simp only [treeConfigd, kept, if_true]
    split <;> decide

/-- Where configd reads path strings as `Cpath` does, the children of a path are named if the
    path is; only a path of one component need not be. -/
theorem named_of_canonical {uri : UriParser} {running candidate : Tree} {path : List Bytes}
    (canonical : Cpath.Canonical path) (free : ∀ c ∈ path, 0 ∉ c)
    (self : path.length = 1 → Cpath.ofString uri (strVecToChar uri path) = path)
    (plain : ∀ v, running.HasChild path v ∨ candidate.HasChild path v → 0 ∉ v ∧ Cpath.normalized v = v) :
    Named uri (Cpath.ofString uri) running candidate path := by
  constructor
  · by_cases single : path.length = 1
    · exact self single
    · rw [strVecToChar_eq single]
      exact (Cpath.ofString_toPathString_iff free).mpr canonical
  · intro v child
    have value := plain v child
    rcases canonical.first with ⟨comp, head, kept⟩
    obtain ⟨rest, rfl⟩ : ∃ rest, path = comp :: rest := ⟨path.tail, List.eq_cons_of_mem_head? head⟩
    rw [strVecToChar_eq (by simp)]
    refine (Cpath.ofString_toPathString_iff ?_).mpr ⟨⟨comp, rfl, kept⟩, ?_⟩
    · intro c member
      rcases List.mem_append.mp member with member | member
      · exact free c member
      · rw [List.mem_singleton.mp member]
        exact value.1
    · intro c member
      rcases List.mem_append.mp member with member | member
      · exact canonical.breaks c member
      · rw [List.mem_singleton.mp member]
        exact value.2

def ethernets (names : List Bytes) : Tree := .node (names.map fun name => (name, .node []))

def interfaceSession (running candidate : Tree) : Cstore := ⟨uriparser, treeConfigd running candidate, true⟩

end VyattaCfg.Compat
