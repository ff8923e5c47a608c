import VyattaCfg.Client.Configd
import VyattaCfg.Client.StdMap
import VyattaCfg.Compat.PathEncoders

namespace VyattaCfg.Compat

open ByteString VyattaCfg.Client

inductive NodeStatus where
  | unchanged
  | changed
  | added
  | deleted
  deriving DecidableEq, Repr

def NodeStatus.code : NodeStatus → Int
  | .unchanged => 0
  | .changed => 1
  | .added => 2
  | .deleted => 3

structure Cstore where
  uri : UriParser
  configd : Configd
  connEstablished : Bool

namespace Cstore

variable (cstore : Cstore)

/-- `assertSession` croaks without a session: `none`. -/
def assertSession : Option Unit := if cstore.configd.sessExists = 1 then some () else none

/-- `vector_next` over the answer; `none` is the return value false. -/
def nodeGetDB (db : Db) (args : List Bytes) : Option (List Bytes) :=
  if cstore.connEstablished then cstore.configd.nodeGet db (strVecToChar cstore.uri args) else none

def nodeStatus (path : List Bytes) : Int := cstore.configd.nodeGetStatus .candidate (strVecToChar cstore.uri path)

def nodeIsChanged (path : List Bytes) : Option Bool :=
  if cstore.connEstablished then do
    cstore.assertSession
    let result := cstore.nodeStatus path
    some (result = NodeStatus.added.code ∨ result = NodeStatus.deleted.code ∨ result = NodeStatus.changed.code)
  else some false

def nodeIsStatus (path : List Bytes) (stat : NodeStatus) : Option Bool :=
  if cstore.connEstablished then do
    cstore.assertSession
    some (cstore.nodeStatus path = stat.code)
  else some false

def cfgPathDeleted (path : List Bytes) : Option Bool := cstore.nodeIsStatus path .deleted

def cfgPathAdded (path : List Bytes) : Option Bool := cstore.nodeIsStatus path .added

def cfgPathChanged (path : List Bytes) : Option Bool := cstore.nodeIsChanged path

/-- An error counts as deleted. -/
def statusName (status : Int) : Bytes :=
  if status = NodeStatus.changed.code then str "changed"
  else if status = NodeStatus.added.code then str "added"
  else if status = -1 ∨ status = NodeStatus.deleted.code then str "deleted"
  else str "static"

/-- `umap` holds the names of both databases, each once. -/
def childNames (path : List Bytes) : List Bytes :=
  let avec := (cstore.nodeGetDB .running path).getD []
  let wvec := (cstore.nodeGetDB .candidate path).getD []
  ((avec ++ wvec).foldl (fun umap c => umap.insert c true) (∅ : Std.ExtTreeMap Bytes Bool)).keys

def cfgPathGetChildNodesStatus (path : List Bytes) : Option StdMap := do
  cstore.assertSession
  some ((cstore.childNames path).foldl
    (fun result c => result.insert c (statusName (cstore.nodeStatus (path ++ [c])))) ∅)

def cfgPathGetDeletedValues (path : List Bytes) : List Bytes :=
  match cstore.nodeGetDB .running path, cstore.nodeGetDB .candidate path with
  | some avec, some svec => avec.filter (fun ait => !svec.any (fun sit => sit == ait))
  | _, _ => []

def cfgPathGetDeletedChildNodes (path : List Bytes) : List Bytes := cstore.cfgPathGetDeletedValues path

def getParsedTmpl (path : List Bytes) (tmap : StdMap) : Option StdMap :=
  if cstore.connEstablished then
    (cstore.configd.tmplGet (strVecToChar cstore.uri path)).map (·.foldl readEntry tmap)
  else none

end Cstore

theorem mem_childNames (cstore : Cstore) (path : List Bytes) (c : Bytes) :
    c ∈ cstore.childNames path ↔
      c ∈ (cstore.nodeGetDB .running path).getD [] ∨ c ∈ (cstore.nodeGetDB .candidate path).getD [] := by
  have inserted : ∀ (names : List Bytes) (umap : Std.ExtTreeMap Bytes Bool),
      c ∈ names.foldl (fun umap c => umap.insert c true) umap ↔ c ∈ names ∨ c ∈ umap := by
    intro names
    induction names with
    | nil => simp
    | cons name names ih =>
      intro umap
      rw [List.foldl_cons, ih, Std.ExtTreeMap.mem_insert, Std.LawfulEqOrd.compare_eq_iff_eq, List.mem_cons,
        eq_comm (a := c)]
      tauto
  rw [Cstore.childNames, Std.ExtTreeMap.mem_keys, inserted, List.mem_append]
  simp

theorem getElem?_statuses (status : Bytes → Bytes) (names : List Bytes) (result : StdMap) (c : Bytes) :
    (names.foldl (fun result c => result.insert c (status c)) result)[c]? =
      if c ∈ names then some (status c) else result[c]? := by
  induction names generalizing result with
  | nil => simp
  | cons name names ih =>
    rw [List.foldl_cons, ih, Std.ExtTreeMap.getElem?_insert]
    simp only [Std.LawfulEqOrd.compare_eq_iff_eq]
    by_cases later : c ∈ names
    · simp [later]
    · by_cases here : name = c
      · simp [here]
      · simp [later, here, Ne.symm here]

end VyattaCfg.Compat
