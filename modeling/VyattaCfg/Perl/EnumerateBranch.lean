import VyattaCfg.Perl.ApplySingleQuote

namespace VyattaCfg.Perl

open ByteString Shell

/-- What the parser leaves of a node: a hash whose keys may be undefined. -/
inductive ConfigNode where
  | mk (name value : Option Bytes) (children : Option (List ConfigNode))

namespace ConfigNode

def name : ConfigNode → Option Bytes
  | mk name _ _ => name

end ConfigNode

/-- `\s` -/
def perlSpace (c : UInt8) : Bool := c ∈ str " \t\n\r" ++ [11, 12]

/-- `/^\s*(\S+)\s+(\S.*)$/` -/
def tagAndValue (name : Bytes) : Option (Bytes × Bytes) :=
  let start := name.dropWhile perlSpace
  let tag := start.takeWhile (!perlSpace ·)
  let value := (start.dropWhile (!perlSpace ·)).dropWhile perlSpace
  if tag = [] ∨ value = [] ∨ newline ∈ chomp value then none else some (tag, chomp value)

/-- What a node's name adds to the path; the root has no name. -/
def nameComponents : Option Bytes → List Bytes
  | none => []
  | some name =>
    match tagAndValue name with
    | some (tag, value) => [tag, value]
    | none => [name]

structure NodeLists where
  allNodes : List (List Bytes)
  allNakedNodes : List (List Bytes)
  deriving DecidableEq, Repr

def NodeLists.push (lists : NodeLists) (path : List Bytes) : NodeLists :=
  ⟨lists.allNodes ++ [applySingleQuote path], lists.allNakedNodes ++ [path]⟩

mutual

def enumerateBranch : ConfigNode → List Bytes → NodeLists → NodeLists
  | .mk name value none, curPath, lists => lists.push (curPath ++ nameComponents name ++ value.toList)
  | .mk name _ (some children), curPath, lists => enumerateChildren children (curPath ++ nameComponents name) lists

def enumerateChildren : List ConfigNode → List Bytes → NodeLists → NodeLists
  | [], _, lists => lists
  | child :: children, curPath, lists =>
    enumerateChildren children curPath (if child.name.isSome then enumerateBranch child curPath lists else lists)

end

def getStartupConfigStatements (root : ConfigNode) : NodeLists := enumerateBranch root [] ⟨[], []⟩

mutual

/-- The paths from a node to the terminal nodes below it. -/
def terminalPaths : ConfigNode → List (List Bytes)
  | .mk name value none => [nameComponents name ++ value.toList]
  | .mk name _ (some children) => (terminalPathsOf children).map (nameComponents name ++ ·)

def terminalPathsOf : List ConfigNode → List (List Bytes)
  | [] => []
  | child :: children => (if child.name.isSome then terminalPaths child else []) ++ terminalPathsOf children

end

mutual

def terminalNodes : ConfigNode → Nat
  | .mk _ _ none => 1
  | .mk _ _ (some children) => terminalNodesOf children

def terminalNodesOf : List ConfigNode → Nat
  | [] => 0
  | child :: children => (if child.name.isSome then terminalNodes child else 0) + terminalNodesOf children

end

/-- The lists once `paths`, each below `curPath`, are pushed. -/
def NodeLists.pushAll (lists : NodeLists) (curPath : List Bytes) (paths : List (List Bytes)) : NodeLists :=
  ⟨lists.allNodes ++ paths.map (fun path => applySingleQuote (curPath ++ path)),
    lists.allNakedNodes ++ paths.map (curPath ++ ·)⟩

theorem NodeLists.pushAll_append (lists : NodeLists) (curPath : List Bytes) (first second : List (List Bytes)) :
    lists.pushAll curPath (first ++ second) = (lists.pushAll curPath first).pushAll curPath second := by
  simp [pushAll]

mutual

theorem enumerateBranch_eq : ∀ (node : ConfigNode) (curPath : List Bytes) (lists : NodeLists),
    enumerateBranch node curPath lists = lists.pushAll curPath (terminalPaths node)
  | .mk name value none, curPath, lists => by
    simp [enumerateBranch, terminalPaths, NodeLists.push, NodeLists.pushAll]
  | .mk name value (some children), curPath, lists => by
    rw [enumerateBranch, enumerateChildren_eq, terminalPaths]
    simp [NodeLists.pushAll]

theorem enumerateChildren_eq : ∀ (children : List ConfigNode) (curPath : List Bytes) (lists : NodeLists),
    enumerateChildren children curPath lists = lists.pushAll curPath (terminalPathsOf children)
  | [], curPath, lists => by simp [enumerateChildren, terminalPathsOf, NodeLists.pushAll]
  | child :: children, curPath, lists => by
    rw [enumerateChildren, enumerateChildren_eq children, terminalPathsOf, NodeLists.pushAll_append]
    split
    · rw [enumerateBranch_eq child]
    · simp [NodeLists.pushAll]

end

mutual

theorem length_terminalPaths : ∀ node : ConfigNode, (terminalPaths node).length = terminalNodes node
  | .mk name value none => rfl
  | .mk name value (some children) => by
    rw [terminalPaths, List.length_map, length_terminalPathsOf children, terminalNodes]

theorem length_terminalPathsOf :
    ∀ children : List ConfigNode, (terminalPathsOf children).length = terminalNodesOf children
  | [] => rfl
  | child :: children => by
    rw [terminalPathsOf, terminalNodesOf, List.length_append, length_terminalPathsOf children]
    split
    · rw [length_terminalPaths child]
    · rfl

end

theorem getStartupConfigStatements_eq (root : ConfigNode) :
    getStartupConfigStatements root = ⟨(terminalPaths root).map applySingleQuote, terminalPaths root⟩ := by
  rw [getStartupConfigStatements, enumerateBranch_eq]
  simp [NodeLists.pushAll]

end VyattaCfg.Perl
