import VyattaCfg.Client.Calls

namespace VyattaCfg.Client

open ByteString

/-- `make_paths` with its result and what the caller's `from_path` and `to_path` hold after it. -/
def makePathsInto (path : Bytes) (fromPath toPath : Option Bytes) : Int × Option Bytes × Option Bytes :=
  match makePaths path with
  | none => (-1, fromPath, toPath)
  | some (newFrom, newTo) => (0, some newFrom, some newTo)

theorem argzPop_concat (argz : Argz.Vector) (entry : Bytes) : argzPop (argz ++ [entry]) = argz := by
  rw [argzPop, List.dropLast_concat]

theorem splitPath_append (p : Argz.Vector) (x q y : Bytes) :
    splitPath (p ++ [x, q, y]) = some (p ++ [x], p ++ [y]) := by
  have count : (p ++ [x, q, y]).length = p.length + 3 := by simp
  have enough : ¬ p.length + 3 < 3 := by omega
  have first : nextEntries p.length (p ++ [x, q, y]) = some (p, [x, q, y]) := by
    rw [nextEntries_eq, if_pos (by simp), List.take_left, List.drop_left]
  have second : nextEntries 3 [x, q, y] = some ([x, q, y], []) := rfl
  have popped : argzPop (argzPop (p ++ [x, q, y])) = p ++ [x] := by
    have shape : p ++ [x, q, y] = p ++ [x] ++ [q] ++ [y] := by simp
    rw [shape, argzPop_concat, argzPop_concat]
  have three : p.length + 3 - p.length = 3 := by omega
  simp [splitPath, count, enough, first, three, second, popped]

theorem stringify_rooted {entries : Argz.Vector} (filled : entries ≠ []) :
    Argz.stringify ([] :: entries) slash = slash :: Words.join slash entries := by
  change Words.join slash ([] :: entries) = _
  rw [Words.join_cons slash [] filled, List.nil_append]

theorem createSep_rooted {components : List Bytes} (filled : components ≠ [])
    (separable : Words.Separable slash components) :
    Argz.createSep (slash :: Words.join slash components) slash = components := by
  have behind : ([slash] : Bytes) = [] ∨ ([slash] : Bytes) = [slash] := .inr rfl
  exact Argz.createSep_join filled separable behind

theorem makePathsInto_short {path : Bytes} (short : (Argz.createSep path slash).length < 3)
    (fromPath toPath : Option Bytes) : makePathsInto path fromPath toPath = (-1, fromPath, toPath) := by
  have failed := (makePaths_eq_none_iff path).mpr short
  rw [makePathsInto, failed]

theorem makePathsInto_join {p : List Bytes} {x q y : Bytes}
    (separable : Words.Separable slash (p ++ [x, q, y])) (fromPath toPath : Option Bytes) :
    makePathsInto (slash :: Words.join slash (p ++ [x, q, y])) fromPath toPath =
      (0, some (slash :: Words.join slash (p ++ [x])), some (slash :: Words.join slash (p ++ [y]))) := by
  have entries := createSep_rooted (by simp) separable
  have made : makePaths (slash :: Words.join slash (p ++ [x, q, y])) =
      some (slash :: Words.join slash (p ++ [x]), slash :: Words.join slash (p ++ [y])) := by
    rw [makePaths, entries, splitPath_append]
    simp only [Option.bind_eq_bind, Option.bind_some]
    rw [stringify_rooted (by simp), stringify_rooted (by simp)]
  rw [makePathsInto, made]

/-- The element in front of "to" stays in `from` alone, and the one behind it goes to `to`; with
    fewer than three entries, however the path is spelt, nothing is written. -/
theorem makePaths_relocates (fromPath toPath : Option Bytes) :
    (∀ p x q y, Words.Separable slash (p ++ [x, q, y]) →
      makePathsInto (slash :: Words.join slash (p ++ [x, q, y])) fromPath toPath =
        (0, some (slash :: Words.join slash (p ++ [x])), some (slash :: Words.join slash (p ++ [y])))) ∧
    (∀ components, Words.Separable slash components → components.length < 3 →
      makePathsInto (slash :: Words.join slash components) fromPath toPath = (-1, fromPath, toPath)) ∧
    ∀ path, (Argz.createSep path slash).length < 3 →
      makePathsInto path fromPath toPath = (-1, fromPath, toPath) := by
  refine ⟨?_, ?_, ?_⟩
  · intro p x q y separable
    exact makePathsInto_join separable fromPath toPath
  · intro components separable few
    apply makePathsInto_short
    by_cases filled : components = []
    · subst filled
      decide
    · rwa [createSep_rooted filled separable]
  · intro path short
    exact makePathsInto_short short fromPath toPath

theorem makePaths_relocates_interface :
    makePathsInto (slash :: Words.join slash ([str "interfaces"] ++ [str "eth0", str "to", str "eth1"]))
        none none = (0, some (str "/interfaces/eth0"), some (str "/interfaces/eth1")) ∧
    makePathsInto (slash :: Words.join slash [str "eth0", str "to"]) none none = (-1, none, none) ∧
    makePathsInto (str "eth0//to") none none = (-1, none, none) := by
  obtain ⟨split, few, short⟩ := makePaths_relocates none none
  refine ⟨?_, ?_, ?_⟩
  · exact split [str "interfaces"] (str "eth0") (str "to") (str "eth1") (by unfold Words.Separable; decide)
  · exact few [str "eth0", str "to"] (by unfold Words.Separable; decide) (by decide)
  · exact short (str "eth0//to") (by decide)

end VyattaCfg.Client
