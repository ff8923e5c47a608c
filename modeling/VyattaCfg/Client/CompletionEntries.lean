import VyattaCfg.Client.CompletionShell

namespace VyattaCfg.Client

open ByteString Shell

/-- The map that decoding a JSON object of strings leaves. -/
def StringObject.envz (help : StringObject) : Envz.Vector := Envz.addAll [] help.pairs

theorem jobjToMap_envz (help : StringObject) (onlyAllowStrings : Bool) :
    jobjToMap help.json onlyAllowStrings = some help.envz := jobjToMap_json help onlyAllowStrings

theorem name_entry_of (key value : Bytes) : Envz.name (key ++ Envz.sep :: value) = Envz.name key := by
  induction key with
  | nil => simp [Envz.name]
  | cons c key ih =>
    unfold Envz.name at ih ⊢
    by_cases separator : c = Envz.sep
    · simp [separator]
    · rw [List.cons_append, List.takeWhile_cons_of_pos (by simpa using separator),
        List.takeWhile_cons_of_pos (by simpa using separator), ih]

/-- An added entry is stored under the name part of its key, with whatever follows. -/
theorem readEntry_added (result : StdMap) (key value : Bytes) :
    readEntry result (key ++ Envz.sep :: value) =
      result.insert (Envz.name key) ((key ++ Envz.sep :: value).dropWhile (· ≠ Envz.sep)).tail := by
  unfold readEntry
  split
  · rename_i empty
    have all := List.dropWhile_eq_nil_iff.mp empty Envz.sep (by simp)
    simp at all
  · rename_i c text split
    rw [name_entry_of, split]
    rfl

theorem getElem?_insert_eq (result : StdMap) (key value k : Bytes) :
    (result.insert key value)[k]? = if key = k then some value else result[k]? := by
  rw [Std.ExtTreeMap.getElem?_insert]
  simp only [Std.LawfulEqOrd.compare_eq_iff_eq]

theorem getElem?_readEntry_other {result : StdMap} {entry k : Bytes} (other : Envz.name entry ≠ k) :
    (readEntry result entry)[k]? = result[k]? := by
  unfold readEntry
  split
  · rfl
  · rw [getElem?_insert_eq, if_neg other]

theorem getElem?_readEntry_congr {first second : StdMap} {k : Bytes} (same : first[k]? = second[k]?)
    (entry : Bytes) : (readEntry first entry)[k]? = (readEntry second entry)[k]? := by
  unfold readEntry
  split
  · exact same
  · rw [getElem?_insert_eq, getElem?_insert_eq, same]

theorem getElem?_foldl_congr {first second : StdMap} {k : Bytes} (same : first[k]? = second[k]?)
    (m : Envz.Vector) : (m.foldl readEntry first)[k]? = (m.foldl readEntry second)[k]? := by
  induction m generalizing first second with
  | nil => exact same
  | cons entry m ih => exact ih (getElem?_readEntry_congr same entry)

theorem getElem?_foldl_remove {key k : Bytes} (other : Envz.name key ≠ k) (m : Envz.Vector) (result : StdMap) :
    ((Envz.remove m key).foldl readEntry result)[k]? = (m.foldl readEntry result)[k]? := by
  induction m generalizing result with
  | nil => rfl
  | cons entry m ih =>
    by_cases named : Envz.name entry = Envz.name key
    · have gone : Envz.remove (entry :: m) key = m := List.eraseP_cons_of_pos (by simpa using named)
      rw [gone, List.foldl_cons]
      apply getElem?_foldl_congr
      rw [getElem?_readEntry_other (named.trans_ne other)]
    · have kept : Envz.remove (entry :: m) key = entry :: Envz.remove m key :=
        List.eraseP_cons_of_neg (by simpa using named)
      rw [kept, List.foldl_cons, List.foldl_cons]
      exact ih _

theorem getElem?_added (pairs : List (Bytes × Bytes)) (last : Bytes × Bytes) (k : Bytes) :
    (mapToStdMap (Envz.addAll [] (pairs ++ [last])))[k]? =
      if Envz.name last.1 = k then some ((last.1 ++ Envz.sep :: last.2).dropWhile (· ≠ Envz.sep)).tail
      else (mapToStdMap (Envz.addAll [] pairs))[k]? := by
  have run : Envz.addAll [] (pairs ++ [last]) =
      Envz.remove (Envz.addAll [] pairs) last.1 ++ [last.1 ++ Envz.sep :: last.2] := by
    simp [Envz.addAll, List.foldl_append, Envz.add]
  rw [run, mapToStdMap, List.foldl_append, List.foldl_cons, List.foldl_nil, readEntry_added, getElem?_insert_eq]
  split
  · rfl
  · rename_i other
    exact getElem?_foldl_remove other _ _

/-- The text of a key is read back where no other key has it as its name part. -/
theorem getElem?_of_alone {pairs : List (Bytes × Bytes)} {k : Bytes} (distinct : (pairs.map Prod.fst).Nodup)
    (plain : Envz.sep ∉ k) (alone : ∀ pair ∈ pairs, Envz.name pair.1 = k → pair.1 = k) :
    (mapToStdMap (Envz.addAll [] pairs))[k]? = pairs.lookup k := by
  induction pairs using List.reverseRecOn with
  | nil => rfl
  | append_singleton pairs last ih =>
    rcases last with ⟨key, value⟩
    rw [List.map_append, List.nodup_append] at distinct
    have earlier := ih distinct.1 (fun pair member => alone pair (List.mem_append_left _ member))
    rw [getElem?_added, List.lookup_append, List.lookup_singleton]
    by_cases named : Envz.name key = k
    · obtain rfl : key = k := alone (key, value) (by simp) named
      have absent : pairs.lookup key = none := by
        rw [List.lookup_eq_none_iff]
        intro pair member
        have differs := distinct.2.2 pair.1 (List.mem_map_of_mem member) key (by simp)
        simpa using Ne.symm differs
      rw [if_pos named, absent, Envz.dropWhile_entry plain]
      simp
    · have other : key ≠ k := by
        rintro rfl
        exact named (Envz.name_of_plain plain)
      rw [if_neg named, earlier]
      simp [Ne.symm other]

theorem sep_not_mem_key {m : Envz.Vector} {pair : Bytes × Bytes} (member : pair ∈ (mapToStdMap m).toList) :
    Envz.sep ∉ pair.1 := by
  have stored := Std.ExtTreeMap.mem_toList_iff_getElem?_eq_some.mp member
  rcases getElem?_foldl_readEntry stored with plain | empty
  · exact plain
  · simp at empty

theorem lookup_eq_some_iff_mem {pairs : List (Bytes × Bytes)} (distinct : (pairs.map Prod.fst).Nodup)
    (key value : Bytes) : pairs.lookup key = some value ↔ (key, value) ∈ pairs := by
  induction pairs with
  | nil => simp
  | cons pair pairs ih =>
    rcases pair with ⟨first, text⟩
    rw [List.map_cons, List.nodup_cons] at distinct
    rw [List.lookup_cons, List.mem_cons, ← ih distinct.2, Prod.mk.injEq]
    by_cases same : key = first
    · subst same
      have absent : pairs.lookup key = none := by
        rw [List.lookup_eq_none_iff]
        intro pair member
        have shared : pair.1 ∈ pairs.map Prod.fst := List.mem_map_of_mem member
        have differs : key ≠ pair.1 := fun h => distinct.1 (h ▸ shared)
        simpa using differs
      simp [absent, eq_comm]
    · have unequal : (key == first) = false := by simpa using same
      simp [unequal, same]

section Completion

variable (uri : UriParser) (configd : Configd)

/-- The components between the command and the last one. -/
def pathSoFar (comps : List Bytes) : Cpath :=
  comps.foldl (fun (path : Cpath) comp => path.push (urlUnescape uri comp)) []

/-- The path so far is the root, a typeless node or a tag value: names come next. -/
def namesNext (pcomps : Cpath) : Bool :=
  let t := Ctemplate.get configd (pcomps.toPathString uri)
  pcomps = [] || t.any Ctemplate.isTypeless || t.any Ctemplate.isValue

/-- The help that the template of a value gives; there is none for names. -/
def givenHelp (pcomps : Cpath) : Bytes :=
  if namesNext uri configd pcomps then []
  else ((Ctemplate.get configd (pcomps.toPathString uri)).bind Ctemplate.compHelp).getD []

/-- No output of `allowed` is appended to the values. -/
def NoAllowed (cmd : Bytes) (pcomps : Cpath) : Prop :=
  existsOnly cmd ∨ namesNext uri configd pcomps ∨
    ∀ t ∈ Ctemplate.get configd (pcomps.toPathString uri), t.getAllowed = []

/-- Names are selected by the last component, values are all. -/
def Selected (pcomps : Cpath) (lastComp key : Bytes) : Prop := namesNext uri configd pcomps → lastComp <+: key

/-- In the order of their keys, the entries whose keys are selected. -/
structure Selects (help : StringObject) (select : Bytes → Prop) (selected : List (Bytes × Bytes)) : Prop where
  sorted : selected.Pairwise fun a b => compare a.1 b.1 = .lt
  entries : ∀ pair, pair ∈ selected ↔ pair ∈ help.pairs ∧ select pair.1

variable {uri configd}

theorem completedTemplate_cases {cmd : Bytes} {pcomps : Cpath} {t : Option Ctemplate}
    (found : completedTemplate uri configd cmd pcomps = some t) :
    (pcomps = [] ∧ t = none) ∨
      (pcomps ≠ [] ∧ t.isSome ∧ Ctemplate.get configd (pcomps.toPathString uri) = t) := by
  by_cases inside : pcomps = []
  · subst inside
    rw [completedTemplate_root] at found
    exact .inl ⟨rfl, (Option.some.inj found).symm⟩
  · right
    rw [completedTemplate_inside uri configd inside] at found
    obtain ⟨template, got, kept⟩ := Option.bind_eq_some_iff.mp found
    split at kept
    · cases kept
    · split at kept
      · cases kept
      · rw [← Option.some.inj kept]
        exact ⟨inside, rfl, got⟩

/-- Whether the template is left out of account is decided by what comes next. -/
theorem filter_template {cmd : Bytes} {pcomps : Cpath} {t : Option Ctemplate}
    (found : completedTemplate uri configd cmd pcomps = some t) :
    (t.filter fun t => !(t.isTypeless || t.isValue)) = if namesNext uri configd pcomps then none else t := by
  rcases completedTemplate_cases found with ⟨rfl, rfl⟩ | ⟨inside, present, got⟩
  · rfl
  · obtain ⟨template, rfl⟩ := Option.isSome_iff_exists.mp present
    cases typeless : template.isTypeless <;> cases value : template.isValue <;>
      simp [namesNext, inside, got, typeless, value]

/-- The entries that the code collects for a help map. -/
theorem completionEnv_collected {cmd : Bytes} {pcomps : Cpath} {lastComp env : Bytes} {m : Envz.Vector}
    (served : configd.getHelp (!existsOnly cmd) (pcomps.toPathString uri) = some m)
    (unallowed : NoAllowed uri configd cmd pcomps)
    (returned : completionEnv uri configd cmd pcomps lastComp = some env) :
    ∃ collected : List (Bytes × Bytes),
      collected.Sublist (mapToStdMap m).toList ∧
        (∀ pair, pair ∈ collected ↔ pair ∈ (mapToStdMap m).toList ∧ Selected uri configd pcomps lastComp pair.1) ∧
        env = environmentString (collected.map Prod.fst) [] (!namesNext uri configd pcomps)
          (shellEscapeSquotes (givenHelp uri configd pcomps)) collected := by
  cases found : completedTemplate uri configd cmd pcomps with
  | none =>
    rw [completionEnv_of_no_template found] at returned
    cases returned
  | some t =>
    have filtered := filter_template found
    unfold completionEnv at returned
    simp only [found, served, filtered, Option.bind_eq_bind, Option.bind_some] at returned
    by_cases names : namesNext uri configd pcomps
    · rw [if_pos names] at returned
      dsimp only at returned
      split at returned
      · cases returned
      · refine ⟨(mapToStdMap m).toList.filter fun pair => lastComp.isPrefixOf pair.1, List.filter_sublist, ?_, ?_⟩
        · intro pair
          simp [Selected, names]
        · rw [← Option.some.inj returned]
          simp [names, givenHelp, shellEscapeSquotes]
    · rw [if_neg names] at returned
      rcases completedTemplate_cases found with ⟨rfl, rfl⟩ | ⟨inside, present, got⟩
      · exact absurd rfl names
      · obtain ⟨template, rfl⟩ := Option.isSome_iff_exists.mp present
        have appended : (if existsOnly cmd then [] else template.getAllowed) = [] := by
          rcases unallowed with exists_only | names_next | empty
          · rw [if_pos exists_only]
          · exact absurd names_next names
          · rw [empty template got]
            split <;> rfl
        refine ⟨(mapToStdMap m).toList, List.Sublist.refl _, ?_, ?_⟩
        · intro pair
          simp [Selected, names]
        · rw [← Option.some.inj returned, appended]
          simp [names, givenHelp, got]

/-- The collected entries are those of the help map where no selected key has a separator: what
    else has a key as its name part would be selected with it. -/
theorem selects_of_plain {help : StringObject} {pcomps : Cpath} {lastComp : Bytes}
    {collected : List (Bytes × Bytes)} (ordered : collected.Sublist (mapToStdMap help.envz).toList)
    (members : ∀ pair, pair ∈ collected ↔
      pair ∈ (mapToStdMap help.envz).toList ∧ Selected uri configd pcomps lastComp pair.1)
    (plain : ∀ pair ∈ help.pairs, Selected uri configd pcomps lastComp pair.1 → Envz.sep ∉ pair.1) :
    Selects help (Selected uri configd pcomps lastComp) collected := by
  have read : ∀ key, Envz.sep ∉ key → Selected uri configd pcomps lastComp key →
      (mapToStdMap help.envz)[key]? = help.pairs.lookup key := by
    intro key keyPlain selected
    apply getElem?_of_alone help.distinct keyPlain
    intro pair member named
    have longer : key <+: pair.1 := by
      rw [← named]
      exact List.takeWhile_prefix _
    have chosen : Selected uri configd pcomps lastComp pair.1 := fun names => (selected names).trans longer
    rw [← named, Envz.name_of_plain (plain pair member chosen)]
  constructor
  · exact Std.ExtTreeMap.ordered_keys_toList.sublist ordered
  · intro pair
    rw [members, Std.ExtTreeMap.mem_toList_iff_getElem?_eq_some]
    constructor
    · rintro ⟨stored, selected⟩
      have keyPlain := sep_not_mem_key (Std.ExtTreeMap.mem_toList_iff_getElem?_eq_some.mpr stored)
      rw [read pair.1 keyPlain selected, lookup_eq_some_iff_mem help.distinct] at stored
      exact ⟨stored, selected⟩
    · rintro ⟨member, selected⟩
      rw [read pair.1 (plain pair member selected) selected, lookup_eq_some_iff_mem help.distinct]
      exact ⟨member, selected⟩

theorem getCompletionEnv_split {path cmd lastComp : Bytes} {comps : List Bytes}
    (split : Argz.createSep path slash = cmd :: (comps ++ [lastComp])) :
    getCompletionEnv uri configd path = .ok (completionEnv uri configd cmd (pathSoFar uri comps) lastComp) := by
  obtain ⟨comp, rest, same⟩ := List.exists_cons_of_ne_nil (List.append_ne_nil_of_right_ne_nil comps
    (List.cons_ne_nil lastComp []))
  have front : (comp :: rest).dropLast = comps := by rw [← same, List.dropLast_concat]
  have back : (comp :: rest).getLast (List.cons_ne_nil comp rest) = lastComp := by simp [← same]
  rw [same] at split
  rw [getCompletionEnv, split]
  simp only [front, back, pathSoFar]

/-- The environment sets the variables to the selected entries, exactly when none of their keys
    holds the separator at which the map is taken apart. -/
theorem completion_env_sets_iff (uri : UriParser) (configd : Configd) (help : StringObject) (onlyAllowStrings : Bool)
    {path cmd lastComp env : Bytes} {comps : List Bytes}
    (split : Argz.createSep path slash = cmd :: (comps ++ [lastComp]))
    (served : configd.getHelp (!existsOnly cmd) ((pathSoFar uri comps).toPathString uri) =
      jobjToMap help.json onlyAllowStrings)
    (unallowed : NoAllowed uri configd cmd (pathSoFar uri comps))
    (returned : getCompletionEnv uri configd path = .ok (some env)) :
    (∃ selected, Selects help (Selected uri configd (pathSoFar uri comps) lastComp) selected ∧
      evalAssignments env = some (completionVariables selected (!namesNext uri configd (pathSoFar uri comps))
        (givenHelp uri configd (pathSoFar uri comps)))) ↔
      ∀ pair ∈ help.pairs, Selected uri configd (pathSoFar uri comps) lastComp pair.1 → Envz.sep ∉ pair.1 := by
  rw [getCompletionEnv_split split] at returned
  rw [jobjToMap_envz] at served
  obtain ⟨collected, ordered, members, rfl⟩ :=
    completionEnv_collected served unallowed (Except.ok.inj returned)
  rw [evalAssignments_environment]
  constructor
  · rintro ⟨selected, selects, read⟩ pair member chosen
    have values : collected.map Prod.fst = selected.map Prod.fst := by
      simpa [completionVariables] using (List.cons.inj (Option.some.inj read)).1
    have inside : pair.1 ∈ collected.map Prod.fst := by
      rw [values]
      exact List.mem_map_of_mem ((selects.entries pair).mpr ⟨member, chosen⟩)
    obtain ⟨stored, found, same⟩ := List.mem_map.mp inside
    rw [← same]
    exact sep_not_mem_key ((members stored).mp found).1
  · intro plain
    exact ⟨collected, selects_of_plain ordered members plain, rfl⟩

end Completion

/-- Every node is a tag node, with no values allowed beyond those in its help. -/
def tagConfigd (help : StringObject) : Configd where
  nodeGet _ _ := none
  nodeExists _ _ := 0
  nodeGetStatus _ _ := -1
  nodeGetType _ := -1
  tmplGet _ := some [str "type=txt", str "tag=1", str "comp_help=a user's name"]
  tmplGetAllowed _ := .given []
  getHelp _ _ := jobjToMap help.json true
  set _ := .refused none
  sessExists := 1

def quotesObject : StringObject where
  pairs := [(str "o'b", str " it's o'b "), (str "<txt>", str "a name")]
  distinct := by decide
  nulFree := by decide

theorem completion_env_sets_quotes :
    (∃ selected, Selects quotesObject
        (Selected uriparser (tagConfigd quotesObject) (pathSoFar uriparser [str "user"]) []) selected ∧
      evalAssignments (environmentString [str "<txt>", str "o'b"] [] true (shellEscapeSquotes (str "a user's name"))
        [(str "<txt>", str "a name"), (str "o'b", str " it's o'b ")]) =
        some (completionVariables selected
          (!namesNext uriparser (tagConfigd quotesObject) (pathSoFar uriparser [str "user"]))
          (givenHelp uriparser (tagConfigd quotesObject) (pathSoFar uriparser [str "user"])))) ↔
      ∀ pair ∈ quotesObject.pairs,
        Selected uriparser (tagConfigd quotesObject) (pathSoFar uriparser [str "user"]) [] pair.1 →
          Envz.sep ∉ pair.1 := by
  have split : Argz.createSep (str "set/user/") slash = str "set" :: ([str "user"] ++ [[]]) := by decide +kernel
  have unallowed : NoAllowed uriparser (tagConfigd quotesObject) (str "set") (pathSoFar uriparser [str "user"]) :=
    .inr (.inr (by decide +kernel))
  exact completion_env_sets_iff uriparser (tagConfigd quotesObject) quotesObject true split rfl unallowed
    (by decide +kernel)

/-- A value with a separator, offered with its help. -/
def separatorObject : StringObject where
  pairs := [(str "a=1", str "one")]
  distinct := by decide
  nulFree := by decide

theorem completion_env_separator :
    getCompletionEnv uriparser (tagConfigd separatorObject) (str "set/user/") =
        .ok (some (environmentString [str "a"] [] true (shellEscapeSquotes (str "a user's name"))
          [(str "a", str "1=one")])) ∧
      ¬ ∃ selected, Selects separatorObject
          (Selected uriparser (tagConfigd separatorObject) (pathSoFar uriparser [str "user"]) []) selected ∧
        evalAssignments (environmentString [str "a"] [] true (shellEscapeSquotes (str "a user's name"))
          [(str "a", str "1=one")]) =
          some (completionVariables selected true (str "a user's name")) := by
  refine ⟨by decide +kernel, ?_⟩
  rintro ⟨selected, selects, read⟩
  have stored : (str "a=1", str "one") ∈ selected := by
    rw [selects.entries]
    exact ⟨List.mem_singleton_self _, fun _ => List.nil_prefix⟩
  have evaluated : evalAssignments (environmentString [str "a"] [] true (shellEscapeSquotes (str "a user's name"))
      [(str "a", str "1=one")]) =
        some (completionVariables [(str "a", str "1=one")] true (str "a user's name")) :=
    evalAssignments_environment [(str "a", str "1=one")] true (str "a user's name")
  rw [evaluated] at read
  have values : [str "a"] = selected.map Prod.fst := by
    simpa [completionVariables] using (List.cons.inj (Option.some.inj read)).1
  have inside : str "a=1" ∈ selected.map Prod.fst := List.mem_map_of_mem stored
  rw [← values] at inside
  exact absurd inside (by decide)

end VyattaCfg.Client
