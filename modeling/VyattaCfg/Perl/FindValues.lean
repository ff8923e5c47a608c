import VyattaCfg.Perl.ApplySingleQuote
import VyattaCfg.Perl.CompareValueLists
import VyattaCfg.Library.Words
import Mathlib.Logic.Function.Iterate

namespace VyattaCfg.Perl

open ByteString Shell

/-- What a round leaves in `$_`, which is the caller's own element. -/
def quotedInPlace (component : Bytes) : Bytes := escape (stripped component)

/-- `applySingleQuote` with its arguments as they are afterwards. -/
def applySingleQuoteIn (components : List Bytes) : List Bytes × List Bytes :=
  (applySingleQuote components, components.map quotedInPlace)

/-- The components of a command and its rank. -/
abbrev Command := List Bytes × Nat

/-- The variables of a loop that pushes commands. -/
structure Pushing where
  activePath : List Bytes
  values : List Bytes
  list : List Command

/-- `my @plist = applySingleQuote(@active_path, $_);` and the `push`, for the value at this index. -/
def pushQuoted (state : Pushing) (i : Nat) : Pushing :=
  let (plist, arguments) := applySingleQuoteIn (state.activePath ++ [state.values.getD i []])
  { activePath := arguments.take state.activePath.length
    values := state.values.set i (arguments.getLastD [])
    list := state.list ++ [(plist, 0)] }

/-- The loop after so many of its rounds. -/
def pushRounds (activePath values : List Bytes) (list : List Command) (rounds : Nat) : Pushing :=
  (List.range rounds).foldl pushQuoted ⟨activePath, values, list⟩

def pushEach (activePath values : List Bytes) (list : List Command) : Pushing :=
  pushRounds activePath values list values.length

/-- The answers of the active configuration at a level. -/
structure ActiveCfg where
  parseTmpl : Bytes → Bool × Bool
  returnOrigValues : Bytes → List Bytes
  returnOrigValue : Bytes → Option Bytes

section Find

variable (activeCfg : ActiveCfg) (nodeOrder : IndexHash) (newRef activePath : List Bytes) (list : List Command)

def level : Bytes := Words.join space activePath

/-- The keys of the hash, in any order, by the order in which the file has them. -/
def getSortedMultiValues : List Bytes :=
  let list := newRef.map fun value => (value, nodeOrder.getD (level activePath ++ [space] ++ value) 0)
  (list.mergeSort fun a b => a.2 ≤ b.2).map Prod.fst

/-- `/^"(.*)"$/ ? $1 : $_` -/
def undquoted (value : Bytes) : Bytes := (enclosed dquote value).getD value

/-- `s/^"(.*)"$/$1/`, which keeps a newline that ends the value. -/
def undquotedInPlace (value : Bytes) : Bytes :=
  match enclosed dquote value with
  | some inside => if value.getLast? = some newline then inside ++ [newline] else inside
  | none => value

def compared (isText : Bool) : CompHash :=
  let nvals := getSortedMultiValues nodeOrder newRef activePath
  let nvals := if isText then nvals.map undquoted else nvals
  compareValueLists (activeCfg.returnOrigValues (level activePath)) nvals

def findDeletedValues : List Command :=
  let (isMulti, isText) := activeCfg.parseTmpl (level activePath)
  if isMulti then (pushEach activePath (compared activeCfg nodeOrder newRef activePath isText).deleted list).list
  else list

/-- The value of a node that has one; the first key that the hash gives. -/
def newValue (isText : Bool) : Bytes :=
  let nval := newRef.headD []
  if isText then undquotedInPlace nval else nval

def findSetValues : List Command :=
  let (isMulti, isText) := activeCfg.parseTmpl (level activePath)
  if isMulti then (pushEach activePath (compared activeCfg nodeOrder newRef activePath isText).added list).list
  else
    let nval := newValue newRef isText
    if activeCfg.returnOrigValue (level activePath) = some nval then list
    else list ++ [(applySingleQuote (activePath ++ [nval]), 0)]

/-- The values for which `findDeletedValues` pushes a command. -/
def deletedValues : List Bytes :=
  let (isMulti, isText) := activeCfg.parseTmpl (level activePath)
  if isMulti then (compared activeCfg nodeOrder newRef activePath isText).deleted else []

/-- The values for which `findSetValues` pushes a command. -/
def setValues : List Bytes :=
  let (isMulti, isText) := activeCfg.parseTmpl (level activePath)
  if isMulti then (compared activeCfg nodeOrder newRef activePath isText).added
  else if activeCfg.returnOrigValue (level activePath) = some (newValue newRef isText) then []
  else [newValue newRef isText]

end Find

/-- Every command begins with the path that was given, quoted. -/
def CarriesPath (activePath values : List Bytes) : Prop :=
  ∀ list, ∃ commands, (pushEach activePath values list).list = list ++ commands ∧ commands.length = values.length ∧
    ∀ command ∈ commands, applySingleQuote activePath <+: command.1

/-- In front of each round the path and the values to come are those that were given. -/
def KeepsArguments (activePath values : List Bytes) : Prop :=
  ∀ i < values.length, ∀ list,
    (pushRounds activePath values list i).activePath = activePath ∧
      (pushRounds activePath values list i).values.drop i = values.drop i

section Rounds

variable {activePath values : List Bytes} {list : List Command}

theorem pushQuoted_activePath (state : Pushing) (i : Nat) :
    (pushQuoted state i).activePath = state.activePath.map quotedInPlace := by
  simp [pushQuoted, applySingleQuoteIn]

theorem pushQuoted_values (state : Pushing) (i : Nat) :
    (pushQuoted state i).values = state.values.set i (quotedInPlace (state.values.getD i [])) := by
  simp [pushQuoted, applySingleQuoteIn]

theorem pushQuoted_list (state : Pushing) (i : Nat) : (pushQuoted state i).list =
    state.list ++ [(applySingleQuote state.activePath ++ [singleQuote (state.values.getD i [])], 0)] := by
  simp [pushQuoted, applySingleQuoteIn, applySingleQuote]

theorem pushRounds_succ (i : Nat) : pushRounds activePath values list (i + 1) =
    pushQuoted (pushRounds activePath values list i) i := by
  rw [pushRounds, List.range_succ, List.foldl_append]
  rfl

theorem pushRounds_activePath (i : Nat) :
    (pushRounds activePath values list i).activePath = activePath.map quotedInPlace^[i] := by
  induction i with
  | zero => exact (List.map_id activePath).symm
  | succ i ih =>
    rw [pushRounds_succ, pushQuoted_activePath, ih, List.map_map, ← Function.iterate_succ']

/-- A value is written back when it has been used. -/
theorem pushRounds_values (i : Nat) : (pushRounds activePath values list i).values.drop i = values.drop i := by
  induction i with
  | zero => rfl
  | succ i ih =>
    rw [pushRounds_succ, pushQuoted_values, List.drop_set_of_lt (Nat.lt_succ_self i)]
    have later := congrArg (List.drop 1) ih
    rwa [List.drop_drop, List.drop_drop] at later

/-- The command of a round, from the path as the rounds before it have left it. -/
def commandAt (activePath values : List Bytes) (i : Nat) : Command :=
  (applySingleQuote (activePath.map quotedInPlace^[i]) ++ [singleQuote (values.getD i [])], 0)

theorem pushRounds_list (i : Nat) : (pushRounds activePath values list i).list =
    list ++ (List.range i).map (commandAt activePath values) := by
  induction i with
  | zero => exact (List.append_nil list).symm
  | succ i ih =>
    have later : (pushRounds activePath values list i).values.drop i = values.drop i := pushRounds_values i
    have value : (pushRounds activePath values list i).values.getD i [] = values.getD i [] := by
      simpa using congrArg (List.getD · 0 []) later
    rw [pushRounds_succ, pushQuoted_list, ih, pushRounds_activePath, value, List.range_succ, List.map_append,
      List.append_assoc]
    rfl

theorem pushEach_list : (pushEach activePath values list).list =
    list ++ (List.range values.length).map (commandAt activePath values) := pushRounds_list values.length

end Rounds

section InPlace

theorem quotedInPlace_of_not_mem {s : Bytes} (free : squote ∉ s) : quotedInPlace s = s := by
  rw [quotedInPlace, stripped_of_not_mem free, escape_of_not_mem free]

/-- A component stays as it is exactly if it holds no single quote. -/
theorem quotedInPlace_eq_self_iff {component : Bytes} : quotedInPlace component = component ↔ squote ∉ component := by
  refine ⟨fun same => ?_, quotedInPlace_of_not_mem⟩
  have quotes := congrArg (List.count squote) same
  rw [quotedInPlace, count_escape] at quotes
  cases found : enclosed squote component with
  | none =>
    rw [stripped, found, Option.getD_none] at quotes
    rw [← List.count_eq_zero]
    omega
  | some m =>
    -- The two quotes that went are the two that one escaped quote adds, but it adds a backslash as well.
    rw [stripped, found, Option.getD_some, count_enclosed newline_ne_squote.symm found] at quotes
    have size := congrArg List.length same
    rw [quotedInPlace, stripped, found, Option.getD_some, length_escape] at size
    have line : newline ∉ component := by
      have inert : newline ≠ backslash := by decide
      rw [← same, quotedInPlace, stripped, found, Option.getD_some, mem_escape m inert]
      exact (enclosed_cases found).1
    rcases (enclosed_cases found).2 with text | text
    · simp [text] at size
      omega
    · simp [text] at line

/-- The single quotes of a quoted component: three for each of the text's, and two around it
    unless it looked quoted once escaped. -/
theorem count_singleQuote (component : Bytes) :
    (singleQuote component).count squote =
      3 * (stripped component).count squote + if (enclosed squote (escape (stripped component))).isSome then 0 else 2 := by
  rw [singleQuote]
  split
  · exact count_escape _
  · rw [← count_escape]
    cases found : enclosed dquote (escape (stripped component)) with
    | none => simp [squoted]
    | some inside =>
      rw [count_enclosed_other dquote_ne_squote.symm newline_ne_squote.symm found]
      simp [squoted]

/-- Behind the first quote of an escaped text stands a backslash, so what is between its first
    and its last quote does not look quoted again. -/
theorem enclosed_escape_enclosed {s m : Bytes} (found : enclosed squote (escape s) = some m) :
    enclosed squote (escape m) = none := by
  have inert : backslash ≠ squote := by decide
  have text := (enclosed_cases found).2
  cases s with
  | nil => simp at text
  | cons c t =>
    by_cases quote : c = squote
    · cases m with
      | nil => rcases text with text | text <;> simp [escape_cons, quote, inert] at text
      | cons d k =>
        have second : d = backslash := by
          rcases text with text | text <;> simp [escape_cons, quote] at text <;> exact text.1.symm
        cases again : enclosed squote (escape (d :: k)) with
        | none => rfl
        | some inner =>
          rcases (enclosed_cases again).2 with text | text <;> simp [escape_cons, second, inert] at text
    · rcases text with text | text <;> simp [escape_cons, quote] at text

theorem singleQuote_quotedInPlace_iff {component : Bytes} :
    singleQuote (quotedInPlace component) = singleQuote component ↔ squote ∉ stripped component := by
  constructor
  · intro same quoted
    have quotes := congrArg (List.count squote) same
    rw [count_singleQuote, count_singleQuote, quotedInPlace] at quotes
    have some_ : 0 < (stripped component).count squote := List.count_pos_iff.mpr quoted
    cases looks : enclosed squote (escape (stripped component)) with
    | none =>
      rw [stripped, looks, Option.getD_none, count_escape] at quotes
      simp at quotes
      split at quotes <;> omega
    | some m =>
      have inside := count_enclosed newline_ne_squote.symm looks
      rw [count_escape] at inside
      rw [stripped, looks, Option.getD_some, enclosed_escape_enclosed looks] at quotes
      simp at quotes
      omega
  · intro free
    rw [quotedInPlace, escape_of_not_mem free]
    have again := stripped_of_not_mem free
    rw [singleQuote, singleQuote, again]

theorem singleQuote_iterate_quotedInPlace {component : Bytes} (free : squote ∉ stripped component) (i : Nat) :
    singleQuote (quotedInPlace^[i] component) = singleQuote component := by
  cases i with
  | zero => rfl
  | succ i =>
    have first : quotedInPlace component = stripped component := escape_of_not_mem free
    rw [Function.iterate_succ_apply, first, Function.iterate_fixed (quotedInPlace_of_not_mem free), ← first,
      singleQuote_quotedInPlace_iff.mpr free]

end InPlace

section Prefix

variable {activePath values : List Bytes}

theorem prefix_commandAt_iff (i : Nat) : applySingleQuote activePath <+: (commandAt activePath values i).1 ↔
    ∀ component ∈ activePath, singleQuote (quotedInPlace^[i] component) = singleQuote component := by
  have size : (applySingleQuote (activePath.map quotedInPlace^[i])).length = (applySingleQuote activePath).length := by
    simp [applySingleQuote]
  rw [commandAt, List.prefix_iff_eq_take, List.take_left' size, eq_comm]
  simp [applySingleQuote]

theorem carriesPath_iff_commandAt : CarriesPath activePath values ↔
    ∀ i < values.length, applySingleQuote activePath <+: (commandAt activePath values i).1 := by
  constructor
  · intro carries i inside
    obtain ⟨commands, pushed, -, carried⟩ := carries []
    rw [pushEach_list] at pushed
    apply carried
    rw [← List.append_cancel_left pushed]
    exact List.mem_map_of_mem (List.mem_range.mpr inside)
  · intro carried list
    refine ⟨_, pushEach_list, by simp, fun command member => ?_⟩
    obtain ⟨i, inside, rfl⟩ := List.mem_map.mp member
    exact carried i (List.mem_range.mp inside)

theorem carriesPath_iff : CarriesPath activePath values ↔
    values.length ≤ 1 ∨ ∀ component ∈ activePath, squote ∉ stripped component := by
  rw [carriesPath_iff_commandAt]
  simp only [prefix_commandAt_iff]
  constructor
  · intro carried
    by_cases few : values.length ≤ 1
    · exact .inl few
    · right
      intro component member
      exact singleQuote_quotedInPlace_iff.mp (carried 1 (Nat.lt_of_not_le few) component member)
  · intro condition i inside component member
    rcases condition with few | free
    · obtain rfl : i = 0 := by omega
      rfl
    · exact singleQuote_iterate_quotedInPlace (free component member) i

theorem keepsArguments_iff : KeepsArguments activePath values ↔
    values.length ≤ 1 ∨ ∀ component ∈ activePath, squote ∉ component := by
  constructor
  · intro keeps
    by_cases few : values.length ≤ 1
    · exact .inl few
    · right
      intro component member
      have path := (keeps 1 (Nat.lt_of_not_le few) []).1
      rw [pushRounds_activePath, Function.iterate_one] at path
      have same := List.map_inj_left.mp (path.trans (List.map_id activePath).symm) component member
      exact quotedInPlace_eq_self_iff.mp same
  · intro condition i inside list
    refine ⟨?_, pushRounds_values i⟩
    rw [pushRounds_activePath]
    rcases condition with few | free
    · obtain rfl : i = 0 := by omega
      exact List.map_id activePath
    · have same : ∀ component ∈ activePath, quotedInPlace^[i] component = id component := by
        intro component member
        exact Function.iterate_fixed (quotedInPlace_of_not_mem (free component member)) i
      rw [List.map_congr_left same, List.map_id]

theorem findDeletedValues_eq (activeCfg : ActiveCfg) (nodeOrder : IndexHash) (newRef activePath : List Bytes)
    (list : List Command) : findDeletedValues activeCfg nodeOrder newRef activePath list =
      (pushEach activePath (deletedValues activeCfg nodeOrder newRef activePath) list).list := by
  rw [findDeletedValues, deletedValues]
  obtain ⟨isMulti, isText⟩ := activeCfg.parseTmpl (level activePath)
  dsimp only
  split
  · rfl
  · rfl

theorem findSetValues_eq (activeCfg : ActiveCfg) (nodeOrder : IndexHash) (newRef activePath : List Bytes)
    (list : List Command) : findSetValues activeCfg nodeOrder newRef activePath list =
      (pushEach activePath (setValues activeCfg nodeOrder newRef activePath) list).list := by
  rw [findSetValues, setValues]
  obtain ⟨isMulti, isText⟩ := activeCfg.parseTmpl (level activePath)
  dsimp only
  split
  · rfl
  · split
    · rfl
    · simp [pushEach_list, commandAt, applySingleQuote]

/-- Both functions push the commands of such a loop, and in it every command carries the quoted
    path, with the path and the values to come as they were, unless several values meet a path with a
    single quote. The prefix alone bears quotes that only enclose a component. -/
theorem quoting_keeps_path_iff (activePath : List Bytes) :
    (∀ activeCfg nodeOrder newRef list,
      findDeletedValues activeCfg nodeOrder newRef activePath list =
        (pushEach activePath (deletedValues activeCfg nodeOrder newRef activePath) list).list ∧
      findSetValues activeCfg nodeOrder newRef activePath list =
        (pushEach activePath (setValues activeCfg nodeOrder newRef activePath) list).list) ∧
    ∀ values,
      (CarriesPath activePath values ∧ KeepsArguments activePath values ↔
        values.length ≤ 1 ∨ ∀ component ∈ activePath, squote ∉ component) ∧
      (CarriesPath activePath values ↔
        values.length ≤ 1 ∨ ∀ component ∈ activePath, squote ∉ stripped component) := by
  refine ⟨fun _ _ _ _ => ⟨findDeletedValues_eq .., findSetValues_eq ..⟩, fun values => ⟨?_, carriesPath_iff⟩⟩
  rw [carriesPath_iff, keepsArguments_iff]
  constructor
  · exact And.right
  · intro condition
    refine ⟨condition.imp_right fun free component member => ?_, condition⟩
    rw [stripped_of_not_mem (free component member)]
    exact free component member

end Prefix

/-- A node with the values `a` and `b`. -/
def twoValues : ActiveCfg where
  parseTmpl _ := (true, false)
  returnOrigValues _ := [str "a", str "b"]
  returnOrigValue _ := none

theorem deletedValues_twoValues (activePath : List Bytes) :
    deletedValues twoValues ∅ [str "c"] activePath = [str "a", str "b"] := by
  have sorted : getSortedMultiValues ∅ [str "c"] activePath = [str "c"] := by
    simp [getSortedMultiValues]
  have short : [str "a", str "b"].length < 0x80000000 := by decide
  show (compareValueLists [str "a", str "b"] (getSortedMultiValues ∅ [str "c"] activePath)).deleted = _
  rw [sorted, compareValueLists_eq (by decide) (by decide) short]
  decide

theorem quoting_changes_path :
    findDeletedValues twoValues ∅ [str "c"] [str "user", str "o'brien", str "group"] [] =
      [([str "'user'", str "'o'\\''brien'", str "'group'", str "'a'"], 0),
       ([str "'user'", str "'o'\\''\\'\\'''\\''brien'", str "'group'", str "'b'"], 0)] ∧
    ¬ (CarriesPath [str "user", str "o'brien", str "group"] [str "a", str "b"] ∧
        KeepsArguments [str "user", str "o'brien", str "group"] [str "a", str "b"]) := by
  constructor
  · rw [findDeletedValues_eq, deletedValues_twoValues, pushEach_list]
    decide
  · rw [carriesPath_iff]
    exact fun both => absurd both.1 (by decide)

end VyattaCfg.Perl
