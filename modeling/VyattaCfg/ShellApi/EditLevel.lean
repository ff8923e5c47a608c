import VyattaCfg.Client.Calls
import VyattaCfg.Library.ShellWords
import Mathlib.Data.List.Forall2

namespace VyattaCfg.ShellApi

open ByteString VyattaCfg.Client Shell

/-- The function of vyatta-util that makes a path of arguments: each is escaped, and they are
    joined, with or without a slash at the front. -/
structure PathUtil where
  uri : UriParser
  argsToPath : Argz.Vector → Bytes
  front : Bytes
  front_eq : front = [] ∨ front = [slash]
  argsToPath_eq : ∀ args, argsToPath args = front ++ Words.join slash (args.map uri.escape)

/-- The arguments of an operation that uses the edit level, after `main` has put the level in
    front of them, or behind the first of them. There are none where `argz_insert` is given a
    NULL entry. -/
def editArgs (insertEdit : Bool) (level : Option Bytes) (args : Argz.Vector) : Option Argz.Vector :=
  let epath := (level.map fun buf => Argz.createSep buf slash).getD []
  match epath with
  | [] | [] :: _ => some args
  | _ =>
    if insertEdit then
      match args with
      | [] => none
      | command :: rest => some (command :: epath ++ rest)
    else some (epath ++ args)

def editPathSent (util : PathUtil) (insertEdit : Bool) (level : Option Bytes) (args : Argz.Vector) : Option Bytes :=
  (editArgs insertEdit level args).map util.argsToPath

/-- `VYATTA_EDIT_LEVEL` once the shell has evaluated the text. -/
def editLevelOf (printed : Bytes) : Bytes :=
  (printed.drop (str "export VYATTA_EDIT_LEVEL='").length).takeWhile (· ≠ squote)

/-- An invocation of `getEditEnv` that succeeds, whatever configd and the session are. -/
inductive EditStep (util : PathUtil) (level : Option Bytes) (args : Argz.Vector) : Option Bytes → Prop where
  | printed {utf8 : Bytes → Bool} {conn after : Conn} {x y z : Exchange} {error error' : Option ConfigdError}
    {cpath buf : Bytes} : args ≠ [] → editPathSent util false level args = some cpath →
    configdEditGetEnv utf8 conn cpath x y z error = .ok (after, .str (some buf), error') →
    EditStep util level args (some (editLevelOf buf))

inductive EditRun (util : PathUtil) : Option Bytes → List Argz.Vector → Option Bytes → Prop where
  | nil (level : Option Bytes) : EditRun util level [] level
  | cons {level next last : Option Bytes} {args : Argz.Vector} {lists : List Argz.Vector} :
    EditStep util level args next → EditRun util next lists last → EditRun util level (args :: lists) last

section Levels

theorem editLevelOf_editEnv {cpath : Bytes} (plain : squote ∉ cpath) : editLevelOf (editEnv cpath) = cpath := by
  have front : editEnv cpath = str "export VYATTA_EDIT_LEVEL='" ++ (cpath ++ squote :: (str "; export PS1='[edit " ++
      (Argz.stringify (Argz.createSep cpath slash) (ch ' ') ++ str "]\\n\\u@\\h# ';"))) := by
    simp only [editEnv, List.append_assoc]
    rfl
  have inside : ∀ b ∈ cpath, decide (b ≠ squote) = true := by
    intro b member
    have differs : b ≠ squote := fun quote => plain (quote ▸ member)
    simpa using differs
  rw [editLevelOf, front, List.drop_left, List.takeWhile_append_of_pos inside, List.takeWhile_cons_of_neg (by simp),
    List.append_nil]

theorem editPath_success {utf8 : Bytes → Bool} {conn after : Conn} {y z : Exchange}
    {error error' : Option ConfigdError} {cpath buf : Bytes}
    (success : editPath utf8 conn cpath y z error = .ok (after, .str (some buf), error')) : buf = editEnv cpath := by
  unfold editPath at success
  cases asked : (configdNodeExists conn .auto cpath).run utf8 conn y error with
  | error fault => simp [asked, bind, Except.bind] at success
  | ok answer =>
    simp only [asked, bind, Except.bind] at success
    split at success
    · simp at success
      exact success.2.1.symm
    · unfold editMissing at success
      cases done : (configdSet answer.1 cpath).run utf8 answer.1 z answer.2.2 with
      | error fault => simp [done, bind, Except.bind] at success
      | ok set =>
        simp only [done, bind, Except.bind] at success
        split at success
        · simp at success
        · simp at success
          exact success.2.1.symm

theorem editEnv_of_success {utf8 : Bytes → Bool} {conn after : Conn} {x y z : Exchange}
    {error error' : Option ConfigdError} {cpath buf : Bytes}
    (success : configdEditGetEnv utf8 conn cpath x y z error = .ok (after, .str (some buf), error')) :
    buf = editEnv cpath := by
  unfold configdEditGetEnv at success
  cases asked : (configdTmplGet cpath).run utf8 conn x error with
  | error fault => simp [asked, bind, Except.bind] at success
  | ok answer =>
    simp only [asked, bind, Except.bind] at success
    split at success
    · simp at success
    · split at success
      · simp at success
      · exact editPath_success success

variable {util : PathUtil}

def Arguments (args : List Bytes) : Prop := ∀ arg ∈ args, arg ≠ [] ∧ 0 ∉ arg

instance (args : List Bytes) : Decidable (Arguments args) :=
  inferInstanceAs (Decidable (∀ arg ∈ args, arg ≠ [] ∧ 0 ∉ arg))

theorem separable_escaped {args : List Bytes} (filled : ∀ arg ∈ args, arg ≠ []) :
    Words.Separable slash (args.map util.uri.escape) := by
  intro word member
  obtain ⟨arg, inside, rfl⟩ := List.mem_map.mp member
  rw [util.uri.escape_eq]
  exact ⟨mt (Percent.escape_nil_iff arg).mp (filled arg inside), Percent.not_mem_escape (by decide) (by decide) arg⟩

theorem argsToPath_inj {first second : List Bytes} (left : ∀ arg ∈ first, arg ≠ [])
    (right : ∀ arg ∈ second, arg ≠ []) :
    util.argsToPath first = util.argsToPath second ↔
      first.map util.uri.escape = second.map util.uri.escape := by
  rw [util.argsToPath_eq, util.argsToPath_eq, List.append_cancel_left_eq]
  constructor
  · exact Words.join_injective slash (separable_escaped left) (separable_escaped right)
  · exact congrArg _

theorem squote_not_mem_argsToPath (args : List Bytes) : squote ∉ util.argsToPath args := by
  have apart : squote ≠ slash := by decide
  rw [util.argsToPath_eq, List.mem_append, not_or]
  constructor
  · rcases util.front_eq with none | one
    · simp [none]
    · simp [one, apart]
  · intro member
    rcases Words.mem_join member with same | ⟨word, inside, here⟩
    · exact apart same
    · obtain ⟨arg, -, rfl⟩ := List.mem_map.mp inside
      rw [util.uri.escape_eq] at here
      exact Percent.not_mem_escape (by decide) (by decide) arg here

/-- The level stands for these components: each of them has been escaped once or more. -/
structure LevelHolds (util : PathUtil) (comps : List Bytes) (level : Option Bytes) : Prop where
  root : comps = [] → level = none ∨ level = some (str "/")
  below : comps ≠ [] → ∃ stored, level = some (util.front ++ Words.join slash stored) ∧
    List.Forall₂ Percent.Grown comps stored ∧ Words.Separable slash stored

theorem editArgs_of_level {comps : List Bytes} {level : Option Bytes} (holds : LevelHolds util comps level) :
    ∃ stored, List.Forall₂ Percent.Grown comps stored ∧ (∀ arg ∈ stored, arg ≠ []) ∧
      (∀ args, editArgs false level args = some (stored ++ args)) ∧
      ∀ command rest, editArgs true level (command :: rest) = some (command :: stored ++ rest) := by
  by_cases top : comps = []
  · subst top
    refine ⟨[], .nil, nofun, ?_, ?_⟩
    · intro args
      rcases holds.root rfl with rfl | rfl <;> rfl
    · intro command rest
      rcases holds.root rfl with rfl | rfl <;> rfl
  · obtain ⟨stored, rfl, grown, separable⟩ := holds.below top
    have filled : stored ≠ [] := by
      intro empty
      rw [empty] at grown
      exact top (List.forall₂_nil_right_iff.mp grown)
    have entries := Argz.createSep_join filled separable util.front_eq
    obtain ⟨first, later, rfl⟩ := List.exists_cons_of_ne_nil filled
    have named : first ≠ [] := (separable first List.mem_cons_self).1
    obtain ⟨b, tail, rfl⟩ := List.exists_cons_of_ne_nil named
    refine ⟨_, grown, fun arg member => (separable arg member).1, ?_, ?_⟩
    · intro args
      simp [editArgs, entries]
    · intro command rest
      simp [editArgs, entries]

theorem EditStep.holds {comps args : List Bytes} {level next : Option Bytes} (before : LevelHolds util comps level)
    (arguments : Arguments args) (step : EditStep util level args next) :
    LevelHolds util (comps ++ args) next := by
  obtain ⟨stored, grown, named, appended, -⟩ := editArgs_of_level before
  cases step with
  | @printed utf8 conn after x y z error error' cpath buf given sent success =>
    rw [editPathSent, appended, Option.map_some, Option.some.injEq] at sent
    subst sent
    have filled : ∀ arg ∈ stored ++ args, arg ≠ [] := by
      intro arg member
      rcases List.mem_append.mp member with member | member
      · exact named arg member
      · exact (arguments arg member).1
    constructor
    · intro empty
      exact absurd (List.append_eq_nil_iff.mp empty).2 given
    · intro _
      refine ⟨(stored ++ args).map util.uri.escape, ?_, ?_, separable_escaped filled⟩
      · rw [editEnv_of_success success, editLevelOf_editEnv (squote_not_mem_argsToPath _), util.argsToPath_eq]
      · have escaping : util.uri.escape = Percent.escape := funext util.uri.escape_eq
        rw [List.map_append, escaping]
        apply List.rel_append
        · rw [List.forall₂_map_right_iff]
          exact grown.imp fun _ _ => Percent.Grown.escape
        · rw [List.forall₂_map_right_iff, List.forall₂_same]
          exact fun arg _ => Percent.grown_escape arg

theorem EditRun.holds {lists : List Argz.Vector} {comps : List Bytes} {level last : Option Bytes}
    (run : EditRun util level lists last) (before : LevelHolds util comps level)
    (arguments : ∀ args ∈ lists, Arguments args) : LevelHolds util (comps ++ lists.flatten) last := by
  induction run generalizing comps with
  | nil => simpa using before
  | cons step _ ih =>
    rw [List.forall_mem_cons] at arguments
    rw [List.flatten_cons, ← List.append_assoc]
    exact ih (step.holds before arguments.1) arguments.2

theorem map_escape_eq_iff {comps stored : List Bytes} (grown : List.Forall₂ Percent.Grown comps stored) :
    stored.map util.uri.escape = comps.map util.uri.escape ↔ ∀ comp ∈ comps, Percent.Plain comp := by
  induction grown with
  | nil => simp
  | cons first _ ih =>
    rw [List.map_cons, List.map_cons, List.cons.injEq, ih, List.forall_mem_cons, util.uri.escape_eq,
      util.uri.escape_eq, first.escape_eq_iff]

/-- What an operation sends is the path of all components, each escaped once, also where its
    first argument comes before the level. -/
structure Composed (util : PathUtil) (level : Option Bytes) (comps args : List Bytes) : Prop where
  appended : editPathSent util false level args = some (util.argsToPath (comps ++ args))
  inserted : ∀ command rest, args = command :: rest →
    editPathSent util true level args = some (util.argsToPath (command :: comps ++ rest))

def pathUtil : PathUtil where
  uri := uriparser
  argsToPath args := str "/" ++ Words.join slash (args.map uriparser.escape)
  front := str "/"
  front_eq := .inr rfl
  argsToPath_eq _ := rfl

def typelessReply (id : Nat) (result : Json) : Exchange :=
  ⟨.written, none, some (.object [(str "result", result), (str "id", .integer id)])⟩

theorem editStep_typeless (level : Option Bytes) (args : Argz.Vector) {cpath : Bytes} (given : args ≠ [])
    (sent : editPathSent pathUtil false level args = some cpath) :
    EditStep pathUtil level args (some (editLevelOf (editEnv cpath))) := by
  have success : ∃ after error, configdEditGetEnv (fun _ => true) ⟨str "s", 0⟩ cpath
      (typelessReply 1 (.object [])) (typelessReply 2 (.integer 1)) (typelessReply 3 (.integer 1)) none =
      .ok (after, .str (some (editEnv cpath)), error) := ⟨_, _, rfl⟩
  obtain ⟨after, error, ended⟩ := success
  exact .printed given sent ended

end Levels

end VyattaCfg.ShellApi
