import VyattaCfg.Library.Dirname
import VyattaCfg.ShellApi.EditLevel

namespace VyattaCfg.ShellApi

open ByteString VyattaCfg.Client Shell

section Commands

/-- EDIT_FMT. -/
def editFmt (level lead epath : Bytes) : Bytes :=
  str "export VYATTA_EDIT_LEVEL='" ++ level ++ str "'; export PS1='[edit" ++ lead ++ epath ++ str "]\\n\\u@\\h# ';"

/-- The components of a path with blanks between them. -/
def spaced (path : Bytes) : Bytes := Argz.stringify (Argz.createSep path slash) (ch ' ')

def dirnameOf (path : Bytes) : Bytes := Dirname.dirname slash (ch '.') path

def nodeTypeTag : Int := 3

/-- What is printed; `none` is EXIT_FAILURE. -/
def getEditUpEnv (nodeGetType : Bytes → Int) (level : Option Bytes) : Option Bytes :=
  match level with
  | none => none
  | some epathEnv =>
    if epathEnv = str "/" then none
    else
      let parent := dirnameOf epathEnv
      let parent := if nodeGetType (spaced parent) = nodeTypeTag then dirnameOf parent else parent
      let epathUp := spaced parent
      some (if epathUp ≠ [] then editFmt parent (str " ") epathUp else editFmt parent [] [])

def getEditResetEnv : Bytes := editFmt (str "/") [] []

/-- How `getEditLevelStr` ends. It is an operation that the level is inserted for. -/
inductive LevelStrEnd where
  | failed
  /-- In `argz_insert`, with no argument to put in front of the level. -/
  | died
  | printedNull
  | printed (text : Bytes)

def getEditLevelStr (level : Option Bytes) : LevelStrEnd :=
  match editArgs true level [] with
  | none => .died
  | some _ =>
    match level with
    | none => .failed
    | some epathEnv =>
      match Argz.createSep (epathEnv.drop 1) slash with
      | [] => .printedNull
      | epath => .printed (Argz.stringify epath (ch ' '))

end Commands

section Session

/-- A command of the shell that moves the edit level. -/
inductive EditOp where
  | edit (args : Argz.Vector)
  | up
  | top

/-- A command that succeeds, with what it prints evaluated. One that fails leaves the level as it is. -/
inductive LevelStep (util : PathUtil) (nodeGetType : Bytes → Int) : Option Bytes → EditOp → Option Bytes → Prop where
  | edit {level next : Option Bytes} {args : Argz.Vector} : EditStep util level args next →
    LevelStep util nodeGetType level (.edit args) next
  | up {level : Option Bytes} {printed : Bytes} : getEditUpEnv nodeGetType level = some printed →
    LevelStep util nodeGetType level .up (some (editLevelOf printed))
  | top {level : Option Bytes} : LevelStep util nodeGetType level .top (some (editLevelOf getEditResetEnv))

inductive LevelRun (util : PathUtil) (nodeGetType : Bytes → Int) :
    Option Bytes → List EditOp → Option Bytes → Prop where
  | nil (level : Option Bytes) : LevelRun util nodeGetType level [] level
  | cons {level next last : Option Bytes} {op : EditOp} {ops : List EditOp} : LevelStep util nodeGetType level op next →
    LevelRun util nodeGetType next ops last → LevelRun util nodeGetType level (op :: ops) last

/-- What the commands are for: a stack of components, that `edit` pushes to and `up` pops from. The stack keeps
    them as they are sent, so that every `edit` escapes all of them. -/
def EditOp.apply (uri : UriParser) (nodeGetType : Bytes → Int) (stack : List Bytes) : EditOp → Option (List Bytes)
  | .edit args => if args = [] then none else some ((stack ++ args).map uri.escape)
  | .up =>
    if stack = [] then none
    else if nodeGetType (Words.join (ch ' ') stack.dropLast) = nodeTypeTag then some stack.dropLast.dropLast
    else some stack.dropLast
  | .top => some []

/-- The level that shows the stack: a slash and the components. It need not be set at the start. -/
structure LevelShows (stack : List Bytes) (level : Option Bytes) : Prop where
  text : level = some (slash :: Words.join slash stack) ∨ level = none ∧ stack = []
  separable : Words.Separable slash stack
  unquoted : ∀ comp ∈ stack, squote ∉ comp

end Session

section Simulation

variable {util : PathUtil} {nodeGetType : Bytes → Int} {stack : List Bytes} {level next : Option Bytes}

theorem editLevelOf_fmt {path : Bytes} (plain : squote ∉ path) (lead epath : Bytes) :
    editLevelOf (editFmt path lead epath) = path := by
  have front : editFmt path lead epath = str "export VYATTA_EDIT_LEVEL='" ++ (path ++ squote ::
      (str "; export PS1='[edit" ++ (lead ++ (epath ++ str "]\\n\\u@\\h# ';")))) := by
    simp only [editFmt, List.append_assoc]
    rfl
  have inside : ∀ b ∈ path, decide (b ≠ squote) = true := by
    intro b member
    apply decide_eq_true
    intro quote
    exact plain (quote ▸ member)
  rw [editLevelOf, front, List.drop_left, List.takeWhile_append_of_pos inside, List.takeWhile_cons_of_neg (by simp),
    List.append_nil]

theorem createSep_level (separable : Words.Separable slash stack) :
    Argz.createSep (slash :: Words.join slash stack) slash = if stack = [] then [[]] else stack := by
  by_cases top : stack = []
  · rw [if_pos top, top]
    decide
  · rw [if_neg top]
    show Argz.createSep ([slash] ++ Words.join slash stack) slash = stack
    exact Argz.createSep_join top separable (.inr rfl)

theorem spaced_level (separable : Words.Separable slash stack) :
    spaced (slash :: Words.join slash stack) = Words.join (ch ' ') stack := by
  rw [spaced, createSep_level separable]
  by_cases top : stack = []
  · rw [if_pos top, top]
    rfl
  · rw [if_neg top]
    rfl

theorem dirname_level (separable : Words.Separable slash stack) :
    dirnameOf (slash :: Words.join slash stack) = slash :: Words.join slash stack.dropLast := by
  by_cases top : stack = []
  · rw [top]
    exact Dirname.dirname_root (ch '.')
  · obtain ⟨last, split⟩ : ∃ last, stack = stack.dropLast ++ [last] :=
      ⟨stack.getLast top, (List.dropLast_append_getLast top).symm⟩
    have component := separable last (by rw [split]; simp)
    have above : Words.Separable slash stack.dropLast :=
      fun word inside => separable word (List.dropLast_subset _ inside)
    by_cases single : stack.dropLast = []
    · rw [single] at split ⊢
      rw [split, List.nil_append, Words.join_singleton]
      exact Dirname.dirname_top (ch '.') component.1 component.2
    · have ended : (slash :: Words.join slash stack.dropLast).getLast? ≠ some slash := by
        rw [List.getLast?_cons_of_ne_nil (Words.join_ne_nil slash single above)]
        exact Words.getLast?_join slash above
      have joined : slash :: Words.join slash stack = (slash :: Words.join slash stack.dropLast) ++ slash :: last := by
        rw [split, List.dropLast_concat, Words.join_append slash single (List.cons_ne_nil _ _), Words.join_singleton]
        rfl
      rw [joined]
      exact Dirname.dirname_append (ch '.') component.1 component.2 (List.cons_ne_nil _ _) ended

theorem LevelShows.dropLast (shows : LevelShows stack level) :
    LevelShows stack.dropLast (some (slash :: Words.join slash stack.dropLast)) where
  text := .inl rfl
  separable word inside := shows.separable word (List.dropLast_subset _ inside)
  unquoted comp inside := shows.unquoted comp (List.dropLast_subset _ inside)

theorem LevelShows.squote_not_mem (shows : LevelShows stack level) : squote ∉ slash :: Words.join slash stack := by
  have apart : squote ≠ slash := by decide
  rw [List.mem_cons, not_or]
  refine ⟨apart, ?_⟩
  intro member
  rcases Words.mem_join member with same | ⟨word, inside, here⟩
  · exact apart same
  · exact shows.unquoted word inside here

theorem level_root_iff (separable : Words.Separable slash stack) :
    slash :: Words.join slash stack = str "/" ↔ stack = [] := by
  constructor
  · intro same
    by_contra filled
    exact Words.join_ne_nil slash filled separable (List.cons.inj same).2
  · rintro rfl
    rfl

/-- `up` is refused at the top and nowhere else. -/
theorem LevelShows.up_refused_iff (shows : LevelShows stack level) :
    getEditUpEnv nodeGetType level = none ↔ stack = [] := by
  rcases shows.text with rfl | ⟨rfl, top⟩
  · rw [getEditUpEnv, ← level_root_iff shows.separable]
    split
    · rename_i root
      exact iff_of_true rfl root
    · rename_i below
      exact iff_of_false nofun below
  · exact iff_of_true rfl top

theorem LevelShows.edited (shows : LevelShows stack level) (front : util.front = [slash]) {args : List Bytes}
    (arguments : Arguments args) (step : EditStep util level args next) :
    LevelShows ((stack ++ args).map util.uri.escape) next := by
  have sent : editArgs false level args = some (stack ++ args) := by
    rcases shows.text with rfl | ⟨rfl, rfl⟩
    · have entries := createSep_level shows.separable
      by_cases top : stack = []
      · rw [top]
        rfl
      · rw [if_neg top] at entries
        obtain ⟨first, rest, rfl⟩ := List.exists_cons_of_ne_nil top
        obtain ⟨b, tail, rfl⟩ := List.exists_cons_of_ne_nil (shows.separable first List.mem_cons_self).1
        simp [editArgs, entries]
    · rfl
  cases step with
  | @printed utf8 conn after x y z error error' cpath buf given sentPath success =>
    rw [editPathSent, sent, Option.map_some, Option.some.injEq] at sentPath
    subst sentPath
    have path : util.argsToPath (stack ++ args) = slash :: Words.join slash ((stack ++ args).map util.uri.escape) := by
      rw [util.argsToPath_eq, front]
      rfl
    have filled : ∀ arg ∈ stack ++ args, arg ≠ [] := by
      intro arg member
      rcases List.mem_append.mp member with member | member
      · exact (shows.separable arg member).1
      · exact (arguments arg member).1
    refine ⟨.inl ?_, separable_escaped filled, ?_⟩
    · rw [editEnv_of_success success, editLevelOf_editEnv (squote_not_mem_argsToPath _), path]
    · intro comp member
      obtain ⟨arg, -, rfl⟩ := List.mem_map.mp member
      rw [util.uri.escape_eq]
      exact Percent.not_mem_escape (by decide) (by decide) arg

theorem LevelShows.up (shows : LevelShows stack level) {printed : Bytes}
    (ran : getEditUpEnv nodeGetType level = some printed) :
    ∃ after, EditOp.apply util.uri nodeGetType stack .up = some after ∧ LevelShows after (some (editLevelOf printed)) := by
  have below : stack ≠ [] := by
    intro top
    rw [shows.up_refused_iff.mpr top] at ran
    cases ran
  have popped : ∀ {path : List Bytes}, LevelShows path (some (slash :: Words.join slash path)) → ∀ lead epath : Bytes,
      LevelShows path (some (editLevelOf (editFmt (slash :: Words.join slash path) lead epath))) := by
    intro path shown lead epath
    rw [editLevelOf_fmt shown.squote_not_mem]
    exact shown
  rcases shows.text with rfl | ⟨rfl, top⟩
  · rw [getEditUpEnv, if_neg (mt (level_root_iff shows.separable).mp below)] at ran
    simp only [dirname_level shows.separable, dirname_level shows.dropLast.separable,
      spaced_level shows.dropLast.separable] at ran
    rw [EditOp.apply, if_neg below]
    split at ran
    · rename_i tag
      rw [if_pos tag]
      refine ⟨_, rfl, ?_⟩
      split at ran <;> cases ran <;> exact popped shows.dropLast.dropLast _ _
    · rename_i plain
      rw [if_neg plain]
      refine ⟨_, rfl, ?_⟩
      split at ran <;> cases ran <;> exact popped shows.dropLast _ _
  · exact absurd top below

/-- Below the top the level is put in front of an argument that is not there. -/
theorem LevelShows.levelStr (shows : LevelShows stack level) :
    getEditLevelStr level = if stack ≠ [] then .died else if level = none then .failed else .printedNull := by
  by_cases top : stack = []
  · rw [if_neg (not_not.mpr top)]
    rcases shows.text with rfl | ⟨rfl, -⟩
    · rw [top]
      rfl
    · rfl
  · rw [if_pos top]
    rcases shows.text with rfl | ⟨-, none⟩
    · have entries := createSep_level shows.separable
      rw [if_neg top] at entries
      obtain ⟨first, rest, rfl⟩ := List.exists_cons_of_ne_nil top
      obtain ⟨b, tail, rfl⟩ := List.exists_cons_of_ne_nil (shows.separable first List.mem_cons_self).1
      simp [getEditLevelStr, editArgs, entries]
    · exact absurd none top

theorem levelShows_top : LevelShows [] (some (editLevelOf getEditResetEnv)) where
  text := .inl (by rw [getEditResetEnv, editLevelOf_fmt (by decide)]; rfl)
  separable := nofun
  unquoted := nofun

/-- The arguments of the commands are those of a shell: not empty, and without a NUL. -/
def EditOp.Valid : EditOp → Prop
  | .edit args => Arguments args
  | .up | .top => True

theorem EditStep.given {args : List Bytes} (step : EditStep util level args next) : args ≠ [] := by
  cases step with
  | printed given _ _ => exact given

theorem LevelStep.shows {op : EditOp} (shows : LevelShows stack level) (front : util.front = [slash]) (valid : op.Valid)
    (step : LevelStep util nodeGetType level op next) :
    ∃ after, op.apply util.uri nodeGetType stack = some after ∧ LevelShows after next := by
  cases step with
  | edit edited =>
    exact ⟨_, if_neg edited.given, shows.edited front valid edited⟩
  | up ran => exact shows.up ran
  | top => exact ⟨[], rfl, levelShows_top⟩

theorem LevelRun.shows {ops : List EditOp} {last : Option Bytes} (run : LevelRun util nodeGetType level ops last)
    (shows : LevelShows stack level) (front : util.front = [slash]) (valid : ∀ op ∈ ops, op.Valid) :
    ∃ after, ops.foldlM (EditOp.apply util.uri nodeGetType) stack = some after ∧ LevelShows after last := by
  induction run generalizing stack with
  | nil level => exact ⟨stack, rfl, shows⟩
  | cons step _ ih =>
    rw [List.forall_mem_cons] at valid
    obtain ⟨middle, applied, shown⟩ := step.shows shows front valid.1
    obtain ⟨after, rest, ended⟩ := ih shown valid.2
    refine ⟨after, ?_, ended⟩
    rw [List.foldlM_cons, applied]
    exact rest

end Simulation

theorem levelShows_root {start : Option Bytes} (root : start = none ∨ start = some (str "/")) : LevelShows [] start := by
  refine ⟨?_, nofun, nofun⟩
  rcases root with none | top
  · exact .inr ⟨none, rfl⟩
  · exact .inl top

def sessionOps : List EditOp := [.edit [str "interfaces", str "dataplane", str "dp0s3"], .up]

theorem sessionOps_valid : ∀ op ∈ sessionOps, op.Valid := by
  intro op inside
  rcases List.mem_cons.mp inside with rfl | inside
  · exact (by decide : Arguments [str "interfaces", str "dataplane", str "dp0s3"])
  · rw [List.mem_singleton.mp inside]
    exact trivial

theorem sessionOps_run : LevelRun pathUtil (fun _ => nodeTypeTag) none sessionOps (some (str "/interfaces")) := by
  have edited := editStep_typeless none [str "interfaces", str "dataplane", str "dp0s3"] (by decide) rfl
  have up : getEditUpEnv (fun _ => nodeTypeTag) (some (str "/interfaces/dataplane/dp0s3")) =
      some (editFmt (str "/interfaces") (str " ") (str "interfaces")) := by decide +kernel
  exact .cons (.edit edited) (.cons (.up up) (.nil _))

/-- In no session `getEditLevelStr` prints the level. -/
theorem edit_level_unprinted (util : PathUtil) (front : util.front = [slash]) (nodeGetType : Bytes → Int)
    (start level : Option Bytes) (root : start = none ∨ start = some (str "/")) (ops : List EditOp)
    (valid : ∀ op ∈ ops, op.Valid) (run : LevelRun util nodeGetType start ops level) :
    (∀ text, getEditLevelStr level ≠ .printed text) ∧
      (getEditLevelStr level = .died ↔ ops.foldlM (EditOp.apply util.uri nodeGetType) [] ≠ some []) := by
  obtain ⟨stack, applied, shows⟩ := run.shows (levelShows_root root) front valid
  rw [shows.levelStr, applied, ne_eq (some stack), Option.some.injEq]
  constructor
  · intro text
    split_ifs <;> nofun
  · split_ifs with filled unset
    · exact iff_of_true rfl filled
    · exact iff_of_false nofun filled
    · exact iff_of_false nofun filled

theorem edit_level_unprinted_tag :
    (∀ text, getEditLevelStr (some (str "/interfaces")) ≠ .printed text) ∧
      (getEditLevelStr (some (str "/interfaces")) = .died ↔
        sessionOps.foldlM (EditOp.apply pathUtil.uri fun _ => nodeTypeTag) [] ≠ some []) :=
  edit_level_unprinted pathUtil rfl (fun _ => nodeTypeTag) none _ (.inl rfl) sessionOps sessionOps_valid sessionOps_run

end VyattaCfg.ShellApi
