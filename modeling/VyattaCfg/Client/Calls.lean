import VyattaCfg.Client.Completion

namespace VyattaCfg.Client

open ByteString

def nextEntries : Nat → Argz.Vector → Option (Argz.Vector × Argz.Vector)
  | 0, entries => some ([], entries)
  | _ + 1, [] => none
  | rounds + 1, next :: entries =>
    (nextEntries rounds entries).map fun (passed, entries) => (next :: passed, entries)

def argzPop (argz : Argz.Vector) : Argz.Vector := argz.dropLast

/-- `split_path`. The subtraction is one of `size_t`: with fewer than three entries it wraps and
    the first loop runs past the last one. -/
def splitPath (path : Argz.Vector) : Option (Argz.Vector × Argz.Vector) := do
  let count := path.length
  let before := if count < 3 then 0x10000000000000000 + count - 3 else count - 3
  let (newTo, rest) ← nextEntries before path
  let (qualifier, _) ← nextEntries (count - before) rest
  let next ← qualifier.getLast?
  some (argzPop (argzPop path), newTo ++ [next])

def makePaths (path : Bytes) : Option (Bytes × Bytes) := do
  let (fromPath, toPath) ← splitPath (Argz.createSep path slash)
  some (Argz.stringify ([] :: fromPath) slash, Argz.stringify ([] :: toPath) slash)

def isTagValue (m : Envz.Vector) : Bool :=
  Envz.get m (str "tag") = some (str "1") && Envz.get m (str "is_value") = some (str "1")

def isTypeless (m : Envz.Vector) : Bool := (Envz.get m (str "type")).isNone

def editEnv (cpath : Bytes) : Bytes :=
  str "export VYATTA_EDIT_LEVEL='" ++ cpath ++ str "'; export PS1='[edit " ++
    Argz.stringify (Argz.createSep cpath slash) (ch ' ') ++ str "]\\n\\u@\\h# ';"

def showRequest (conn : Conn) (db : Db) (cpath : Option Bytes) (flags : BitVec 32) : Rpc :=
  ⟨str "configd_show", if flags &&& 1 ≠ 0 then str "ShowDefaults" else str "Show",
    [.i db.code, .s conn.sessionId, .s (cpath.getD []), .b (flags &&& 2 ≠ 0)], .str⟩

def saveRequest : Rpc := ⟨str "configd_save", str "Save", [.s (str "/config/config.boot")], .intIsOne⟩

def pathsRequest (conn : Conn) (source fn : Bytes) (paths : Bytes × Bytes) : Rpc :=
  ⟨source, fn, [.s conn.sessionId, .s paths.1, .s paths.2], .str⟩

theorem nextEntries_eq (rounds : Nat) (entries : Argz.Vector) : nextEntries rounds entries =
    if rounds ≤ entries.length then some (entries.take rounds, entries.drop rounds) else none := by
  induction rounds generalizing entries with
  | zero => simp [nextEntries]
  | succ rounds ih =>
    cases entries with
    | nil => simp [nextEntries]
    | cons next entries =>
      rw [nextEntries, ih]
      by_cases inside : rounds ≤ entries.length <;> simp [inside]

theorem splitPath_eq_none_iff (path : Argz.Vector) : splitPath path = none ↔ path.length < 3 := by
  unfold splitPath
  by_cases short : path.length < 3
  · have beyond : ¬ 0x10000000000000000 + path.length - 3 ≤ path.length := by omega
    simp only [short, if_true, nextEntries_eq, beyond, if_false, Option.bind_eq_bind, Option.bind_none]
  · have inside : path.length - 3 ≤ path.length := by omega
    have three : path.length - (path.length - 3) = 3 := by omega
    have rest : (path.drop (path.length - 3)).length = 3 := by
      rw [List.length_drop]
      exact three
    have last : (path.drop (path.length - 3)).getLast? ≠ none := by
      rw [ne_eq, List.getLast?_eq_none_iff]
      exact List.ne_nil_of_length_pos (by omega)
    obtain ⟨next, found⟩ := Option.ne_none_iff_exists'.mp last
    have taken : (path.drop (path.length - 3)).take 3 = path.drop (path.length - 3) :=
      List.take_of_length_le rest.le
    simp [short, nextEntries_eq, inside, three, rest, taken, found]

theorem makePaths_eq_none_iff (path : Bytes) :
    makePaths path = none ↔ (Argz.createSep path slash).length < 3 := by
  rw [← splitPath_eq_none_iff, makePaths]
  cases splitPath (Argz.createSep path slash) <;> simp

section Calls

variable (utf8 : Bytes → Bool) (conn : Conn)

def configdShow (db : Db) (cpath cfg1 cfg2 : Option Bytes) (flags : BitVec 32) (x : Exchange)
    (error : Option ConfigdError) : Done :=
  if cfg1.isNone || cfg2.isNone then .ok (conn, .str none, error)
  else (showRequest conn db cpath flags).run utf8 conn x error

/-- `configd_rename` and `configd_copy` differ in their own name and in that of the method. -/
def withPaths (source fn cpath : Bytes) (x : Exchange) (error : Option ConfigdError) : Done :=
  match makePaths cpath with
  | none => .ok (conn, .str none, error)
  | some paths => (pathsRequest conn source fn paths).run utf8 conn x error

def configdRename (cpath : Bytes) (x : Exchange) (error : Option ConfigdError) : Done :=
  withPaths utf8 conn (str "configd_rename") (str "Rename") cpath x error

def configdCopy (cpath : Bytes) (x : Exchange) (error : Option ConfigdError) : Done :=
  withPaths utf8 conn (str "configd_copy") (str "Copy") cpath x error

def noArguments (error : Option ConfigdError) (len : Nat) : Option ConfigdError :=
  errorSetf (errorInit error (str "configd_save"))
    (str "Expected no arguments got " ++ str (toString (BitVec.ofNat 32 len).toInt))

def configdSave (args : Option Bytes) (x : Exchange) (error : Option ConfigdError) : Done :=
  let len := (args.map fun args => Argz.len (Argz.createSep args (ch ' '))).getD 0
  if len > 0 then .ok (conn, .str none, noArguments error len)
  else saveRequest.run utf8 conn x error

/-- `configd_edit_get_env` on a path that does not exist. -/
def editMissing (cpath : Bytes) (z : Exchange) (error : Option ConfigdError) : Done := do
  let (conn, result, error) ← (configdSet conn cpath).run utf8 conn z error
  match result.getStr with
  | none => .ok (conn, .str none, error)
  | some _ => .ok (conn, .str (some (editEnv cpath)), error)

def editPath (cpath : Bytes) (y z : Exchange) (error : Option ConfigdError) : Done := do
  let (conn, exists?, error) ← (configdNodeExists conn .auto cpath).run utf8 conn y error
  if exists?.getInt = 1 then .ok (conn, .str (some (editEnv cpath)), error)
  else editMissing utf8 conn cpath z error

def configdEditGetEnv (cpath : Bytes) (x y z : Exchange) (error : Option ConfigdError) : Done := do
  let (conn, tmpl, error) ← (configdTmplGet cpath).run utf8 conn x error
  match tmpl.getMap with
  | none => .ok (conn, .str none, error)
  | some m =>
    let error := errorInit error (str "configd_edit_get_env")
    if !isTagValue m && !isTypeless m then
      .ok (conn, .str none,
        errorSetf error (str "The \"edit\" command cannot be issued at the specified level\n"))
    else editPath utf8 conn cpath y z error

def configdNodeGetCompleteEnv (uri : UriParser) (configd : Configd) (cpath : Option Bytes)
    (error : Option ConfigdError) : Done :=
  match cpath with
  | none => .ok (conn, .str none, error)
  | some cpath => do
    let env ← getCompletionEnv uri configd cpath
    .ok (conn, .str env, error)

end Calls

/-- A call of a request function that takes an error, with the exchanges that it has with
    the server, or the answers that it gets from it. `request` is any function that makes one
    request, whatever the reply. -/
inductive Call where
  | getInt (req : Request) (x : Exchange)
  | getStr (req : Request) (x : Exchange)
  | getVector (req : Request) (x : Exchange)
  | getMap (req : Request) (x : Exchange)
  | request (rpc : Rpc) (x : Exchange)
  | showConfig (db : Db) (cpath cfg1 cfg2 : Option Bytes) (flags : BitVec 32) (x : Exchange)
  | rename (cpath : Bytes) (x : Exchange)
  | copy (cpath : Bytes) (x : Exchange)
  | save (args : Option Bytes) (x : Exchange)
  | editGetEnv (cpath : Bytes) (x y z : Exchange)
  | nodeGetCompleteEnv (cpath : Option Bytes) (configd : Configd)

def Call.run (uri : UriParser) (utf8 : Bytes → Bool) (conn : Conn) (error : Option ConfigdError) : Call → Done
  | .getInt req x => (Client.getInt conn req x error).map fun (conn, result, error) => (conn, .int result, error)
  | .getStr req x => (Client.getStr conn req x error).map fun (conn, result, error) => (conn, .str result, error)
  | .getVector req x =>
    (Client.getVector conn req x error).map fun (conn, result, error) => (conn, .vector result, error)
  | .getMap req x => (Client.getMap conn req x error).map fun (conn, result, error) => (conn, .map result, error)
  | .request rpc x => rpc.run utf8 conn x error
  | .showConfig db cpath cfg1 cfg2 flags x => configdShow utf8 conn db cpath cfg1 cfg2 flags x error
  | .rename cpath x => configdRename utf8 conn cpath x error
  | .copy cpath x => configdCopy utf8 conn cpath x error
  | .save args x => configdSave utf8 conn args x error
  | .editGetEnv cpath x y z => configdEditGetEnv utf8 conn cpath x y z error
  | .nodeGetCompleteEnv cpath configd => configdNodeGetCompleteEnv conn uri configd cpath error

end VyattaCfg.Client
