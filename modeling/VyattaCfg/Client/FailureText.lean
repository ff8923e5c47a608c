import VyattaCfg.Client.Error

namespace VyattaCfg.Client

open ByteString

def withoutLeading : Bytes → Bytes
  | [] => []
  | c :: rest => if c = ch '/' then rest else c :: rest

def withoutFinal (path : Bytes) : Bytes := if path.getLast? = some (ch '/') then path.dropLast else path

/-- The path as a failure text is to show it. -/
def shownPath (path : Bytes) : Bytes :=
  (withoutFinal (withoutLeading path)).map fun c => if c = ch '/' then ch ' ' else c

/-- The part of the text that is about one error. -/
def failureBlock (me : MgmtError) : Bytes :=
  let path := shownPath (me.path.getD [])
  str "[" ++ path ++ str "]\n\n" ++ me.message.getD [] ++ str "\n\n[[" ++ path ++ str "]] failed.\n"

def failureText (operation : Bytes) (errors : List MgmtError) : Bytes :=
  errors.reverse.flatMap failureBlock ++ (str "\n" ++ operation ++ str " failed!\n")

theorem snprintf_of_length_lt {len : Nat} {output : Bytes} (room : output.length < len) :
    snprintf len output = output := by
  rw [snprintf, List.take_of_length_le (by omega)]

theorem spaceSeparated_eq (path : Bytes) :
    spaceSeparated path = (withoutFinal path).map fun c => if c = ch '/' then ch ' ' else c := by
  induction path with
  | nil => rfl
  | cons c rest ih =>
    cases rest with
    | nil =>
      by_cases final : c = ch '/'
      · subst final
        rfl
      · simp [spaceSeparated, withoutFinal, final]
    | cons next rest =>
      have cut : withoutFinal (c :: next :: rest) = c :: withoutFinal (next :: rest) := by
        rw [withoutFinal, withoutFinal, List.getLast?_cons_cons]
        by_cases final : (next :: rest).getLast? = some (ch '/')
        · rw [if_pos final, if_pos final]
          rfl
        · rw [if_neg final, if_neg final]
      rw [spaceSeparated, ih, cut, List.map_cons]
      exact fun absurdity => List.cons_ne_nil next rest absurdity

theorem configdMgmtErrorPathSpaceSeparated_getD (me : MgmtError) :
    (configdMgmtErrorPathSpaceSeparated me).getD [] = shownPath (me.path.getD []) := by
  unfold configdMgmtErrorPathSpaceSeparated
  split
  · rename_i missing
    rw [missing]
    rfl
  · rename_i empty
    rw [empty]
    rfl
  · rename_i c rest given
    rw [given, Option.getD_some, Option.getD_some, spaceSeparated_eq]
    rfl

/-- The length computed beforehand leaves room for the text and its NUL: the format is longer than
    what it adds. -/
theorem configdMgmtErrorFormatForCommitOrVal_eq (me : MgmtError) :
    configdMgmtErrorFormatForCommitOrVal me = failureBlock me := by
  simp only [configdMgmtErrorFormatForCommitOrVal, configdMgmtErrorPathSpaceSeparated_getD]
  rw [snprintf_of_length_lt]
  · rfl
  · have format : (str "[%s]\n\n%s\n\n[[%s]] failed.\n").length = 25 := by decide
    have brackets : (str "[").length + (str "]\n\n").length + (str "\n\n[[").length +
        (str "]] failed.\n").length = 19 := by decide
    simp only [List.length_append]
    omega

theorem prependError_eq (curOutput : Bytes) (me : MgmtError) :
    prependError curOutput me = failureBlock me ++ curOutput := by
  rw [prependError, configdMgmtErrorFormatForCommitOrVal_eq, snprintf_of_length_lt]
  rw [List.length_append]
  omega

theorem foldl_prependError (errors : List MgmtError) (curOutput : Bytes) :
    errors.foldl prependError curOutput = errors.reverse.flatMap failureBlock ++ curOutput := by
  induction errors generalizing curOutput with
  | nil => rfl
  | cons me errors ih =>
    rw [List.foldl_cons, ih, prependError_eq, List.reverse_cons, List.flatMap_append, List.append_assoc]
    simp

/-- The last error stands first, and the operation behind them all. -/
theorem configdErrorFormatForCommitOrVal_eq (ce : ConfigdError) (operation : Option Bytes) :
    (ce.isMgmtError = true → ce.mgmtErrs ≠ [] →
      configdErrorFormatForCommitOrVal (some ce) operation =
        some { ce with text := some (failureText (operation.getD (str "Operation")) ce.mgmtErrs) }) ∧
    (ce.isMgmtError = false → configdErrorFormatForCommitOrVal (some ce) operation = some ce) := by
  constructor
  · intro managed filled
    have header : (str "\n%s failed!\n").length = (str "\n").length + (str " failed!\n").length + 2 := by decide
    have ending : snprintf ((str "\n%s failed!\n").length + (operation.getD (str "Operation")).length + 1)
        (str "\n" ++ operation.getD (str "Operation") ++ str " failed!\n") =
          str "\n" ++ operation.getD (str "Operation") ++ str " failed!\n" := by
      apply snprintf_of_length_lt
      rw [List.length_append, List.length_append]
      omega
    have present : ce.mgmtErrs.isEmpty = false := by simpa using filled
    simp only [configdErrorFormatForCommitOrVal, Option.bind_eq_bind, Option.bind_some, managed, if_true,
      present, ending, foldl_prependError, failureText]
    rfl
  · intro unmanaged
    simp [configdErrorFormatForCommitOrVal, unmanaged]

theorem configdErrorFormatForCommitOrVal_eq_two :
    (configdErrorFormatForCommitOrVal (some { isMgmtError := true, mgmtErrs := [
        { path := some (str "/a/b/"), message := some (str "no") }, { path := none, message := none }] })
      (some (str "Commit"))).bind ConfigdError.text =
        some (str "[]\n\n\n\n[[]] failed.\n[a b]\n\nno\n\n[[a b]] failed.\n\nCommit failed!\n") ∧
    (configdErrorFormatForCommitOrVal (some { text := some (str "no") }) none).bind ConfigdError.text =
      some (str "no") := by
  constructor
  · rw [(configdErrorFormatForCommitOrVal_eq _ _).1 rfl (by simp)]
    decide
  · rw [(configdErrorFormatForCommitOrVal_eq _ _).2 rfl]
    rfl

end VyattaCfg.Client
