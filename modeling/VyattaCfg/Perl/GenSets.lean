import VyattaCfg.Perl.EnumerateBranch
import VyattaCfg.Perl.PathPieces
import VyattaCfg.Library.Words

namespace VyattaCfg.Perl

open ByteString Shell

/-- The loop's body: the command for one path of quoted components. -/
def setCommand (path : List Bytes) : Bytes :=
  let nonLeaf := Words.join space path.dropLast
  str "set " ++ nonLeaf.filter (· ≠ squote) ++ str " " ++ path.getLast?.getD []

def genSets (root : ConfigNode) : List Bytes := (getStartupConfigStatements root).allNodes.map setCommand

/-- The components above the last are plain where they stand; the last is quoted well. -/
def Printable (path : List Bytes) : Prop :=
  (∀ component ∈ path.dropLast, PathPlain component) ∧ ∀ component ∈ path.getLast?, Quotable component

/-- The components above the last, as they are printed. -/
def printedPath (components : List Bytes) : Bytes :=
  components.flatMap fun component => backslashed (shown component) ++ [space]

theorem filter_join {components : List Bytes} (nonempty : components ≠ []) :
    (Words.join space (applySingleQuote components)).filter (· ≠ squote) ++ [space] = printedPath components := by
  induction components with
  | nil => exact absurd rfl nonempty
  | cons component components ih =>
    by_cases more : components = []
    · rw [more, applySingleQuote, List.map_singleton, Words.join_singleton, filter_singleQuote]
      simp [printedPath]
    · have rest := ih more
      have mapped : applySingleQuote components ≠ [] := by simpa [applySingleQuote] using more
      have split : applySingleQuote (component :: components) =
          singleQuote component :: applySingleQuote components := rfl
      rw [split, Words.join_cons space _ mapped, List.filter_append, List.filter_cons_of_pos (by decide),
        filter_singleQuote, List.append_assoc, List.cons_append, rest]
      simp [printedPath]

theorem setCommand_eq (components : List Bytes) (last : Bytes) :
    setCommand (applySingleQuote (components ++ [last])) =
      str "set " ++ ((if components = [] then [space] else printedPath components) ++ singleQuote last) := by
  have split : applySingleQuote (components ++ [last]) = applySingleQuote components ++ [singleQuote last] := by
    simp [applySingleQuote]
  have blank : str " " = [space] := by decide
  rw [setCommand, split, List.dropLast_concat, List.getLast?_concat, Option.getD_some, blank, List.append_assoc,
    List.append_assoc, ← List.append_assoc _ [space]]
  split
  · rename_i empty
    rw [empty]
    rfl
  · rename_i nonempty
    rw [filter_join nonempty]

theorem commandWords_set (text : Bytes) :
    commandWords (str "set " ++ text) =
      (readWords commandBlank .bare none text).map (str "set" :: ·) := by
  have first : (str "set").head? = some (ch 's') := by decide
  have plain : PlainWord (str "set") := by
    refine ⟨by decide, by decide, ?_⟩
    simp only [first, Option.mem_some_iff, forall_eq']
    decide
  have split : str "set " ++ text = str "set" ++ space :: text := by simp [str, ch]
  rw [commandWords, split, readWords_plain_word plain, readWords_bare_blank commandBlank commandBlank_space]
  rfl

theorem seams_filter (s : Bytes) : (s.filter (· ≠ squote)).countP seam = s.countP seam := by
  rw [List.countP_filter]
  apply List.countP_congr
  intro c _
  by_cases quote : c = squote <;> simp [quote]

/-- The text of a path has no more seams than its words need. -/
theorem seams_printed (components : List Bytes) (last : Bytes) :
    (printedPath components ++ singleQuote last).countP seam + 1 ≤
      (components.map unwrapped ++ [unwrapped last]).length +
        (components.map unwrapped ++ [unwrapped last]).flatten.countP seam := by
  induction components with
  | nil =>
    have kept := seams_shown_le last
    rw [← seams_filter, printedPath, List.flatMap_nil, List.nil_append, filter_singleQuote, seams_backslashed]
    simp
    omega
  | cons component components ih =>
    have kept := seams_shown_le component
    have spaceSeam : seam space = true := by decide
    simp only [printedPath, List.flatMap_cons, List.map_cons, List.cons_append, List.length_cons, List.flatten_cons,
      List.countP_append, seams_backslashed, List.countP_cons, List.countP_nil, spaceSeam, if_true] at ih ⊢
    omega

theorem readWords_printed_iff (components : List Bytes) (last : Bytes) :
    readWords commandBlank .bare none (printedPath components ++ singleQuote last) =
        some (components.map unwrapped ++ [unwrapped last]) ↔
      (∀ component ∈ components, PathPlain component) ∧ Quotable last := by
  induction components with
  | nil =>
    rw [← commandWords_singleQuote_unwrapped]
    simp [printedPath, commandWords]
  | cons component components ih =>
    have text : printedPath (component :: components) ++ singleQuote last =
        backslashed (shown component) ++ space :: (printedPath components ++ singleQuote last) := by
      simp [printedPath]
    rw [text, List.forall_mem_cons, and_assoc, ← ih, List.map_cons, List.cons_append]
    constructor
    · intro read
      exact piece_plain read (seams_printed components last)
    · rintro ⟨plain, later⟩
      rw [piece_reads plain, later]
      rfl

theorem setCommand_words_iff (path : List Bytes) :
    commandWords (setCommand (applySingleQuote path)) = some (str "set" :: path.map unwrapped) ↔ Printable path := by
  rcases List.eq_nil_or_concat path with rfl | ⟨components, last, rfl⟩
  · have empty : commandWords (setCommand (applySingleQuote [])) = some [str "set"] := by decide
    simp [empty, Printable]
  · have read : readWords commandBlank .bare none
        ((if components = [] then [space] else printedPath components) ++ singleQuote last) =
          readWords commandBlank .bare none (printedPath components ++ singleQuote last) := by
      split
      · rename_i none
        rw [none, List.singleton_append, readWords_bare_blank commandBlank commandBlank_space]
        simp [printedPath]
      · rfl
    rw [List.concat_eq_append, setCommand_eq, commandWords_set, read, Printable, List.dropLast_concat,
      List.getLast?_concat, List.map_append, List.map_singleton]
    simpa using readWords_printed_iff components last

/-- A line for each terminal node, and its words are `set` and the statement's components. -/
theorem gen_sets_words_iff (root : ConfigNode) :
    ((genSets root).length = terminalNodes root ∧
        (genSets root).map commandWords =
          (getStartupConfigStatements root).allNakedNodes.map fun path => some (str "set" :: path.map unwrapped)) ↔
      ∀ path ∈ terminalPaths root, Printable path := by
  have sets : genSets root = (terminalPaths root).map (setCommand ∘ applySingleQuote) := by
    rw [genSets, getStartupConfigStatements_eq, List.map_map]
  have counted : ((terminalPaths root).map (setCommand ∘ applySingleQuote)).length = terminalNodes root := by
    rw [List.length_map, length_terminalPaths]
  rw [sets, getStartupConfigStatements_eq, List.map_map, List.map_inj_left, and_iff_right counted]
  apply forall₂_congr
  intro path _
  rw [Function.comp_apply, Function.comp_apply]
  exact setCommand_words_iff path

/-- `user "a b" { uid 7 }` -/
def blankTagConfig : ConfigNode :=
  .mk none none (some [.mk (some (str "user \"a b\"")) none (some [.mk (some (str "uid")) (some (str "7")) none])])

theorem blank_tag_split :
    genSets blankTagConfig = [str "set user a b uid '7'"] ∧
      (genSets blankTagConfig).map commandWords ≠
        (getStartupConfigStatements blankTagConfig).allNakedNodes.map
          fun path => some (str "set" :: path.map unwrapped) := by
  decide +kernel

end VyattaCfg.Perl
