import VyattaCfg.Client.Completion
import VyattaCfg.Library.ShellAssignments

namespace VyattaCfg.Client

open ByteString Shell

/-- What the shell has after the completion environment: the selected entries' keys, whether the
    last component is a value, the help of the value, and the entries' items and texts. -/
def completionVariables (selected : List (Bytes × Bytes)) (lastCompVal : Bool) (compHelp : Bytes) :
    List Assignment :=
  [⟨str "_cli_shell_api_comp_values", .array (selected.map Prod.fst)⟩,
    ⟨str "_cli_shell_api_last_comp_val", .scalar (if lastCompVal then str "true" else str "false")⟩,
    ⟨str "_cli_shell_api_comp_help", .scalar compHelp⟩,
    ⟨str "_cli_shell_api_hitems", .array (selected.map fun pair => trimmed pair.1)⟩,
    ⟨str "_cli_shell_api_hstrs", .array (selected.map fun pair => trimmed pair.2)⟩]

theorem isspace_quoting : isspace squote = false ∧ isspace backslash = false := by decide

theorem dropWhile_escape (s : Bytes) : (escape s).dropWhile isspace = escape (s.dropWhile isspace) := by
  induction s with
  | nil => rfl
  | cons c s ih =>
    by_cases blank : isspace c
    · have other : c ≠ squote := by
        rintro rfl
        exact absurd blank (by decide)
      rw [List.dropWhile_cons_of_pos blank, ← ih, escape_cons, if_neg other, List.singleton_append,
        List.dropWhile_cons_of_pos blank]
    · rw [List.dropWhile_cons_of_neg blank, escape_cons]
      split
      · rw [List.cons_append, List.dropWhile_cons_of_neg (by simp [isspace_quoting])]
      · rw [List.singleton_append, List.dropWhile_cons_of_neg blank]

theorem rdropWhile_escape (s : Bytes) : (escape s).rdropWhile isspace = escape (s.rdropWhile isspace) := by
  induction s using List.reverseRecOn with
  | nil => rfl
  | append_singleton s c ih =>
    rw [escape_append]
    by_cases blank : isspace c
    · have other : c ≠ squote := by
        rintro rfl
        exact absurd blank (by decide)
      have single : escape [c] = [c] := by simp [escape_cons, other]
      rw [single, List.rdropWhile_concat_pos isspace s c blank, List.rdropWhile_concat_pos isspace (escape s) c blank, ih]
    · have ends : ∃ front, escape [c] = front ++ [c] := by
        by_cases quote : c = squote
        · exact ⟨[squote, backslash, squote], by simp [escape_cons, quote]⟩
        · exact ⟨[], by simp [escape_cons, quote]⟩
      obtain ⟨front, single⟩ := ends
      rw [List.rdropWhile_concat_neg isspace s c blank, escape_append, single, ← List.append_assoc,
        List.rdropWhile_concat_neg isspace (escape s ++ front) c blank]

/-- An escape sequence has no blanks, so trimming never cuts one. -/
theorem trimmed_escape (s : Bytes) : trimmed (shellEscapeSquotes s) = escape (trimmed s) := by
  rw [trimmed, trimmed, ← rdropWhile_escape, ← dropWhile_escape]
  rfl

theorem quotedWords_escape (words : List Bytes) :
    quotedWords (words.map escape) = words.flatMap fun w => squoted (escape w) ++ [space] := by
  have front : str "'" = [squote] := by decide
  have back : str "' " = [squote, space] := by decide
  simp [quotedWords, List.flatMap_map, squoted, front, back]

def completionStatements (selected : List (Bytes × Bytes)) (lastCompVal : Bool) (compHelp : Bytes) :
    List (Assignment × Bytes) :=
  (completionVariables selected lastCompVal compHelp).zip
    [arrayText (selected.map Prod.fst),
      (if lastCompVal then str "true" else str "false") ++ [ch ';'],
      squoted (escape compHelp) ++ [ch ';'],
      arrayText (selected.map fun pair => trimmed pair.1),
      arrayText (selected.map fun pair => trimmed pair.2)]

theorem environmentString_eq (selected : List (Bytes × Bytes)) (lastCompVal : Bool) (compHelp : Bytes) :
    environmentString (selected.map Prod.fst) [] lastCompVal (shellEscapeSquotes compHelp) selected =
      (completionStatements selected lastCompVal compHelp).flatMap fun statement =>
        statement.1.name ++ ch '=' :: (statement.2 ++ [space]) := by
  have items : (selected.map fun pair => trimmed (shellEscapeSquotes pair.1)) =
      (selected.map fun pair => trimmed pair.1).map escape := by
    simp [trimmed_escape]
  have texts : (selected.map fun pair => trimmed (shellEscapeSquotes pair.2)) =
      (selected.map fun pair => trimmed pair.2).map escape := by
    simp [trimmed_escape]
  have keys : (selected.map Prod.fst).map shellEscapeSquotes = (selected.map Prod.fst).map escape := rfl
  have help : shellEscapeSquotes compHelp = escape compHelp := rfl
  have literals : str "_cli_shell_api_comp_values=(" = str "_cli_shell_api_comp_values" ++ [ch '=', ch '('] ∧
      str "_cli_shell_api_last_comp_val=" = str "_cli_shell_api_last_comp_val" ++ [ch '='] ∧
      str "_cli_shell_api_comp_help='" = str "_cli_shell_api_comp_help" ++ [ch '=', squote] ∧
      str "_cli_shell_api_hitems=(" = str "_cli_shell_api_hitems" ++ [ch '=', ch '('] ∧
      str "_cli_shell_api_hstrs=(" = str "_cli_shell_api_hstrs" ++ [ch '=', ch '('] := by
    decide +kernel
  have closings : str "); " = [ch ')', ch ';', space] ∧ str "'; " = [squote, ch ';', space] ∧
      str "true; " = str "true" ++ [ch ';', space] ∧ str "false; " = str "false" ++ [ch ';', space] := by decide
  obtain ⟨values, last, helps, hitems, hstrs⟩ := literals
  obtain ⟨closed, quoted, yes, no⟩ := closings
  have lastText : (if lastCompVal then str "true; " else str "false; ") =
      (if lastCompVal then str "true" else str "false") ++ [ch ';', space] := by
    rw [yes, no]
    split <;> rfl
  rw [environmentString, items, texts, keys, help, quotedWords_escape, quotedWords_escape, quotedWords_escape,
    lastText, values, last, helps, hitems, hstrs, closed, quoted]
  simp [completionStatements, completionVariables, arrayText, squoted]

theorem evalAssignments_environment (selected : List (Bytes × Bytes)) (lastCompVal : Bool) (compHelp : Bytes) :
    evalAssignments (environmentString (selected.map Prod.fst) [] lastCompVal (shellEscapeSquotes compHelp) selected) =
      some (completionVariables selected lastCompVal compHelp) := by
  have reads : ∀ statement ∈ completionStatements selected lastCompVal compHelp,
      isName statement.1.name = true ∧
        ∀ rest, readValue (statement.2 ++ rest) = some (statement.1.value, rest) := by
    have last : isName (if lastCompVal then str "true" else str "false") = true := by
      cases lastCompVal <;> decide
    simp only [completionStatements, completionVariables, List.zip_cons_cons, List.zip_nil_right, List.forall_mem_cons]
    exact ⟨⟨by decide, readValue_arrayText _⟩, ⟨by decide, readValue_word last⟩, ⟨by decide, readValue_squoted compHelp⟩,
      ⟨by decide, readValue_arrayText _⟩, ⟨by decide, readValue_arrayText _⟩, by simp⟩
  rw [environmentString_eq, evalAssignments_statements reads]
  rfl

end VyattaCfg.Client
