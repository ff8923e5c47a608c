import Mathlib.Data.List.DropRight
import VyattaCfg.Library.Words

namespace Dirname

variable {α : Type*} [DecidableEq α] {sep : α} {path dir base : List α}

def stripEnd (sep : α) (path : List α) : List α := path.rdropWhile (· = sep)

/-- The path up to its last component, with the separators in front of that one. -/
def upto (sep : α) (path : List α) : List α :=
  if stripEnd sep path = [] then path else (stripEnd sep path).rdropWhile (· ≠ sep)

/-- `dirname` of glibc. Two separators that the path starts with are kept where they are all that is left. -/
def dirname (sep dot : α) (path : List α) : List α :=
  if upto sep path = [] then [dot]
  else
    match stripEnd sep (upto sep path) with
    | [] => if upto sep path = [sep, sep] then [sep, sep] else [sep]
    | dir => dir

theorem stripEnd_append (filled : base ≠ []) (plain : sep ∉ base) : stripEnd sep (path ++ base) = path ++ base := by
  have last : base.getLast filled ≠ sep := fun same => plain (same ▸ List.getLast_mem filled)
  rw [stripEnd, List.rdropWhile_eq_self_iff]
  intro nonempty
  rw [List.getLast_append_of_ne_nil nonempty filled]
  simpa using last

theorem upto_append (filled : base ≠ []) (plain : sep ∉ base) : upto sep (path ++ sep :: base) = path ++ [sep] := by
  have split : path ++ sep :: base = (path ++ [sep]) ++ base := by simp
  have kept : (path ++ [sep] ++ base).rdropWhile (· ≠ sep) = (path ++ [sep]).rdropWhile (· ≠ sep) := by
    have all : ∀ c ∈ base.reverse, decide (c ≠ sep) = true := by
      intro c inside
      apply decide_eq_true
      intro same
      exact plain (same ▸ List.mem_reverse.mp inside)
    rw [List.rdropWhile, List.rdropWhile, List.reverse_append, List.dropWhile_append_of_pos all]
  rw [upto, split, stripEnd_append filled plain, if_neg (by simp), kept, List.rdropWhile_concat_neg]
  simp

/-- The directory of a path is what is in front of its last component. -/
theorem dirname_append (dot : α) (filled : base ≠ []) (plain : sep ∉ base) (below : dir ≠ [])
    (ended : dir.getLast? ≠ some sep) : dirname sep dot (dir ++ sep :: base) = dir := by
  have stripped : stripEnd sep (dir ++ [sep]) = dir := by
    rw [stripEnd, List.rdropWhile_concat_pos _ _ _ (by simp), List.rdropWhile_eq_self_iff]
    intro nonempty
    rw [List.getLast?_eq_some_getLast nonempty] at ended
    simpa using ended
  rw [dirname, upto_append filled plain, if_neg (by simp), stripped]
  cases dir with
  | nil => exact absurd rfl below
  | cons c dir => rfl

theorem dirname_top (dot : α) (filled : base ≠ []) (plain : sep ∉ base) : dirname sep dot (sep :: base) = [sep] := by
  have top : upto sep ([] ++ sep :: base) = [] ++ [sep] := upto_append filled plain
  have stripped : stripEnd sep [sep] = [] := by simp [stripEnd, List.rdropWhile]
  rw [List.nil_append, List.nil_append] at top
  rw [dirname, top, if_neg (by simp), stripped, if_neg (by simp)]

theorem dirname_root (dot : α) : dirname sep dot [sep] = [sep] := by
  have stripped : stripEnd sep [sep] = [] := by simp [stripEnd, List.rdropWhile]
  rw [dirname, upto, if_pos stripped, if_neg (by simp), stripped, if_neg (by simp)]

end Dirname
