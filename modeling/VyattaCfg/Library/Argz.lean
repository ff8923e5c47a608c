import VyattaCfg.Library.Bytes
import VyattaCfg.Library.Words

namespace Argz

open ByteString

abbrev Vector := List Bytes

/-- `argz_create_sep`: separators at the start or next to another one make no entry, one at
    the end of the string makes a last, empty entry. -/
def createSep (s : Bytes) (sep : UInt8) : Vector :=
  (s.splitOn sep).filter (· ≠ []) ++ if s.getLast? = some sep then [[]] else []

def len : Vector → Nat
  | [] => 0
  | entry :: argz => entry.length + 1 + len argz

def stringify (argz : Vector) (sep : UInt8) : Bytes := [sep].intercalate argz

theorem len_pos_iff (argz : Vector) : 0 < len argz ↔ argz ≠ [] := by
  cases argz with
  | nil => simp [len]
  | cons entry argz =>
    simp only [len, ne_eq, List.cons_ne_nil, not_false_iff, iff_true]
    omega

theorem createSep_eq_nil_iff (s : Bytes) (sep : UInt8) : createSep s sep = [] ↔ s = [] := by
  constructor
  · intro none
    obtain ⟨pieces, trailing⟩ := List.append_eq_nil_iff.mp none
    have blank := (Words.tokens_eq_nil_iff sep s).mp pieces
    by_contra filled
    have last : s.getLast? = some sep := by
      rw [List.getLast?_eq_some_getLast filled, blank _ (List.getLast_mem filled)]
    simp [last] at trailing
  · intro same
    subst same
    simp [createSep]

/-- Joined words come apart again, also behind one more separator. -/
theorem createSep_join {sep : UInt8} {words : List Bytes} (filled : words ≠ [])
    (separable : Words.Separable sep words) {front : Bytes} (slashed : front = [] ∨ front = [sep]) :
    createSep (front ++ Words.join sep words) sep = words := by
  have last := Words.getLast?_join sep separable
  have nonempty := Words.join_ne_nil sep filled separable
  have tokens : ((Words.join sep words).splitOn sep).filter (· ≠ []) = words := Words.tokens_join sep separable
  rcases slashed with rfl | rfl
  · rw [List.nil_append, createSep, tokens, if_neg last, List.append_nil]
  · have lastFront : ([sep] ++ Words.join sep words).getLast? ≠ some sep := by
      rwa [List.singleton_append, List.getLast?_cons_of_ne_nil nonempty]
    rw [createSep, if_neg lastFront, List.append_nil, List.singleton_append,
      List.splitOn_cons_eq_if_modifyHead, if_pos (by simp), List.filter_cons_of_neg (by simp), tokens]

end Argz
