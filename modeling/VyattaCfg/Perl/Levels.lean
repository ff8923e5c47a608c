import VyattaCfg.Library.Fields
import VyattaCfg.Perl.EnumerateBranch
import VyattaCfg.Perl.FindValues

namespace VyattaCfg.Perl

open ByteString Fields

section Paths

/-- `split /\s+/`: a blank in front leaves an empty field, and no empty field is left at the end. -/
def splitBlanks (s : Bytes) : List Bytes :=
  let words := fields perlSpace s
  if s.head?.any perlSpace ∧ words ≠ [] then [] :: words else words

/-- `get_path_comps`, with `_level` as the object has it. -/
def getPathComps (level pstr : Option Bytes) : List Bytes :=
  let pstr := pstr.getD []
  let pstr := match level with
    | some level => level ++ ch ' ' :: pstr
    | none => pstr
  let pstr := pstr.dropWhile perlSpace
  let pstr := pstr.rdropWhile perlSpace
  (splitBlanks pstr).filter (· ≠ str ".")

/-- `setLevel`, which returns what it leaves in `_level`. -/
def setLevel (current level : Option Bytes) : Option Bytes :=
  if level = some (str ".") then current else level <|> current

/-- `$pcomps[-$num]` is the first component for no name at all. -/
def returnParent (level : Option Bytes) (ppath : Bytes) : Option Bytes :=
  let pcomps := getPathComps level none
  let num := (splitBlanks ppath).length
  if num > pcomps.length then none else if num = 0 then pcomps[0]? else pcomps[pcomps.length - num]?

/-- A component that blanks do not cut, and that `get_path_comps` does not drop. -/
def PathWord (comp : Bytes) : Prop := Solid perlSpace comp ∧ comp ≠ str "."

end Paths

section Levels

@[simp] theorem perlSpace_blank : perlSpace (ch ' ') = true := by decide

theorem head?_rdropWhile {α : Type} (p : α → Bool) (s : List α) (c : α) (first : (s.rdropWhile p).head? = some c) :
    s.head? = some c := by
  obtain ⟨rest, same⟩ := List.rdropWhile_prefix p (l := s)
  rw [← same, List.head?_append_of_ne_nil]
  · exact first
  · intro empty
    rw [empty] at first
    cases first

theorem splitBlanks_trimmed (s : Bytes) :
    splitBlanks ((s.dropWhile perlSpace).rdropWhile perlSpace) = fields perlSpace s := by
  rw [splitBlanks, fields_rdropWhile, fields_dropWhile, if_neg]
  rintro ⟨blank, -⟩
  obtain ⟨c, first, here⟩ := (Option.any_eq_true _ _).mp blank
  have start := head?_rdropWhile perlSpace _ c first
  have unblank := List.head?_dropWhile_not perlSpace s
  rw [start] at unblank
  simp only at unblank
  rw [here] at unblank
  cases unblank

/-- The components are the words of the level and of the path. -/
theorem getPathComps_eq (level pstr : Option Bytes) :
    getPathComps level pstr =
      (fields perlSpace (level.getD []) ++ fields perlSpace (pstr.getD [])).filter (· ≠ str ".") := by
  cases level with
  | none =>
    rw [getPathComps, splitBlanks_trimmed, Option.getD_none, fields_nil, List.nil_append]
  | some level =>
    rw [getPathComps, splitBlanks_trimmed, fields_append perlSpace_blank]
    rfl

theorem getPathComps_level (level pstr : Option Bytes) :
    getPathComps level pstr = getPathComps level none ++ getPathComps none pstr := by
  rw [getPathComps_eq, getPathComps_eq level none, getPathComps_eq none pstr, List.filter_append]
  simp

theorem pathWord_of_mem {level pstr : Option Bytes} {comp : Bytes} (inside : comp ∈ getPathComps level pstr) :
    PathWord comp := by
  rw [getPathComps_eq, List.mem_filter, List.mem_append] at inside
  rcases inside with ⟨named | named, kept⟩
  · exact ⟨solid_of_mem named, by simpa using kept⟩
  · exact ⟨solid_of_mem named, by simpa using kept⟩

theorem getPathComps_join {path : List Bytes} (words : ∀ comp ∈ path, PathWord comp) :
    getPathComps (some (level path)) none = path := by
  have cut := (fields_join_iff perlSpace_blank path).mpr fun comp inside => (words comp inside).1
  rw [getPathComps_eq, Option.getD_some, level, cut, Option.getD_none, fields_nil, List.append_nil, List.filter_eq_self]
  intro comp inside
  simpa using (words comp inside).2

/-- A level that is set is not refused as the `.` of the current one, unless that is all there is of the path. -/
theorem setLevel_join {path : List Bytes} (words : ∀ comp ∈ path, PathWord comp) (current : Option Bytes) :
    setLevel current (some (level path)) = some (level path) := by
  rw [setLevel, if_neg]
  · rfl
  · intro dot
    have cut := getPathComps_join words
    rw [Option.some.inj dot, show getPathComps (some (str ".")) none = [] by decide] at cut
    subst cut
    exact absurd dot (by decide)

theorem splitBlanks_ups (ups : Nat) : splitBlanks (Words.join (ch ' ') (List.replicate ups (str ".."))) =
    List.replicate ups (str "..") := by
  have cut : fields perlSpace (Words.join (ch ' ') (List.replicate ups (str ".."))) = List.replicate ups (str "..") := by
    apply (fields_join_iff perlSpace_blank _).mpr
    intro word inside
    rw [List.eq_of_mem_replicate inside]
    exact ⟨by decide, by decide +kernel⟩
  rw [splitBlanks, cut, if_neg]
  rintro ⟨blank, filled⟩
  cases ups with
  | zero => exact filled rfl
  | succ ups =>
    cases ups with
    | zero => exact absurd blank (by decide)
    | succ ups =>
      rw [List.replicate_succ, Words.join_cons _ _ (by simp)] at blank
      have dot : perlSpace (ch '.') = true := blank
      exact absurd dot (by decide)

end Levels

/-- The level that is set for a path stands for it in front of whatever is asked for if and only if every
    component is a word, and then the parents are those of the path. -/
theorem level_stands_for_path (current : Option Bytes) (path : List Bytes) :
    ((∀ pstr, getPathComps (setLevel current (some (level path))) pstr =
        path ++ getPathComps none pstr) ↔ ∀ comp ∈ path, PathWord comp) ∧
      ((∀ comp ∈ path, PathWord comp) → ∀ ups > 0,
        returnParent (setLevel current (some (level path)))
            (Words.join (ch ' ') (List.replicate ups (str ".."))) =
          if ups > path.length then none else path[path.length - ups]?) := by
  constructor
  · constructor
    · intro stands comp inside
      have own := stands none
      rw [show getPathComps none none = [] by decide, List.append_nil] at own
      rw [← own] at inside
      exact pathWord_of_mem inside
    · intro words pstr
      rw [setLevel_join words, getPathComps_level, getPathComps_join words]
  · intro words ups up
    rw [setLevel_join words, returnParent, getPathComps_join words, splitBlanks_ups, List.length_replicate]
    simp only [if_neg (Nat.ne_of_gt up)]

end VyattaCfg.Perl
