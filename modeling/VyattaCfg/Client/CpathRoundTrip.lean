import VyattaCfg.Client.Cpath

namespace VyattaCfg.Client.Cpath

open ByteString Percent

variable {uri : UriParser}

abbrev normalized (comp : Bytes) : Bytes := normalizeBreaks false comp

theorem stripped_of_nonempty {s t : Bytes} (rest : s.dropWhile (· ∈ str " \t/") = t) (nonempty : t ≠ []) :
    stripped s = t := by
  cases t with
  | nil => exact absurd rfl nonempty
  | cons b t => rw [stripped, rest]

theorem ofString_slashes (n : Nat) :
    ofString uri (List.replicate n slash) = List.replicate (n + 1) [] := by
  have unchanged : stripped (List.replicate n slash) = List.replicate n slash := by
    have blank : slash ∈ str " \t/" := by decide
    simp [stripped, blank]
  have split : ∀ n, (List.replicate n slash).splitOn slash = List.replicate (n + 1) [] := by
    intro n
    induction n with
    | zero => rfl
    | succ n ih =>
      rw [List.replicate_succ, splitOn_slash_cons, ih]
      rfl
  have empty : urlUnescape uri [] = [] := by
    rw [urlUnescape, uri.unescape_eq]
    rfl
  rw [ofString_eq, unchanged, split, List.map_replicate, empty]

theorem toPathString_empties (n : Nat) :
    toPathString uri (List.replicate (n + 1) []) = List.replicate (n + 1) slash := by
  have empty : urlEscape uri [] = [] := by
    rw [urlEscape_eq]
    rfl
  have tail : ∀ n, (List.replicate n []).flatMap (fun comp => slash :: urlEscape uri comp) =
      List.replicate n slash := by
    intro n
    induction n with
    | zero => rfl
    | succ n ih => simp [List.replicate_succ, empty, ih]
  rw [List.replicate_succ, toPathString_cons, tail, empty, List.replicate_succ]
  simp

/-- Leading empty components leave only slashes, which the decoder strips with the first one. -/
theorem dropWhile_toPathString {path : Cpath} {comp : Bytes} {rest : Cpath} (free : ∀ c ∈ path, 0 ∉ c)
    (first : path.dropWhile List.isEmpty = comp :: rest) :
    (path.flatMap (fun comp => slash :: urlEscape uri comp)).dropWhile (· ∈ str " \t/") =
      urlEscape uri comp ++ rest.flatMap (fun comp => slash :: urlEscape uri comp) := by
  have blank : slash ∈ str " \t/" := by decide
  induction path with
  | nil => simp at first
  | cons c path ih =>
    rw [List.flatMap_cons, List.cons_append, List.dropWhile_cons_of_pos (by simpa using blank)]
    by_cases empty : c = []
    · have escaped : urlEscape uri c = [] := by
        rw [urlEscape_eq, empty]
        rfl
      rw [escaped, List.nil_append]
      apply ih (fun c member => free c (List.mem_cons_of_mem _ member))
      simpa [empty] using first
    · rw [List.dropWhile_cons_of_neg (by simpa using empty)] at first
      obtain ⟨rfl, rfl⟩ := List.cons.inj first
      apply dropWhile_urlEscape
      rwa [cstr_of_nul_free (free c List.mem_cons_self)]

theorem flatMap_eq_toPathString {path : Cpath} (nonempty : path ≠ []) :
    toPathString uri path = path.flatMap (fun comp => slash :: urlEscape uri comp) := by
  cases path with
  | nil => exact absurd rfl nonempty
  | cons comp path => rw [toPathString_cons, List.flatMap_cons]

theorem ofString_toPathString {path : Cpath} (free : ∀ c ∈ path, 0 ∉ c) (filled : ∃ c ∈ path, c ≠ []) :
    ofString uri (toPathString uri path) = (path.dropWhile List.isEmpty).map normalized := by
  rcases filled with ⟨c, member, nonempty⟩
  cases first : path.dropWhile List.isEmpty with
  | nil =>
    have empty := List.dropWhile_eq_nil_iff.mp first c member
    simp [nonempty] at empty
  | cons comp rest =>
    have kept : comp ≠ [] := by
      have := List.head_dropWhile_not List.isEmpty (l := path) (by simp [first])
      simpa [first] using this
    have inside : ∀ c ∈ comp :: rest, 0 ∉ c := by
      intro c member
      exact free c ((List.dropWhile_suffix _).mem (first ▸ member))
    have stripped : (toPathString uri path).dropWhile (· ∈ str " \t/") =
        urlEscape uri comp ++ rest.flatMap (fun comp => slash :: urlEscape uri comp) := by
      rw [flatMap_eq_toPathString (List.ne_nil_of_mem member)]
      exact dropWhile_toPathString free first
    have token : urlEscape uri comp ≠ [] := by
      rw [urlEscape_eq, Ne, escape_nil_iff, cstr_of_nul_free (inside comp List.mem_cons_self)]
      exact kept
    rw [ofString_eq, stripped_of_nonempty stripped (by simp [token]), splitOn_escaped, List.map_map]
    apply List.map_congr_left
    intro c member
    rw [Function.comp, urlUnescape_urlEscape, cstr_of_nul_free (inside c member)]

/-- The paths that come back as they are: the root does not, it comes back as two empty
    components. -/
structure Canonical (path : Cpath) : Prop where
  first : ∃ comp ∈ path.head?, comp ≠ []
  breaks : ∀ comp ∈ path, normalized comp = comp

theorem map_normalized_iff {path : Cpath} :
    path.map normalized = path ↔ ∀ comp ∈ path, normalized comp = comp := by
  have same := List.map_inj_left (l := path) (f := normalized) (g := id)
  rwa [List.map_id] at same

theorem ofString_toPathString_iff {path : Cpath} (free : ∀ c ∈ path, 0 ∉ c) :
    ofString uri (toPathString uri path) = path ↔ Canonical path := by
  by_cases filled : ∃ c ∈ path, c ≠ []
  · rw [ofString_toPathString free filled]
    obtain ⟨comp, rest, rfl⟩ : ∃ comp rest, path = comp :: rest :=
      List.exists_cons_of_ne_nil (List.ne_nil_of_mem filled.choose_spec.1)
    constructor
    · intro same
      have all := congrArg List.length same
      have kept : comp ≠ [] := by
        intro given
        subst given
        have shorter := (List.dropWhile_suffix List.isEmpty (l := rest)).length_le
        rw [List.dropWhile_cons_of_pos rfl, List.length_map, List.length_cons] at all
        omega
      rw [List.dropWhile_cons_of_neg (by simpa using kept)] at same
      exact ⟨⟨comp, rfl, kept⟩, map_normalized_iff.mp same⟩
    · intro held
      rcases held with ⟨⟨_, ⟨rfl⟩, kept⟩, breaks⟩
      rw [List.dropWhile_cons_of_neg (by simpa using kept)]
      exact map_normalized_iff.mpr breaks
  · push Not at filled
    have empties : path = List.replicate path.length [] := List.eq_replicate_of_mem filled
    constructor
    · intro same
      cases length : path.length with
      | zero =>
        rw [List.length_eq_zero_iff] at length
        rw [length, toPathString_nil] at same
        exact absurd same (by rw [← List.replicate_one, ofString_slashes]; simp)
      | succ n =>
        rw [length] at empties
        rw [empties, toPathString_empties, ofString_slashes] at same
        have longer := congrArg List.length same
        simp at longer
    · intro held
      rcases held with ⟨⟨comp, first, kept⟩, -⟩
      exact absurd (filled comp (List.mem_of_mem_head? first)) kept

theorem canonical_map_normalized {path : Cpath} (first : ∃ comp ∈ path.head?, comp ≠ []) :
    Canonical (path.map normalized) := by
  rcases first with ⟨comp, head, kept⟩
  refine ⟨⟨normalized comp, ?_, ?_⟩, ?_⟩
  · rw [List.head?_map, Option.mem_def.mp head]
    rfl
  · rwa [Ne, normalizeBreaks_nil_iff]
  · intro c member
    obtain ⟨comp, -, rfl⟩ := List.mem_map.mp member
    exact normalizeBreaks_idempotent false comp

/-- One round trip settles a path: further ones change nothing. -/
theorem round_trip_settles {path : Cpath} (free : ∀ c ∈ path, 0 ∉ c) (filled : ∃ c ∈ path, c ≠ []) :
    ofString uri (toPathString uri (ofString uri (toPathString uri path))) =
      ofString uri (toPathString uri path) := by
  rw [ofString_toPathString free filled]
  have canonical : Canonical ((path.dropWhile List.isEmpty).map normalized) := by
    apply canonical_map_normalized
    rcases filled with ⟨c, member, nonempty⟩
    have remains : path.dropWhile List.isEmpty ≠ [] := fun gone =>
      nonempty (by simpa using List.dropWhile_eq_nil_iff.mp gone c member)
    have kept := List.head_dropWhile_not List.isEmpty remains
    exact ⟨_, List.head?_eq_some_head remains, by simpa using kept⟩
  refine (ofString_toPathString_iff ?_).mpr canonical
  intro c member
  obtain ⟨comp, kept, rfl⟩ := List.mem_map.mp member
  exact normalizeBreaks_nul_free (free comp ((List.dropWhile_suffix _).subset kept)) false
theorem path_string_decoded (uri : UriParser) (path : Cpath) (free : ∀ c ∈ path, 0 ∉ c)
    (filled : ∃ c ∈ path, c ≠ []) :
    ofString uri (toPathString uri path) = (path.dropWhile List.isEmpty).map normalized ∧
      (ofString uri (toPathString uri path) = path ↔
        path.head? ≠ some [] ∧ ∀ comp ∈ path, normalized comp = comp) := by
  refine ⟨ofString_toPathString free filled, ?_⟩
  rw [ofString_toPathString_iff free]
  obtain ⟨comp, rest, rfl⟩ : ∃ comp rest, path = comp :: rest :=
    List.exists_cons_of_ne_nil (List.ne_nil_of_mem filled.choose_spec.1)
  constructor
  · intro held
    rcases held with ⟨⟨_, ⟨rfl⟩, kept⟩, breaks⟩
    exact ⟨by simpa using kept, breaks⟩
  · intro held
    rcases held with ⟨kept, breaks⟩
    exact ⟨⟨comp, rfl, by simpa using kept⟩, breaks⟩

theorem path_string_decoded_mixed :
    ofString uriparser (toPathString uriparser [str "a/b", [], str " 50% x", [cr, lf]]) =
      [str "a/b", [], str " 50% x", [cr, lf]] :=
  ((path_string_decoded uriparser [str "a/b", [], str " 50% x", [cr, lf]] (by decide)
    ⟨str "a/b", by decide, by decide⟩).2).mpr ⟨by decide, by decide⟩

theorem path_string_line_feed : ¬ ∀ path : Cpath, (∀ c ∈ path, 0 ∉ c) →
    ofString uriparser (toPathString uriparser path) = path := by
  intro same
  have read : ofString uriparser (toPathString uriparser [[lf]]) = [[cr, lf]] := by decide +kernel
  have given := same [[lf]] (by decide)
  rw [read] at given
  exact absurd given (by decide)

end VyattaCfg.Client.Cpath
