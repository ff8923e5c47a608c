import VyattaCfg.Client.UriParser

namespace VyattaCfg.Client

open ByteString Percent

abbrev Cpath := List Bytes

abbrev slash : UInt8 := ch '/'

section Codec

variable (uri : UriParser)

def urlEscape (s : Bytes) : Bytes := cstr (uri.escape (cstr s))

def urlUnescape (s : Bytes) : Bytes := cstr (uri.unescape (cstr s))

namespace Cpath

def push (path : Cpath) (comp : Bytes) : Cpath := path ++ [cstr comp]

/-- `s.substr(s.find_first_not_of(" \t/"))`, where such a byte is found. -/
def stripped (s : Bytes) : Bytes :=
  match s.dropWhile (· ∈ str " \t/") with
  | [] => s
  | rest => rest

/-- `Cpath(const std::string &)`. -/
def ofString (comps : Bytes) : Cpath :=
  ((stripped comps).splitOn slash).foldl (fun path token => path.push (urlUnescape uri token)) []

def toPathString (path : Cpath) : Bytes :=
  path.zipIdx.foldl
    (fun out (comp, i) => (if 0 < i then out ++ [slash] else out) ++ urlEscape uri comp) [slash]

end Cpath

end Codec

namespace Cpath

variable {uri : UriParser}

theorem urlEscape_eq (comp : Bytes) : urlEscape uri comp = Percent.escape (cstr comp) := by
  rw [urlEscape, uri.escape_eq]
  exact cstr_of_nul_free (not_mem_escape (by decide) (by decide) _)

theorem urlUnescape_urlEscape (comp : Bytes) :
    urlUnescape uri (urlEscape uri comp) = normalizeBreaks false (cstr comp) := by
  have plain : 0 ∉ Percent.escape (cstr comp) := not_mem_escape (by decide) (by decide) _
  rw [urlUnescape, urlEscape_eq, uri.unescape_eq, cstr_of_nul_free plain, unescape_escape]
  exact cstr_of_nul_free (normalizeBreaks_nul_free (cstr_nul_free comp) false)

theorem slash_not_mem_urlEscape (comp : Bytes) : slash ∉ urlEscape uri comp := by
  rw [urlEscape_eq]
  exact not_mem_escape (by decide) (by decide) _

theorem dropWhile_urlEscape {comp : Bytes} (nonempty : cstr comp ≠ []) (rest : Bytes) :
    (urlEscape uri comp ++ rest).dropWhile (· ∈ str " \t/") = urlEscape uri comp ++ rest := by
  rw [urlEscape_eq]
  cases escaped : Percent.escape (cstr comp) with
  | nil => exact absurd ((escape_nil_iff _).mp escaped) nonempty
  | cons b tail =>
    have kept : b ∉ str " \t/" := by
      have first : unreserved b ∨ b = mark := mem_escape (s := cstr comp) (by rw [escaped]; simp)
      intro blank
      have cases : b = ch ' ' ∨ b = ch '\t' ∨ b = ch '/' := by simpa [str] using blank
      rcases first with first | rfl
      · rcases cases with rfl | rfl | rfl <;> exact absurd first (by decide)
      · exact absurd cases (by decide)
    simp [kept]

theorem foldl_toPathString (path : Cpath) (out : Bytes) (i : Nat) (inside : 0 < i) :
    (path.zipIdx i).foldl
      (fun out (comp, i) => (if 0 < i then out ++ [slash] else out) ++ urlEscape uri comp) out =
    out ++ path.flatMap (fun comp => slash :: urlEscape uri comp) := by
  induction path generalizing out i with
  | nil => simp
  | cons comp path ih =>
    rw [List.zipIdx_cons, List.foldl_cons, ih _ _ (by omega)]
    simp [inside]

theorem toPathString_nil : toPathString uri [] = [slash] := rfl

theorem toPathString_cons (comp : Bytes) (path : Cpath) : toPathString uri (comp :: path) =
    slash :: urlEscape uri comp ++ path.flatMap (fun comp => slash :: urlEscape uri comp) := by
  rw [toPathString, List.zipIdx_cons, List.foldl_cons, foldl_toPathString _ _ _ (by omega)]
  simp

theorem ofString_eq (s : Bytes) : ofString uri s = ((stripped s).splitOn slash).map (urlUnescape uri) := by
  have pushed : ∀ (tokens : List Bytes) (path : Cpath),
      tokens.foldl (fun path token => push path (urlUnescape uri token)) path =
        path ++ tokens.map (urlUnescape uri) := by
    intro tokens
    induction tokens with
    | nil => simp
    | cons token tokens ih =>
      intro path
      rw [List.foldl_cons, ih, push, urlUnescape, cstr_idempotent]
      simp [urlUnescape]
  exact pushed _ _

theorem splitOn_slash_cons (s : Bytes) : (slash :: s).splitOn slash = [] :: s.splitOn slash := by
  rw [List.splitOn_cons_eq_if_modifyHead]
  simp

theorem splitOn_escaped (comp : Bytes) (path : Cpath) :
    (urlEscape uri comp ++ path.flatMap (fun comp => slash :: urlEscape uri comp)).splitOn slash =
      (comp :: path).map (urlEscape uri) := by
  have joined : urlEscape uri comp ++ path.flatMap (fun comp => slash :: urlEscape uri comp) =
      [slash].intercalate ((comp :: path).map (urlEscape uri)) := by
    induction path generalizing comp with
    | nil => simp
    | cons next path ih =>
      rw [List.map_cons, List.map_cons, List.intercalate_cons_cons, ← List.map_cons, ← ih next]
      simp
  rw [joined]
  apply List.splitOn_intercalate
  · intro token member
    obtain ⟨comp, -, rfl⟩ := List.mem_map.mp member
    exact slash_not_mem_urlEscape comp
  · simp

theorem nul_not_mem_toPathString (uri : UriParser) (path : Cpath) : 0 ∉ toPathString uri path := by
  have plain : (0 : UInt8) ≠ slash := by decide
  have escaped : ∀ comp : Bytes, 0 ∉ urlEscape uri comp := fun comp => cstr_nul_free _
  cases path with
  | nil => simpa [toPathString_nil] using plain
  | cons comp path => simp [toPathString_cons, escaped, plain]

theorem length_toPathString_dropLast (path : Cpath) :
    (toPathString uri path.dropLast).length ≤ (toPathString uri path).length := by
  cases path with
  | nil => exact le_refl _
  | cons comp path =>
    cases path with
    | nil => simp [toPathString_nil, toPathString_cons]
    | cons next path =>
      have shorter : ((next :: path).dropLast.flatMap (fun comp => slash :: urlEscape uri comp)).length ≤
          ((next :: path).flatMap (fun comp => slash :: urlEscape uri comp)).length := by
        obtain ⟨rest, whole⟩ := List.dropLast_prefix (next :: path)
        rw [← congrArg (List.flatMap _) whole, List.flatMap_append, List.length_append]
        omega
      rw [List.dropLast_cons_cons, toPathString_cons, toPathString_cons, List.length_append, List.length_append]
      omega

theorem ofString_nul_free (s : Bytes) : ∀ comp ∈ ofString uri s, 0 ∉ comp := by
  intro comp member
  rw [ofString_eq] at member
  obtain ⟨token, -, rfl⟩ := List.mem_map.mp member
  exact cstr_nul_free _

end Cpath

end VyattaCfg.Client
