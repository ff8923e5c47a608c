import VyattaCfg.Client.CfgClient

namespace VyattaCfg.Compat

open ByteString VyattaCfg.Client

/-- `Cstore::strVecToChar`. A single component is taken as it is. -/
def strVecToChar (uri : UriParser) (sv : List Bytes) : Bytes :=
  cstr <| match sv with
    | [] => [slash]
    | [comp] => comp
    | sv =>
      sv.dropLast.foldl (fun path comp => path ++ cstr (uri.escape (cstr comp)) ++ [slash]) [slash] ++
        cstr (uri.escape (cstr (sv.getLastD [])))

variable {uri : UriParser}

theorem mkpath_eq_toPathString (path : List Bytes) : mkpath uri path = Cpath.toPathString uri path := by
  simp only [mkpath, Cpath.toPathString, Nat.pos_iff_ne_zero]

theorem foldl_strVecToChar (comp : Bytes) (sv : List Bytes) (path : Bytes) :
    (comp :: sv).dropLast.foldl (fun path comp => path ++ cstr (uri.escape (cstr comp)) ++ [slash]) path ++
        cstr (uri.escape (cstr ((comp :: sv).getLastD []))) =
      path ++ urlEscape uri comp ++ sv.flatMap (fun comp => slash :: urlEscape uri comp) := by
  induction sv generalizing comp path with
  | nil => simp [urlEscape]
  | cons next sv ih =>
    rw [List.dropLast_cons_cons, List.foldl_cons, List.getLastD_cons, List.getLastD_cons,
      ← List.getLastD_cons, ih next]
    simp [urlEscape]

theorem strVecToChar_eq {sv : List Bytes} (other : sv.length ≠ 1) :
    strVecToChar uri sv = Cpath.toPathString uri sv := by
  have whole := cstr_of_nul_free (Cpath.nul_not_mem_toPathString uri sv)
  match sv with
  | [] => rfl
  | [_] => exact absurd rfl other
  | comp :: next :: sv =>
    rw [← whole, Cpath.toPathString_cons, strVecToChar]
    · rw [foldl_strVecToChar]
      rfl
    · simp
    · simp

theorem strVecToChar_single_ne (comp : Bytes) : strVecToChar uri [comp] ≠ Cpath.toPathString uri [comp] := by
  intro same
  have long := Percent.length_escape (cstr comp)
  have length := congrArg List.length same
  rw [Cpath.toPathString_cons, Cpath.urlEscape_eq] at length
  simp only [strVecToChar, List.flatMap_nil, List.append_nil, List.length_cons] at length
  omega

theorem splitOn_toPathString {path : List Bytes} (nonempty : path ≠ []) :
    (Cpath.toPathString uri path).splitOn slash = [] :: path.map (urlEscape uri) := by
  cases path with
  | nil => exact absurd rfl nonempty
  | cons comp path =>
    rw [Cpath.toPathString_cons, List.cons_append, Cpath.splitOn_slash_cons, Cpath.splitOn_escaped]

/-- Each encoder keeps the components apart where all three agree. -/
theorem path_encoders_agree_iff (uri : UriParser) (sv : List Bytes) :
    (strVecToChar uri sv = mkpath uri sv ∧ mkpath uri sv = Cpath.toPathString uri sv ∧
      (sv ≠ [] → (strVecToChar uri sv).splitOn slash = [] :: sv.map (urlEscape uri))) ↔
    sv.length ≠ 1 := by
  constructor
  · intro held single
    rcases held with ⟨same, same', -⟩
    obtain ⟨comp, rfl⟩ := List.length_eq_one_iff.mp single
    exact strVecToChar_single_ne comp (same.trans same')
  · intro other
    rw [mkpath_eq_toPathString, strVecToChar_eq other]
    exact ⟨rfl, rfl, splitOn_toPathString⟩

theorem path_encoders_differ : ¬ ∀ sv : List Bytes, (∀ comp ∈ sv, 0 ∉ comp) →
    strVecToChar uriparser sv = mkpath uriparser sv ∧
      mkpath uriparser sv = Cpath.toPathString uriparser sv ∧
      (sv ≠ [] → (strVecToChar uriparser sv).splitOn slash = [] :: sv.map (urlEscape uriparser)) := by
  intro agree
  have given := (agree [str "eth0/1"] (by decide)).1
  exact absurd given (by decide +kernel)

end VyattaCfg.Compat
