import VyattaCfg.Compat.PathEncoders

namespace VyattaCfg.Client

open ByteString Percent

/-- `URI_MULT` -/
def uriMult : Nat := 6

section Buffers

variable (uri : UriParser)

/-- What `uriEscapeA` leaves in a buffer of this size; `none` where it writes behind the end. -/
def uriEscapeA (s : Bytes) (size : Nat) : Option Bytes :=
  let written := uri.escape (cstr s) ++ [0]
  if written.length ≤ size then some written else none

/-- `Cpath::url_escape`, with its buffer. -/
def Cpath.urlEscapeIn (s : Bytes) : Option Bytes :=
  (uriEscapeA uri s ((cstr s).length * uriMult)).map cstr

/-- `url_escape` of the client class; the length is that of a `std::string`. -/
def CfgClient.urlEscapeIn (s : Bytes) : Option Bytes := (uriEscapeA uri s (s.length * uriMult)).map cstr

end Buffers

end VyattaCfg.Client

namespace VyattaCfg.Compat

open ByteString Percent VyattaCfg.Client

section Buffers

variable (uri : UriParser)

/-- A component in `strVecToChar`. -/
def escapedIn (comp : Bytes) : Option Bytes := (uriEscapeA uri comp (comp.length * uriMult)).map cstr

/-- `Cstore::strVecToChar`, with its buffers. -/
def strVecToCharIn (sv : List Bytes) : Option Bytes :=
  match sv with
  | [] => some [slash]
  | [comp] => some (cstr comp)
  | sv => do
    let path ← sv.dropLast.foldlM (fun path comp => do some (path ++ (← escapedIn uri comp) ++ [slash])) [slash]
    some (cstr (path ++ (← escapedIn uri (sv.getLastD []))))

end Buffers

variable {uri : UriParser}

theorem length_escaped_nul_le_iff (s : Bytes) :
    (Percent.escape s ++ [0]).length ≤ s.length * uriMult ↔ ¬ LoneBreaks s := by
  rw [List.length_append, ← length_escape_lt_iff, uriMult, Nat.mul_comm]
  exact Iff.rfl

/-- The NUL has room exactly where not every byte takes six. -/
theorem uriEscapeA_eq {s : Bytes} (free : 0 ∉ s) :
    (uriEscapeA uri s (s.length * uriMult)).map cstr = if LoneBreaks s then none else some (urlEscape uri s) := by
  have plain : 0 ∉ Percent.escape s := not_mem_escape (by decide) (by decide) s
  have room := length_escaped_nul_le_iff s
  rw [uriEscapeA, cstr_of_nul_free free, Cpath.urlEscape_eq, cstr_of_nul_free free, uri.escape_eq]
  by_cases lone : LoneBreaks s
  · rw [if_pos lone, if_neg (mt room.mp (not_not_intro lone)), Option.map_none]
  · rw [if_neg lone, if_pos (room.mpr lone), Option.map_some, cstr_cut plain]

theorem escapedIn_eq {comp : Bytes} (free : 0 ∉ comp) :
    escapedIn uri comp = if LoneBreaks comp then none else some (urlEscape uri comp) := uriEscapeA_eq free

theorem foldlM_escapedIn {sv : List Bytes} (free : ∀ comp ∈ sv, 0 ∉ comp) (path : Bytes) :
    sv.foldlM (fun path comp => do some (path ++ (← escapedIn uri comp) ++ [slash])) path =
      if ∃ comp ∈ sv, LoneBreaks comp then none
      else some (sv.foldl (fun path comp => path ++ cstr (uri.escape (cstr comp)) ++ [slash]) path) := by
  induction sv generalizing path with
  | nil => simp
  | cons comp sv ih =>
    rw [List.forall_mem_cons] at free
    have later : (∃ c ∈ comp :: sv, LoneBreaks c) ↔ LoneBreaks comp ∨ ∃ c ∈ sv, LoneBreaks c := by simp
    rw [List.foldlM_cons, escapedIn_eq free.1]
    by_cases lone : LoneBreaks comp
    · rw [if_pos lone, if_pos (later.mpr (.inl lone))]
      rfl
    · have rest := ih free.2 (path ++ urlEscape uri comp ++ [slash])
      simp only [later, lone, false_or, if_false]
      exact rest

theorem strVecToCharIn_several {comps : List Bytes} {last : Bytes} (several : comps ≠ [])
    (free : ∀ comp ∈ comps ++ [last], 0 ∉ comp) :
    strVecToCharIn uri (comps ++ [last]) =
      if ∃ comp ∈ comps ++ [last], LoneBreaks comp then none else some (strVecToChar uri (comps ++ [last])) := by
  obtain ⟨freeComps, freeLast⟩ := List.forall_mem_append.mp free
  obtain ⟨comp, next, rest, shape⟩ : ∃ comp next rest, comps ++ [last] = comp :: next :: rest := by
    obtain ⟨comp, comps, rfl⟩ := List.exists_cons_of_ne_nil several
    cases comps with
    | nil => exact ⟨comp, last, [], rfl⟩
    | cons next comps => exact ⟨comp, next, comps ++ [last], rfl⟩
  have ran : strVecToCharIn uri (comps ++ [last]) =
      (do
        let path ← comps.foldlM (fun path comp => do some (path ++ (← escapedIn uri comp) ++ [slash])) [slash]
        some (cstr (path ++ (← escapedIn uri last)))) := by
    rw [shape, strVecToCharIn, ← shape]
    · simp
    · simp
    · simp
  have built : strVecToChar uri (comps ++ [last]) =
      cstr (comps.foldl (fun path comp => path ++ cstr (uri.escape (cstr comp)) ++ [slash]) [slash] ++
        urlEscape uri last) := by
    rw [shape, strVecToChar, ← shape]
    · simp [urlEscape]
    · simp
    · simp
  have any : (∃ comp ∈ comps ++ [last], LoneBreaks comp) ↔ (∃ comp ∈ comps, LoneBreaks comp) ∨ LoneBreaks last := by
    simp [or_and_right, exists_or]
  rw [ran, built, foldlM_escapedIn freeComps, escapedIn_eq (freeLast last List.mem_cons_self)]
  simp only [any]
  by_cases front : ∃ comp ∈ comps, LoneBreaks comp
  · simp [front]
  · by_cases ends : LoneBreaks last
    · simp [front, ends]
    · simp [front, ends]

/-- The path is built where every component that is escaped has a buffer that holds it. -/
theorem strVecToCharIn_eq_iff (uri : UriParser) {sv : List Bytes} (free : ∀ comp ∈ sv, 0 ∉ comp) :
    strVecToCharIn uri sv = some (strVecToChar uri sv) ↔ sv.length ≤ 1 ∨ ∀ comp ∈ sv, ¬ LoneBreaks comp := by
  induction sv using List.reverseRecOn with
  | nil => exact iff_of_true rfl (.inl (Nat.zero_le 1))
  | append_singleton comps last =>
    by_cases single : comps = []
    · subst single
      exact iff_of_true rfl (.inl (le_refl 1))
    · have several : ¬ (comps ++ [last]).length ≤ 1 := by
        have filled := List.length_pos_iff.mpr single
        rw [List.length_append, List.length_singleton]
        omega
      rw [strVecToCharIn_several single free]
      simp only [several, false_or]
      split
      · rename_i found
        obtain ⟨comp, member, lone⟩ := found
        exact iff_of_false nofun fun all => all comp member lone
      · rename_i clean
        exact iff_of_true rfl fun comp member lone => clean ⟨comp, member, lone⟩

/-- Escaping stays inside each of the three buffers exactly where the text is not made of line breaks
    of one byte each. -/
theorem escape_buffer_fits_iff (uri : UriParser) {s : Bytes} (free : 0 ∉ s) :
    ((uri.escape s ++ [0]).length ≤ s.length * uriMult ∧ Cpath.urlEscapeIn uri s = some (urlEscape uri s) ∧
      CfgClient.urlEscapeIn uri s = some (urlEscape uri s) ∧ escapedIn uri s = some (urlEscape uri s)) ↔
    ¬ LoneBreaks s := by
  have size : (uri.escape s ++ [0]).length ≤ s.length * uriMult ↔ ¬ LoneBreaks s := by
    rw [uri.escape_eq, length_escaped_nul_le_iff]
  have ran := @uriEscapeA_eq uri s free
  rw [Cpath.urlEscapeIn, CfgClient.urlEscapeIn, escapedIn, cstr_of_nul_free free, ran, size]
  by_cases lone : LoneBreaks s
  · simp [lone]
  · simp [lone]

theorem escape_buffer_fits_iff_tab :
    (uriparser.escape (str "a\tb") ++ [0]).length ≤ (str "a\tb").length * uriMult :=
  ((escape_buffer_fits_iff uriparser (s := str "a\tb") (by decide)).mpr (by decide)).1

/-- A newline and the NUL behind it take seven bytes of six. -/
theorem escape_buffer_overruns : ¬ ∀ s : Bytes, 0 ∉ s →
    (uriparser.escape s ++ [0]).length ≤ s.length * uriMult := by
  intro all
  have given := all (str "\n") (by decide)
  exact absurd given (by decide)

end VyattaCfg.Compat
