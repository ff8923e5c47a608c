import VyattaCfg.Cliexec.CstoreC
import VyattaCfg.Client.CpathRoundTrip

namespace VyattaCfg.Cliexec

open ByteString VyattaCfg.Client

inductive VarRefCall where
  | get (h : Handle) (refStr : Bytes) (fromActive : Bool)
  | set (h : Handle) (refStr value : Bytes) (toActive : Bool)

section Runs

variable (uri : UriParser)

/-- What a call that returns has passed to `set_cfg_path`. -/
def VarRefCall.written (cfgPath : CfgPath) : VarRefCall → Option (List Bytes)
  | .get h refStr fromActive => some (cstoreGetVarRef uri h cfgPath refStr fromActive).written
  | .set h refStr value toActive => (cstoreSetVarRef uri h cfgPath refStr value toActive).map Called.written

/-- No string that is set is cut short, and the path decodes as it did before the call. -/
structure PathKept (before : CfgPath) (written : List Bytes) : Prop where
  whole : ∀ s ∈ written, s.length ≤ 4095
  decoded : Cpath.ofString uri (setAll before written).text = Cpath.ofString uri before.text

def RunKeepsPath : CfgPath → List VarRefCall → Prop
  | _, [] => True
  | cfgPath, call :: calls =>
    match call.written uri cfgPath with
    | none => True
    | some written => PathKept uri cfgPath written ∧ RunKeepsPath (setAll cfgPath written) calls

end Runs

section Proofs

variable {uri : UriParser}

theorem cstoreGetVarRef_written (h : Handle) (cfgPath : CfgPath) (refStr : Bytes) (fromActive : Bool) :
    (cstoreGetVarRef uri h cfgPath refStr fromActive).written =
      match Ctemplate.get h.configd cfgPath.text with
      | none => []
      | some tmpl =>
        let path := Cpath.ofString uri cfgPath.text
        [Cpath.toPathString uri (if tmpl.isValue then path.dropLast else path), Cpath.toPathString uri path] := by
  unfold cstoreGetVarRef
  cases Ctemplate.get h.configd cfgPath.text <;> rfl

theorem cstoreSetVarRef_written {h : Handle} {cfgPath : CfgPath} {refStr value : Bytes} {called : Called Bool}
    (returned : cstoreSetVarRef uri h cfgPath refStr value false = some called) :
    called.written = [Cpath.toPathString uri (Cpath.ofString uri cfgPath.text).dropLast,
      Cpath.toPathString uri (Cpath.ofString uri cfgPath.text)] := by
  simp only [cstoreSetVarRef, Bool.false_eq_true, if_false] at returned
  split at returned
  · cases returned
  · cases returned
    rfl
  · split at returned
    · cases returned
      rfl
    · split at returned
      · cases returned
        rfl
      · cases returned
        rfl
      · cases returned
      · cases returned

/-- All that the calls do to `cfg_path`: nothing, or two writes of which the second encodes
    the whole path and the first the path or the path less its last component. -/
theorem written_cases {cfgPath : CfgPath} {call : VarRefCall} {written : List Bytes}
    (called : call.written uri cfgPath = some written) :
    written = [] ∨ ∃ working, (working = Cpath.ofString uri cfgPath.text ∨
      working = (Cpath.ofString uri cfgPath.text).dropLast) ∧
      written = [Cpath.toPathString uri working, Cpath.toPathString uri (Cpath.ofString uri cfgPath.text)] := by
  cases call with
  | get h refStr fromActive =>
    obtain rfl := Option.some.inj called
    rw [cstoreGetVarRef_written]
    cases Ctemplate.get h.configd cfgPath.text with
    | none => exact .inl rfl
    | some tmpl =>
      right
      cases value : tmpl.isValue with
      | true => exact ⟨_, .inr rfl, by simp [value]⟩
      | false => exact ⟨_, .inl rfl, by simp [value]⟩
  | set h refStr value toActive =>
    obtain ⟨result, returned, rfl⟩ := Option.map_eq_some_iff.mp called
    cases toActive with
    | true =>
      obtain rfl := Option.some.inj returned
      exact .inl rfl
    | false => exact .inr ⟨_, .inr rfl, cstoreSetVarRef_written returned⟩

structure Stable (uri : UriParser) (path : Cpath) : Prop where
  canonical : Cpath.Canonical path
  fits : (Cpath.toPathString uri path).length ≤ 4095

theorem setCfgPath_text {path : Cpath} (fits : (Cpath.toPathString uri path).length ≤ 4095) :
    (setCfgPath (Cpath.toPathString uri path)).text = Cpath.toPathString uri path := by
  have copied : (setCfgPath (Cpath.toPathString uri path)).text =
      (cstr (Cpath.toPathString uri path)).take 4095 := rfl
  rw [copied, cstr_of_nul_free (Cpath.nul_not_mem_toPathString uri path)]
  exact List.take_of_length_le fits

theorem pathKept_of_stable {cfgPath : CfgPath} (stable : Stable uri (Cpath.ofString uri cfgPath.text))
    {call : VarRefCall} {written : List Bytes} (called : call.written uri cfgPath = some written) :
    PathKept uri cfgPath written := by
  rcases written_cases called with rfl | ⟨working, which, rfl⟩
  · exact ⟨nofun, rfl⟩
  · constructor
    · intro s member
      have shorter : (Cpath.toPathString uri working).length ≤ 4095 := by
        rcases which with rfl | rfl
        · exact stable.fits
        · exact (Cpath.length_toPathString_dropLast _).trans stable.fits
      rw [List.mem_cons, List.mem_singleton] at member
      rcases member with rfl | rfl
      · exact shorter
      · exact stable.fits
    · rw [setAll, List.foldl_cons, List.foldl_cons, List.foldl_nil, setCfgPath_text stable.fits]
      exact (Cpath.ofString_toPathString_iff (Cpath.ofString_nul_free _)).mpr stable.canonical

theorem runKeepsPath_of_stable {cfgPath : CfgPath} (stable : Stable uri (Cpath.ofString uri cfgPath.text))
    (calls : List VarRefCall) : RunKeepsPath uri cfgPath calls := by
  induction calls generalizing cfgPath with
  | nil => trivial
  | cons call calls ih =>
    rw [RunKeepsPath]
    cases called : call.written uri cfgPath with
    | none => trivial
    | some written =>
      have kept := pathKept_of_stable stable called
      have next : Stable uri (Cpath.ofString uri (setAll cfgPath written).text) := by
        rw [kept.decoded]
        exact stable
      exact ⟨kept, ih next⟩

end Proofs

def typelessHandle : Handle where
  configd :=
    { nodeGet _ _ := none
      nodeExists _ _ := 0
      nodeGetStatus _ _ := -1
      nodeGetType _ := -1
      tmplGet _ := some []
      tmplGetAllowed _ := .refused none
      getHelp _ _ := none
      set _ := .refused none
      sessExists := 1 }
  atString := []

/-- Every run keeps the path that one call keeps. -/
theorem cfg_path_kept_iff (uri : UriParser) (cfgPath : CfgPath) :
    (∀ calls, RunKeepsPath uri cfgPath calls) ↔
      ((∃ comp ∈ (Cpath.ofString uri cfgPath.text).head?, comp ≠ []) ∧
        ∀ comp ∈ Cpath.ofString uri cfgPath.text, Percent.normalizeBreaks false comp = comp) ∧
      (Cpath.toPathString uri (Cpath.ofString uri cfgPath.text)).length ≤ 4095 := by
  constructor
  · intro keeps
    have kept := (keeps [.get typelessHandle [] false]).1
    have whole := kept.whole _ (List.mem_cons_of_mem _ List.mem_cons_self)
    have decoded := kept.decoded
    rw [setAll] at decoded
    have same : Cpath.ofString uri (Cpath.toPathString uri (Cpath.ofString uri cfgPath.text)) =
        Cpath.ofString uri cfgPath.text := by
      rw [← setCfgPath_text whole]
      exact decoded
    have canonical := (Cpath.ofString_toPathString_iff (Cpath.ofString_nul_free _)).mp same
    exact ⟨⟨canonical.first, canonical.breaks⟩, whole⟩
  · intro held calls
    rcases held with ⟨⟨first, breaks⟩, fits⟩
    exact runKeepsPath_of_stable ⟨⟨first, breaks⟩, fits⟩ calls

/-- A line feed in the path comes back as CRLF. -/
theorem cfg_path_line_feed : ¬ ∀ (cfgPath : CfgPath) (calls : List VarRefCall),
    RunKeepsPath uriparser cfgPath calls := by
  intro keeps
  have kept := (keeps (setCfgPath (str "/banner/a%0Ab")) [.get typelessHandle (str "@") false]).1.decoded
  exact absurd kept (by decide +kernel)

end VyattaCfg.Cliexec
