import VyattaCfg.Cliexec.Char2val

namespace VyattaCfg.Cliexec

open ByteString VyattaCfg.Client

def VtwDef.Allows (defn : VtwDef) (type : VtwType) : Prop :=
  type = defn.defType ∨ (defn.defType2 ≠ .error ∧ type = defn.defType2)

section Lines

variable {σ : Type} (w : World σ) (g : Globals) (defn : VtwDef) (value : Bytes) (state : σ)

/-- The help text of the type, if there is one, is one that `expand_string` gets through. -/
def HelpExpands : Prop :=
  ∀ help ∈ defn.defTypeHelp, ∃ expansion, expandString w { g with atString := value } help state = .ok expansion

/-- What may follow the first line: more lines, up to one of a type that is reported. -/
inductive LinesPass : List ValToken → Prop where
  | nothing : LinesPass []
  | last {type : VtwType} {val : Bytes} : defn.Allows type ∨ defn.defType2 = .error → LinesPass [.value type val]
  | line {type : VtwType} {val : Bytes} {rest : List ValToken} :
    defn.Allows type ∨ defn.defType2 = .error → LinesPass rest → LinesPass (.value type val :: .eol :: rest)
  | reported {type : VtwType} {val : Bytes} {rest : List ValToken} :
    ¬ (defn.Allows type ∨ defn.defType2 = .error) → HelpExpands w g defn value state →
      LinesPass (.value type val :: rest)

/-- The value is of the type asked for if it is a single value and only one type is asked for, and
    it does not have a second line that passes. -/
structure ChecksApply (tokens : List ValToken) : Prop where
  single : defn.defType2 = .error → ∀ type val, tokens = [.value type val] → type = defn.defType
  lines : ∀ type val rest, tokens = .value type val :: .eol :: rest →
    defn.Allows type ∨ defn.defType2 = .error → ¬ LinesPass w g defn value state rest

variable {w g defn value state}

theorem wrongType_expands (expands : HelpExpands w g defn value state) :
    ∃ errBuf after, wrongType w g defn value state = .ok (errBuf, after) := by
  unfold wrongType
  cases given : defn.defTypeHelp with
  | none => exact ⟨_, _, rfl⟩
  | some help =>
    obtain ⟨expansion, expanded⟩ := expands help given
    refine ⟨expansion.exeString ++ str "\n", expansion.state, ?_⟩
    simp only [expanded]
    rfl

theorem expands_of_wrongType {errBuf : Bytes} {after : σ}
    (ran : wrongType w g defn value state = .ok (errBuf, after)) : HelpExpands w g defn value state := by
  intro help given
  unfold wrongType at ran
  rw [Option.mem_def.mp given] at ran
  cases expanded : expandString w { g with atString := value } help state with
  | error abort =>
    simp only [expanded] at ran
    cases ran
  | ok expansion => exact ⟨expansion, rfl⟩

theorem foreign_iff {type : VtwType} :
    (defn.defType ≠ type ∧ (defn.defType2 ≠ .error ∧ defn.defType2 ≠ type)) ↔
      ¬ (defn.Allows type ∨ defn.defType2 = .error) := by
  unfold VtwDef.Allows
  constructor
  · rintro ⟨first, set, second⟩ ((same | ⟨-, same⟩) | unset)
    · exact first same.symm
    · exact second same.symm
    · exact set unset
  · intro neither
    rw [not_or, not_or] at neither
    obtain ⟨⟨first, second⟩, set⟩ := neither
    exact ⟨fun same => first same.symm, set, fun same => second ⟨set, same.symm⟩⟩

theorem addVal_valType (first second : ValStruct) : (addVal first second).valType = first.valType := by
  unfold addVal
  split <;> rfl

theorem notextLoop_lines {tokens : List ValToken} (lines : LinesPass w g defn value state tokens) (valp : ValStruct) :
    ∃ stored after, notextLoop w g defn value tokens (some valp) state = .ok (.ok stored, after) := by
  induction lines generalizing valp with
  | nothing => exact ⟨valp, state, rfl⟩
  | last passes =>
    rw [notextLoop, if_neg fun foreign => foreign_iff.mp foreign passes]
    exact ⟨_, _, rfl⟩
  | line passes _ ih =>
    rw [notextLoop, if_neg fun foreign => foreign_iff.mp foreign passes]
    exact ih _
  | reported foreign expands =>
    obtain ⟨errBuf, after, reported⟩ := wrongType_expands expands
    rw [notextLoop, if_pos (foreign_iff.mpr foreign), reported]
    exact ⟨valp, after, rfl⟩

theorem wrongType_rejects {stored : ValStruct} {after : σ} : (do
    let (errBuf, state) ← wrongType w g defn value state
    .ok (.error errBuf, state) : Except Abort (Except Bytes ValStruct × σ)) ≠ .ok (.ok stored, after) := by
  intro ran
  cases wrong : wrongType w g defn value state with
  | error abort =>
    rw [wrong] at ran
    cases ran
  | ok found =>
    rw [wrong] at ran
    cases ran

theorem notextLoop_rejects {token : ValToken} {tokens : List ValToken} (other : token = .eol ∨ token = .syntaxError)
    (valp : Option ValStruct) (stored : ValStruct) (after : σ) :
    notextLoop w g defn value (token :: tokens) valp state ≠ .ok (.ok stored, after) := by
  rcases other with rfl | rfl <;> exact wrongType_rejects

theorem notextLoop_reported {type : VtwType} (foreign : ¬ (defn.Allows type ∨ defn.defType2 = .error)) (val : Bytes)
    (tokens : List ValToken) (valp : Option ValStruct) (state : σ) :
    notextLoop w g defn value (.value type val :: tokens) valp state =
      wrongType w g defn value state >>= fun found => .ok (valp.elim (.error found.1) .ok, found.2) := by
  cases valp <;> rw [notextLoop, if_pos (foreign_iff.mpr foreign)] <;> rfl

theorem notextLoop_foreign {type : VtwType} {val : Bytes} {tokens : List ValToken}
    (foreign : ¬ (defn.Allows type ∨ defn.defType2 = .error)) {valp : Option ValStruct} {stored : ValStruct}
    {after : σ}
    (ran : notextLoop w g defn value (.value type val :: tokens) valp state = .ok (.ok stored, after)) :
    HelpExpands w g defn value state ∧ valp = some stored := by
  rw [notextLoop_reported foreign] at ran
  cases wrong : wrongType w g defn value state with
  | error abort =>
    rw [wrong] at ran
    cases ran
  | ok found =>
    rw [wrong] at ran
    refine ⟨expands_of_wrongType wrong, ?_⟩
    cases valp with
    | none => cases ran
    | some valp =>
      cases ran
      rfl

theorem lines_of_notextLoop {tokens : List ValToken} {valp stored : ValStruct} {after : σ}
    (ran : notextLoop w g defn value tokens (some valp) state = .ok (.ok stored, after)) :
    LinesPass w g defn value state tokens ∧ stored.valType = valp.valType := by
  induction size : tokens.length using Nat.strong_induction_on generalizing tokens valp with
  | _ n ih =>
    match tokens with
    | [] =>
      cases ran
      exact ⟨.nothing, rfl⟩
    | .eol :: _ => exact absurd ran (notextLoop_rejects (.inl rfl) _ _ _)
    | .syntaxError :: _ => exact absurd ran (notextLoop_rejects (.inr rfl) _ _ _)
    | .value type val :: tokens =>
      by_cases passes : defn.Allows type ∨ defn.defType2 = .error
      · rw [notextLoop, if_neg fun foreign => foreign_iff.mp foreign passes] at ran
        have kept : (if defn.multi then addVal valp (cliValue type val) else valp).valType = valp.valType := by
          split
          · exact addVal_valType _ _
          · rfl
        match tokens with
        | [] =>
          cases ran
          exact ⟨.last passes, kept⟩
        | .eol :: rest =>
          obtain ⟨lines, same⟩ := ih rest.length (by simp only [← size, List.length_cons]; omega) ran rfl
          exact ⟨.line passes lines, same.trans kept⟩
        | .value _ _ :: _ => cases ran
        | .syntaxError :: _ => cases ran
      · obtain ⟨expands, same⟩ := notextLoop_foreign passes ran
        rw [Option.some.inj same]
        exact ⟨.reported passes expands, rfl⟩

theorem notextLoop_first {tokens : List ValToken} {stored : ValStruct} {after : σ}
    (ran : notextLoop w g defn value tokens none state = .ok (.ok stored, after)) :
    ∃ type val rest, tokens = .value type val :: rest ∧ (defn.Allows type ∨ defn.defType2 = .error) ∧
      stored.valType = type ∧ (rest = [] ∨ ∃ lines, rest = .eol :: lines ∧ LinesPass w g defn value state lines) := by
  match tokens with
  | [] => exact absurd ran wrongType_rejects
  | .eol :: _ => exact absurd ran (notextLoop_rejects (.inl rfl) _ _ _)
  | .syntaxError :: _ => exact absurd ran (notextLoop_rejects (.inr rfl) _ _ _)
  | .value type val :: tokens =>
    by_cases passes : defn.Allows type ∨ defn.defType2 = .error
    · rw [notextLoop, if_neg fun foreign => foreign_iff.mp foreign passes] at ran
      refine ⟨type, val, tokens, rfl, passes, ?_⟩
      match tokens with
      | [] =>
        cases ran
        exact ⟨rfl, .inl rfl⟩
      | .eol :: rest =>
        obtain ⟨lines, same⟩ := lines_of_notextLoop ran
        exact ⟨same, .inr ⟨rest, rfl, lines⟩⟩
      | .value _ _ :: _ => cases ran
      | .syntaxError :: _ => cases ran
    · obtain ⟨-, same⟩ := notextLoop_foreign passes ran
      cases same

theorem notextLoop_single {type : VtwType} (passes : defn.Allows type ∨ defn.defType2 = .error) (val : Bytes) :
    notextLoop w g defn value [.value type val] none state = .ok (.ok (cliValue type val), state) := by
  rw [notextLoop, if_neg fun foreign => foreign_iff.mp foreign passes]

theorem notextLoop_several {type : VtwType} (passes : defn.Allows type ∨ defn.defType2 = .error) (val : Bytes)
    {rest : List ValToken} (lines : LinesPass w g defn value state rest) :
    ∃ stored after,
      notextLoop w g defn value (.value type val :: .eol :: rest) none state = .ok (.ok stored, after) := by
  rw [notextLoop, if_neg fun foreign => foreign_iff.mp foreign passes]
  exact notextLoop_lines lines _

end Lines

section Checked

variable {σ : Type} (w : World σ) (g : Globals) (lib : AddressLib) (defn : VtwDef) (value : Bytes) (state : σ)

/-- The check returns 0 only for a value that the lexer takes as a whole for one of the types
    asked for, and stores it under that type. -/
def TypeChecked : Prop :=
  ∀ valp after, char2val w g lib defn value state = .ok (.ok valp, after) →
    ∃ type val, valTokens lib value = [.value type val] ∧ defn.Allows type ∧ valp.valType = type

variable {w g lib defn value state}

theorem char2val_notext (nontext : defn.defType ≠ .text ∧ defn.defType ≠ .error) {valp : ValStruct} {after : σ} :
    char2val w g lib defn value state = .ok (.ok valp, after) ↔
      notextLoop w g defn value (valTokens lib value) none state = .ok (.ok valp, after) := by
  rw [char2val, if_pos nontext]
  cases notextLoop w g defn value (valTokens lib value) none state with
  | error abort => exact iff_of_false nofun nofun
  | ok found =>
    rcases found with ⟨checked, state⟩
    cases checked with
    | error errBuf => exact iff_of_false nofun nofun
    | ok stored =>
      constructor
      · intro same
        cases same
        rfl
      · intro same
        cases same
        rfl

theorem type_checked_iff (nontext : defn.defType ≠ .text ∧ defn.defType ≠ .error) :
    TypeChecked w g lib defn value state ↔ ChecksApply w g defn value state (valTokens lib value) := by
  constructor
  · intro checked
    constructor
    · intro unset type val single
      have ran : notextLoop w g defn value (valTokens lib value) none state = .ok (.ok (cliValue type val), state) := by
        rw [single]
        exact notextLoop_single (.inr unset) val
      obtain ⟨type', val', same, allows, -⟩ := checked _ _ ((char2val_notext nontext).mpr ran)
      rw [single] at same
      obtain ⟨rfl, rfl⟩ := ValToken.value.inj (List.cons.inj same).1
      rcases allows with first | ⟨set, -⟩
      · exact first
      · exact absurd unset set
    · intro type val rest several passes lines
      obtain ⟨stored, after, ran⟩ := notextLoop_several passes val lines
      rw [← several] at ran
      obtain ⟨type', val', single, -⟩ := checked stored after ((char2val_notext nontext).mpr ran)
      rw [several] at single
      cases single
  · intro applies valp after ran
    obtain ⟨type, val, rest, tokens, passes, stored, shape⟩ := notextLoop_first ((char2val_notext nontext).mp ran)
    rcases shape with rfl | ⟨lines, rfl, pass⟩
    · refine ⟨type, val, tokens, ?_, stored⟩
      rcases passes with allows | unset
      · exact allows
      · exact .inl (applies.single unset type val tokens)
    · exact absurd pass (applies.lines type val lines tokens passes)

def addressLib : AddressLib where
  inetPton6 _ := none
  inetNtop4 s_addr := if s_addr = 0x04030201 then some (str "1.2.3.4") else none
  inetNtop6 _ := none
  etherAton _ := none
  etherNtoa _ := []

theorem valTokens_address : valTokens addressLib (str "1.2.3.4") = [.value .ipv4 (str "1.2.3.4")] := by
  decide +kernel

theorem type_checked_address :
    TypeChecked quietWorld quietGlobals addressLib ⟨.ipv4, .ipv6, none, false⟩ (str "1.2.3.4") () ↔
      ChecksApply quietWorld quietGlobals ⟨.ipv4, .ipv6, none, false⟩ (str "1.2.3.4") ()
        (valTokens addressLib (str "1.2.3.4")) :=
  type_checked_iff ⟨by decide, by decide⟩

/-- With a single type the condition of the check needs a second type to be true. -/
theorem address_for_number :
    char2val quietWorld quietGlobals addressLib ⟨.int, .error, none, false⟩ (str "1.2.3.4") () =
        .ok (.ok (cliValue .ipv4 (str "1.2.3.4")), ()) ∧
      ¬ TypeChecked quietWorld quietGlobals addressLib ⟨.int, .error, none, false⟩ (str "1.2.3.4") () := by
  have ran : char2val quietWorld quietGlobals addressLib ⟨.int, .error, none, false⟩ (str "1.2.3.4") () =
      .ok (.ok (cliValue .ipv4 (str "1.2.3.4")), ()) := by
    rw [char2val_notext ⟨by decide, by decide⟩, valTokens_address]
    exact notextLoop_single (.inr rfl) _
  refine ⟨ran, ?_⟩
  intro checked
  obtain ⟨type, val, tokens, allows, -⟩ := checked _ _ ran
  rw [valTokens_address] at tokens
  obtain ⟨rfl, -⟩ := ValToken.value.inj (List.cons.inj tokens).1
  rcases allows with same | ⟨set, -⟩
  · cases same
  · exact set rfl

end Checked

end VyattaCfg.Cliexec
