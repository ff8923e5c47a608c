import VyattaCfg.Cliexec.CanCompare
import VyattaCfg.Cliexec.TemplateTrees
import VyattaCfg.Cliexec.TypeCheck

namespace VyattaCfg.Cliexec

open ByteString VyattaCfg.Client Outcome

/-- The process does not end, or is meant to. -/
def Returns {α : Type} (x : Except Abort α) : Prop := Holds Abort.Deliberate (fun _ => True) x

section Returns

variable {α β : Type}

theorem returns_ok (a : α) : Returns (.ok a : Except Abort α) := trivial

theorem returns_bind {x : Except Abort α} {f : α → Except Abort β} :
    Returns (x >>= f) ↔ Returns x ∧ ∀ a, x = .ok a → Returns (f a) := by
  rw [Returns, holds_bind, holds_iff]
  rfl

theorem expandString_returns {σ : Type} {w : World σ} {g : Globals} {s : Bytes} (free : 0 ∉ s) {state : σ} :
    Returns (expandString w g s state) ↔ s ≠ [] := by
  constructor
  · intro returns empty
    rw [empty, expandString_nil] at returns
    have overrun : ¬ Abort.Deliberate .overrun := by decide
    exact overrun returns
  · intro filled
    cases expanded : expandString w g s state with
    | ok expansion => exact returns_ok expansion
    | error abort => exact .inr (expandString_aborts filled free expanded)

end Returns

section Leaves

def Expandable : VtwNode → Prop
  | .null => True
  | .node data _ _ => data.oper = .bQuoteOp → data.string ≠ some []

variable {σ : Type} {w : World σ} {g : Globals} {rightPart : σ → Nat} {prependMsg : Option Bytes} {format : Bool}

theorem expandable_var {s : Bytes} : Expandable (.makeVarNode s) := by
  intro oper
  cases oper

/-- A variable always has an answer: its token starts with the marker and has a `)`. -/
theorem evalVaOwned_var (token : VarToken) (state : σ) :
    ∃ result, evalVaOwned w g (.makeVarNode token.text) state = .ok result := by
  have marked : varRefMarker <+: token.text := List.prefix_append _ _
  have closed : ch ')' ∈ token.text.drop varRefMarker.length := by
    rw [VarToken.text, List.drop_left]
    exact List.mem_append_right _ (List.mem_singleton_self _)
  simp only [VtwNode.makeVarNode, VtwNode.makeStrNode0, evalVaOwned]
  rw [if_neg (not_not.mpr marked), if_neg (not_not.mpr closed)]
  split
  · exact ⟨_, rfl⟩
  · obtain ⟨operand, owned, -⟩ := refOwned_val (refLookup w g state
      ((token.text.drop varRefMarker.length).takeWhile (· ≠ ch ')'))).1
    simp only [owned]
    exact ⟨_, rfl⟩

theorem evalVaOwned_returns {node : VtwNode} (operand : Operand node) (state : σ) :
    Returns (evalVaOwned w g node state) ↔ Expandable node := by
  cases operand with
  | var token =>
    obtain ⟨result, ran⟩ := evalVaOwned_var (w := w) (g := g) token state
    rw [ran]
    exact iff_of_true (returns_ok result) expandable_var
  | val val => exact iff_of_true (returns_ok _) nofun
  | exString token =>
    show Returns (evalBQuoteOp w g token.text state >>= _) ↔ _
    rw [returns_bind, evalBQuoteOp, returns_bind, expandString_returns token.free]
    constructor
    · intro returns _ empty
      exact returns.1.1 (Option.some.inj empty)
    · intro expandable
      refine ⟨⟨fun empty => expandable rfl (congrArg some empty), ?_⟩, fun _ _ => returns_ok _⟩
      intro expansion _
      split
      · exact returns_ok _
      · split <;> exact returns_ok _

theorem nodeString_filled {s : Bytes} : nodeString (.makeStrNode s) ≠ .ok [] ↔ s ≠ [] := by
  have same : nodeString (.makeStrNode s) = .ok s := rfl
  rw [same, ne_eq, Except.ok.injEq]

theorem checkHelp_returns (text : StringToken) (state : σ) :
    Returns (checkHelp w g prependMsg format (.makeStrNode text.text) state) ↔ text.text ≠ [] := by
  show Returns (expandString w g text.text state >>= _) ↔ _
  rw [returns_bind, expandString_returns text.free]
  refine and_iff_left ?_
  intro expansion _
  split <;> exact returns_ok _

theorem checkExec_returns (command : StringToken) (state : σ) :
    Returns (checkExec w g (.makeStrNode command.text) state) ↔ command.text ≠ [] := by
  show Returns (expandString w g command.text state >>= _) ↔ _
  rw [returns_bind, expandString_returns command.free]
  refine and_iff_left ?_
  intro expansion _
  split <;> exact returns_ok _

theorem checkAssign_returns (var : VarToken) {right : VtwNode} (operand : Operand right) (state : σ) :
    Returns (checkAssign w g (.makeVarNode var.text) right state) ↔ Expandable right := by
  rw [checkAssign, returns_bind, evalVaOwned_returns operand]
  refine and_iff_left ?_
  intro found _
  rcases found with ⟨result, after⟩
  cases result with
  | error status => exact returns_ok _
  | ok right =>
    show Returns (if right.val.vals ≠ [] then .ok (false, after) else _)
    split
    · exact returns_ok _
    · show Returns (if ¬ varRefMarker <+: var.text then .ok (false, after) else _)
      split <;> exact returns_ok _

theorem checkPattern_returns (var : VarToken) (regex : StringToken) (state : σ) :
    Returns (checkPattern w g (.makeVarNode var.text) (.makeStrNode regex.text) state) ↔
      ∀ operand after, evalVaOwned w g (.makeVarNode var.text) state = .ok (.ok operand, after) →
        operand.val.vals = [] → operand.val.val = none → w.regcomp regex.text = none := by
  have null : ¬ Abort.Deliberate .nullPointer := by decide
  rw [checkPattern, returns_bind, evalVaOwned_returns (.var var), and_iff_right expandable_var]
  constructor
  · intro returns operand after evaluated single absent
    have rest := (returns_bind.mp (returns (.ok operand, after) evaluated)).2 regex.text rfl
    split at rest
    · assumption
    · rw [if_pos single, absent] at rest
      exact absurd rest null
  · intro all result evaluated
    rcases result with ⟨status | operand, after⟩
    · exact returns_ok _
    · refine returns_bind.mpr ⟨returns_ok regex.text, ?_⟩
      intro pattern same
      obtain rfl := Except.ok.inj same
      split
      · exact .inl rfl
      · rename_i regexec compiled
        split
        · rename_i single
          split
          · rename_i absent
            have invalid := all operand after evaluated single absent
            rw [compiled] at invalid
            cases invalid
          · exact returns_ok _
        · exact returns_ok _

theorem checkCond_returns {left right : VtwNode} (operandLeft : Operand left) (operandRight : Operand right)
    (cond : VtwCond) (state : σ) :
    Returns (checkCond w g rightPart cond left right state) ↔
      Expandable left ∧ ∀ lval middle, evalVaOwned w g left state = .ok (.ok lval, middle) →
        Expandable right ∧ ∀ rval after, evalVaOwned w g right middle = .ok (.ok rval, after) →
          CanCompare cond lval.val rval.val := by
  rw [checkCond, returns_bind, evalVaOwned_returns operandLeft]
  refine and_congr_right fun _ => ?_
  constructor
  · intro returns lval middle evaluated
    have rest := returns_bind.mp (returns (.ok lval, middle) evaluated)
    refine ⟨(evalVaOwned_returns operandRight middle).mp rest.1, ?_⟩
    intro rval after evaluated'
    exact compareOperands_returns.mp (returns_bind.mp (rest.2 (.ok rval, after) evaluated')).1
  · intro all result evaluated
    rcases result with ⟨status | lval, middle⟩
    · exact returns_ok _
    · have rest := all lval middle evaluated
      refine returns_bind.mpr ⟨(evalVaOwned_returns operandRight middle).mpr rest.1, ?_⟩
      intro result evaluated'
      rcases result with ⟨status | rval, after⟩
      · exact returns_ok _
      · refine returns_bind.mpr ⟨compareOperands_returns.mpr (rest.2 rval after evaluated'), ?_⟩
        exact fun _ _ => returns_ok _

end Leaves

section Checked

/-- The type check comes to a token that it reports, with a value stored before or not. -/
inductive Reports (defn : VtwDef) : Bool → List ValToken → Prop where
  | nothing : Reports defn false []
  | foreign {stored : Bool} {type : VtwType} {val : Bytes} {rest : List ValToken} :
    ¬ (defn.Allows type ∨ defn.defType2 = .error) → Reports defn stored (.value type val :: rest)
  | line {stored : Bool} {type : VtwType} {val : Bytes} {rest : List ValToken} :
    defn.Allows type ∨ defn.defType2 = .error → Reports defn true rest →
      Reports defn stored (.value type val :: .eol :: rest)
  | other {stored : Bool} {token : ValToken} {rest : List ValToken} :
    token = .eol ∨ token = .syntaxError → Reports defn stored (token :: rest)

variable {σ : Type} {w : World σ} {g : Globals} {defn : VtwDef} {value : Bytes}

theorem wrongType_returns (free : ∀ help ∈ defn.defTypeHelp, 0 ∉ help) (state : σ) :
    Returns (wrongType w g defn value state) ↔ defn.defTypeHelp ≠ some [] := by
  unfold wrongType
  cases given : defn.defTypeHelp with
  | none => exact iff_of_true (returns_ok _) nofun
  | some help =>
    rw [returns_bind, expandString_returns (free help given), and_iff_left fun _ _ => returns_ok _, ne_eq, ne_eq,
      Option.some.injEq]

theorem reported_returns (free : ∀ help ∈ defn.defTypeHelp, 0 ∉ help) {stored : Bool} {tokens : List ValToken}
    (reports : Reports defn stored tokens) {next : Bytes × σ → Except Abort (Except Bytes ValStruct × σ)}
    (ends : ∀ result, Returns (next result)) (state : σ) :
    Returns (wrongType w g defn value state >>= next) ↔
      (Reports defn stored tokens → defn.defTypeHelp ≠ some []) := by
  rw [returns_bind, wrongType_returns free, and_iff_left fun result _ => ends result, forall_prop_of_true reports]

variable (w g value) in
theorem notextLoop_passes {type : VtwType} (passes : defn.Allows type ∨ defn.defType2 = .error) (val : Bytes)
    (tokens : List ValToken) (valp : Option ValStruct) (state : σ) :
    ∃ stored errBuf, notextLoop w g defn value (.value type val :: tokens) valp state =
      match tokens with
      | [] => .ok (.ok stored, state)
      | .eol :: lines => notextLoop w g defn value lines (some stored) state
      | _ :: _ => .ok (.error errBuf, state) := by
  refine ⟨valp.elim (cliValue type val) fun valp => if defn.multi then addVal valp (cliValue type val) else valp,
    str "\"" ++ value ++ str "\" is not a valid value\n", ?_⟩
  cases valp <;> rw [notextLoop, if_neg fun foreign => foreign_iff.mp foreign passes] <;> cases tokens with
    | nil => rfl
    | cons token tokens => cases token <;> rfl

theorem reports_passes {type : VtwType} (passes : defn.Allows type ∨ defn.defType2 = .error) {val : Bytes}
    {stored : Bool} {rest : List ValToken} :
    Reports defn stored (.value type val :: rest) ↔ ∃ lines, rest = .eol :: lines ∧ Reports defn true lines := by
  constructor
  · intro reports
    generalize tokens : ValToken.value type val :: rest = all at reports
    cases reports with
    | nothing => cases tokens
    | foreign other =>
      cases tokens
      exact absurd passes other
    | line _ more =>
      cases tokens
      exact ⟨_, rfl, more⟩
    | other token =>
      cases tokens
      rcases token with same | same <;> cases same
  · intro several
    rcases several with ⟨lines, rfl, more⟩
    exact .line passes more

theorem notextLoop_returns (free : ∀ help ∈ defn.defTypeHelp, 0 ∉ help) (tokens : List ValToken)
    (valp : Option ValStruct) (state : σ) :
    Returns (notextLoop w g defn value tokens valp state) ↔
      (Reports defn valp.isSome tokens → defn.defTypeHelp ≠ some []) := by
  induction size : tokens.length using Nat.strong_induction_on generalizing tokens valp with
  | _ n ih =>
    match tokens with
    | [] =>
      cases valp with
      | none => exact reported_returns free .nothing (fun _ => returns_ok _) state
      | some valp => exact iff_of_true (returns_ok _) nofun
    | .eol :: _ => exact reported_returns free (.other (.inl rfl)) (fun _ => returns_ok _) state
    | .syntaxError :: _ => exact reported_returns free (.other (.inr rfl)) (fun _ => returns_ok _) state
    | .value type val :: tokens =>
      by_cases passes : defn.Allows type ∨ defn.defType2 = .error
      · obtain ⟨stored, errBuf, unfolded⟩ := notextLoop_passes w g value passes val tokens valp state
        rw [unfolded, reports_passes passes]
        match tokens with
        | [] => exact iff_of_true (returns_ok _) nofun
        | .value _ _ :: _ => exact iff_of_true (returns_ok _) nofun
        | .syntaxError :: _ => exact iff_of_true (returns_ok _) nofun
        | .eol :: lines =>
          have shorter : lines.length < n := by
            simp only [← size, List.length_cons]
            omega
          refine (ih lines.length shorter lines (some stored) rfl).trans ?_
          constructor
          · intro returns several
            rcases several with ⟨_, same, reports⟩
            rw [← (List.cons.inj same).2] at reports
            exact returns reports
          · exact fun returns reports => returns ⟨lines, rfl, reports⟩
      · rw [notextLoop_reported passes]
        exact reported_returns free (.foreign passes) (fun _ => returns_ok _) state

theorem char2val_returns (free : ∀ help ∈ defn.defTypeHelp, 0 ∉ help) (lib : AddressLib) (state : σ) :
    Returns (char2val w g lib defn value state) ↔
      (defn.defType ≠ .text ∧ defn.defType ≠ .error → Reports defn false (valTokens lib value) →
        defn.defTypeHelp ≠ some []) := by
  unfold char2val
  split
  · rename_i nontext
    rw [returns_bind, notextLoop_returns free, forall_prop_of_true nontext]
    refine and_iff_left ?_
    intro found _
    rcases found with ⟨checked, after⟩
    cases checked <;> exact returns_ok _
  · rename_i text
    exact iff_of_true (returns_ok _) fun nontext => absurd nontext text

end Checked

end VyattaCfg.Cliexec
