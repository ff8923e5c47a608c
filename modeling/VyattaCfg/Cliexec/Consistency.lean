import VyattaCfg.Cliexec.Evaluation

namespace VyattaCfg.Cliexec

open ByteString VyattaCfg.Client Outcome

/-- The ends of the process that say that the program contradicts itself. -/
def Abort.Internal (abort : Abort) : Prop := abort = .badOp ∨ abort = .assertion

instance (abort : Abort) : Decidable abort.Internal := inferInstanceAs (Decidable (_ ∨ _))

def Consistent {α : Type} (x : Except Abort α) : Prop := Holds (fun abort => ¬ abort.Internal) (fun _ => True) x

section Consistent

variable {α β : Type}

theorem consistent_error {abort : Abort} (other : ¬ abort.Internal) :
    Consistent (.error abort : Except Abort α) := other

theorem consistent_ok (a : α) : Consistent (.ok a : Except Abort α) := trivial

theorem Consistent.bind {x : Except Abort α} {f : α → Except Abort β} (first : Consistent x)
    (rest : ∀ a, Consistent (f a)) : Consistent (x >>= f) := holds_bind.mpr (first.mono fun a _ _ => rest a)

theorem consistent_null : Consistent (.error .nullPointer : Except Abort α) := consistent_error (by decide)

theorem cmpValues_consistent (valType : VtwType) (lval rval : Option Bytes) (res : Int) :
    Consistent (cmpValues valType lval rval res) := by
  have unknown : Consistent (.error .unknownValue : Except Abort Int) := consistent_error (by decide)
  have ipv6 (l r : Bytes) (partsNum : Nat) : Consistent (cmpIpv6 l r partsNum res) := by
    unfold cmpIpv6
    split
    · exact consistent_ok _
    · exact consistent_error (by decide)
  unfold cmpValues
  split <;> first | exact ipv6 _ _ _ | exact consistent_ok _ | exact unknown | exact consistent_null

theorem rightLoop_consistent (valType : VtwType) (cond : VtwCond) (lval : Option Bytes) (rights : List RightValue)
    (state : Comparison) : Consistent (rightLoop valType cond lval rights state) := by
  induction rights generalizing state with
  | nil => exact consistent_ok _
  | cons right rights ih =>
    rw [rightLoop]
    split
    · exact ih state
    · refine (cmpValues_consistent _ _ _ _).bind ?_
      intro res
      show Consistent (if _ then _ else if _ then _ else _)
      split
      · exact consistent_ok _
      · split
        · exact consistent_ok _
        · exact ih _

theorem leftLoop_consistent (valType : VtwType) (cond : VtwCond) (rights : List RightValue)
    (lefts : List (Option Bytes)) (state : Comparison) : Consistent (leftLoop valType cond rights lefts state) := by
  induction lefts generalizing state with
  | nil => exact consistent_ok _
  | cons lval lefts ih =>
    rw [leftLoop]
    refine (rightLoop_consistent _ _ _ _ _).bind ?_
    intro turn
    cases turn with
    | returns ret => exact consistent_ok _
    | goesOn after => exact ih after

theorem compareOperands_consistent (rightPart : Nat) (left right : ValStruct) (cond : VtwCond) :
    Consistent (compareOperands rightPart left right cond) := by
  unfold compareOperands
  split
  · exact consistent_ok _
  · unfold valCmp
    split
    · cases right.val with
      | none => exact consistent_null
      | some rval => exact consistent_ok _
    · exact leftLoop_consistent _ _ _ _ _

theorem expandString_consistent {σ : Type} {w : World σ} {g : Globals} {s : Bytes} (free : 0 ∉ s) (state : σ) :
    Consistent (expandString w g s state) := by
  by_cases empty : s = []
  · rw [empty, expandString_nil]
    exact consistent_error (by decide)
  · cases expanded : expandString w g s state with
    | ok expansion => exact consistent_ok expansion
    | error abort =>
      rw [expandString_aborts empty free expanded]
      exact consistent_error (by decide)

end Consistent

section Trees

variable {σ : Type} {w : World σ} {g : Globals} {rightPart : σ → Nat} {prependMsg : Option Bytes} {format : Bool}

theorem evalVaOwned_consistent {node : VtwNode} (operand : Operand node) (state : σ) :
    Consistent (evalVaOwned w g node state) := by
  cases operand with
  | var token =>
    obtain ⟨result, ran⟩ := evalVaOwned_var (w := w) (g := g) token state
    rw [ran]
    exact consistent_ok result
  | val val => exact consistent_ok _
  | exString token =>
    show Consistent (evalBQuoteOp w g token.text state >>= _)
    refine Consistent.bind ?_ fun _ => consistent_ok _
    refine (expandString_consistent token.free state).bind ?_
    intro expansion
    split
    · exact consistent_ok _
    · split <;> exact consistent_ok _

theorem checkHelp_consistent (text : StringToken) (state : σ) :
    Consistent (checkHelp w g prependMsg format (.makeStrNode text.text) state) := by
  show Consistent (expandString w g text.text state >>= _)
  refine (expandString_consistent text.free state).bind ?_
  intro expansion
  split <;> exact consistent_ok _

theorem checkExec_consistent (command : StringToken) (state : σ) :
    Consistent (checkExec w g (.makeStrNode command.text) state) := by
  show Consistent (expandString w g command.text state >>= _)
  refine (expandString_consistent command.free state).bind ?_
  intro expansion
  split <;> exact consistent_ok _

theorem checkAssign_consistent (var : VarToken) {right : VtwNode} (operand : Operand right) (state : σ) :
    Consistent (checkAssign w g (.makeVarNode var.text) right state) := by
  refine (evalVaOwned_consistent operand state).bind ?_
  intro found
  rcases found with ⟨result, after⟩
  cases result with
  | error status => exact consistent_ok _
  | ok right =>
    show Consistent (if right.val.vals ≠ [] then .ok (false, after) else _)
    split
    · exact consistent_ok _
    · show Consistent (if ¬ varRefMarker <+: var.text then .ok (false, after) else _)
      split <;> exact consistent_ok _

theorem checkPattern_consistent (var : VarToken) (regex : StringToken) (state : σ) :
    Consistent (checkPattern w g (.makeVarNode var.text) (.makeStrNode regex.text) state) := by
  refine (evalVaOwned_consistent (.var var) state).bind ?_
  intro found
  rcases found with ⟨result, after⟩
  cases result with
  | error status => exact consistent_ok _
  | ok left =>
    refine (consistent_ok regex.text).bind ?_
    intro pattern
    split
    · exact consistent_error (by decide)
    · split
      · split
        · exact consistent_null
        · exact consistent_ok _
      · exact consistent_ok _

theorem checkCond_consistent {left right : VtwNode} (operandLeft : Operand left) (operandRight : Operand right)
    (cond : VtwCond) (state : σ) : Consistent (checkCond w g rightPart cond left right state) := by
  refine (evalVaOwned_consistent operandLeft state).bind ?_
  intro found
  rcases found with ⟨result, middle⟩
  cases result with
  | error status => exact consistent_ok _
  | ok lval =>
    refine Consistent.bind (evalVaOwned_consistent operandRight middle) ?_
    intro found
    rcases found with ⟨result, after⟩
    cases result with
    | error status => exact consistent_ok _
    | ok rval => exact (compareOperands_consistent _ _ _ _).bind fun _ => consistent_ok _

theorem checkSyn_check_consistent {node : VtwNode} (check : Check node) (state : σ) :
    Consistent (checkSyn w g rightPart prependMsg format node state) := by
  induction check generalizing state with
  | and _ _ ihLeft ihRight | or _ _ ihLeft ihRight =>
    refine Consistent.bind (ihLeft state) ?_
    intro found
    rcases found with ⟨ret, after⟩
    cases ret
    · first | exact consistent_ok _ | exact ihRight after
    · first | exact consistent_ok _ | exact ihRight after
  | not _ ih => exact Consistent.bind (ih state) fun _ => consistent_ok _
  | help text _ ih =>
    refine Consistent.bind (ih state) ?_
    intro found
    rcases found with ⟨ret, after⟩
    cases ret with
    | true => exact consistent_ok _
    | false => exact Consistent.bind (checkHelp_consistent text after) fun _ => consistent_ok _
  | exec command => exact checkExec_consistent command state
  | pattern var regex => exact checkPattern_consistent var regex state
  | cond op left right => exact checkCond_consistent left right op state
  | assign var right => exact checkAssign_consistent var right state

theorem checkSyn_consistent {list : VtwNode} (actions : ActionList list) (state : σ) :
    Consistent (checkSyn w g rightPart prependMsg format list state) := by
  have goesOn {next : VtwNode} (rest : next.isNull = false → ∀ state,
      Consistent (checkSyn w g rightPart prependMsg format next state)) (ret : Bool) (state : σ) :
      Consistent (if ¬ ret ∨ next.isNull then .ok (ret, state)
        else checkSyn w g rightPart prependMsg format next state) := by
    split
    · exact consistent_ok _
    · rename_i more
      exact rest (Bool.eq_false_iff.mpr fun null => more (.inr null)) state
  induction actions generalizing state with
  | last aux check =>
    have stops : VtwNode.null.isNull = false → ∀ state,
        Consistent (checkSyn w g rightPart prependMsg format .null state) := by
      intro live
      cases live
    rw [listNode, checkSyn]
    dsimp only
    split
    · exact (checkSyn_check_consistent check state).bind fun result => goesOn stops result.1 result.2
    · exact goesOn stops true state
  | more aux check rest ih =>
    rw [listNode, checkSyn]
    dsimp only
    split
    · exact (checkSyn_check_consistent check state).bind fun result => goesOn (fun _ => ih) result.1 result.2
    · exact goesOn (fun _ => ih) true state

end Trees

section Lists

variable {σ : Type} {w : World σ} {g : Globals} {defn : VtwDef} {value : Bytes}

theorem notextLoop_consistent (free : ∀ help ∈ defn.defTypeHelp, 0 ∉ help) (tokens : List ValToken)
    (valp : Option ValStruct) (state : σ) : Consistent (notextLoop w g defn value tokens valp state) := by
  have wrong : Consistent (wrongType w g defn value state) := by
    unfold wrongType
    cases given : defn.defTypeHelp with
    | none => exact consistent_ok _
    | some help => exact (expandString_consistent (free help given) state).bind fun _ => consistent_ok _
  induction size : tokens.length using Nat.strong_induction_on generalizing tokens valp with
  | _ n ih =>
    match tokens with
    | [] =>
      cases valp with
      | none => exact wrong.bind fun _ => consistent_ok _
      | some valp => exact consistent_ok _
    | .eol :: _ => exact wrong.bind fun _ => consistent_ok _
    | .syntaxError :: _ => exact wrong.bind fun _ => consistent_ok _
    | .value type val :: tokens =>
      by_cases passes : defn.Allows type ∨ defn.defType2 = .error
      · obtain ⟨stored, errBuf, unfolded⟩ := notextLoop_passes w g value passes val tokens valp state
        rw [unfolded]
        match tokens with
        | [] => exact consistent_ok _
        | .value _ _ :: _ => exact consistent_ok _
        | .syntaxError :: _ => exact consistent_ok _
        | .eol :: lines =>
          have shorter : lines.length < n := by
            simp only [← size, List.length_cons]
            omega
          exact ih lines.length shorter lines (some stored) rfl
      · rw [notextLoop_reported passes]
        exact wrong.bind fun _ => consistent_ok _

/-- Whatever the store answers, no evaluation of what the parser builds comes to a node that is not a
    check, or fails an assertion of `eval_va` or `add_val`. -/
theorem executeList_consistent (clause : Clause) (clauses : List Clause) :
    ∃ list, buildList .null (clause :: clauses) = .ok list ∧
      ∀ (g : Globals) (rightPart : σ → Nat) (prependMsg : Option Bytes) (format : Bool) (lib : AddressLib)
        (state : σ), (∀ help ∈ defn.defTypeHelp, 0 ∉ help) →
          Consistent (executeList w g rightPart prependMsg format lib defn list state) := by
  obtain ⟨list, built, actions⟩ := buildList_nonempty clause clauses
  refine ⟨list, built, ?_⟩
  intro g rightPart prependMsg format lib state free
  refine Consistent.bind ?_ ?_
  · unfold char2val
    split
    · refine (notextLoop_consistent free _ _ _).bind ?_
      intro found
      rcases found with ⟨checked, after⟩
      cases checked <;> exact consistent_ok _
    · exact consistent_ok _
  · intro found
    rcases found with ⟨checked, after⟩
    cases checked with
    | error status => exact consistent_ok _
    | ok valp => exact checkSyn_consistent actions after

end Lists

end VyattaCfg.Cliexec
