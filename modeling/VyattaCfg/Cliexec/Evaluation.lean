import VyattaCfg.Cliexec.Returns
import VyattaCfg.Cliexec.Verdict
import VyattaCfg.Library.Runs

namespace VyattaCfg.Cliexec

open ByteString Regex VyattaCfg.Client Outcome Relation

section Evaluate

variable {σ : Type} (w : World σ) (g : Globals) (rightPart : σ → Nat) (prependMsg : Option Bytes) (format : Bool)

/-- The recursive calls of `check_syn_func`, each with the state that it is made in. -/
def Calls : VtwNode × σ → VtwNode × σ → Prop
  | (.null, _), _ => False
  | (.node data left right, state), called =>
    match data.oper with
    | .listOp =>
      if ListChecked g data then
        called = (left, state) ∨ ∃ after, Verdict w g rightPart prependMsg format left state true after ∧
          right.isNull = false ∧ called = (right, after)
      else right.isNull = false ∧ called = (right, state)
    | .helpOp | .notOp => called = (left, state)
    | .orOp =>
      called = (left, state) ∨
        ∃ after, Verdict w g rightPart prependMsg format left state false after ∧ called = (right, after)
    | .andOp =>
      called = (left, state) ∨
        ∃ after, Verdict w g rightPart prependMsg format left state true after ∧ called = (right, after)
    | _ => False

/-- What the check of a node needs besides the checks that it calls. -/
def NodeSafe : VtwNode × σ → Prop
  | (.null, _) => True
  | (.node data left right, state) =>
    match data.oper with
    | .helpOp => ∀ after, Verdict w g rightPart prependMsg format left state false after → nodeString right ≠ .ok []
    | .assignOp => Expandable right
    | .execOp => nodeString left ≠ .ok []
    | .patternOp =>
      ∀ operand after, evalVaOwned w g left state = .ok (.ok operand, after) → operand.val.vals = [] →
        operand.val.val = none → ∀ pattern, nodeString right = .ok pattern → w.regcomp pattern = none
    | .condOp =>
      Expandable left ∧ ∀ lval middle, evalVaOwned w g left state = .ok (.ok lval, middle) →
        Expandable right ∧ ∀ rval after, evalVaOwned w g right middle = .ok (.ok rval, after) →
          CanCompare data.cond lval.val rval.val
    | _ => True

variable {w g rightPart prependMsg format}

theorem calls_terminate : WellFounded (flip (Calls w g rightPart prependMsg format)) := by
  refine Subrelation.wf (r := InvImage (· < ·) fun call : VtwNode × σ => sizeOf call.1) ?_
    (InvImage.wf _ Nat.lt_wfRel.wf)
  intro called caller calls
  rcases called with ⟨called, after⟩
  rcases caller with ⟨node, state⟩
  show sizeOf called < sizeOf node
  cases node with
  | null => exact calls.elim
  | node data left right =>
    have below : called = left ∨ called = right := by
      unfold flip Calls at calls
      grind
    rcases below with rfl | rfl <;> simp only [VtwNode.node.sizeOf_spec] <;> omega

theorem calls_typed {node : VtwNode} {state : σ} {call : VtwNode × σ} (typed : Check node ∨ ActionList node)
    (calls : Calls w g rightPart prependMsg format (node, state) call) : Check call.1 ∨ ActionList call.1 := by
  rcases typed with check | actions
  · left
    cases check with
    | and left right | or left right =>
      rcases calls with rfl | ⟨_, _, rfl⟩
      · exact left
      · exact right
    | not left | help _ left =>
      rcases calls with rfl
      exact left
    | _ => exact calls.elim
  · cases actions with
    | last aux check =>
      replace calls : if ListChecked g _ then _ else _ := calls
      split at calls
      · rcases calls with rfl | ⟨_, _, present, -⟩
        · exact .inl check
        · cases present
      · cases calls.1
    | more aux check rest =>
      replace calls : if ListChecked g _ then _ else _ := calls
      split at calls
      · rcases calls with rfl | ⟨_, _, -, rfl⟩
        · exact .inl check
        · exact .inr rest
      · rcases calls with ⟨-, rfl⟩
        exact .inr rest

theorem call_returns {left right : VtwNode} {state : σ} {more : Bool} {next : Bool × σ → Except Abort (Bool × σ)}
    (goesOn : ∀ after, next (more, after) = checkSyn w g rightPart prependMsg format right after)
    (stops : ∀ after, Returns (next (!more, after))) :
    Returns (checkSyn w g rightPart prependMsg format left state >>= next) ↔
      ∀ call : VtwNode × σ, (call = (left, state) ∨ ∃ after,
        Verdict w g rightPart prependMsg format left state more after ∧ call = (right, after)) →
          Returns (checkSyn w g rightPart prependMsg format call.1 call.2) := by
  rw [returns_bind]
  constructor
  · intro both call called
    rcases both with ⟨first, rest⟩
    rcases called with rfl | ⟨after, verdict, rfl⟩
    · exact first
    · have second := rest _ (checkSyn_ok_iff.mpr verdict)
      rwa [goesOn] at second
  · intro all
    refine ⟨all _ (.inl rfl), ?_⟩
    intro result ran
    rcases result with ⟨ret, after⟩
    by_cases same : ret = more
    · rw [same] at ran ⊢
      rw [goesOn]
      exact all _ (.inr ⟨after, checkSyn_ok_iff.mp ran, rfl⟩)
    · rw [Bool.eq_not_of_ne same]
      exact stops after

theorem first_returns {left : VtwNode} {state : σ} {next : Bool × σ → Except Abort (Bool × σ)} :
    Returns (checkSyn w g rightPart prependMsg format left state >>= next) ↔
      (∀ result, checkSyn w g rightPart prependMsg format left state = .ok result → Returns (next result)) ∧
        ∀ call : VtwNode × σ, call = (left, state) →
          Returns (checkSyn w g rightPart prependMsg format call.1 call.2) := by
  rw [returns_bind, and_comm, forall_eq]

theorem checkSyn_check {node : VtwNode} (check : Check node) (state : σ) :
    Returns (checkSyn w g rightPart prependMsg format node state) ↔
      NodeSafe w g rightPart prependMsg format (node, state) ∧
        ∀ call, Calls w g rightPart prependMsg format (node, state) call →
          Returns (checkSyn w g rightPart prependMsg format call.1 call.2) := by
  cases check with
  | and left right =>
    refine Iff.trans ?_ (and_iff_right trivial).symm
    exact call_returns (fun _ => rfl) fun _ => returns_ok _
  | or left right =>
    refine Iff.trans ?_ (and_iff_right trivial).symm
    exact call_returns (fun _ => rfl) fun _ => returns_ok _
  | not left => exact first_returns.trans (and_congr_left' (iff_of_true (fun _ _ => returns_ok _) trivial))
  | help text left =>
    refine first_returns.trans (and_congr_left' ?_)
    constructor
    · intro returns after verdict
      have helped := (returns_bind.mp (returns _ (checkSyn_ok_iff.mpr verdict))).1
      exact nodeString_filled.mpr ((checkHelp_returns text after).mp helped)
    · intro all result ran
      rcases result with ⟨ret, after⟩
      cases ret with
      | true => exact returns_ok _
      | false =>
        have filled := nodeString_filled.mp (all after (checkSyn_ok_iff.mp ran))
        exact returns_bind.mpr ⟨(checkHelp_returns text after).mpr filled, fun _ _ => returns_ok _⟩
  | exec command =>
    refine Iff.trans ?_ (and_iff_left nofun).symm
    exact (checkExec_returns command state).trans nodeString_filled.symm
  | pattern var regex =>
    refine Iff.trans ?_ (and_iff_left nofun).symm
    refine (checkPattern_returns var regex state).trans ?_
    constructor
    · intro all operand after evaluated single absent pattern same
      rw [← Except.ok.inj same]
      exact all operand after evaluated single absent
    · intro all operand after evaluated single absent
      exact all operand after evaluated single absent regex.text rfl
  | cond op left right =>
    refine Iff.trans ?_ (and_iff_left nofun).symm
    exact checkCond_returns left right op state
  | assign var right =>
    refine Iff.trans ?_ (and_iff_left nofun).symm
    exact checkAssign_returns var right state

theorem checkSyn_list {node next : VtwNode} (aux : Bool) (state : σ) :
    Returns (checkSyn w g rightPart prependMsg format (listNode node aux next) state) ↔
      NodeSafe w g rightPart prependMsg format (listNode node aux next, state) ∧
        ∀ call, Calls w g rightPart prependMsg format (listNode node aux next, state) call →
          Returns (checkSyn w g rightPart prependMsg format call.1 call.2) := by
  refine Iff.trans ?_ (and_iff_right trivial).symm
  simp only [listNode, checkSyn, Calls]
  by_cases checked : ListChecked g ⟨.listOp, none, aux, .eqCond, .zero⟩
  · simp only [if_pos checked]
    cases last : next.isNull with
    | true =>
      refine first_returns.trans ?_
      constructor
      · intro both call called
        rcases called with same | ⟨_, _, present, -⟩
        · exact both.2 call same
        · cases present
      · intro all
        refine ⟨?_, fun call same => all call (.inl same)⟩
        intro result _
        simp only [or_true, if_true]
        exact returns_ok _
    | false =>
      simp only [true_and]
      exact call_returns (fun _ => rfl) fun _ => returns_ok _
  · simp only [if_neg checked]
    show Returns (if ¬ true = true ∨ next.isNull = true then .ok (true, state) else _) ↔ _
    cases last : next.isNull with
    | true =>
      simp only [or_true, if_true]
      refine iff_of_true (returns_ok _) ?_
      intro call called
      cases called.1
    | false =>
      simp

/-- What one call of `check_syn_func` needs. -/
theorem checkSyn_step {node : VtwNode} (typed : Check node ∨ ActionList node) (state : σ) :
    Returns (checkSyn w g rightPart prependMsg format node state) ↔
      NodeSafe w g rightPart prependMsg format (node, state) ∧
        ∀ call, Calls w g rightPart prependMsg format (node, state) call →
          Returns (checkSyn w g rightPart prependMsg format call.1 call.2) := by
  rcases typed with check | actions
  · exact checkSyn_check check state
  · cases actions with
    | last aux check => exact checkSyn_list aux state
    | more aux check rest => exact checkSyn_list aux state

/-- The run: every call that the evaluation comes to is of a node that is safe there. -/
theorem checkSyn_returns {node : VtwNode} (typed : Check node ∨ ActionList node) (state : σ) :
    Returns (checkSyn w g rightPart prependMsg format node state) ↔
      ∀ call, ReflTransGen (Calls w g rightPart prependMsg format) (node, state) call →
        NodeSafe w g rightPart prependMsg format call := by
  have preserved : ∀ call next : VtwNode × σ, Check call.1 ∨ ActionList call.1 →
      Calls w g rightPart prependMsg format call next → Check next.1 ∨ ActionList next.1 :=
    fun _ _ typed calls => calls_typed typed calls
  have step : ∀ call : VtwNode × σ, Check call.1 ∨ ActionList call.1 →
      (Returns (checkSyn w g rightPart prependMsg format call.1 call.2) ↔
        NodeSafe w g rightPart prependMsg format call ∧ ∀ next, Calls w g rightPart prependMsg format call next →
          Returns (checkSyn w g rightPart prependMsg format next.1 next.2)) :=
    fun call typed => checkSyn_step typed call.2
  exact Runs.holds_iff_safe calls_terminate preserved step (s := (node, state)) typed

end Evaluate

section ExecuteList

variable {σ : Type} (w : World σ) (g : Globals) (rightPart : σ → Nat) (prependMsg : Option Bytes) (format : Bool)
  (lib : AddressLib) (defn : VtwDef) (cur : VtwNode) (state : σ)

/-- The help of a type that is reported is not empty, and every check that the evaluation comes to is
    safe where it is made. -/
structure EvaluationSafe : Prop where
  help : defn.defType ≠ .text ∧ defn.defType ≠ .error → Reports defn false (valTokens lib g.atString) →
    defn.defTypeHelp ≠ some []
  checks : ∀ valp after, char2val w g lib defn g.atString state = .ok (.ok valp, after) →
    ∀ call, ReflTransGen (Calls w { g with validateValue := valp } rightPart prependMsg format) (cur, after) call →
      NodeSafe w { g with validateValue := valp } rightPart prependMsg format call

variable {w g rightPart prependMsg format lib defn cur state}

theorem executeList_returns (actions : ActionList cur) (free : ∀ help ∈ defn.defTypeHelp, 0 ∉ help) :
    Returns (executeList w g rightPart prependMsg format lib defn cur state) ↔
      EvaluationSafe w g rightPart prependMsg format lib defn cur state := by
  rw [executeList, returns_bind, char2val_returns free]
  constructor
  · intro both
    refine ⟨both.1, ?_⟩
    intro valp after checked
    exact (checkSyn_returns (.inr actions) after).mp (both.2 (.ok valp, after) checked)
  · intro safe
    refine ⟨safe.help, ?_⟩
    intro found ran
    rcases found with ⟨checked, after⟩
    cases checked with
    | error status => exact returns_ok _
    | ok valp => exact (checkSyn_returns (.inr actions) after).mpr (safe.checks valp after ran)

end ExecuteList

def parentToken : ValueToken where
  type := .priority
  text := str "PARENT"
  ismulti := false
  known := mem_lit.mpr rfl

end VyattaCfg.Cliexec
