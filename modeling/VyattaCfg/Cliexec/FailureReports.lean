import VyattaCfg.Cliexec.Evaluation

namespace VyattaCfg.Cliexec

open ByteString VyattaCfg.Client Outcome Relation

section Operands

variable {σ : Type} (w : World σ) (g : Globals) (pclose : σ → Int)

/-- A back-quoted command whose string cannot be expanded, or which does not exit with zero:
    `pclose` is what that function returns for the command that was read last. -/
inductive CommandFails : VtwNode → σ → Prop where
  | expansion {data : VtwData} {left right : VtwNode} {state : σ} {string : Bytes} {expansion : Expansion σ} :
    data.oper = .bQuoteOp → data.string = some string → expandString w g string state = .ok expansion →
      expansion.status ≠ 0 → CommandFails (.node data left right) state
  | exit {data : VtwData} {left right : VtwNode} {state after : σ} {string out : Bytes} {expansion : Expansion σ} :
    data.oper = .bQuoteOp → data.string = some string → expandString w g string state = .ok expansion →
      expansion.status = 0 → w.popen expansion.state expansion.exeString = (some out, after) → pclose after ≠ 0 →
        CommandFails (.node data left right) state

/-- What `eval_va` runs for a node and what fails: a command or its start, or the lookup of a
    reference that is not a multi-value one. -/
inductive VaFails : VtwNode → σ → Prop where
  | command {node : VtwNode} {state : σ} : CommandFails w g pclose node state → VaFails node state
  | start {data : VtwData} {left right : VtwNode} {state : σ} {string : Bytes} {expansion : Expansion σ} :
    data.oper = .bQuoteOp → data.string = some string → expandString w g string state = .ok expansion →
      expansion.status = 0 → (w.popen expansion.state expansion.exeString).1 = none →
        VaFails (.node data left right) state
  | lookup {data : VtwData} {left right : VtwNode} {state : σ} {pathp : Bytes} {got : VarRefResult} :
    data.oper = .varOp → data.string = some (varRefMarker ++ pathp) →
      ¬ (pathp.head? = some (ch '@') ∧ pathp[1]? ≠ some (ch '@')) → ch ')' ∈ pathp →
        (refLookup w g state (pathp.takeWhile (· ≠ ch ')'))).1 = some got → got.value = none → got.ismulti = false →
          VaFails (.node data left right) state

def VaReports (node : VtwNode) (state : σ) : Prop :=
  ∃ status after, evalVaOwned w g node state = .ok (.error status, after) ∧ status ≠ 0

variable {w g pclose} {node : VtwNode} {state : σ}

theorem evalVaOwned_bQuote {data : VtwData} {left right : VtwNode} {string : Bytes} (oper : data.oper = .bQuoteOp)
    (given : data.string = some string) : evalVaOwned w g (.node data left right) state =
      evalBQuoteOp w g string state >>= fun result =>
        .ok (result.1.map fun val => ⟨val, val.val.isSome⟩, result.2) := by
  simp only [evalVaOwned, oper, given]

theorem command_unreported (fails : CommandFails w g pclose node state) : ¬ VaReports w g node state := by
  intro reports
  obtain ⟨status, after, ran, -⟩ := reports
  cases fails with
  | expansion oper given expanded failed =>
    rw [evalVaOwned_bQuote oper given, evalBQuoteOp, expanded] at ran
    simp only [bind, Except.bind, if_pos failed] at ran
    cases ran
  | exit oper given expanded fine read _ =>
    rw [evalVaOwned_bQuote oper given, evalBQuoteOp, expanded] at ran
    simp only [bind, Except.bind, if_neg (not_not.mpr fine), read] at ran
    cases ran

theorem va_reported (fails : VaFails w g pclose node state) (runs : ¬ CommandFails w g pclose node state) :
    VaReports w g node state := by
  cases fails with
  | command fails => exact absurd fails runs
  | @start data left right state string expansion oper given expanded fine unread =>
    refine ⟨-1, (w.popen expansion.state expansion.exeString).2, ?_, by decide⟩
    have read : w.popen expansion.state expansion.exeString =
        (none, (w.popen expansion.state expansion.exeString).2) := Prod.ext unread rfl
    rw [evalVaOwned_bQuote oper given, evalBQuoteOp, expanded]
    simp only [bind, Except.bind, if_neg (not_not.mpr fine)]
    rw [read]
    rfl
  | @lookup data left right state pathp got oper given path closed found missing single =>
    refine ⟨-1, (refLookup w g state (pathp.takeWhile (· ≠ ch ')'))).2, ?_, by decide⟩
    have marked : varRefMarker <+: varRefMarker ++ pathp := List.prefix_append _ _
    simp only [evalVaOwned, oper, given, if_neg (not_not.mpr marked), List.drop_left, if_neg path,
      if_neg (not_not.mpr closed), found, refOwned, missing, single]
    rfl

/-- `eval_va` reports what fails but for a command that it has started or could not expand. -/
theorem va_reported_iff : (VaFails w g pclose node state → VaReports w g node state) ↔
    ¬ CommandFails w g pclose node state :=
  ⟨fun reported fails => command_unreported fails (reported (.command fails)), fun runs fails => va_reported fails runs⟩

end Operands

section Checks

variable {σ : Type} (w : World σ) (g : Globals) (pclose : σ → Int) (rightPart : σ → Nat) (prependMsg : Option Bytes)
  (format : Bool)

/-- The calls of `eval_va` that a call of `check_syn_func` makes. -/
inductive Evaluates : VtwNode × σ → VtwNode × σ → Prop where
  | assign {data : VtwData} {left right : VtwNode} {state : σ} : data.oper = .assignOp →
    Evaluates (.node data left right, state) (right, state)
  | pattern {data : VtwData} {left right : VtwNode} {state : σ} : data.oper = .patternOp →
    Evaluates (.node data left right, state) (left, state)
  | condLeft {data : VtwData} {left right : VtwNode} {state : σ} : data.oper = .condOp →
    Evaluates (.node data left right, state) (left, state)
  | condRight {data : VtwData} {left right : VtwNode} {state middle : σ} {lval : Owned} : data.oper = .condOp →
    evalVaOwned w g left state = .ok (.ok lval, middle) → Evaluates (.node data left right, state) (right, middle)

/-- The value of an assignment is there, and `cstore_set_var_ref` refuses it. -/
inductive SetFails : VtwNode × σ → Prop where
  | refused {data : VtwData} {left right : VtwNode} {state after : σ} {operand : Owned} {string value : Bytes} :
    data.oper = .assignOp → evalVaOwned w g right state = .ok (.ok operand, after) → operand.val.vals = [] →
      nodeString left = .ok string → varRefMarker <+: string → operand.val.val = some value → g.connected = true →
        (w.cstoreSetVarRef after ((string.drop varRefMarker.length).takeWhile (· ≠ ch ')')) value).1 = false →
          SetFails (.node data left right, state)

inductive CheckFails : VtwNode × σ → Prop where
  | operand {call operand : VtwNode × σ} : Evaluates w g call operand →
    VaFails w g pclose operand.1 operand.2 → CheckFails call
  | set {call : VtwNode × σ} : SetFails w g call → CheckFails call
  | execExpansion {data : VtwData} {left right : VtwNode} {state : σ} {string : Bytes} {expansion : Expansion σ} :
    data.oper = .execOp → nodeString left = .ok string → expandString w g string state = .ok expansion →
      expansion.status ≠ 0 → CheckFails (.node data left right, state)
  | execExit {data : VtwData} {left right : VtwNode} {state : σ} {string : Bytes} {expansion : Expansion σ} :
    data.oper = .execOp → nodeString left = .ok string → expandString w g string state = .ok expansion →
      expansion.status = 0 → (w.systemOut expansion.state expansion.exeString).1 ≠ 0 →
        CheckFails (.node data left right, state)
  | helpExpansion {data : VtwData} {left right : VtwNode} {state middle : σ} {string : Bytes}
      {expansion : Expansion σ} :
    data.oper = .helpOp → checkSyn w g rightPart prependMsg format left state = .ok (false, middle) →
      nodeString right = .ok string → expandString w g string middle = .ok expansion → expansion.status ≠ 0 →
        CheckFails (.node data left right, state)

/-- What fails in a call of `check_syn_func` is reported by the function that ran it. -/
structure FailuresReported (call : VtwNode × σ) : Prop where
  va : ∀ operand, Evaluates w g call operand → VaFails w g pclose operand.1 operand.2 →
    VaReports w g operand.1 operand.2
  check : CheckFails w g pclose rightPart prependMsg format call →
    ∃ after, checkSyn w g rightPart prependMsg format call.1 call.2 = .ok (false, after)

structure NothingLost (call : VtwNode × σ) : Prop where
  commands : ∀ operand, Evaluates w g call operand → ¬ CommandFails w g pclose operand.1 operand.2
  set : ¬ SetFails w g call

variable {w g pclose rightPart prependMsg format}

theorem set_unreported {call : VtwNode × σ} (fails : SetFails w g call) :
    ∃ after, checkSyn w g rightPart prependMsg format call.1 call.2 = .ok (true, after) := by
  cases fails with
  | @refused data left right state after operand string value oper evaluated single given marked present _ _ =>
    refine ⟨changeVarValue w g ((string.drop varRefMarker.length).takeWhile (· ≠ ch ')')) operand.val.val after, ?_⟩
    rw [checkSyn]
    simp only [oper, checkAssign]
    rw [evaluated]
    simp only [bind, Except.bind, single, given, marked, ne_eq, not_true, if_false]

theorem exec_reported {data : VtwData} {left right : VtwNode} {state : σ} {string : Bytes} {expansion : Expansion σ}
    (oper : data.oper = .execOp) (given : nodeString left = .ok string)
    (expanded : expandString w g string state = .ok expansion)
    (failed : expansion.status ≠ 0 ∨ (w.systemOut expansion.state expansion.exeString).1 ≠ 0) :
    ∃ after, checkSyn w g rightPart prependMsg format (.node data left right) state = .ok (false, after) := by
  rw [checkSyn]
  simp only [oper, checkExec]
  rw [given]
  simp only [bind, Except.bind]
  rw [expanded]
  dsimp only
  by_cases status : expansion.status ≠ 0
  · exact ⟨_, if_pos status⟩
  · have exit := failed.resolve_left status
    rw [if_neg status]
    refine ⟨(w.systemOut expansion.state expansion.exeString).2, ?_⟩
    simp [exit]

/-- A status of `eval_va` makes the check of the node fail. -/
theorem operand_reported {call operand : VtwNode × σ} (evaluates : Evaluates w g call operand)
    (reports : VaReports w g operand.1 operand.2) :
    ∃ after, checkSyn w g rightPart prependMsg format call.1 call.2 = .ok (false, after) := by
  obtain ⟨status, after, ran, -⟩ := reports
  refine ⟨after, ?_⟩
  cases evaluates with
  | assign oper =>
    rw [checkSyn]
    simp only [oper, checkAssign]
    rw [ran]
    rfl
  | pattern oper =>
    rw [checkSyn]
    simp only [oper, checkPattern]
    rw [ran]
    rfl
  | condLeft oper =>
    rw [checkSyn]
    simp only [oper, checkCond]
    rw [ran]
    rfl
  | condRight oper evaluated =>
    rw [checkSyn]
    simp only [oper, checkCond]
    rw [evaluated]
    simp only [bind, Except.bind]
    rw [ran]

theorem reports_iff {call : VtwNode × σ} :
    FailuresReported w g pclose rightPart prependMsg format call ↔ NothingLost w g pclose call := by
  constructor
  · intro reports
    refine ⟨fun operand evaluates => va_reported_iff.mp (reports.va operand evaluates), ?_⟩
    intro fails
    obtain ⟨after, stopped⟩ := reports.check (.set fails)
    have goesOn : ∃ after, checkSyn w g rightPart prependMsg format call.1 call.2 = .ok (true, after) :=
      set_unreported fails
    obtain ⟨after', passed⟩ := goesOn
    rw [stopped] at passed
    cases passed
  · intro clean
    have va : ∀ operand, Evaluates w g call operand → VaFails w g pclose operand.1 operand.2 →
        VaReports w g operand.1 operand.2 :=
      fun operand evaluates => va_reported_iff.mpr (clean.commands operand evaluates)
    refine ⟨va, ?_⟩
    intro fails
    cases fails with
    | operand evaluates failed => exact operand_reported evaluates (va _ evaluates failed)
    | set failed => exact absurd failed clean.set
    | execExpansion oper given expanded failed => exact exec_reported oper given expanded (.inl failed)
    | execExit oper given expanded _ failed => exact exec_reported oper given expanded (.inr failed)
    | @helpExpansion data left right state middle string expansion oper checked given expanded failed =>
      refine ⟨expansion.state, ?_⟩
      rw [checkSyn]
      simp only [oper]
      rw [checked]
      simp only [bind, Except.bind, Bool.false_eq_true, if_false, checkHelp]
      rw [given]
      simp only
      rw [expanded]
      simp only [if_neg failed]

end Checks

section Lists

variable {σ : Type} (w : World σ) (g : Globals) (pclose : σ → Int) (rightPart : σ → Nat) (prependMsg : Option Bytes)
  (format : Bool) (lib : AddressLib) (defn : VtwDef) (cur : VtwNode) (state : σ)

/-- The actions of a list, each with the data of its element. -/
inductive Element : VtwNode → VtwData → VtwNode → Prop where
  | here {data : VtwData} {left right : VtwNode} : data.oper = .listOp → Element (.node data left right) data left
  | later {data inner : VtwData} {left right action : VtwNode} : data.oper = .listOp → Element right inner action →
    Element (.node data left right) inner action

/-- The check is TRUE, and no failure on the way to that was kept back. -/
structure Succeeds (action : VtwNode) : Prop where
  checked : ∃ after, checkSyn w g rightPart prependMsg format action state = .ok (true, after)
  reported : ∀ call, ReflTransGen (Calls w g rightPart prependMsg format) (action, state) call →
    FailuresReported w g pclose rightPart prependMsg format call

/-- No failure is swallowed in a run of `execute_list`. -/
structure ExecutionReports : Prop where
  calls : ∀ valp start, char2val w g lib defn g.atString state = .ok (.ok valp, start) →
    ∀ call, ReflTransGen (Calls w { g with validateValue := valp } rightPart prependMsg format) (cur, start) call →
      FailuresReported w { g with validateValue := valp } pclose rightPart prependMsg format call
  actions : ∀ after, executeList w g rightPart prependMsg format lib defn cur state = .ok (true, after) →
    ∃ valp start, char2val w g lib defn g.atString state = .ok (.ok valp, start) ∧
      ∀ data action, Element cur data action → ListChecked g data → ∃ reached,
        ReflTransGen (Calls w { g with validateValue := valp } rightPart prependMsg format) (cur, start)
            (action, reached) ∧
          Succeeds w { g with validateValue := valp } pclose rightPart prependMsg format reached action

variable {w g pclose rightPart prependMsg format lib defn cur state}

theorem list_enabled {data : VtwData} {left right : VtwNode} {after : σ} (oper : data.oper = .listOp)
    (enabled : ListChecked g data)
    (ran : checkSyn w g rightPart prependMsg format (.node data left right) state = .ok (true, after)) :
    ∃ middle, checkSyn w g rightPart prependMsg format left state = .ok (true, middle) ∧
      (right.isNull = false → checkSyn w g rightPart prependMsg format right middle = .ok (true, after)) := by
  rw [checkSyn] at ran
  simp only [oper] at ran
  rw [if_pos enabled] at ran
  obtain ⟨⟨first, middle⟩, ranLeft, ranNext⟩ := bind_ok.mp ran
  cases first with
  | false => cases ranNext
  | true =>
    refine ⟨middle, ranLeft, ?_⟩
    intro present
    rw [present] at ranNext
    exact ranNext

theorem list_skipped {data : VtwData} {left right : VtwNode} {after : σ} (oper : data.oper = .listOp)
    (skipped : ¬ ListChecked g data) (present : right.isNull = false)
    (ran : checkSyn w g rightPart prependMsg format (.node data left right) state = .ok (true, after)) :
    checkSyn w g rightPart prependMsg format right state = .ok (true, after) := by
  rw [checkSyn] at ran
  simp only [oper] at ran
  rw [if_neg skipped, present] at ran
  exact ran

theorem element_checked {data : VtwData} {action : VtwNode} (element : Element cur data action)
    (enabled : ListChecked g data) {after : σ}
    (ran : checkSyn w g rightPart prependMsg format cur state = .ok (true, after)) :
    ∃ reached, ReflTransGen (Calls w g rightPart prependMsg format) (cur, state) (action, reached) ∧
      ∃ done, checkSyn w g rightPart prependMsg format action reached = .ok (true, done) := by
  induction element generalizing state with
  | here oper =>
    obtain ⟨middle, ranLeft, -⟩ := list_enabled oper enabled ran
    refine ⟨state, .single ?_, middle, ranLeft⟩
    simp only [Calls, oper, if_pos enabled, true_or]
  | @later data inner left right action oper rest ih =>
    have present : right.isNull = false := by cases rest <;> rfl
    by_cases outer : ListChecked g data
    · obtain ⟨middle, ranLeft, ranRight⟩ := list_enabled oper outer ran
      have called : Calls w g rightPart prependMsg format (.node data left right, state) (right, middle) := by
        simp only [Calls, oper, if_pos outer]
        exact .inr ⟨middle, checkSyn_ok_iff.mp ranLeft, present, rfl⟩
      obtain ⟨reached, run, done⟩ := ih enabled (ranRight present)
      exact ⟨reached, .head called run, done⟩
    · have called : Calls w g rightPart prependMsg format (.node data left right, state) (right, state) := by
        simp only [Calls, oper, if_neg outer]
        exact ⟨present, trivial⟩
      obtain ⟨reached, run, done⟩ := ih enabled (list_skipped oper outer present ran)
      exact ⟨reached, .head called run, done⟩

theorem executeList_true {after : σ}
    (ran : executeList w g rightPart prependMsg format lib defn cur state = .ok (true, after)) :
    ∃ valp start, char2val w g lib defn g.atString state = .ok (.ok valp, start) ∧
      checkSyn w { g with validateValue := valp } rightPart prependMsg format cur start = .ok (true, after) := by
  obtain ⟨⟨checked, start⟩, converted, rest⟩ := bind_ok.mp ran
  cases checked with
  | error status => cases rest
  | ok valp => exact ⟨valp, start, converted, rest⟩

theorem executionReports_iff : ExecutionReports w g pclose rightPart prependMsg format lib defn cur state ↔
    ∀ valp start, char2val w g lib defn g.atString state = .ok (.ok valp, start) →
      ∀ call, ReflTransGen (Calls w { g with validateValue := valp } rightPart prependMsg format) (cur, start) call →
        NothingLost w { g with validateValue := valp } pclose call := by
  constructor
  · intro reports valp start converted call called
    exact reports_iff.mp (reports.calls valp start converted call called)
  · intro clean
    have calls : ∀ valp start, char2val w g lib defn g.atString state = .ok (.ok valp, start) →
        ∀ call, ReflTransGen (Calls w { g with validateValue := valp } rightPart prependMsg format) (cur, start) call →
          FailuresReported w { g with validateValue := valp } pclose rightPart prependMsg format call :=
      fun valp start converted call called => reports_iff.mpr (clean valp start converted call called)
    refine ⟨calls, ?_⟩
    intro after ran
    obtain ⟨valp, start, converted, checked⟩ := executeList_true ran
    refine ⟨valp, start, converted, ?_⟩
    intro data action element enabled
    have same : ListChecked { g with validateValue := valp } data := enabled
    obtain ⟨reached, run, done⟩ := element_checked element same checked
    exact ⟨reached, run, done, fun call called => calls valp start converted call (run.trans called)⟩

end Lists

/-- A failure is kept back, in a single call or in a run over a list, exactly where a back-quoted
    command fails after its start or an assignment is refused. -/
theorem failures_reported_iff {σ : Type} (w : World σ) (g : Globals) (pclose : σ → Int) (rightPart : σ → Nat)
    (prependMsg : Option Bytes) (format : Bool) (lib : AddressLib) (defn : VtwDef) (cur : VtwNode) (state : σ) :
    (∀ call : VtwNode × σ,
        FailuresReported w g pclose rightPart prependMsg format call ↔ NothingLost w g pclose call) ∧
      (ExecutionReports w g pclose rightPart prependMsg format lib defn cur state ↔
        ∀ valp start, char2val w g lib defn g.atString state = .ok (.ok valp, start) → ∀ call,
          ReflTransGen (Calls w { g with validateValue := valp } rightPart prependMsg format) (cur, start) call →
            NothingLost w { g with validateValue := valp } pclose call) :=
  ⟨fun _ => reports_iff, executionReports_iff⟩

section Refused

def refusedVar : VarToken := ⟨str "x", by decide, by decide, by decide⟩

def refusedValue : StringToken := ⟨str "v", by decide⟩

def refusedAssignment : VtwNode := makeAssignNode refusedVar (.makeValNode (str2val refusedValue.text))

theorem refused_set (g : Globals) (connected : g.connected = true) : SetFails quietWorld g (refusedAssignment, ()) := by
  have evaluated : evalVaOwned quietWorld g (.makeValNode (str2val refusedValue.text)) () =
      .ok (.ok ⟨str2val refusedValue.text, false⟩, ()) := rfl
  have given : nodeString (.makeVarNode refusedVar.text) = .ok refusedVar.text := rfl
  exact .refused rfl evaluated rfl given (List.prefix_append _ _) rfl connected rfl

/-- `sub:expression: $VAR(x) = "v"`, where the store refuses the value. -/
theorem refused_assignment_swallowed : ∃ list,
    buildList .null [.sub (.assign refusedVar (.val0 (.item (.string refusedValue))))] = .ok list ∧
      executeList quietWorld quietGlobals (fun _ => 0) none false addressLib ⟨.text, .error, none, false⟩ list () =
        .ok (true, ()) ∧
      ¬ ∀ (σ : Type) (w : World σ) (g : Globals) (pclose : σ → Int) (rightPart : σ → Nat) (prependMsg : Option Bytes)
        (format : Bool) (lib : AddressLib) (defn : VtwDef) (cur : VtwNode) (state : σ),
        ExecutionReports w g pclose rightPart prependMsg format lib defn cur state := by
  refine ⟨listNode refusedAssignment false .null, rfl, by rfl, ?_⟩
  intro all
  have reports := all Unit quietWorld quietGlobals (fun _ => 0) (fun _ => 0) none false addressLib
    ⟨.text, .error, none, false⟩ (listNode refusedAssignment false .null) ()
  have converted : char2val quietWorld quietGlobals addressLib ⟨.text, .error, none, false⟩ quietGlobals.atString () =
      .ok (.ok (char2valText (str "7")), ()) := rfl
  have called : Calls quietWorld { quietGlobals with validateValue := char2valText (str "7") } (fun _ => 0) none false
      (listNode refusedAssignment false .null, ()) (refusedAssignment, ()) := .inl rfl
  have refused := refused_set { quietGlobals with validateValue := char2valText (str "7") } rfl
  obtain ⟨after, stopped⟩ := (reports.calls _ () converted _ (.single called)).check (.set refused)
  have goesOn : ∃ after, checkSyn quietWorld { quietGlobals with validateValue := char2valText (str "7") } (fun _ => 0)
      none false refusedAssignment () = .ok (true, after) := set_unreported refused
  obtain ⟨after', passed⟩ := goesOn
  rw [stopped] at passed
  cases passed

end Refused

end VyattaCfg.Cliexec
