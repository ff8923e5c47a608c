import VyattaCfg.Cliexec.Effects

namespace VyattaCfg.Cliexec

open ByteString VyattaCfg.Client Outcome ShortCircuit Relation

section Projection

variable {σ τ : Type}

/-- A world that does on a projection of its state what the other world does. -/
structure Projects (f : τ → σ) (fine : World τ) (coarse : World σ) : Prop where
  get : ∀ state ref active,
    Prod.map id f (fine.cstoreGetVarRef state ref active) = coarse.cstoreGetVarRef (f state) ref active
  set : ∀ state ref value,
    Prod.map id f (fine.cstoreSetVarRef state ref value) = coarse.cstoreSetVarRef (f state) ref value
  popen : ∀ state command, Prod.map id f (fine.popen state command) = coarse.popen (f state) command
  systemOut : ∀ state command, Prod.map id f (fine.systemOut state command) = coarse.systemOut (f state) command
  outputUser : ∀ state text, f (fine.outputUser state text) = coarse.outputUser (f state) text
  regcomp : fine.regcomp = coarse.regcomp

def ExpandRound.map (f : τ → σ) (round : ExpandRound τ) : ExpandRound σ :=
  ⟨round.scanned, round.advance, round.copied, f round.state⟩

def Expansion.map (f : τ → σ) (expansion : Expansion τ) : Expansion σ :=
  ⟨expansion.status, expansion.exeString, expansion.buffer, f expansion.state⟩

variable {f : τ → σ} {fine : World τ} {coarse : World σ} {g : Globals}

namespace Projects

theorem refLookup (projects : Projects f fine coarse) (state : τ) (ref : Bytes) :
    Prod.map id f (refLookup fine g state ref) = Cliexec.refLookup coarse g (f state) ref := by
  unfold Cliexec.refLookup
  split
  · rw [← projects.get]
    rfl
  · rfl

theorem refText (projects : Projects f fine coarse) (state : τ) (ref : Bytes) :
    Prod.map id f (refText fine g state ref) = Cliexec.refText coarse g (f state) ref := by
  rw [Cliexec.refText, Cliexec.refText, ← projects.refLookup]
  rfl

theorem expandRound (projects : Projects f fine coarse) (scanp : Bytes) (state : τ) :
    (expandRound fine g scanp state).map (Option.map (ExpandRound.map f)) =
      Cliexec.expandRound coarse g scanp (f state) := by
  cases scanp with
  | nil => rfl
  | cons c rest =>
    simp only [Cliexec.expandRound, ← projects.refText]
    split_ifs <;> rfl

theorem expandLoop (projects : Projects f fine coarse) (seen scanp exeString : Bytes) (state : τ) :
    (expandLoop fine g seen scanp exeString state).map (Expansion.map f) =
      Cliexec.expandLoop coarse g seen scanp exeString (f state) := by
  induction bound : scanp.length using Nat.strong_induction_on generalizing seen scanp exeString state with
  | _ n ih =>
    have same := projects.expandRound (g := g) scanp state
    cases made : Cliexec.expandRound fine g scanp state with
    | error abort =>
      rw [made] at same
      rw [expandLoop_error made, expandLoop_error same.symm]
      rfl
    | ok round =>
      rw [made] at same
      cases round with
      | none =>
        rw [expandLoop_none made, expandLoop_none same.symm]
        rfl
      | some round =>
        have moved := expandRound_advance fine g made
        rw [expandLoop_some made, expandLoop_some same.symm]
        simp only [ExpandRound.map]
        split
        · rfl
        · split
          · rfl
          · have shorter : (round.scanned.drop round.advance).length < n := by
              rw [List.length_drop]
              omega
            exact ih _ shorter _ _ _ _ rfl

theorem expandString (projects : Projects f fine coarse) (s : Bytes) (state : τ) :
    (expandString fine g s state).map (Expansion.map f) = Cliexec.expandString coarse g s (f state) :=
  projects.expandLoop [] (s ++ [0]) [] state

variable {rightPart : σ → Nat} {prependMsg : Option Bytes} {format : Bool}

theorem varToken (projects : Projects f fine coarse) (token : VarToken) :
    Along f (token.operand fine g) (token.operand coarse g) := by
  intro state
  unfold VarToken.operand
  split
  · rfl
  · rw [← projects.refLookup]
    rfl

theorem val (projects : Projects f fine coarse) (val : Val) : Along f (val.operand fine g) (val.operand coarse g) := by
  cases val with
  | var token => exact projects.varToken token
  | val0 values => exact fun _ => rfl
  | exString token =>
    intro state
    show (Cliexec.expandString fine g token.text state >>= _).map _ =
      (Cliexec.expandString coarse g token.text (f state) >>= _)
    rw [← projects.expandString]
    cases Cliexec.expandString fine g token.text state with
    | error abort => rfl
    | ok expansion =>
      show Except.map _ (if expansion.status ≠ 0 then _ else _) = (if expansion.status ≠ 0 then _ else _)
      split
      · rfl
      · have asked : coarse.popen (expansion.map f).state (expansion.map f).exeString =
            Prod.map id f (fine.popen expansion.state expansion.exeString) := (projects.popen _ _).symm
        rw [asked]
        cases fine.popen expansion.state expansion.exeString with
        | mk out next => cases out <;> rfl

theorem cond (op : VtwCond) (left right : ValStruct) :
    Along f (condMeaning (rightPart ∘ f) op left right) (condMeaning rightPart op left right) := by
  intro state
  unfold condMeaning
  rw [Function.comp_apply]
  cases compareOperands (rightPart (f state)) left right op <;> rfl

theorem pattern (projects : Projects f fine coarse) (regex : StringToken) (operand : ValStruct) :
    Along f (patternMeaning fine regex operand) (patternMeaning coarse regex operand) := by
  intro state
  unfold patternMeaning
  rw [projects.regcomp]
  cases coarse.regcomp regex.text with
  | none => rfl
  | some regexec =>
    by_cases single : operand.vals = []
    · simp only [if_pos single]
      cases operand.val <;> rfl
    · simp only [if_neg single]
      rfl

theorem assign (projects : Projects f fine coarse) (var : VarToken) (operand : ValStruct) :
    Along f (assignMeaning fine g var operand) (assignMeaning coarse g var operand) := by
  intro state
  unfold assignMeaning
  split
  · rfl
  · unfold changeVarValue
    cases operand.val with
    | none => rfl
    | some value =>
      by_cases connected : g.connected
      · simp only [connected, if_true, ← projects.set]
        rfl
      · simp only [connected]
        rfl

theorem exec (projects : Projects f fine coarse) (command : StringToken) :
    Along f (execMeaning fine g command) (execMeaning coarse g command) := by
  intro state
  unfold execMeaning
  rw [← projects.expandString]
  cases Cliexec.expandString fine g command.text state with
  | error abort => rfl
  | ok expansion =>
    show Except.map _ (if expansion.status ≠ 0 then _ else _) = (if expansion.status ≠ 0 then _ else _)
    split
    · rfl
    · simp only [Expansion.map, ← projects.systemOut]
      rfl

theorem help (projects : Projects f fine coarse) (text : StringToken) (state : τ) :
    (helpMeaning fine g prependMsg format text state).map f = helpMeaning coarse g prependMsg format text (f state) := by
  unfold helpMeaning
  rw [← projects.expandString]
  cases Cliexec.expandString fine g text.text state with
  | error abort => rfl
  | ok expansion =>
    show Except.map _ (if expansion.status = 0 then _ else _) = (if expansion.status = 0 then _ else _)
    split
    · simp only [Expansion.map, ← projects.outputUser]
      rfl
    · rfl

theorem exp (projects : Projects f fine coarse) (exp : Exp) :
    Along f (exp.meaning fine g (rightPart ∘ f) prependMsg format) (exp.meaning coarse g rightPart prependMsg format) := by
  induction exp with
  | and left right ihLeft ihRight => exact ihLeft.both ihRight
  | or left right ihLeft ihRight => exact ihLeft.either ihRight
  | cond left op right =>
    apply (projects.val left).given
    intro lval
    apply (projects.val right).given
    exact fun rval => cond op lval rval
  | pattern var regex => exact (projects.varToken var).given fun operand => projects.pattern regex operand
  | exec command => exact projects.exec command
  | not exp ih => exact ih.negated
  | help exp text ih => exact ih.told (projects.help text)
  | assign var val => exact (projects.val val).given fun operand => projects.assign var operand

theorem clause (projects : Projects f fine coarse) (clause : Clause) :
    Along f (clause.meaning fine g (rightPart ∘ f) prependMsg format)
      (clause.meaning coarse g rightPart prependMsg format) := by
  unfold Clause.meaning
  split
  · exact projects.exp clause.exp
  · exact along_answer true

end Projects

end Projection

section Recorded

variable {σ : Type}

inductive Event where
  | looked (ref : Bytes)
  | assigned (ref value : Bytes)
  | read (command : Bytes)
  | ran (command : Bytes)
  | told (text : Bytes)

def Event.effect : Event → Bool
  | .looked _ => false
  | .assigned _ _ | .read _ | .ran _ | .told _ => true

/-- The world with a record of what it was asked to do. -/
def World.recorded (w : World σ) : World (σ × List Event) where
  cstoreGetVarRef state ref active :=
    let (got, after) := w.cstoreGetVarRef state.1 ref active
    (got, after, state.2 ++ [.looked ref])
  cstoreSetVarRef state ref value :=
    let (done, after) := w.cstoreSetVarRef state.1 ref value
    (done, after, state.2 ++ [.assigned ref value])
  popen state command :=
    let (out, after) := w.popen state.1 command
    (out, after, state.2 ++ [.read command])
  systemOut state command :=
    let (ret, after) := w.systemOut state.1 command
    (ret, after, state.2 ++ [.ran command])
  outputUser state text := (w.outputUser state.1 text, state.2 ++ [.told text])
  regcomp := w.regcomp

theorem recorded_projects (w : World σ) : Projects Prod.fst w.recorded w where
  get _ _ _ := rfl
  set _ _ _ := rfl
  popen _ _ := rfl
  systemOut _ _ := rfl
  outputUser _ _ := rfl
  regcomp := rfl

variable (w : World σ) (g : Globals) (prependMsg : Option Bytes) (format : Bool)

/-- The text is what the string has been expanded to. -/
def Expanded (string : StringToken) (text : Bytes) : Prop :=
  ∃ state expansion, expandString w g string.text state = .ok expansion ∧ expansion.status = 0 ∧
    expansion.exeString = text

/-- The effect is the one that the site has. -/
def Site.Fits : Site → Event → Prop
  | .assign var, .assigned ref _ => ref = var.path
  | .read command, .read text => Expanded w g command text
  | .exec command, .ran text => Expanded w g command text
  | .tell help, .told text => ∃ string, Expanded w g help string ∧ text = helpText prependMsg format string
  | _, _ => False

/-- The record goes on, with effects that some of the sites have in their order. -/
def Continues (sites : List Site) (record after : List Event) : Prop :=
  ∃ events performed, after = record ++ events ∧ performed.Sublist sites ∧
    List.Forall₂ (Site.Fits w g prependMsg format) performed (events.filter Event.effect)

variable {w g prependMsg format}

theorem looks_recorded {state after : σ × List Event} (looks : Looks w.recorded g state after) :
    ∃ events, after.2 = state.2 ++ events ∧ events.filter Event.effect = [] := by
  obtain ⟨ref, rfl⟩ := looks
  unfold refLookup
  split
  · exact ⟨[.looked ref], rfl, rfl⟩
  · exact ⟨[], (List.append_nil _).symm, rfl⟩

theorem lookups_recorded {state after : σ × List Event} (looked : ReflTransGen (Looks w.recorded g) state after) :
    ∃ events, after.2 = state.2 ++ events ∧ events.filter Event.effect = [] := by
  induction looked with
  | refl => exact ⟨[], (List.append_nil _).symm, rfl⟩
  | tail _ looks ih =>
    obtain ⟨events, before, silent⟩ := ih
    obtain ⟨more, extended, quiet⟩ := looks_recorded looks
    refine ⟨events ++ more, ?_, ?_⟩
    · rw [extended, before, List.append_assoc]
    · rw [List.filter_append, silent, quiet]
      rfl

theorem expanded_recorded {string : StringToken} {state : σ × List Event} {expansion : Expansion (σ × List Event)}
    (ran : expandString w.recorded g string.text state = .ok expansion) (succeeded : expansion.status = 0) :
    Expanded w g string expansion.exeString ∧
      ∃ events, expansion.state.2 = state.2 ++ events ∧ events.filter Event.effect = [] := by
  refine ⟨?_, lookups_recorded (expandString_looks ran)⟩
  have plain := (recorded_projects w).expandString (g := g) string.text state
  rw [ran] at plain
  exact ⟨state.1, expansion.map Prod.fst, plain.symm, succeeded, rfl⟩

theorem site_recorded {site : Site} {state after : σ × List Event}
    (made : site.Step w.recorded g prependMsg format state after) :
    ∃ events event, after.2 = state.2 ++ (events ++ [event]) ∧ events.filter Event.effect = [] ∧
      event.effect = true ∧ site.Fits w g prependMsg format event := by
  cases site with
  | assign var =>
    obtain ⟨value, rfl⟩ := made
    exact ⟨[], .assigned var.path value, rfl, rfl, rfl, rfl⟩
  | read command =>
    obtain ⟨expansion, ran, succeeded, rfl⟩ := made
    obtain ⟨expanded, events, extended, silent⟩ := expanded_recorded ran succeeded
    refine ⟨events, .read expansion.exeString, ?_, silent, rfl, expanded⟩
    rw [← List.append_assoc, ← extended]
    rfl
  | exec command =>
    obtain ⟨expansion, ran, succeeded, rfl⟩ := made
    obtain ⟨expanded, events, extended, silent⟩ := expanded_recorded ran succeeded
    refine ⟨events, .ran expansion.exeString, ?_, silent, rfl, expanded⟩
    rw [← List.append_assoc, ← extended]
    rfl
  | tell help =>
    obtain ⟨expansion, ran, succeeded, rfl⟩ := made
    obtain ⟨expanded, events, extended, silent⟩ := expanded_recorded ran succeeded
    refine ⟨events, .told (helpText prependMsg format expansion.exeString), ?_, silent, rfl, _, expanded, rfl⟩
    rw [← List.append_assoc, ← extended]
    rfl

theorem performs_recorded {sites : List Site} {state after : σ × List Event}
    (way : Performs (Looks w.recorded g) (Site.Step w.recorded g prependMsg format) sites state after) :
    Continues w g prependMsg format sites state.2 after.2 := by
  induction way with
  | done state => exact ⟨[], [], (List.append_nil _).symm, .slnil, .nil⟩
  | free looks _ ih =>
    obtain ⟨first, extended, silent⟩ := looks_recorded looks
    obtain ⟨events, performed, continued, inside, fits⟩ := ih
    refine ⟨first ++ events, performed, ?_, inside, ?_⟩
    · rw [continued, extended, List.append_assoc]
    · rw [List.filter_append, silent]
      exact fits
  | skip _ ih =>
    obtain ⟨events, performed, continued, inside, fits⟩ := ih
    exact ⟨events, performed, continued, inside.cons _, fits⟩
  | step made _ ih =>
    obtain ⟨first, event, extended, silent, effect, fit⟩ := site_recorded made
    obtain ⟨events, performed, continued, inside, fits⟩ := ih
    refine ⟨first ++ [event] ++ events, _ :: performed, ?_, inside.cons_cons _, ?_⟩
    · rw [continued, extended, List.append_assoc]
    · rw [List.filter_append, List.filter_append, silent, List.filter_singleton, effect]
      exact .cons fit fits

end Recorded

/-- Recording changes nothing, and what is recorded besides lookups is what sites of the template do, each
    at most once and in their order. -/
theorem evaluation_history (clause : Clause) (clauses : List Clause) :
    ∃ list, buildList .null (clause :: clauses) = .ok list ∧
      ∀ (σ : Type) (w : World σ) (g : Globals) (rightPart : σ → Nat) (prependMsg : Option Bytes) (format : Bool)
        (state after : σ) (ret : Bool),
        checkSyn w g rightPart prependMsg format list state = .ok (ret, after) →
          ∃ record performed,
            checkSyn w.recorded g (rightPart ∘ Prod.fst) prependMsg format list (state, []) =
              .ok (ret, after, record) ∧
            performed.Sublist ((clause :: clauses).flatMap Clause.sites) ∧
            List.Forall₂ (Site.Fits w g prependMsg format) performed (record.filter Event.effect) := by
  obtain ⟨built, each⟩ := clauses_built (clause :: clauses)
  refine ⟨chain built, buildList_chain each [], ?_⟩
  intro σ w g rightPart prependMsg format state after ret ran
  have nonempty : clause :: clauses ≠ [] := List.cons_ne_nil _ _
  have along : Along Prod.fst
      (checkSyn w.recorded g (rightPart ∘ Prod.fst) prependMsg format (chain built))
      (checkSyn w g rightPart prependMsg format (chain built)) := by
    rw [chain_meaning nonempty each, chain_meaning nonempty each]
    exact along_inOrder (fun part => (recorded_projects w).clause part) _
  have projected := along (state, [])
  rw [ran] at projected
  cases recorded : checkSyn w.recorded g (rightPart ∘ Prod.fst) prependMsg format (chain built) (state, []) with
  | error abort =>
    rw [recorded] at projected
    cases projected
  | ok result =>
    rw [recorded] at projected
    rcases result with ⟨answered, reached, record⟩
    cases projected
    obtain ⟨events, performed, continued, inside, fits⟩ := performs_recorded (clauses_performs nonempty each recorded)
    cases continued
    exact ⟨_, performed, rfl, inside, fits⟩

theorem evaluation_history_assignment :
    ∃ list, buildList .null [assignment] = .ok list ∧
      ∃ record performed,
        checkSyn quietWorld.recorded quietGlobals ((fun _ => 0) ∘ Prod.fst) none false list ((), []) =
          .ok (true, (), record) ∧
        performed.Sublist ([assignment].flatMap Clause.sites) ∧
        List.Forall₂ (Site.Fits quietWorld quietGlobals none false) performed (record.filter Event.effect) := by
  obtain ⟨list, built, history⟩ := evaluation_history assignment []
  refine ⟨list, built, history Unit quietWorld quietGlobals (fun _ => 0) none false () () true ?_⟩
  rw [← Except.ok.inj built]
  rfl

end VyattaCfg.Cliexec
