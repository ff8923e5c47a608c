import VyattaCfg.Cliexec.Meaning

namespace VyattaCfg.Cliexec

open ByteString VyattaCfg.Client Outcome ShortCircuit Relation

section Sites

/-- A place of a template where running it has an effect. -/
inductive Site where
  | assign (var : VarToken)
  | read (command : StringToken)
  | exec (command : StringToken)
  | tell (help : StringToken)

def Val.sites : Val → List Site
  | .exString token => [.read token]
  | .var _ | .val0 _ => []

/-- The sites in the order of the text. -/
def Exp.sites : Exp → List Site
  | .and left right | .or left right => left.sites ++ right.sites
  | .cond left _ right => left.sites ++ right.sites
  | .pattern _ _ => []
  | .exec command => [.exec command]
  | .not exp => exp.sites
  | .help exp text => exp.sites ++ [.tell text]
  | .assign var val => val.sites ++ [.assign var]

end Sites

section Steps

variable {σ : Type} (w : World σ) (g : Globals) (prependMsg : Option Bytes) (format : Bool)

def Looks (state after : σ) : Prop := ∃ ref, after = (refLookup w g state ref).2

/-- What a site does, with the lookups of its own text. -/
def Site.Step : Site → σ → σ → Prop
  | .assign var, state, after => ∃ value, after = (w.cstoreSetVarRef state var.path value).2
  | .read command, state, after =>
    ∃ expansion, expandString w g command.text state = .ok expansion ∧ expansion.status = 0 ∧
      after = (w.popen expansion.state expansion.exeString).2
  | .exec command, state, after =>
    ∃ expansion, expandString w g command.text state = .ok expansion ∧ expansion.status = 0 ∧
      after = (w.systemOut expansion.state expansion.exeString).2
  | .tell help, state, after =>
    ∃ expansion, expandString w g help.text state = .ok expansion ∧ expansion.status = 0 ∧
      after = w.outputUser expansion.state (helpText prependMsg format expansion.exeString)

variable {w g}

theorem expandRound_looks {scanp : Bytes} {state : σ} {round : ExpandRound σ}
    (ran : expandRound w g scanp state = .ok (some round)) : ReflTransGen (Looks w g) state round.state := by
  have still : ∀ round' : ExpandRound σ, round'.state = state →
      (.ok (some round') : Except Abort (Option (ExpandRound σ))) = .ok (some round) →
        ReflTransGen (Looks w g) state round.state := by
    intro round' same equal
    cases equal
    rw [same]
  unfold expandRound at ran
  split at ran
  · cases ran
  · split at ran
    · exact still _ rfl ran
    · split at ran
      · exact still _ rfl ran
      · split at ran
        · exact still _ rfl ran
        · split at ran
          · exact still _ rfl ran
          · split at ran
            · cases ran
            · simp only at ran
              split at ran
              · cases ran
              · cases ran
                exact .single ⟨_, rfl⟩

theorem expandLoop_looks {seen scanp exeString : Bytes} {state : σ} {expansion : Expansion σ}
    (ran : expandLoop w g seen scanp exeString state = .ok expansion) :
    ReflTransGen (Looks w g) state expansion.state := by
  induction bound : scanp.length using Nat.strong_induction_on generalizing seen scanp exeString state with
  | _ n ih =>
    cases made : expandRound w g scanp state with
    | error abort =>
      rw [expandLoop_error made] at ran
      cases ran
    | ok round =>
      cases round with
      | none =>
        rw [expandLoop_none made] at ran
        cases ran
        exact .refl
      | some round =>
        have looked := expandRound_looks made
        have moved := expandRound_advance w g made
        rw [expandLoop_some made] at ran
        split at ran
        · cases ran
        · split at ran
          · cases ran
            exact looked
          · have shorter : (round.scanned.drop round.advance).length < n := by
              rw [List.length_drop]
              omega
            exact looked.trans (ih _ shorter ran rfl)

/-- Expanding a string looks references up, and does nothing else. -/
theorem expandString_looks {s : Bytes} {state : σ} {expansion : Expansion σ}
    (ran : expandString w g s state = .ok expansion) : ReflTransGen (Looks w g) state expansion.state :=
  expandLoop_looks ran

end Steps

section Performed

variable {σ : Type} {w : World σ} {g : Globals} {rightPart : σ → Nat} {prependMsg : Option Bytes} {format : Bool}

theorem looks_performs {state after : σ} (looked : ReflTransGen (Looks w g) state after) (sites : List Site) :
    Performs (Looks w g) (Site.Step w g prependMsg format) sites state after :=
  .frees looked (.skipped sites after)

theorem site_performs {site : Site} {state after : σ} (made : site.Step w g prependMsg format state after) :
    Performs (Looks w g) (Site.Step w g prependMsg format) [site] state after :=
  .step made (.done after)

theorem varToken_looks {token : VarToken} {state after : σ} {found : Except Int ValStruct}
    (ran : token.operand w g state = .ok (found, after)) : ReflTransGen (Looks w g) state after := by
  unfold VarToken.operand at ran
  split at ran
  · cases ran
    exact .refl
  · cases ran
    exact .single ⟨token.path, rfl⟩

theorem val_performs {val : Val} {state after : σ} {found : Except Int ValStruct}
    (ran : val.operand w g state = .ok (found, after)) :
    Performs (Looks w g) (Site.Step w g prependMsg format) val.sites state after := by
  cases val with
  | var token => exact looks_performs (varToken_looks ran) []
  | val0 values =>
    cases ran
    exact .done state
  | exString token =>
    obtain ⟨expansion, expanded, rest⟩ := bind_ok.mp ran
    split at rest
    · cases rest
      exact looks_performs (expandString_looks expanded) _
    · rename_i succeeded
      apply site_performs
      refine ⟨expansion, expanded, not_not.mp succeeded, ?_⟩
      cases opened : w.popen expansion.state expansion.exeString with
      | mk out next =>
        rw [opened] at rest
        cases out <;> cases rest <;> rfl

theorem within_pure {test : Test Abort σ} (still : ∀ state ret after, test state = .ok (ret, after) → after = state) :
    Within (Looks w g) (Site.Step w g prependMsg format) [] test := by
  intro state ret after ran
  rw [still state ret after ran]
  exact .done state

theorem condMeaning_within (op : VtwCond) (left right : ValStruct) :
    Within (Looks w g) (Site.Step w g prependMsg format) [] (condMeaning rightPart op left right) := by
  apply within_pure
  intro state ret after ran
  obtain ⟨answered, -, same⟩ := bind_ok.mp ran
  cases same
  rfl

theorem patternMeaning_within (regex : StringToken) (operand : ValStruct) :
    Within (Looks w g) (Site.Step w g prependMsg format) [] (patternMeaning w regex operand) := by
  apply within_pure
  intro state ret after ran
  unfold patternMeaning at ran
  grind

theorem assignMeaning_within (var : VarToken) (operand : ValStruct) :
    Within (Looks w g) (Site.Step w g prependMsg format) [.assign var] (assignMeaning w g var operand) := by
  intro state ret after ran
  unfold assignMeaning changeVarValue at ran
  split at ran
  · cases ran
    exact .skipped _ state
  · cases given : operand.val with
    | none =>
      rw [given] at ran
      cases ran
      exact .skipped _ state
    | some value =>
      rw [given] at ran
      by_cases connected : g.connected
      · simp only [connected, if_true] at ran
        cases ran
        exact site_performs ⟨value, rfl⟩
      · simp only [connected] at ran
        cases ran
        exact .skipped _ state

theorem execMeaning_within (command : StringToken) :
    Within (Looks w g) (Site.Step w g prependMsg format) [.exec command] (execMeaning w g command) := by
  intro state ret after ran
  obtain ⟨expansion, expanded, rest⟩ := bind_ok.mp ran
  split at rest
  · cases rest
    exact looks_performs (expandString_looks expanded) _
  · rename_i succeeded
    cases rest
    exact site_performs ⟨expansion, expanded, not_not.mp succeeded, rfl⟩

theorem helpMeaning_performs {help : StringToken} {state after : σ}
    (ran : helpMeaning w g prependMsg format help state = .ok after) :
    Performs (Looks w g) (Site.Step w g prependMsg format) [.tell help] state after := by
  obtain ⟨expansion, expanded, rest⟩ := bind_ok.mp ran
  split at rest
  · rename_i succeeded
    cases rest
    exact site_performs ⟨expansion, expanded, succeeded, rfl⟩
  · cases rest
    exact looks_performs (expandString_looks expanded) _

theorem exp_within (exp : Exp) :
    Within (Looks w g) (Site.Step w g prependMsg format) exp.sites (exp.meaning w g rightPart prependMsg format) := by
  induction exp with
  | and left right ihLeft ihRight => exact ihLeft.both ihRight
  | or left right ihLeft ihRight => exact ihLeft.either ihRight
  | cond left op right =>
    apply Within.given fun _ _ _ => val_performs
    intro lval
    rw [← List.append_nil right.sites]
    apply Within.given fun _ _ _ => val_performs
    exact fun rval => condMeaning_within op lval rval
  | pattern var regex =>
    have looks : ∀ state found after, var.operand w g state = .ok (found, after) →
        Performs (Looks w g) (Site.Step w g prependMsg format) [] state after :=
      fun _ _ _ ran => looks_performs (varToken_looks ran) []
    exact Within.given looks fun operand => patternMeaning_within regex operand
  | exec command => exact execMeaning_within command
  | not exp ih => exact ih.negated
  | help exp text ih => exact ih.told fun _ _ => helpMeaning_performs
  | assign var val =>
    apply Within.given fun _ _ _ => val_performs
    exact fun operand => assignMeaning_within var operand

def Clause.sites (clause : Clause) : List Site := clause.exp.sites

theorem clause_within (clause : Clause) :
    Within (Looks w g) (Site.Step w g prependMsg format) clause.sites
      (clause.meaning w g rightPart prependMsg format) := by
  intro state ret after ran
  unfold Clause.meaning at ran
  split at ran
  · exact exp_within clause.exp state ret after ran
  · cases ran
    exact .skipped _ state

theorem clauses_performs {clauses : List Clause} {built : List (VtwNode × Bool)} (nonempty : clauses ≠ [])
    (each : clauses.mapM Clause.build = .ok built) {state after : σ} {ret : Bool}
    (ran : checkSyn w g rightPart prependMsg format (chain built) state = .ok (ret, after)) :
    Performs (Looks w g) (Site.Step w g prependMsg format) (clauses.flatMap Clause.sites) state after := by
  rw [chain_meaning nonempty each] at ran
  exact within_inOrder (fun clause _ => clause_within clause) state ret after ran

end Performed

/-- What every lookup keeps, and what the sites of the template keep, an evaluation keeps. -/
theorem evaluation_keeps (clause : Clause) (clauses : List Clause) :
    ∃ list, buildList .null (clause :: clauses) = .ok list ∧
      ∀ (σ : Type) (w : World σ) (g : Globals) (rightPart : σ → Nat) (prependMsg : Option Bytes) (format : Bool)
        (inv : σ → Prop), (∀ state ref, inv state → inv (refLookup w g state ref).2) →
          (∀ site ∈ (clause :: clauses).flatMap Clause.sites, ∀ state after,
            site.Step w g prependMsg format state after → inv state → inv after) →
              ∀ state ret after, checkSyn w g rightPart prependMsg format list state = .ok (ret, after) →
                inv state → inv after := by
  obtain ⟨built, each⟩ := clauses_built (clause :: clauses)
  refine ⟨chain built, buildList_chain each [], ?_⟩
  intro σ w g rightPart prependMsg format inv looked kept state ret after ran start
  apply (clauses_performs (List.cons_ne_nil _ _) each ran).keeps _ kept start
  intro before next looks
  obtain ⟨ref, rfl⟩ := looks
  exact looked before ref

/-- `$VAR(y) = "a"`. -/
def assignment : Clause :=
  .action (.exp (.assign ⟨str "y", by decide, by decide, by decide⟩
    (.val0 (.item (.string ⟨str "a", by decide⟩))))) false

/-- A world that counts the commands it runs. -/
def countingWorld : World Nat where
  cstoreGetVarRef state _ _ := (⟨none, false⟩, state)
  cstoreSetVarRef state _ _ := (true, state)
  popen state _ := (none, state + 1)
  systemOut state _ := (0, state + 1)
  outputUser state _ := state
  regcomp _ := none

theorem evaluation_keeps_assignment :
    ∃ list, buildList .null [assignment] = .ok list ∧
      ∀ after, checkSyn countingWorld quietGlobals (fun _ => 0) none false list 0 = .ok (true, after) → after = 0 := by
  obtain ⟨list, built, keeps⟩ := evaluation_keeps assignment []
  refine ⟨list, built, ?_⟩
  intro after ran
  apply keeps Nat countingWorld quietGlobals (fun _ => 0) none false (· = 0) _ _ 0 true after ran rfl
  · exact fun state ref none => none
  · intro site inside state after made none
    rw [show site = .assign _ from List.mem_singleton.mp inside] at made
    obtain ⟨value, rfl⟩ := made
    exact none

end VyattaCfg.Cliexec
