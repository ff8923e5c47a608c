import VyattaCfg.Cliexec.CheckSyn
import VyattaCfg.Library.Outcome

namespace VyattaCfg.Cliexec

open ByteString VyattaCfg.Client Outcome

section Verdict

variable {σ : Type} (w : World σ) (g : Globals) (rightPart : σ → Nat) (prependMsg : Option Bytes) (format : Bool)

/-- An element of a list is checked in a commit, and outside of one where its flag is not set. -/
abbrev ListChecked (data : VtwData) : Prop := g.inCommit ∨ data.aux = false

inductive Verdict : VtwNode → σ → Bool → σ → Prop where
  | assign {data : VtwData} {left right : VtwNode} {state after : σ} {ret : Bool} : data.oper = .assignOp →
    checkAssign w g left right state = .ok (ret, after) → Verdict (.node data left right) state ret after
  | exec {data : VtwData} {left right : VtwNode} {state after : σ} {ret : Bool} : data.oper = .execOp →
    checkExec w g left state = .ok (ret, after) → Verdict (.node data left right) state ret after
  | pattern {data : VtwData} {left right : VtwNode} {state after : σ} {ret : Bool} : data.oper = .patternOp →
    checkPattern w g left right state = .ok (ret, after) → Verdict (.node data left right) state ret after
  | cond {data : VtwData} {left right : VtwNode} {state after : σ} {ret : Bool} : data.oper = .condOp →
    checkCond w g rightPart data.cond left right state = .ok (ret, after) →
      Verdict (.node data left right) state ret after
  | not {data : VtwData} {left right : VtwNode} {state after : σ} {ret : Bool} : data.oper = .notOp →
    Verdict left state ret after → Verdict (.node data left right) state (!ret) after
  | orTrue {data : VtwData} {left right : VtwNode} {state after : σ} : data.oper = .orOp →
    Verdict left state true after → Verdict (.node data left right) state true after
  | orFalse {data : VtwData} {left right : VtwNode} {state middle after : σ} {ret : Bool} : data.oper = .orOp →
    Verdict left state false middle → Verdict right middle ret after → Verdict (.node data left right) state ret after
  | andFalse {data : VtwData} {left right : VtwNode} {state after : σ} : data.oper = .andOp →
    Verdict left state false after → Verdict (.node data left right) state false after
  | andTrue {data : VtwData} {left right : VtwNode} {state middle after : σ} {ret : Bool} : data.oper = .andOp →
    Verdict left state true middle → Verdict right middle ret after → Verdict (.node data left right) state ret after
  | helpTrue {data : VtwData} {left right : VtwNode} {state after : σ} : data.oper = .helpOp →
    Verdict left state true after → Verdict (.node data left right) state true after
  | helpFalse {data : VtwData} {left right : VtwNode} {state middle after : σ} : data.oper = .helpOp →
    Verdict left state false middle → checkHelp w g prependMsg format right middle = .ok after →
      Verdict (.node data left right) state false after
  | listFalse {data : VtwData} {left right : VtwNode} {state after : σ} : data.oper = .listOp → ListChecked g data →
    Verdict left state false after → Verdict (.node data left right) state false after
  | listLast {data : VtwData} {left : VtwNode} {state after : σ} : data.oper = .listOp → ListChecked g data →
    Verdict left state true after → Verdict (.node data left .null) state true after
  | listTrue {data : VtwData} {left right : VtwNode} {state middle after : σ} {ret : Bool} : data.oper = .listOp →
    ListChecked g data → Verdict left state true middle → Verdict right middle ret after →
      Verdict (.node data left right) state ret after
  | skipLast {data : VtwData} {left : VtwNode} {state : σ} : data.oper = .listOp → ¬ ListChecked g data →
    Verdict (.node data left .null) state true state
  | skip {data : VtwData} {left right : VtwNode} {state after : σ} {ret : Bool} : data.oper = .listOp →
    ¬ ListChecked g data → Verdict right state ret after → Verdict (.node data left right) state ret after

variable {w g rightPart prependMsg format}

theorem verdict_of_checkSyn {node : VtwNode} {state after : σ} {ret : Bool}
    (ran : checkSyn w g rightPart prependMsg format node state = .ok (ret, after)) :
    Verdict w g rightPart prependMsg format node state ret after := by
  induction node generalizing state ret after with
  | null => cases ran
  | node data left right ihLeft ihRight =>
    rw [checkSyn] at ran
    cases oper : data.oper with
    | listOp =>
      simp only [oper] at ran
      by_cases checked : ListChecked g data
      · rw [if_pos checked] at ran
        obtain ⟨⟨first, middle⟩, ranLeft, ranNext⟩ := bind_ok.mp ran
        have verdict := ihLeft ranLeft
        cases first with
        | false =>
          cases ranNext
          exact .listFalse oper checked verdict
        | true =>
          cases right with
          | null =>
            cases ranNext
            exact .listLast oper checked verdict
          | node rest l r => exact .listTrue oper checked verdict (ihRight ranNext)
      · rw [if_neg checked] at ran
        cases right with
        | null =>
          cases ran
          exact .skipLast oper checked
        | node rest l r => exact .skip oper checked (ihRight ran)
    | helpOp =>
      simp only [oper] at ran
      obtain ⟨⟨first, middle⟩, ranLeft, ranNext⟩ := bind_ok.mp ran
      have verdict := ihLeft ranLeft
      cases first with
      | true =>
        cases ranNext
        exact .helpTrue oper verdict
      | false =>
        obtain ⟨after, helped, same⟩ := bind_ok.mp ranNext
        cases same
        exact .helpFalse oper verdict helped
    | assignOp =>
      simp only [oper] at ran
      exact .assign oper ran
    | execOp =>
      simp only [oper] at ran
      exact .exec oper ran
    | patternOp =>
      simp only [oper] at ran
      exact .pattern oper ran
    | condOp =>
      simp only [oper] at ran
      exact .cond oper ran
    | orOp =>
      simp only [oper] at ran
      obtain ⟨⟨first, middle⟩, ranLeft, ranNext⟩ := bind_ok.mp ran
      have verdict := ihLeft ranLeft
      cases first with
      | true =>
        cases ranNext
        exact .orTrue oper verdict
      | false => exact .orFalse oper verdict (ihRight ranNext)
    | andOp =>
      simp only [oper] at ran
      obtain ⟨⟨first, middle⟩, ranLeft, ranNext⟩ := bind_ok.mp ran
      have verdict := ihLeft ranLeft
      cases first with
      | true => exact .andTrue oper verdict (ihRight ranNext)
      | false =>
        cases ranNext
        exact .andFalse oper verdict
    | notOp =>
      simp only [oper] at ran
      obtain ⟨⟨first, middle⟩, ranLeft, ranNext⟩ := bind_ok.mp ran
      cases ranNext
      exact .not oper (ihLeft ranLeft)
    | _ =>
      simp only [oper] at ran
      cases ran

theorem checkSyn_of_verdict {node : VtwNode} {state after : σ} {ret : Bool}
    (verdict : Verdict w g rightPart prependMsg format node state ret after) :
    checkSyn w g rightPart prependMsg format node state = .ok (ret, after) := by
  induction verdict with
  | assign oper ran | exec oper ran | pattern oper ran | cond oper ran =>
    rw [checkSyn]
    simp only [oper]
    exact ran
  | not oper _ ih | orTrue oper _ ih | andFalse oper _ ih | helpTrue oper _ ih =>
    rw [checkSyn]
    simp only [oper]
    exact bind_ok.mpr ⟨_, ih, rfl⟩
  | orFalse oper _ _ ihLeft ihRight | andTrue oper _ _ ihLeft ihRight =>
    rw [checkSyn]
    simp only [oper]
    exact bind_ok.mpr ⟨_, ihLeft, ihRight⟩
  | helpFalse oper _ helped ih =>
    rw [checkSyn]
    simp only [oper]
    exact bind_ok.mpr ⟨_, ih, bind_ok.mpr ⟨_, helped, rfl⟩⟩
  | listFalse oper checked _ ih =>
    rw [checkSyn]
    simp only [oper]
    rw [if_pos checked]
    exact bind_ok.mpr ⟨_, ih, rfl⟩
  | listLast oper checked _ ih =>
    rw [checkSyn]
    simp only [oper]
    rw [if_pos checked]
    exact bind_ok.mpr ⟨_, ih, rfl⟩
  | @listTrue data left right _ _ _ _ oper checked _ verdict ihLeft ihRight =>
    rw [checkSyn]
    simp only [oper]
    rw [if_pos checked]
    refine bind_ok.mpr ⟨_, ihLeft, ?_⟩
    cases right with
    | null => cases verdict
    | node rest l r => exact ihRight
  | skipLast oper skipped =>
    rw [checkSyn]
    simp only [oper]
    rw [if_neg skipped]
    rfl
  | @skip data left right _ _ _ oper skipped verdict ih =>
    rw [checkSyn]
    simp only [oper]
    rw [if_neg skipped]
    cases right with
    | null => cases verdict
    | node rest l r => exact ih

/-- `check_syn_func` gives the verdicts of the operators, and gives one wherever there is one. -/
theorem checkSyn_ok_iff {node : VtwNode} {state after : σ} {ret : Bool} :
    checkSyn w g rightPart prependMsg format node state = .ok (ret, after) ↔
      Verdict w g rightPart prependMsg format node state ret after :=
  ⟨verdict_of_checkSyn, checkSyn_of_verdict⟩

end Verdict

end VyattaCfg.Cliexec
