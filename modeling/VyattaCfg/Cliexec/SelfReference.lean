import VyattaCfg.Cliexec.Node

namespace VyattaCfg.Cliexec

open ByteString VyattaCfg.Client

def refString (r : Bytes) : Bytes := varRefMarker ++ (r ++ str ")")

/-- Both evaluators take the value that they are given: the one the value being validated, the
    other the at-string. -/
def TakesGiven (r : Bytes) : Prop :=
  ∀ (σ : Type) (w : World σ) (g : Globals) (state : σ),
    evalVa w g (.makeVarNode (refString r)) state = .ok (.ok g.validateValue, state) ∧
      expandString w g (refString r) state = .ok ⟨0, g.atString, refString r ++ [0], state⟩

/-- Both evaluators resolve this reference. -/
def TakesStored (r : Bytes) : Prop :=
  ∀ (σ : Type) (w : World σ) (g : Globals) (state : σ),
    evalVa w g (.makeVarNode (refString r)) state =
        .ok (refOperand (refLookup w g state r).1, (refLookup w g state r).2) ∧
      expandString w g (refString r) state =
        .ok ⟨0, (refText w g state r).1, refString r ++ [0], (refLookup w g state r).2⟩

def Agreed (r : Bytes) : Prop := TakesGiven r ∨ TakesStored r

section Evaluators

variable {σ : Type} {w : World σ} {g : Globals} {r : Bytes}

theorem evalVa_refString (closed : ch ')' ∉ r) (state : σ) :
    evalVa w g (.makeVarNode (refString r)) state =
      if r.head? = some (ch '@') ∧ r[1]? ≠ some (ch '@') then .ok (.ok g.validateValue, state)
      else .ok (refOperand (refLookup w g state r).1, (refLookup w g state r).2) := by
  have marked : varRefMarker <+: refString r := List.prefix_append _ _
  have path : (refString r).drop varRefMarker.length = r ++ str ")" := List.drop_left
  have present : ch ')' ∈ r ++ str ")" := List.mem_append_right _ List.mem_cons_self
  have cut : (r ++ str ")").takeWhile (· ≠ ch ')') = r := by
    have inside : ∀ b ∈ r, decide (b ≠ ch ')') = true := by
      intro b member
      have differs : b ≠ ch ')' := fun paren => closed (paren ▸ member)
      simpa using differs
    rw [List.takeWhile_append_of_pos inside]
    simp [str]
  have first : (r ++ str ")").head? = some (ch '@') ∧ (r ++ str ")")[1]? ≠ some (ch '@') ↔
      r.head? = some (ch '@') ∧ r[1]? ≠ some (ch '@') := by
    cases r with
    | nil => decide
    | cons c rest =>
      cases rest with
      | nil =>
        have differs : ch ')' ≠ ch '@' := by decide
        simp [str, differs]
      | cons d rest => exact Iff.rfl
  show evalVarOp w g (refString r) state = _
  unfold evalVarOp
  rw [if_neg (not_not.mpr marked)]
  simp only [path, first, if_neg (not_not.mpr present), cut]

theorem expandString_given (state : σ) :
    expandString w g (refString (str "@")) state =
      .ok ⟨0, g.atString, refString (str "@") ++ [0], state⟩ := by
  have ran := expandRound_self (w := w) (g := g) ([] ++ [0]) state
  have free : 0 ∉ ([] : Bytes) := nofun
  have looped := expandLoop_round free ran [] []
  exact looped

theorem expandString_stored (filled : r ≠ []) (free : 0 ∉ r) (closed : ch ')' ∉ r) (path : r ≠ str "@") (state : σ) :
    expandString w g (refString r) state =
      .ok ⟨0, (refText w g state r).1, refString r ++ [0], (refLookup w g state r).2⟩ := by
  have ran := expandRound_ref (w := w) (g := g) free filled closed path [0] state
  have buffer : varRefMarker ++ (r ++ ch ')' :: [0]) = refString r ++ ([] ++ [0]) := by
    simp [refString, str]
  have length : 6 + r.length = (refString r).length := by
    simp [refString, varRefMarker, str]
    omega
  rw [buffer, length] at ran
  exact expandLoop_round (by simp) ran [] []

end Evaluators

def otherWorld : World Unit where
  cstoreGetVarRef _ _ _ := (⟨some ⟨.text, str "stored"⟩, false⟩, ())
  cstoreSetVarRef _ _ _ := (false, ())
  popen _ _ := (none, ())
  systemOut _ _ := (0, ())
  outputUser _ _ := ()
  regcomp _ := none

def otherGlobals : Globals := ⟨true, str "given", false, false, ⟨.text, false, some (str "given"), []⟩⟩

theorem not_agreed {r : Bytes} (filled : r ≠ []) (free : 0 ∉ r) (closed : ch ')' ∉ r) (path : r ≠ str "@")
    (self : r.head? = some (ch '@') ∧ r[1]? ≠ some (ch '@')) : ¬ Agreed r := by
  have operand := evalVa_refString (w := otherWorld) (g := otherGlobals) closed ()
  have text := expandString_stored (w := otherWorld) (g := otherGlobals) filled free closed path ()
  rw [if_pos self] at operand
  intro agreed
  rcases agreed with given | stored
  · have same := (given Unit otherWorld otherGlobals ()).2
    rw [text] at same
    have texts : str "stored" = str "given" := congrArg Expansion.exeString (Except.ok.inj same)
    exact absurd texts (by decide)
  · have same := (stored Unit otherWorld otherGlobals ()).1
    rw [operand] at same
    have inner := congrArg Prod.fst (Except.ok.inj same)
    have operands : some (str "given") = some (str "stored") := congrArg ValStruct.val (Except.ok.inj inner)
    exact absurd operands (by decide)

theorem agreed_iff (r : Bytes) (filled : r ≠ []) (free : 0 ∉ r) (closed : ch ')' ∉ r) :
    Agreed r ↔ r = str "@" ∨ ¬ (r.head? = some (ch '@') ∧ r[1]? ≠ some (ch '@')) := by
  constructor
  · intro agreed
    by_contra other
    rw [not_or, not_not] at other
    exact not_agreed filled free closed other.1 other.2 agreed
  · intro condition
    rcases condition with rfl | path
    · left
      intro σ w g state
      refine ⟨?_, expandString_given state⟩
      rw [evalVa_refString closed, if_pos (by decide)]
    · right
      intro σ w g state
      have notSelf : r ≠ str "@" := by
        intro self
        exact path (self ▸ by decide)
      refine ⟨?_, expandString_stored filled free closed notSelf state⟩
      rw [evalVa_refString closed, if_neg path]

theorem agreed_children : Agreed (str "@@") :=
  (agreed_iff (str "@@") (by decide) (by decide) (by decide)).mpr (.inr (by decide))

theorem agreed_relative_fails : ¬ ∀ r : Bytes, r ≠ [] → 0 ∉ r → ch ')' ∉ r → Agreed r := by
  intro all
  exact not_agreed (r := str "@/address") (by decide) (by decide) (by decide) (by decide) (by decide)
    (all (str "@/address") (by decide) (by decide) (by decide))

end VyattaCfg.Cliexec
