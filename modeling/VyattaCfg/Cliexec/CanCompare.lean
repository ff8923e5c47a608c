import VyattaCfg.Cliexec.ValCmp
import VyattaCfg.Library.Outcome

namespace VyattaCfg.Cliexec

open ByteString VyattaCfg.Client Outcome

def Abort.Deliberate (abort : Abort) : Prop := abort = .badRegex ∨ abort = .emptyPath

instance (abort : Abort) : Decidable abort.Deliberate := inferInstanceAs (Decidable (_ ∨ _))

/-- Two values that the switch of `val_cmp` compares. -/
structure PairComparable (valType : VtwType) (lval rval : Option Bytes) : Prop where
  type : valType ≠ .error ∧ valType ≠ .domain ∧ valType ≠ .priority
  left : lval ≠ none
  right : rval ≠ none
  fits : valType = .ipv6 ∨ valType = .ipv6net →
    ∀ val, lval = some val ∨ rval = some val → scanIpv6 val noParts ≠ none

theorem cmpIpv6_returns {lval rval : Bytes} {partsNum : Nat} {res : Int} :
    Holds Abort.Deliberate (fun _ => True) (cmpIpv6 lval rval partsNum res) ↔
      scanIpv6 lval noParts ≠ none ∧ scanIpv6 rval noParts ≠ none := by
  have refused : ¬ Abort.Deliberate .overrun := by decide
  unfold cmpIpv6
  cases scanIpv6 lval noParts with
  | none => exact iff_of_false refused fun both => both.1 rfl
  | some left =>
    cases scanIpv6 rval noParts with
    | none => exact iff_of_false refused fun both => both.2 rfl
    | some right => exact iff_of_true trivial ⟨nofun, nofun⟩

theorem cmpValues_returns {valType : VtwType} {lval rval : Option Bytes} {res : Int} :
    Holds Abort.Deliberate (fun _ => True) (cmpValues valType lval rval res) ↔ PairComparable valType lval rval := by
  have unknown : ¬ Abort.Deliberate .unknownValue := by decide
  have null : ¬ Abort.Deliberate .nullPointer := by decide
  have scanned {l r : Bytes} {partsNum : Nat} (isIpv6 : valType = .ipv6 ∨ valType = .ipv6net) :
      Holds Abort.Deliberate (fun _ => True) (cmpIpv6 l r partsNum res) ↔
        PairComparable valType (some l) (some r) := by
    rw [cmpIpv6_returns]
    constructor
    · intro both
      refine ⟨by rcases isIpv6 with rfl | rfl <;> decide, nofun, nofun, ?_⟩
      intro _ val side
      rcases side with same | same
      · rw [← Option.some.inj same]
        exact both.1
      · rw [← Option.some.inj same]
        exact both.2
    · exact fun pair => ⟨pair.fits isIpv6 l (.inl rfl), pair.fits isIpv6 r (.inr rfl)⟩
  have plain {l r : Bytes} (other : valType ≠ .ipv6 ∧ valType ≠ .ipv6net)
      (known : valType ≠ .error ∧ valType ≠ .domain ∧ valType ≠ .priority) :
      PairComparable valType (some l) (some r) :=
    ⟨known, nofun, nofun, fun isIpv6 => absurd isIpv6 (not_or.mpr other)⟩
  cases valType with
  | error => exact iff_of_false unknown fun pair => pair.type.1 rfl
  | domain => exact iff_of_false unknown fun pair => pair.type.2.1 rfl
  | priority => exact iff_of_false unknown fun pair => pair.type.2.2 rfl
  | _ =>
    cases lval with
    | none => exact iff_of_false null fun pair => pair.left rfl
    | some l =>
      cases rval with
      | none => exact iff_of_false null fun pair => pair.right rfl
      | some r =>
        first
          | exact scanned (.inl rfl)
          | exact scanned (.inr rfl)
          | exact iff_of_true trivial (plain (by decide) (by decide))

section Rounds

variable (valType : VtwType) (cond : VtwCond)

/-- The right value is compared in the inner loop. -/
inductive RightRound (lval : Option Bytes) : List RightValue → Comparison → Option Bytes → Prop where
  | skip {right : RightValue} {rights : List RightValue} {state : Comparison} {rval : Option Bytes} :
    right.skipped valType = true → RightRound lval rights state rval → RightRound lval (right :: rights) state rval
  | here {right : RightValue} {rights : List RightValue} {state : Comparison} :
    right.skipped valType = false → RightRound lval (right :: rights) state right.val
  | next {right : RightValue} {rights : List RightValue} {state : Comparison} {rval : Option Bytes} {res : Int} :
    right.skipped valType = false → cmpValues valType lval right.val state.res = .ok res →
      (cond.holds res.sign = true ↔ cond ≠ .inCond) →
      RightRound lval rights ⟨cond.holds res.sign, res.sign⟩ rval → RightRound lval (right :: rights) state rval

inductive Round (rights : List RightValue) :
    List (Option Bytes) → Comparison → Option Bytes → Option Bytes → Prop where
  | here {lval rval : Option Bytes} {lefts : List (Option Bytes)} {state : Comparison} :
    RightRound valType cond lval rights state rval → Round rights (lval :: lefts) state lval rval
  | next {first lval rval : Option Bytes} {lefts : List (Option Bytes)} {state after : Comparison} :
    rightLoop valType cond first rights state = .ok (.goesOn after) → Round rights lefts after lval rval →
      Round rights (first :: lefts) state lval rval

variable {valType cond}

theorem rightLoop_returns {lval : Option Bytes} {rights : List RightValue} {state : Comparison} :
    Holds Abort.Deliberate (fun _ => True) (rightLoop valType cond lval rights state) ↔
      ∀ rval, RightRound valType cond lval rights state rval → PairComparable valType lval rval := by
  induction rights generalizing state with
  | nil => exact iff_of_true trivial nofun
  | cons right rights ih =>
    rw [rightLoop]
    cases skipped : right.skipped valType with
    | true =>
      rw [if_pos rfl, ih]
      constructor
      · intro all rval round
        cases round with
        | skip _ round => exact all rval round
        | here unskipped => rw [skipped] at unskipped; cases unskipped
        | next unskipped => rw [skipped] at unskipped; cases unskipped
      · exact fun all rval round => all rval (.skip skipped round)
    | false =>
      rw [if_neg Bool.false_ne_true, holds_bind, holds_iff, cmpValues_returns]
      constructor
      · intro both rval round
        rcases both with ⟨pair, more⟩
        cases round with
        | skip was _ => rw [skipped] at was; cases was
        | here _ => exact pair
        | next _ compared goesOn round =>
          have rest := more _ compared
          have notStopped : ¬ (cond.holds (Int.sign _) = true ∧ cond = .inCond) :=
            fun both => goesOn.mp both.1 both.2
          have notReturned : ¬ (¬ cond.holds (Int.sign _) = true ∧ cond ≠ .inCond) :=
            fun both => both.1 (goesOn.mpr both.2)
          simp only [if_neg notStopped, if_neg notReturned] at rest
          exact ih.mp rest rval round
      · intro all
        refine ⟨all _ (.here skipped), ?_⟩
        intro res compared
        show Holds Abort.Deliberate _ (if _ then _ else if _ then _ else _)
        split
        · exact trivial
        · split
          · exact trivial
          · rename_i notStopped notReturned
            have goesOn : cond.holds res.sign = true ↔ cond ≠ .inCond := by
              constructor
              · exact fun found isIn => notStopped ⟨found, isIn⟩
              · exact fun notIn => by_contra fun failed => notReturned ⟨failed, notIn⟩
            exact ih.mpr fun rval round => all rval (.next skipped compared goesOn round)

theorem leftLoop_returns {rights : List RightValue} {lefts : List (Option Bytes)} {state : Comparison} :
    Holds Abort.Deliberate (fun _ => True) (leftLoop valType cond rights lefts state) ↔
      ∀ lval rval, Round valType cond rights lefts state lval rval → PairComparable valType lval rval := by
  induction lefts generalizing state with
  | nil => exact iff_of_true trivial nofun
  | cons first lefts ih =>
    rw [leftLoop, holds_bind, holds_iff, rightLoop_returns]
    constructor
    · intro both lval rval round
      rcases both with ⟨here, more⟩
      cases round with
      | here round => exact here rval round
      | next ran round => exact ih.mp (more _ ran) lval rval round
    · intro all
      refine ⟨fun rval round => all first rval (.here round), ?_⟩
      intro turn ran
      cases turn with
      | returns ret => exact trivial
      | goesOn after => exact ih.mpr fun lval rval round => all lval rval (.next ran round)

end Rounds

/-- The comparison of two operands does not come to two values that cannot be compared. -/
def CanCompare (cond : VtwCond) (left right : ValStruct) : Prop :=
  (left.valType ≠ right.valType ∧ left.ismulti = false) ∨
    (if left.ismulti ∧ cond ≠ .inCond ∧ right.vals = [] ∧ right.valType = .int then right.val ≠ none
    else ∀ lval rval, Round left.valType cond right.rights left.lefts ⟨false, 0⟩ lval rval →
      PairComparable left.valType lval rval)

theorem compareOperands_returns {rightPart : Nat} {left right : ValStruct} {cond : VtwCond} :
    Holds Abort.Deliberate (fun _ => True) (compareOperands rightPart left right cond) ↔
      CanCompare cond left right := by
  have null : ¬ Abort.Deliberate .nullPointer := by decide
  unfold compareOperands CanCompare
  by_cases differs : left.valType ≠ right.valType ∧ left.ismulti = false
  · rw [if_pos differs]
    exact iff_of_true trivial (.inl differs)
  · rw [if_neg differs, or_iff_right differs, valCmp]
    split
    · cases right.val with
      | none => exact iff_of_false null fun present => present rfl
      | some rval => exact iff_of_true trivial nofun
    · exact leftLoop_returns

end VyattaCfg.Cliexec
