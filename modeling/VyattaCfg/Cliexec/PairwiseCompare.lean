import VyattaCfg.Cliexec.CanCompare
import VyattaCfg.Cliexec.NumericOrder
import VyattaCfg.Cliexec.OperandValues

namespace VyattaCfg.Cliexec

open ByteString VyattaCfg.Client

abbrev ValuePair := Option Bytes × Option Bytes

section Outcomes

/-- The outcome of a pair when nothing was compared before it. -/
def outcome (valType : VtwType) (pair : ValuePair) : Except Abort Int := cmpValues valType pair.1 pair.2 0

def Satisfies (cond : VtwCond) (valType : VtwType) (pair : ValuePair) : Prop :=
  ∃ res, outcome valType pair = .ok res ∧ cond.holds res.sign = true

/-- The format finds nothing in either text. -/
def Blank (valType : VtwType) (pair : ValuePair) : Prop :=
  Numeric valType ∧ ∃ l r, pair = (some l, some r) ∧
    sscanf l (condFormats valType) = [] ∧ sscanf r (condFormats valType) = []

variable {valType : VtwType} {pair : ValuePair}

theorem cmpValues_numeric (numeric : Numeric valType) (l r : Bytes) (res : Int) :
    cmpValues valType (some l) (some r) res = .ok (cmpScanned valType l r res) := by
  rcases numeric with rfl | rfl | rfl | rfl <;> rfl

theorem cmpValues_blank (blank : Blank valType pair) (res : Int) : cmpValues valType pair.1 pair.2 res = .ok res := by
  obtain ⟨numeric, l, r, rfl, left, right⟩ := blank
  rw [cmpValues_numeric numeric, cmpScanned, left, right]
  rfl

theorem cmpIpv6_res (l r : Bytes) {partsNum : Nat} (some : 0 < partsNum) (res : Int) :
    cmpIpv6 l r partsNum res = cmpIpv6 l r partsNum 0 := by
  unfold cmpIpv6
  cases left : scanIpv6 l noParts with
  | none => rfl
  | some leftParts =>
    cases right : scanIpv6 r noParts with
    | none => rfl
    | some rightParts =>
      have filled {parts : List Nat} (length : parts.length = 9) : parts ≠ [] := by
        apply List.ne_nil_of_length_pos
        omega
      have same := compareParts_res (filled (scanIpv6_length left)) (filled (scanIpv6_length right)) some res 0
      exact congrArg Except.ok same

theorem cmpScanned_filled (numeric : Numeric valType) {l r : Bytes}
    (filled : ¬ (sscanf l (condFormats valType) = [] ∧ sscanf r (condFormats valType) = [])) (res : Int) :
    cmpScanned valType l r res = cmpScanned valType l r 0 := by
  have format : 0 < condFormatLens valType := by
    rw [(separators_directives numeric).2]
    omega
  by_cases left : sscanf l (condFormats valType) = []
  · have right : sscanf r (condFormats valType) ≠ [] := fun right => filled ⟨left, right⟩
    simp only [cmpScanned, if_neg right, if_pos left]
  · exact cmpScanned_res format left r res 0

theorem cmpValues_outcome (filled : ¬ Blank valType pair) (res : Int) :
    cmpValues valType pair.1 pair.2 res = outcome valType pair := by
  obtain ⟨lval, rval⟩ := pair
  unfold outcome
  by_cases numeric : Numeric valType
  · cases lval with
    | none => rcases numeric with rfl | rfl | rfl | rfl <;> rfl
    | some l =>
      cases rval with
      | none => rcases numeric with rfl | rfl | rfl | rfl <;> rfl
      | some r =>
        rw [cmpValues_numeric numeric, cmpValues_numeric numeric]
        apply congrArg Except.ok
        apply cmpScanned_filled numeric
        exact fun both => filled ⟨numeric, l, r, rfl, both⟩
  · cases valType with
    | int => exact absurd (by decide) numeric
    | ipv4 => exact absurd (by decide) numeric
    | ipv4net => exact absurd (by decide) numeric
    | macaddr => exact absurd (by decide) numeric
    | ipv6 => cases lval <;> cases rval <;> first | rfl | exact cmpIpv6_res _ _ (by decide) _
    | ipv6net => cases lval <;> cases rval <;> first | rfl | exact cmpIpv6_res _ _ (by decide) _
    | _ => cases lval <;> cases rval <;> rfl

theorem outcome_abort {abort : Abort} (ran : outcome valType pair = .error abort) : ¬ abort.Deliberate := by
  have ipv6 (l r : Bytes) (partsNum : Nat) (failed : cmpIpv6 l r partsNum 0 = .error abort) :
      ¬ abort.Deliberate := by
    unfold cmpIpv6 at failed
    split at failed
    · cases failed
    · rw [← Except.error.inj failed]
      decide
  unfold outcome cmpValues at ran
  split at ran <;> first | exact ipv6 _ _ _ ran | cases ran
  · decide
  · decide
  · decide
  · decide

theorem outcome_ok_iff : (∃ res, outcome valType pair = .ok res) ↔ PairComparable valType pair.1 pair.2 := by
  have returns : Outcome.Holds Abort.Deliberate (fun _ => True) (outcome valType pair) ↔
    PairComparable valType pair.1 pair.2 := cmpValues_returns
  rw [← returns]
  cases ran : outcome valType pair with
  | error abort => exact iff_of_false nofun (outcome_abort ran)
  | ok res => exact iff_of_true ⟨res, rfl⟩ trivial

theorem not_comparable_of_abort {abort : Abort} (ran : outcome valType pair = .error abort) :
    ¬ PairComparable valType pair.1 pair.2 := by
  intro comparable
  obtain ⟨res, ended⟩ := outcome_ok_iff.mpr comparable
  rw [ran] at ended
  cases ended

theorem not_satisfies_of_abort {cond : VtwCond} {abort : Abort} (ran : outcome valType pair = .error abort) :
    ¬ Satisfies cond valType pair := by
  intro satisfied
  obtain ⟨res, ended, -⟩ := satisfied
  rw [ran] at ended
  cases ended

end Outcomes

section Walk

/-- Both loops of `val_cmp` in one, without the ways out that only `IN_COND` takes. -/
def walk (valType : VtwType) (cond : VtwCond) : List ValuePair → Comparison → Except Abort Bool
  | [], state => .ok state.ret
  | pair :: pairs, state => do
    let res := (← cmpValues valType pair.1 pair.2 state.res).sign
    if cond.holds res then walk valType cond pairs ⟨true, res⟩ else .ok false

def Turn.andThen (next : Comparison → Except Abort Bool) : Turn → Except Abort Bool
  | .returns ret => .ok ret
  | .goesOn state => next state

variable {valType : VtwType} {cond : VtwCond}

theorem rightLoop_walk (notIn : cond ≠ .inCond) (lval : Option Bytes) (rights : List RightValue)
    (rest : List ValuePair) (state : Comparison) :
    rightLoop valType cond lval rights state >>= Turn.andThen (walk valType cond rest) =
      walk valType cond ((compared valType rights).map (fun right => (lval, right.val)) ++ rest) state := by
  induction rights generalizing state with
  | nil => rfl
  | cons right rights ih =>
    rw [rightLoop]
    by_cases skipped : right.skipped valType = true
    · have same : compared valType (right :: rights) = compared valType rights := by simp [compared, skipped]
      rw [if_pos skipped, ih, same]
    · have split : compared valType (right :: rights) = right :: compared valType rights := by
        simp [compared, skipped]
      rw [if_neg skipped, split, List.map_cons, List.cons_append, walk]
      cases round : cmpValues valType lval right.val state.res with
      | error abort => rfl
      | ok res =>
        cases holds : cond.holds res.sign with
        | true =>
          have more := ih ⟨true, res.sign⟩
          simp only [bind, Except.bind, holds, notIn] at more ⊢
          exact more
        | false =>
          simp [bind, Except.bind, holds, notIn, Turn.andThen]

theorem leftLoop_walk (notIn : cond ≠ .inCond) (rights : List RightValue) (lefts : List (Option Bytes))
    (state : Comparison) : leftLoop valType cond rights lefts state =
      walk valType cond (lefts.flatMap fun lval => (compared valType rights).map fun right => (lval, right.val))
        state := by
  induction lefts generalizing state with
  | nil => rfl
  | cons lval lefts ih =>
    rw [leftLoop, List.flatMap_cons, ← rightLoop_walk notIn]
    apply congrArg (rightLoop valType cond lval rights state >>= ·)
    funext turn
    cases turn with
    | returns ret => rfl
    | goesOn after => exact ih after

/-- A pair passes by itself, or takes over what the pair before it came to. -/
def Passes (cond : VtwCond) (valType : VtwType) (pairs : List ValuePair) : Prop :=
  (∀ pair ∈ pairs.head?, Satisfies cond valType pair) ∧
    ∀ pair ∈ pairs.tail, Satisfies cond valType pair ∨ Blank valType pair

/-- What holds of `ret` and `res` behind a pair that has passed. -/
structure Passed (cond : VtwCond) (state : Comparison) : Prop where
  ret : state.ret = true
  holds : cond.holds state.res = true
  sign : state.res.sign = state.res

theorem walk_round {pair : ValuePair} {pairs : List ValuePair} {state : Comparison} {res : Int}
    (round : cmpValues valType pair.1 pair.2 state.res = .ok res) :
    walk valType cond (pair :: pairs) state =
      if cond.holds res.sign then walk valType cond pairs ⟨true, res.sign⟩ else .ok false := by
  rw [walk, round]
  rfl

theorem walk_abort {pair : ValuePair} {pairs : List ValuePair} {state : Comparison} {abort : Abort}
    (round : cmpValues valType pair.1 pair.2 state.res = .error abort) :
    walk valType cond (pair :: pairs) state = .error abort := by
  rw [walk, round]
  rfl

theorem passed_next {res : Int} (holds : cond.holds res.sign = true) : Passed cond ⟨true, res.sign⟩ :=
  ⟨rfl, holds, Int.sign_sign⟩

theorem walk_start {pair : ValuePair} {pairs : List ValuePair} {res : Int} (ran : outcome valType pair = .ok res) :
    walk valType cond (pair :: pairs) ⟨false, 0⟩ =
      if cond.holds res.sign then walk valType cond pairs ⟨true, res.sign⟩ else .ok false := by
  have round : cmpValues valType pair.1 pair.2 (Comparison.mk false 0).res = .ok res := ran
  exact walk_round round

theorem walk_start_abort {pair : ValuePair} {pairs : List ValuePair} {abort : Abort}
    (ran : outcome valType pair = .error abort) :
    walk valType cond (pair :: pairs) ⟨false, 0⟩ = .error abort := by
  have round : cmpValues valType pair.1 pair.2 (Comparison.mk false 0).res = .error abort := ran
  exact walk_abort round

theorem satisfies_iff {pair : ValuePair} {res : Int} (ran : outcome valType pair = .ok res) :
    Satisfies cond valType pair ↔ cond.holds res.sign = true := by
  constructor
  · intro satisfied
    obtain ⟨res', again, holds⟩ := satisfied
    rw [ran] at again
    rwa [Except.ok.inj again]
  · exact fun holds => ⟨res, ran, holds⟩

theorem walk_passed_iff {pairs : List ValuePair} {state : Comparison} (passed : Passed cond state) :
    walk valType cond pairs state = .ok true ↔
      ∀ pair ∈ pairs, Satisfies cond valType pair ∨ Blank valType pair := by
  induction pairs generalizing state with
  | nil => exact iff_of_true (congrArg Except.ok passed.ret) nofun
  | cons pair pairs ih =>
    rw [List.forall_mem_cons]
    by_cases blank : Blank valType pair
    · rw [walk_round (cmpValues_blank blank state.res), passed.sign, if_pos passed.holds]
      have next : Passed cond ⟨true, state.res⟩ := ⟨rfl, passed.holds, passed.sign⟩
      rw [ih next]
      exact ⟨fun rest => ⟨.inr blank, rest⟩, And.right⟩
    · rw [or_iff_left blank]
      cases ran : outcome valType pair with
      | error abort =>
        rw [walk_abort ((cmpValues_outcome blank state.res).trans ran)]
        exact iff_of_false nofun fun both => not_satisfies_of_abort ran both.1
      | ok res =>
        rw [walk_round ((cmpValues_outcome blank state.res).trans ran), satisfies_iff ran]
        by_cases holds : cond.holds res.sign = true
        · rw [if_pos holds, ih (passed_next holds)]
          exact ⟨fun rest => ⟨holds, rest⟩, And.right⟩
        · rw [if_neg holds]
          exact iff_of_false nofun fun both => holds both.1

/-- The walk does not come to a pair that cannot be compared. -/
def Reaches (allowed : List ValuePair → Prop) (valType : VtwType) (pairs : List ValuePair) : Prop :=
  ∀ before pair after, pairs = before ++ pair :: after → allowed before → PairComparable valType pair.1 pair.2

variable {allowed allowed' : List ValuePair → Prop} {pair : ValuePair} {pairs : List ValuePair}

theorem reaches_nil : Reaches allowed valType [] := by
  intro before pair after split
  cases before <;> cases split

theorem reaches_cons : Reaches allowed valType (pair :: pairs) ↔
    (allowed [] → PairComparable valType pair.1 pair.2) ∧ Reaches (fun before => allowed (pair :: before)) valType pairs := by
  constructor
  · intro all
    refine ⟨all [] pair pairs rfl, ?_⟩
    intro before next after split
    exact all (pair :: before) next after (congrArg (pair :: ·) split)
  · intro both before next after split
    cases before with
    | nil =>
      obtain ⟨rfl, rfl⟩ := List.cons.inj split
      exact both.1
    | cons first before =>
      obtain ⟨rfl, rest⟩ := List.cons.inj split
      exact both.2 before next after rest

theorem reaches_congr (same : ∀ before, allowed before ↔ allowed' before) :
    Reaches allowed valType pairs ↔ Reaches allowed' valType pairs := by
  unfold Reaches
  simp only [same]

theorem reaches_stopped (never : ∀ before, ¬ allowed before) : Reaches allowed valType pairs :=
  fun before _ _ _ given => absurd given (never before)

theorem blank_comparable (blank : Blank valType pair) : PairComparable valType pair.1 pair.2 :=
  outcome_ok_iff.mp ⟨0, cmpValues_blank blank 0⟩

theorem walk_passed_ok_iff {state : Comparison} (passed : Passed cond state) :
    (∃ ret, walk valType cond pairs state = .ok ret) ↔
      Reaches (fun before => ∀ pair ∈ before, Satisfies cond valType pair ∨ Blank valType pair) valType pairs := by
  induction pairs generalizing state with
  | nil => exact iff_of_true ⟨state.ret, rfl⟩ reaches_nil
  | cons pair pairs ih =>
    rw [reaches_cons]
    have later (passes : Satisfies cond valType pair ∨ Blank valType pair) :
        Reaches (fun before => ∀ p ∈ pair :: before, Satisfies cond valType p ∨ Blank valType p) valType pairs ↔
          Reaches (fun before => ∀ p ∈ before, Satisfies cond valType p ∨ Blank valType p) valType pairs := by
      apply reaches_congr
      intro before
      rw [List.forall_mem_cons]
      exact and_iff_right passes
    by_cases blank : Blank valType pair
    · have next : Passed cond ⟨true, state.res⟩ := ⟨rfl, passed.holds, passed.sign⟩
      rw [walk_round (cmpValues_blank blank state.res), passed.sign, if_pos passed.holds, ih next, later (.inr blank)]
      exact ⟨fun rest => ⟨fun _ => blank_comparable blank, rest⟩, And.right⟩
    · cases ran : outcome valType pair with
      | error abort =>
        rw [walk_abort ((cmpValues_outcome blank state.res).trans ran)]
        exact iff_of_false nofun fun both => not_comparable_of_abort ran (both.1 nofun)
      | ok res =>
        have comparable := outcome_ok_iff.mp ⟨res, ran⟩
        rw [walk_round ((cmpValues_outcome blank state.res).trans ran)]
        by_cases holds : cond.holds res.sign = true
        · rw [if_pos holds, ih (passed_next holds), later (.inl ⟨res, ran, holds⟩)]
          exact ⟨fun rest => ⟨fun _ => comparable, rest⟩, And.right⟩
        · rw [if_neg holds]
          refine iff_of_true ⟨false, rfl⟩ ⟨fun _ => comparable, reaches_stopped ?_⟩
          intro before all
          exact holds ((satisfies_iff ran).mp ((all pair List.mem_cons_self).resolve_right blank))

theorem passes_cons : Passes cond valType (pair :: pairs) ↔
    Satisfies cond valType pair ∧ ∀ next ∈ pairs, Satisfies cond valType next ∨ Blank valType next := by
  simp [Passes]

theorem walk_true_iff : walk valType cond pairs ⟨false, 0⟩ = .ok true ↔ pairs ≠ [] ∧ Passes cond valType pairs := by
  cases pairs with
  | nil => exact iff_of_false nofun fun both => both.1 rfl
  | cons pair pairs =>
    rw [passes_cons]
    cases ran : outcome valType pair with
    | error abort =>
      rw [walk_start_abort ran]
      exact iff_of_false nofun fun both => not_satisfies_of_abort ran both.2.1
    | ok res =>
      rw [walk_start ran, satisfies_iff ran]
      by_cases holds : cond.holds res.sign = true
      · rw [if_pos holds, walk_passed_iff (passed_next holds)]
        exact ⟨fun rest => ⟨List.cons_ne_nil _ _, holds, rest⟩, fun both => both.2.2⟩
      · rw [if_neg holds]
        exact iff_of_false nofun fun both => holds both.2.1

theorem walk_ok_iff : (∃ ret, walk valType cond pairs ⟨false, 0⟩ = .ok ret) ↔
    Reaches (Passes cond valType) valType pairs := by
  cases pairs with
  | nil => exact iff_of_true ⟨false, rfl⟩ reaches_nil
  | cons pair pairs =>
    have start : Passes cond valType [] := ⟨nofun, nofun⟩
    rw [reaches_cons]
    simp only [passes_cons]
    cases ran : outcome valType pair with
    | error abort =>
      rw [walk_start_abort ran]
      exact iff_of_false nofun fun both => not_comparable_of_abort ran (both.1 start)
    | ok res =>
      have comparable := outcome_ok_iff.mp ⟨res, ran⟩
      rw [walk_start ran]
      by_cases holds : cond.holds res.sign = true
      · rw [if_pos holds, walk_passed_ok_iff (passed_next holds)]
        have later : Reaches (fun before => Satisfies cond valType pair ∧
            ∀ p ∈ before, Satisfies cond valType p ∨ Blank valType p) valType pairs ↔
            Reaches (fun before => ∀ p ∈ before, Satisfies cond valType p ∨ Blank valType p) valType pairs :=
          reaches_congr fun before => and_iff_right ⟨res, ran, holds⟩
        rw [later]
        exact ⟨fun rest => ⟨fun _ => comparable, rest⟩, And.right⟩
      · rw [if_neg holds]
        refine iff_of_true ⟨false, rfl⟩ ⟨fun _ => comparable, reaches_stopped ?_⟩
        exact fun before all => holds ((satisfies_iff ran).mp all.1)

end Walk

section Typed

/-- The values with the type that each of them has. -/
def ValStruct.typed (operand : ValStruct) : List (Option Bytes × VtwType) :=
  if operand.vals = [] then [(operand.val, operand.valType)]
  else operand.vals.map fun pair => (some pair.1, if pair.2 = .error then operand.valType else pair.2)

/-- There are values of one type, and all of them satisfy the condition. -/
def AllSatisfy (cond : VtwCond) (left right : ValStruct) : Prop :=
  (∃ l ∈ left.typed, ∃ r ∈ right.typed, l.2 = r.2) ∧
    ∀ l ∈ left.typed, ∀ r ∈ right.typed, l.2 = r.2 → Satisfies cond l.2 (l.1, r.1)

/-- The pairs that `val_cmp` compares, all as the type of the left operand. -/
def pairsOf (left right : ValStruct) : List ValuePair :=
  left.lefts.flatMap fun lval => (compared left.valType right.rights).map fun right => (lval, right.val)

/-- The number of values of the left operand is compared, not the values. -/
def Counted (left right : ValStruct) : Prop := left.ismulti = true ∧ right.vals = [] ∧ right.valType = .int

/-- The pairs that are compared decide as those of one type do: -/
structure PairsDecide (cond : VtwCond) (left right : ValStruct) : Prop where
  comparable : Reaches (Passes cond left.valType) left.valType (pairsOf left right)
  /-- if they pass, so do the values of another type than the left operand's, and those that
      took over the outcome of the pair before, -/
  judged : pairsOf left right ≠ [] → Passes cond left.valType (pairsOf left right) →
    (∃ l ∈ left.typed, ∃ r ∈ right.typed, l.2 = r.2) ∧
      ∀ l ∈ left.typed, ∀ r ∈ right.typed, l.2 = r.2 → l.2 ≠ left.valType ∨ Blank left.valType (l.1, r.1) →
        Satisfies cond l.2 (l.1, r.1)
  /-- and what is compared as a type that it does not have does not stand in the way. -/
  foreign : AllSatisfy cond left right →
    pairsOf left right ≠ [] ∧ Passes cond left.valType (pairsOf left right)

variable {cond : VtwCond} {left right : ValStruct}

theorem valCmp_uncounted (uncounted : ¬ Counted left right) (rightPart : Nat) :
    valCmp rightPart left right cond = leftLoop left.valType cond right.rights left.lefts ⟨false, 0⟩ := by
  have pairwise : ¬ (left.ismulti = true ∧ cond ≠ .inCond ∧ right.vals = [] ∧ right.valType = .int) :=
    fun counted => uncounted ⟨counted.1, counted.2.2⟩
  rw [valCmp, if_neg pairwise]

theorem valCmp_walk (notIn : cond ≠ .inCond) (uncounted : ¬ Counted left right) (rightPart : Nat) :
    valCmp rightPart left right cond = walk left.valType cond (pairsOf left right) ⟨false, 0⟩ := by
  rw [valCmp_uncounted uncounted, leftLoop_walk notIn]
  rfl

theorem lefts_typed {l : Option Bytes × VtwType} (member : l ∈ left.typed) : l.1 ∈ left.lefts := by
  unfold ValStruct.typed at member
  unfold ValStruct.lefts
  split at member
  · rename_i single
    rw [if_pos single, List.mem_singleton.mp member]
    exact List.mem_singleton_self _
  · rename_i several
    obtain ⟨pair, inside, rfl⟩ := List.mem_map.mp member
    rw [if_neg several]
    exact List.mem_map.mpr ⟨pair, inside, rfl⟩

theorem rights_typed {r : Option Bytes × VtwType} (member : r ∈ right.typed) :
    ∃ value ∈ compared r.2 right.rights, value.val = r.1 := by
  unfold ValStruct.typed at member
  unfold compared ValStruct.rights
  split at member
  · rename_i single
    rw [if_pos single, List.mem_singleton.mp member]
    exact ⟨⟨right.val, none⟩, List.mem_filter.mpr ⟨List.mem_singleton_self _, rfl⟩, rfl⟩
  · rename_i several
    obtain ⟨pair, inside, rfl⟩ := List.mem_map.mp member
    rw [if_neg several]
    refine ⟨⟨some pair.1, some pair.2⟩, List.mem_filter.mpr ⟨List.mem_map.mpr ⟨pair, inside, rfl⟩, ?_⟩, rfl⟩
    by_cases unset : pair.2 = .error
    · simp [RightValue.skipped, unset]
    · simp [RightValue.skipped, unset]

theorem mem_pairsOf {l r : Option Bytes × VtwType} (inLeft : l ∈ left.typed) (inRight : r ∈ right.typed)
    (type : r.2 = left.valType) : (l.1, r.1) ∈ pairsOf left right := by
  obtain ⟨value, looked, same⟩ := rights_typed inRight
  rw [type] at looked
  apply List.mem_flatMap.mpr
  refine ⟨l.1, lefts_typed inLeft, List.mem_map.mpr ⟨value, looked, ?_⟩⟩
  rw [same]

theorem passes_mem {valType : VtwType} {pairs : List ValuePair} (passes : Passes cond valType pairs)
    {pair : ValuePair} (member : pair ∈ pairs) : Satisfies cond valType pair ∨ Blank valType pair := by
  cases pairs with
  | nil => cases member
  | cons first rest =>
    rw [passes_cons] at passes
    rcases List.mem_cons.mp member with rfl | later
    · exact .inl passes.1
    · exact passes.2 pair later

theorem lefts_of_typed {lval : Option Bytes} (member : lval ∈ left.lefts) : ∃ l ∈ left.typed, l.1 = lval := by
  unfold ValStruct.lefts at member
  unfold ValStruct.typed
  split at member
  · rename_i single
    rw [if_pos single, List.mem_singleton.mp member]
    exact ⟨_, List.mem_singleton_self _, rfl⟩
  · rename_i several
    obtain ⟨pair, inside, rfl⟩ := List.mem_map.mp member
    rw [if_neg several]
    exact ⟨_, List.mem_map.mpr ⟨pair, inside, rfl⟩, rfl⟩

theorem passes_of_all {valType : VtwType} {pairs : List ValuePair}
    (all : ∀ pair ∈ pairs, Satisfies cond valType pair) : Passes cond valType pairs :=
  ⟨fun pair first => all pair (List.mem_of_mem_head? first), fun pair later => .inl (all pair (List.mem_of_mem_tail later))⟩

/-- Where all that is compared is of the left operand's type and can be read, the pairs decide. -/
theorem pairsDecide_of_typed (oneType : ∀ l ∈ left.typed, l.2 = left.valType)
    (looked : ∀ value ∈ compared left.valType right.rights, (value.val, left.valType) ∈ right.typed)
    (readable : ∀ pair ∈ pairsOf left right,
      PairComparable left.valType pair.1 pair.2 ∧ ¬ Blank left.valType pair) : PairsDecide cond left right := by
  have split {pair : ValuePair} (member : pair ∈ pairsOf left right) :
      ∃ l ∈ left.typed, l.1 = pair.1 ∧ (pair.2, left.valType) ∈ right.typed := by
    obtain ⟨lval, inLeft, made⟩ := List.mem_flatMap.mp member
    obtain ⟨value, inRight, rfl⟩ := List.mem_map.mp made
    obtain ⟨l, typed, same⟩ := lefts_of_typed inLeft
    exact ⟨l, typed, same, looked value inRight⟩
  refine ⟨?_, ?_, ?_⟩
  · intro before pair after parts _
    exact (readable pair (by simp [parts])).1
  · intro some _
    obtain ⟨pair, rest, first⟩ := List.exists_cons_of_ne_nil some
    obtain ⟨l, inLeft, -, inRight⟩ := split (first ▸ List.mem_cons_self)
    refine ⟨⟨l, inLeft, _, inRight, oneType l inLeft⟩, ?_⟩
    intro l inLeft r inRight same apart
    have type := oneType l inLeft
    rcases apart with other | blank
    · exact absurd type other
    · exact absurd blank (readable _ (mem_pairsOf inLeft inRight (same.symm.trans type))).2
  · intro satisfied
    obtain ⟨⟨l, inLeft, r, inRight, same⟩, all⟩ := satisfied
    refine ⟨List.ne_nil_of_mem (mem_pairsOf inLeft inRight (same.symm.trans (oneType l inLeft))), passes_of_all ?_⟩
    intro pair member
    obtain ⟨l, inLeft, first, inRight⟩ := split member
    have satisfies := all l inLeft _ inRight (oneType l inLeft)
    rwa [oneType l inLeft, first] at satisfies

end Typed

section Preorder

/-- What a value of a type is compared by: numbers, the first difference first. A text that the
    format finds nothing in comes before all others. -/
def rank (valType : VtwType) (val : Bytes) : List Nat :=
  match valType with
  | .text | .bool => val.map UInt8.toNat
  | .ipv6 => ((scanIpv6 val noParts).getD []).take 8
  | .ipv6net => ((scanIpv6 val noParts).getD []).take 9
  | _ =>
    let read := sscanf val (condFormats valType)
    if read = [] then [] else 1 :: (readParts read).take (condFormatLens valType)

theorem strcmp_eq_signOf (s t : Bytes) : strcmp s t = signOf (compare (s.map UInt8.toNat) (t.map UInt8.toNat)) := by
  induction s generalizing t with
  | nil => cases t <;> rfl
  | cons a s ih =>
    cases t with
    | nil => rfl
    | cons b t =>
      rw [strcmp, List.map_cons, List.map_cons, List.compare_cons_cons]
      by_cases same : a = b
      · subst same
        rw [if_pos rfl, ih, compare_eq_iff_eq.mpr rfl]
        rfl
      · rw [if_neg same]
        by_cases less : a < b
        · rw [if_pos less, compare_lt_iff_lt.mpr less]
          rfl
        · have more : b.toNat < a.toNat := by
            have differ : a.toNat ≠ b.toNat := fun equal => same (UInt8.toNat_inj.mp equal)
            have notLess : ¬ a.toNat < b.toNat := less
            omega
          rw [if_neg less, compare_gt_iff_gt.mpr more]
          rfl

theorem compareParts_eq_signOf {left right : List Nat} {partsNum : Nat} (inLeft : partsNum ≤ left.length)
    (inRight : partsNum ≤ right.length) :
    compareParts left right partsNum 0 = signOf (compare (left.take partsNum) (right.take partsNum)) := by
  have length : (left.take partsNum).length = (right.take partsNum).length := by
    rw [List.length_take, List.length_take]
    omega
  have cut : (left.zip right).take partsNum = (left.take partsNum).zip (right.take partsNum) := List.take_zipWith
  rw [compareParts, cut, compareSteps_zip length]

theorem cmpIpv6_eq_signOf {l r : Bytes} {partsNum : Nat} (inside : partsNum ≤ 9)
    (fits : scanIpv6 l noParts ≠ none ∧ scanIpv6 r noParts ≠ none) :
    cmpIpv6 l r partsNum 0 = .ok (signOf (compare (((scanIpv6 l noParts).getD []).take partsNum)
      (((scanIpv6 r noParts).getD []).take partsNum))) := by
  obtain ⟨left, leftParts⟩ := Option.ne_none_iff_exists'.mp fits.1
  obtain ⟨right, rightParts⟩ := Option.ne_none_iff_exists'.mp fits.2
  have leftLength := scanIpv6_length leftParts
  have rightLength := scanIpv6_length rightParts
  rw [cmpIpv6, leftParts, rightParts]
  apply congrArg Except.ok
  exact compareParts_eq_signOf (by omega) (by omega)

theorem readParts_long (read : List Nat) : 9 ≤ (readParts read).length := by
  rw [readParts, List.length_append, List.length_replicate]
  omega

variable {valType : VtwType}

theorem rank_numeric (numeric : Numeric valType) (val : Bytes) :
    rank valType val = if sscanf val (condFormats valType) = [] then []
      else 1 :: (readParts (sscanf val (condFormats valType))).take (condFormatLens valType) := by
  rcases numeric with rfl | rfl | rfl | rfl <;> rfl

theorem cmpScanned_eq_signOf (numeric : Numeric valType) (l r : Bytes) :
    cmpScanned valType l r 0 = signOf (compare (rank valType l) (rank valType r)) := by
  have inside : condFormatLens valType ≤ 9 := by rcases numeric with rfl | rfl | rfl | rfl <;> decide
  have leftLong := readParts_long (sscanf l (condFormats valType))
  have rightLong := readParts_long (sscanf r (condFormats valType))
  rw [rank_numeric numeric, rank_numeric numeric]
  unfold cmpScanned
  dsimp only
  by_cases right : sscanf r (condFormats valType) = []
  · rw [if_pos right, if_pos right]
    by_cases left : sscanf l (condFormats valType) = []
    · rw [if_pos left, if_neg (not_not.mpr left)]
      rfl
    · rw [if_neg left, if_pos left]
      rfl
  · rw [if_neg right, if_neg right]
    by_cases left : sscanf l (condFormats valType) = []
    · rw [if_pos left, if_pos left]
      rfl
    · rw [if_neg left, if_neg left, List.compare_cons_cons, compare_eq_iff_eq.mpr rfl, Ordering.eq_then]
      exact compareParts_eq_signOf (by omega) (by omega)

theorem outcome_eq_signOf {l r : Bytes} (comparable : PairComparable valType (some l) (some r)) :
    outcome valType (some l, some r) = .ok (signOf (compare (rank valType l) (rank valType r))) := by
  have scanned (isIpv6 : valType = .ipv6 ∨ valType = .ipv6net) :
      scanIpv6 l noParts ≠ none ∧ scanIpv6 r noParts ≠ none :=
    ⟨comparable.fits isIpv6 l (.inl rfl), comparable.fits isIpv6 r (.inr rfl)⟩
  have numbers (numeric : Numeric valType) :
      outcome valType (some l, some r) = .ok (signOf (compare (rank valType l) (rank valType r))) := by
    rw [outcome, cmpValues_numeric numeric, cmpScanned_eq_signOf numeric]
  cases valType with
  | error => exact absurd rfl comparable.type.1
  | domain => exact absurd rfl comparable.type.2.1
  | priority => exact absurd rfl comparable.type.2.2
  | text => exact congrArg Except.ok (strcmp_eq_signOf l r)
  | bool => exact congrArg Except.ok (strcmp_eq_signOf l r)
  | ipv6 => exact cmpIpv6_eq_signOf (by decide) (scanned (.inl rfl))
  | ipv6net => exact cmpIpv6_eq_signOf (by decide) (scanned (.inr rfl))
  | _ => exact numbers (by decide)

/-- The meaning of the conditions in a total preorder. -/
def VtwCond.In {α : Type} (le : α → α → Prop) (cond : VtwCond) (a b : α) : Prop :=
  match cond with
  | .eqCond | .inCond => le a b ∧ le b a
  | .neCond => ¬ (le a b ∧ le b a)
  | .ltCond => ¬ le b a
  | .leCond => le a b
  | .gtCond => ¬ le a b
  | .geCond => le b a

def Ranked (valType : VtwType) (a b : Bytes) : Prop := (compare (rank valType a) (rank valType b)).isLE = true

theorem compare_swap (a b : List Nat) : compare b a = (compare a b).swap := Std.OrientedCmp.eq_swap

theorem ranked_preorder (valType : VtwType) : IsPreorder Bytes (Ranked valType) where
  refl _ := Std.ReflCmp.isLE_rfl
  trans _ _ _ := Std.TransCmp.isLE_trans

theorem ranked_total (valType : VtwType) : Std.Total (Ranked valType) where
  total a b := by
    unfold Ranked
    rw [compare_swap (rank valType a)]
    cases compare (rank valType a) (rank valType b) <;> decide

theorem satisfied_iff_in (cond : VtwCond) (a b : Bytes) :
    cond.satisfied (compare (rank valType a) (rank valType b)) = true ↔ cond.In (Ranked valType) a b := by
  unfold VtwCond.In Ranked
  rw [compare_swap (rank valType a)]
  cases cond <;> cases compare (rank valType a) (rank valType b) <;> decide

structure Single (operand : ValStruct) (valType : VtwType) (val : Bytes) : Prop where
  type : operand.valType = valType
  val : operand.val = some val
  vals : operand.vals = []

theorem valCmp_single {left right : ValStruct} {cond : VtwCond} {l r : Bytes} (leftIs : Single left valType l)
    (rightIs : Single right valType r) (comparable : PairComparable valType (some l) (some r))
    (uncounted : ¬ Counted left right) (rightPart : Nat) :
    valCmp rightPart left right cond = .ok (cond.satisfied (compare (rank valType l) (rank valType r))) := by
  have ran := outcome_eq_signOf comparable
  rw [valCmp_uncounted uncounted, ValStruct.lefts, if_pos leftIs.vals, ValStruct.rights, if_pos rightIs.vals, leftIs.val,
    rightIs.val, leftIs.type, ← holds_signOf]
  exact leftLoop_single ran

/-- For single values of the type the conditions come from one total preorder. -/
def InPreorder (valType : VtwType) : Prop :=
  ∃ le : Bytes → Bytes → Prop, IsPreorder Bytes le ∧ Std.Total le ∧
    ∀ (l r : Bytes) (left right : ValStruct) (cond : VtwCond) (rightPart : Nat), Single left valType l →
      Single right valType r → PairComparable valType (some l) (some r) → ¬ Counted left right →
      ∃ ret, valCmp rightPart left right cond = .ok ret ∧ (ret = true ↔ cond.In le l r)

theorem inPreorder (valType : VtwType) : InPreorder valType := by
  refine ⟨Ranked valType, ranked_preorder valType, ranked_total valType, ?_⟩
  intro l r left right cond rightPart leftIs rightIs comparable uncounted
  exact ⟨_, valCmp_single leftIs rightIs comparable uncounted rightPart, satisfied_iff_in cond l r⟩

end Preorder

end VyattaCfg.Cliexec
