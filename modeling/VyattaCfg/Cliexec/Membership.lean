import VyattaCfg.Cliexec.ValCmp

namespace VyattaCfg.Cliexec

open ByteString VyattaCfg.Client

section Values

/-- The numbers that a value of a type is made of. -/
def numbers (valType : VtwType) (val : Bytes) : Option (List Nat) :=
  match valType with
  | .int | .ipv4 | .ipv4net | .macaddr =>
    let read := sscanf val (condFormats valType)
    if read.length = condFormatLens valType then some read else none
  | .ipv6 => (scanIpv6 val noParts).map (List.take 8)
  | .ipv6net => scanIpv6 val noParts
  | _ => none

def IsValue (valType : VtwType) (val : Bytes) : Prop :=
  valType = .text ∨ valType = .bool ∨ ∃ read, numbers valType val = some read

/-- Two values of a type that are the same text, or stand for the same numbers. -/
def SameValue (valType : VtwType) (left right : Bytes) : Prop :=
  if valType = .text ∨ valType = .bool then left = right else numbers valType left = numbers valType right

theorem compareSteps_eq_zero {steps : List (Nat × Nat)} (some : steps ≠ []) (res : Int) :
    compareSteps steps res = 0 ↔ ∀ step ∈ steps, step.1 = step.2 := by
  induction steps generalizing res with
  | nil => exact absurd rfl some
  | cons step steps ih =>
    rcases step with ⟨l, r⟩
    rw [compareSteps, List.forall_mem_cons]
    by_cases more : r < l
    · rw [if_pos more]
      exact iff_of_false (by decide) fun all => by have same : l = r := all.1; omega
    · by_cases less : l < r
      · rw [if_neg more, if_pos less]
        exact iff_of_false (by decide) fun all => by have same : l = r := all.1; omega
      · rw [if_neg more, if_neg less]
        have same : l = r := by omega
        cases steps with
        | nil => simp [compareSteps, same]
        | cons next steps =>
          rw [ih (List.cons_ne_nil _ _)]
          exact ⟨fun rest => ⟨same, rest⟩, And.right⟩

theorem forall_zip_iff {left right : List Nat} (length : left.length = right.length) :
    (∀ step ∈ left.zip right, step.1 = step.2) ↔ left = right := by
  induction left generalizing right with
  | nil => simp [List.length_eq_zero_iff.mp length.symm]
  | cons l left ih =>
    cases right with
    | nil => cases length
    | cons r right =>
      rw [List.zip_cons_cons, List.forall_mem_cons, ih (Nat.succ.inj length), List.cons.injEq]

theorem compareParts_eq_zero {left right : List Nat} (length : left.length = right.length) {partsNum : Nat}
    (inside : 0 < partsNum ∧ partsNum ≤ left.length) (res : Int) :
    compareParts left right partsNum res = 0 ↔ left.take partsNum = right.take partsNum := by
  have some : (left.zip right).take partsNum ≠ [] := by
    intro empty
    have none := congrArg List.length empty
    simp only [List.length_take, List.length_zip, List.length_nil] at none
    omega
  have taken : (left.take partsNum).length = (right.take partsNum).length := by
    rw [List.length_take, List.length_take, length]
  have cut : (left.zip right).take partsNum = (left.take partsNum).zip (right.take partsNum) := List.take_zipWith
  rw [compareParts, compareSteps_eq_zero some, cut, forall_zip_iff taken]

theorem readParts_take (read : List Nat) : (readParts read).take read.length = read := by
  rw [readParts, List.take_left]

theorem readParts_length {read : List Nat} (fits : read.length ≤ 9) : (readParts read).length = 9 := by
  rw [readParts, List.length_append, List.length_replicate]
  omega

theorem cmpScanned_eq_zero {valType : VtwType} {lval rval : Bytes} {n : Nat} (some : 0 < n ∧ n ≤ 9)
    (left : (sscanf lval (condFormats valType)).length = n)
    (right : (sscanf rval (condFormats valType)).length = n) (parts : condFormatLens valType = n) (res : Int) :
    cmpScanned valType lval rval res = 0 ↔
      sscanf lval (condFormats valType) = sscanf rval (condFormats valType) := by
  have leftSome : sscanf lval (condFormats valType) ≠ [] := by
    intro empty
    rw [empty, List.length_nil] at left
    omega
  have rightSome : sscanf rval (condFormats valType) ≠ [] := by
    intro empty
    rw [empty, List.length_nil] at right
    omega
  have leftLength := readParts_length (left.trans_le some.2)
  have rightLength := readParts_length (right.trans_le some.2)
  have leftTake := readParts_take (sscanf lval (condFormats valType))
  have rightTake := readParts_take (sscanf rval (condFormats valType))
  rw [left] at leftTake
  rw [right] at rightTake
  unfold cmpScanned
  simp only [if_neg leftSome, if_neg rightSome, parts]
  rw [compareParts_eq_zero (leftLength.trans rightLength.symm) ⟨some.1, leftLength.symm ▸ some.2⟩, leftTake,
    rightTake]

theorem cmpIpv6_eq_zero {lval rval : Bytes} {left right : List Nat} (leftParts : scanIpv6 lval noParts = some left)
    (rightParts : scanIpv6 rval noParts = some right) {partsNum : Nat} (inside : 0 < partsNum ∧ partsNum ≤ 9)
    (res : Int) : ∃ found, cmpIpv6 lval rval partsNum res = .ok found ∧
      (found = 0 ↔ left.take partsNum = right.take partsNum) := by
  have leftLength := scanIpv6_length leftParts
  have rightLength := scanIpv6_length rightParts
  refine ⟨compareParts left right partsNum res, ?_, ?_⟩
  · rw [cmpIpv6, leftParts, rightParts]
  · exact compareParts_eq_zero (leftLength.trans rightLength.symm) ⟨inside.1, leftLength.symm ▸ inside.2⟩ res

theorem numbers_of_format {valType : VtwType} (format : condFormatLens valType ≠ 0)
    (other : valType ≠ .ipv6 ∧ valType ≠ .ipv6net) (val : Bytes) :
    numbers valType val =
      if (sscanf val (condFormats valType)).length = condFormatLens valType then
        some (sscanf val (condFormats valType))
      else none := by
  cases valType <;> first | rfl | exact absurd rfl format | exact absurd rfl other.1 | exact absurd rfl other.2

theorem cmpScanned_same {valType : VtwType} (format : 0 < condFormatLens valType ∧ condFormatLens valType ≤ 9)
    (other : valType ≠ .ipv6 ∧ valType ≠ .ipv6net) {lval rval : Bytes}
    (left : ∃ read, numbers valType lval = some read) (right : ∃ read, numbers valType rval = some read) (res : Int) :
    cmpScanned valType lval rval res = 0 ↔ numbers valType lval = numbers valType rval := by
  have known := numbers_of_format (by omega) other
  obtain ⟨read, leftRead⟩ := left
  obtain ⟨read', rightRead⟩ := right
  rw [known] at leftRead rightRead
  have leftLength : (sscanf lval (condFormats valType)).length = condFormatLens valType := by
    by_contra short
    rw [if_neg short] at leftRead
    cases leftRead
  have rightLength : (sscanf rval (condFormats valType)).length = condFormatLens valType := by
    by_contra short
    rw [if_neg short] at rightRead
    cases rightRead
  rw [cmpScanned_eq_zero format leftLength rightLength rfl, known, known, if_pos leftLength, if_pos rightLength,
    Option.some.injEq]

theorem cmpValues_same {valType : VtwType} {lval rval : Bytes} (left : IsValue valType lval)
    (right : IsValue valType rval) (res : Int) :
    ∃ found, cmpValues valType (some lval) (some rval) res = .ok found ∧
      (found = 0 ↔ SameValue valType lval rval) := by
  by_cases textual : valType = .text ∨ valType = .bool
  · refine ⟨strcmp lval rval, ?_, ?_⟩
    · rcases textual with rfl | rfl <;> rfl
    · rw [SameValue, if_pos textual]
      exact strcmp_eq_zero
  · rw [not_or] at textual
    have leftNumbers := (left.resolve_left textual.1).resolve_left textual.2
    have rightNumbers := (right.resolve_left textual.1).resolve_left textual.2
    rw [SameValue, if_neg (not_or.mpr textual)]
    cases valType with
    | error => exact absurd leftNumbers (by simp [numbers])
    | domain => exact absurd leftNumbers (by simp [numbers])
    | priority => exact absurd leftNumbers (by simp [numbers])
    | text => exact absurd rfl textual.1
    | bool => exact absurd rfl textual.2
    | int => exact ⟨_, rfl, cmpScanned_same (by decide) (by decide) leftNumbers rightNumbers res⟩
    | ipv4 => exact ⟨_, rfl, cmpScanned_same (by decide) (by decide) leftNumbers rightNumbers res⟩
    | ipv4net => exact ⟨_, rfl, cmpScanned_same (by decide) (by decide) leftNumbers rightNumbers res⟩
    | macaddr => exact ⟨_, rfl, cmpScanned_same (by decide) (by decide) leftNumbers rightNumbers res⟩
    | ipv6 =>
      simp only [numbers, Option.map_eq_some_iff] at leftNumbers rightNumbers
      obtain ⟨-, l, leftParts, -⟩ := leftNumbers
      obtain ⟨-, r, rightParts, -⟩ := rightNumbers
      have inside : 0 < 8 ∧ 8 ≤ 9 := by decide
      obtain ⟨found, compared, zero⟩ := cmpIpv6_eq_zero leftParts rightParts inside res
      refine ⟨found, compared, zero.trans ?_⟩
      simp [numbers, leftParts, rightParts]
    | ipv6net =>
      obtain ⟨l, leftParts⟩ := leftNumbers
      obtain ⟨r, rightParts⟩ := rightNumbers
      have inside : 0 < 9 ∧ 9 ≤ 9 := by decide
      obtain ⟨found, compared, zero⟩ := cmpIpv6_eq_zero leftParts rightParts inside res
      refine ⟨found, compared, zero.trans ?_⟩
      have leftWhole : l.take 9 = l := List.take_of_length_le (scanIpv6_length leftParts).le
      have rightWhole : r.take 9 = r := List.take_of_length_le (scanIpv6_length rightParts).le
      rw [leftWhole, rightWhole, leftParts, rightParts, Option.some.injEq]

end Values

section Loops

variable {valType : VtwType}

theorem inCond_holds (res : Int) : VtwCond.inCond.holds res.sign = true ↔ res = 0 := by
  simp [VtwCond.holds, VtwCond.cond1, VtwCond.cond2, Int.sign_eq_zero_iff_zero]

def compared (valType : VtwType) (rights : List RightValue) : List RightValue :=
  rights.filter fun right => !right.skipped valType

/-- A value that is compared as this type, with an outcome that only depends on the two values. -/
def Comparable (valType : VtwType) (left : Bytes) (right : RightValue) : Prop :=
  ∀ res, ∃ found, cmpValues valType (some left) right.val res = .ok found ∧
    (found = 0 ↔ cmpValues valType (some left) right.val 0 = .ok 0)

theorem rightLoop_in {left : Bytes} {rights : List RightValue}
    (comparable : ∀ right ∈ compared valType rights, Comparable valType left right) (state : Comparison) :
    ∃ after, rightLoop valType .inCond (some left) rights state = .ok (.goesOn after) ∧
      (after.ret = true ↔
        (∃ right ∈ compared valType rights, cmpValues valType (some left) right.val 0 = .ok 0) ∨
          (compared valType rights = [] ∧ state.ret = true)) := by
  induction rights generalizing state with
  | nil => exact ⟨state, rfl, by simp [compared]⟩
  | cons right rights ih =>
    by_cases skipped : right.skipped valType
    · have same : compared valType (right :: rights) = compared valType rights := by simp [compared, skipped]
      rw [same] at comparable ⊢
      rw [rightLoop, if_pos skipped]
      exact ih comparable state
    · have split : compared valType (right :: rights) = right :: compared valType rights := by
        simp [compared, skipped]
      rw [split, List.forall_mem_cons] at comparable
      obtain ⟨found, ended, zero⟩ := comparable.1 state.res
      rw [split, rightLoop, if_neg skipped, ended]
      by_cases equal : found = 0
      · have holds : VtwCond.inCond.holds found.sign = true := (inCond_holds found).mpr equal
        refine ⟨⟨true, found.sign⟩, ?_, ?_⟩
        · simp [bind, Except.bind, holds]
        · simp [zero.mp equal]
      · have fails : VtwCond.inCond.holds found.sign = false := by
          rw [← Bool.not_eq_true, inCond_holds]
          exact equal
        obtain ⟨after, looped, ret⟩ := ih comparable.2 ⟨false, found.sign⟩
        refine ⟨after, ?_, ?_⟩
        · simp [bind, Except.bind, fails, looped]
        · have differs := mt zero.mpr equal
          rw [ret]
          simp [differs]

theorem leftLoop_in {rights : List RightValue} {lefts : List Bytes} (filled : lefts ≠ [])
    (comparable : ∀ left ∈ lefts, ∀ right ∈ compared valType rights, Comparable valType left right)
    (state : Comparison) (start : compared valType rights = [] → state.ret = false) :
    ∃ ret, leftLoop valType .inCond rights (lefts.map some) state = .ok ret ∧
      (ret = true ↔ ∃ right ∈ compared valType rights,
        cmpValues valType (some (lefts.getLastD [])) right.val 0 = .ok 0) := by
  induction lefts generalizing state with
  | nil => exact absurd rfl filled
  | cons left lefts ih =>
    rw [List.forall_mem_cons] at comparable
    obtain ⟨after, looped, ret⟩ := rightLoop_in comparable.1 state
    have unchanged : ¬ (compared valType rights = [] ∧ state.ret = true) := by
      intro both
      rw [start both.1] at both
      cases both.2
    rw [or_iff_left unchanged] at ret
    rw [List.map_cons, leftLoop, looped]
    simp only [bind, Except.bind]
    cases lefts with
    | nil => exact ⟨after.ret, rfl, ret⟩
    | cons next lefts =>
      have later : compared valType rights = [] → after.ret = false := by
        intro empty
        rw [← Bool.not_eq_true, ret, empty]
        simp
      have last : (left :: next :: lefts).getLastD [] = (next :: lefts).getLastD [] := rfl
      rw [last]
      exact ih (List.cons_ne_nil _ _) comparable.2 after later

end Loops

section Operands

def ValStruct.literals (right : ValStruct) : List (Bytes × VtwType) :=
  if right.vals = [] then [(right.val.getD [], right.valType)] else right.vals

structure LeftOperand (left : ValStruct) : Prop where
  given : left.vals = [] → left.val.isSome
  oneType : ∀ pair ∈ left.vals, pair.2 = left.valType ∨ pair.2 = .error
  valid : ∀ l ∈ left.values, IsValue left.valType l

structure RightOperand (right : ValStruct) : Prop where
  given : right.vals = [] → right.val.isSome
  typed : ∀ pair ∈ right.literals, pair.2 ≠ .error
  valid : ∀ pair ∈ right.literals, pair.2 = .priority ∨ IsValue pair.2 pair.1

def InList (left right : ValStruct) (l : Bytes) : Prop :=
  ∃ pair ∈ right.literals, pair.2 = left.valType ∧ SameValue left.valType l pair.1

/-- What the operator `in` is for. -/
def Member (left right : ValStruct) : Prop := ∀ l ∈ left.values, InList left right l

def Entered (left right : ValStruct) : Prop := left.valType = right.valType ∨ left.ismulti = true

/-- No right literal is overlooked, none of another type is taken for an equal one, and the
    last left value decides for those before it. -/
structure MembershipDecided (left right : ValStruct) : Prop where
  typed : Member left right → Entered left right
  other : left.ismulti = true → right.vals = [] → left.valType ≠ right.valType →
    ∃ res, cmpValues left.valType (some (left.values.getLastD [])) right.val 0 = .ok res ∧ res ≠ 0
  last : Entered left right → InList left right (left.values.getLastD []) → Member left right

variable {left right : ValStruct}

theorem values_ne_nil (left : ValStruct) : left.values ≠ [] := by
  unfold ValStruct.values
  split
  · exact List.cons_ne_nil _ _
  · rename_i several
    exact fun empty => several (List.map_eq_nil_iff.mp empty)

theorem last_mem (left : ValStruct) : left.values.getLastD [] ∈ left.values := by
  have filled := values_ne_nil left
  rw [List.getLastD_eq_getLast?, List.getLast?_eq_some_getLast filled, Option.getD_some]
  exact List.getLast_mem filled

theorem LeftOperand.lefts_eq (operand : LeftOperand left) : left.lefts = left.values.map some := by
  unfold ValStruct.lefts ValStruct.values
  by_cases single : left.vals = []
  · obtain ⟨val, given⟩ := Option.isSome_iff_exists.mp (operand.given single)
    simp [single, given]
  · simp [single]

/-- Whether the text can be read as a value of this type without running past the array. -/
def Scannable (valType : VtwType) (val : Bytes) : Prop :=
  valType = .ipv6 ∨ valType = .ipv6net → (scanIpv6 val noParts).isSome

theorem compareSteps_res {steps : List (Nat × Nat)} (some : steps ≠ []) (res res' : Int) :
    compareSteps steps res = compareSteps steps res' := by
  cases steps with
  | nil => exact absurd rfl some
  | cons step steps => rfl

theorem compareParts_res {l r : List Nat} (leftSome : l ≠ []) (rightSome : r ≠ []) {partsNum : Nat}
    (inside : 0 < partsNum) (res res' : Int) : compareParts l r partsNum res = compareParts l r partsNum res' := by
  apply compareSteps_res
  intro empty
  have none := congrArg List.length empty
  have leftLength := List.length_pos_iff.mpr leftSome
  have rightLength := List.length_pos_iff.mpr rightSome
  simp only [List.length_take, List.length_zip, List.length_nil] at none
  omega

theorem cmpScanned_res {valType : VtwType} (format : 0 < condFormatLens valType) {lval : Bytes}
    (leftSome : sscanf lval (condFormats valType) ≠ []) (rval : Bytes) (res res' : Int) :
    cmpScanned valType lval rval res = cmpScanned valType lval rval res' := by
  unfold cmpScanned
  simp only [if_neg leftSome]
  by_cases rightSome : sscanf rval (condFormats valType) = []
  · simp [rightSome, leftSome]
  · rw [if_neg rightSome, if_neg rightSome]
    have parts : ∀ read : List Nat, read ≠ [] → readParts read ≠ [] := by
      intro read some empty
      exact some (List.append_eq_nil_iff.mp empty).1
    exact compareParts_res (parts _ leftSome) (parts _ rightSome) format res res'

theorem sscanf_ne_nil {valType : VtwType} (format : 0 < condFormatLens valType)
    (other : valType ≠ .ipv6 ∧ valType ≠ .ipv6net) {val : Bytes} (value : IsValue valType val)
    (notText : valType ≠ .text ∧ valType ≠ .bool) : sscanf val (condFormats valType) ≠ [] := by
  obtain ⟨read, known⟩ := (value.resolve_left notText.1).resolve_left notText.2
  rw [numbers_of_format (by omega) other] at known
  intro empty
  rw [empty, if_neg (by simp; omega)] at known
  cases known

theorem scanIpv6_of_value {valType : VtwType} (ipv6 : valType = .ipv6 ∨ valType = .ipv6net) {val : Bytes}
    (value : IsValue valType val) : ∃ parts, scanIpv6 val noParts = some parts := by
  rcases ipv6 with rfl | rfl
  · obtain ⟨read, known⟩ := (value.resolve_left (by decide)).resolve_left (by decide)
    obtain ⟨parts, scanned, -⟩ := Option.map_eq_some_iff.mp known
    exact ⟨parts, scanned⟩
  · obtain ⟨read, known⟩ := (value.resolve_left (by decide)).resolve_left (by decide)
    exact ⟨read, known⟩

theorem cmpIpv6_comparable {lval rval : Bytes} {l r : List Nat} (leftParts : scanIpv6 lval noParts = some l)
    (rightParts : scanIpv6 rval noParts = some r) {partsNum : Nat} (inside : 0 < partsNum) (res : Int) :
    cmpIpv6 lval rval partsNum res = .ok (compareParts l r partsNum 0) := by
  have filled : ∀ {parts : List Nat} {val : Bytes}, scanIpv6 val noParts = some parts → parts ≠ [] := by
    intro parts val scanned empty
    have length := scanIpv6_length scanned
    rw [empty] at length
    cases length
  rw [cmpIpv6, leftParts, rightParts]
  simp only
  rw [compareParts_res (filled leftParts) (filled rightParts) inside res 0]

theorem comparable_of_scannable {valType : VtwType} {lval rval : Bytes} (value : IsValue valType lval)
    (scannable : Scannable valType rval) (type : Option VtwType) : Comparable valType lval ⟨some rval, type⟩ := by
  have unchanging : ∃ found, ∀ res, cmpValues valType (some lval) (some rval) res = .ok found := by
    cases valType with
    | error => exact absurd value (by simp [IsValue, numbers])
    | domain => exact absurd value (by simp [IsValue, numbers])
    | priority => exact absurd value (by simp [IsValue, numbers])
    | text => exact ⟨_, fun _ => rfl⟩
    | bool => exact ⟨_, fun _ => rfl⟩
    | int =>
      have some := sscanf_ne_nil (by decide) (by decide) value (by decide)
      exact ⟨_, fun res => congrArg Except.ok (cmpScanned_res (by decide) some rval res 0)⟩
    | ipv4 =>
      have some := sscanf_ne_nil (by decide) (by decide) value (by decide)
      exact ⟨_, fun res => congrArg Except.ok (cmpScanned_res (by decide) some rval res 0)⟩
    | ipv4net =>
      have some := sscanf_ne_nil (by decide) (by decide) value (by decide)
      exact ⟨_, fun res => congrArg Except.ok (cmpScanned_res (by decide) some rval res 0)⟩
    | macaddr =>
      have some := sscanf_ne_nil (by decide) (by decide) value (by decide)
      exact ⟨_, fun res => congrArg Except.ok (cmpScanned_res (by decide) some rval res 0)⟩
    | ipv6 =>
      obtain ⟨l, leftParts⟩ := scanIpv6_of_value (.inl rfl) value
      obtain ⟨r, rightParts⟩ := Option.isSome_iff_exists.mp (scannable (.inl rfl))
      exact ⟨_, fun res => cmpIpv6_comparable leftParts rightParts (by decide) res⟩
    | ipv6net =>
      obtain ⟨l, leftParts⟩ := scanIpv6_of_value (.inr rfl) value
      obtain ⟨r, rightParts⟩ := Option.isSome_iff_exists.mp (scannable (.inr rfl))
      exact ⟨_, fun res => cmpIpv6_comparable leftParts rightParts (by decide) res⟩
  obtain ⟨found, same⟩ := unchanging
  intro res
  exact ⟨found, same res, by simp [same 0]⟩

theorem cmpValues_overrun {valType : VtwType} {rval : Bytes} (unscannable : ¬ Scannable valType rval) (lval : Bytes)
    (res : Int) : cmpValues valType (some lval) (some rval) res = .error .overrun := by
  rw [Scannable, Classical.not_imp, Option.not_isSome_iff_eq_none] at unscannable
  obtain ⟨rfl | rfl, failed⟩ := unscannable <;> simp [cmpValues, cmpIpv6, failed]

theorem scannable_of_value {valType : VtwType} {val : Bytes} (value : IsValue valType val) :
    Scannable valType val := by
  intro ipv6
  obtain ⟨parts, scanned⟩ := scanIpv6_of_value ipv6 value
  simp [scanned]

theorem checkComp_skipped (rightPart : Nat) (out : ¬ Entered left right) :
    checkComp rightPart (.ok left) (.ok right) .inCond = .ok false := by
  rw [Entered, not_or, Bool.not_eq_true] at out
  rw [checkComp, compareOperands, if_pos out]

theorem checkComp_entered (rightPart : Nat) (entered : Entered left right) (operand : LeftOperand left) :
    checkComp rightPart (.ok left) (.ok right) .inCond =
      leftLoop left.valType .inCond right.rights (left.values.map some) ⟨false, 0⟩ := by
  have passed : ¬ (left.valType ≠ right.valType ∧ left.ismulti = false) := by
    intro failed
    rcases entered with same | multi
    · exact failed.1 same
    · rw [failed.2] at multi
      cases multi
  rw [checkComp, compareOperands, if_neg passed, valCmp, if_neg (by simp), operand.lefts_eq]

theorem cmp_zero_iff {valType : VtwType} {lval rval : Bytes} (leftValue : IsValue valType lval)
    (rightValue : IsValue valType rval) :
    cmpValues valType (some lval) (some rval) 0 = .ok 0 ↔ SameValue valType lval rval := by
  obtain ⟨found, ended, zero⟩ := cmpValues_same leftValue rightValue 0
  rw [ended, Except.ok.injEq]
  exact zero

theorem mem_compared_list (operand : RightOperand right) (several : right.vals ≠ []) {valType : VtwType}
    {value : RightValue} :
    value ∈ compared valType right.rights ↔ ∃ pair ∈ right.literals, pair.2 = valType ∧
      value = ⟨some pair.1, some pair.2⟩ := by
  have typed := operand.typed
  rw [ValStruct.literals, if_neg several] at typed ⊢
  rw [compared, ValStruct.rights, if_neg several, List.mem_filter, List.mem_map]
  constructor
  · intro kept
    obtain ⟨⟨pair, member, rfl⟩, unskipped⟩ := kept
    refine ⟨pair, member, ?_, rfl⟩
    by_contra differs
    simp [RightValue.skipped, typed pair member, differs] at unskipped
  · intro found
    obtain ⟨pair, member, same, rfl⟩ := found
    exact ⟨⟨pair, member, rfl⟩, by simp [RightValue.skipped, same]⟩

theorem compared_single (single : right.vals = []) (valType : VtwType) :
    compared valType right.rights = [⟨right.val, none⟩] := by
  rw [ValStruct.rights, if_pos single]
  rfl

/-- Where every right value that is compared has the type of the left operand, the answer is
    the one for the last left value. -/
theorem entered_last (rightPart : Nat) (leftOperand : LeftOperand left) (rightOperand : RightOperand right)
    (entered : Entered left right) (typed : right.vals = [] → left.valType = right.valType) :
    ∃ ret, checkComp rightPart (.ok left) (.ok right) .inCond = .ok ret ∧
      (ret = true ↔ InList left right (left.values.getLastD [])) := by
  have valid := leftOperand.valid
  have known : ∀ value, value ∈ compared left.valType right.rights ↔
      ∃ pair ∈ right.literals, pair.2 = left.valType ∧ value.val = some pair.1 ∧
        value ∈ compared left.valType right.rights := by
    intro value
    by_cases single : right.vals = []
    · obtain ⟨val, given⟩ := Option.isSome_iff_exists.mp (rightOperand.given single)
      rw [compared_single single, ValStruct.literals, if_pos single]
      simp only [List.mem_singleton, exists_eq_left, given, Option.getD_some]
      constructor
      · intro same
        exact ⟨(typed single).symm, by rw [same], same⟩
      · exact fun found => found.2.2
    · constructor
      · intro member
        obtain ⟨pair, inside, type, rfl⟩ := (mem_compared_list rightOperand single).mp member
        exact ⟨pair, inside, type, rfl, member⟩
      · intro found
        obtain ⟨-, -, -, -, member⟩ := found
        exact member
  have literal : ∀ pair ∈ right.literals, pair.2 = left.valType → IsValue left.valType pair.1 := by
    intro pair inside type
    rcases rightOperand.valid pair inside with priority | value
    · have leftValue := valid _ (last_mem left)
      rw [← type, priority] at leftValue
      exact absurd leftValue (by simp [IsValue, numbers])
    · exact type ▸ value
  have comparable : ∀ l ∈ left.values, ∀ value ∈ compared left.valType right.rights,
      Comparable left.valType l value := by
    intro l member value inside
    obtain ⟨pair, listed, type, text, -⟩ := (known value).mp inside
    rcases value with ⟨val, valueType⟩
    obtain rfl : val = some pair.1 := text
    exact comparable_of_scannable (valid l member) (scannable_of_value (literal pair listed type)) valueType
  obtain ⟨ret, looped, found⟩ := leftLoop_in (values_ne_nil left) comparable ⟨false, 0⟩ fun _ => rfl
  refine ⟨ret, (checkComp_entered rightPart entered leftOperand).trans looped, found.trans ?_⟩
  constructor
  · intro equal
    obtain ⟨value, inside, zero⟩ := equal
    obtain ⟨pair, listed, type, text, -⟩ := (known value).mp inside
    rw [text, cmp_zero_iff (valid _ (last_mem left)) (literal pair listed type)] at zero
    exact ⟨pair, listed, type, zero⟩
  · intro inList
    obtain ⟨pair, listed, type, same⟩ := inList
    have zero := (cmp_zero_iff (valid _ (last_mem left)) (literal pair listed type)).mpr same
    by_cases single : right.vals = []
    · obtain ⟨val, given⟩ := Option.isSome_iff_exists.mp (rightOperand.given single)
      refine ⟨⟨right.val, none⟩, by rw [compared_single single]; simp, ?_⟩
      rw [ValStruct.literals, if_pos single, List.mem_singleton] at listed
      rw [listed, given] at zero
      rw [given]
      exact zero
    · exact ⟨⟨some pair.1, some pair.2⟩, (mem_compared_list rightOperand single).mpr ⟨pair, listed, type, rfl⟩, zero⟩

/-- A single literal of another type is compared as if it were of the left one's. -/
theorem entered_other (rightPart : Nat) (leftOperand : LeftOperand left) (rightOperand : RightOperand right)
    (multi : left.ismulti = true) (single : right.vals = []) :
    checkComp rightPart (.ok left) (.ok right) .inCond = .ok false ↔
      ∃ res, cmpValues left.valType (some (left.values.getLastD [])) right.val 0 = .ok res ∧ res ≠ 0 := by
  obtain ⟨val, given⟩ := Option.isSome_iff_exists.mp (rightOperand.given single)
  have valid := leftOperand.valid
  rw [checkComp_entered rightPart (.inr multi) leftOperand]
  by_cases scannable : Scannable left.valType val
  · have comparable : ∀ l ∈ left.values, ∀ value ∈ compared left.valType right.rights,
        Comparable left.valType l value := by
      intro l member value inside
      rw [compared_single single, List.mem_singleton] at inside
      rw [inside, given]
      exact comparable_of_scannable (valid l member) scannable none
    obtain ⟨ret, looped, found⟩ := leftLoop_in (values_ne_nil left) comparable ⟨false, 0⟩ fun _ => rfl
    have last := comparable _ (last_mem left) ⟨right.val, none⟩ (by rw [compared_single single]; simp) 0
    obtain ⟨res, ended, -⟩ := last
    rw [compared_single single] at found
    simp only [List.mem_singleton, exists_eq_left] at found
    simp only at ended
    rw [ended, Except.ok.injEq] at found
    rw [looped, ended, Except.ok.injEq, ← Bool.not_eq_true, found]
    constructor
    · exact fun differs => ⟨res, rfl, differs⟩
    · intro differs
      obtain ⟨res', same, nonzero⟩ := differs
      exact Except.ok.inj same ▸ nonzero
  · have overrun := cmpValues_overrun scannable
    rw [given, overrun]
    constructor
    · intro ended
      obtain ⟨l, later, values⟩ := List.exists_cons_of_ne_nil (values_ne_nil left)
      have rights : right.rights = [⟨some val, none⟩] := by rw [ValStruct.rights, if_pos single, given]
      rw [values, List.map_cons, leftLoop, rights, rightLoop] at ended
      simp [RightValue.skipped, overrun, bind, Except.bind] at ended
    · intro found
      obtain ⟨res, ended, -⟩ := found
      cases ended

theorem not_member_other (single : right.vals = []) (differs : left.valType ≠ right.valType) :
    ¬ Member left right := by
  intro member
  obtain ⟨pair, listed, type, -⟩ := member _ (last_mem left)
  rw [ValStruct.literals, if_pos single, List.mem_singleton] at listed
  rw [listed] at type
  exact differs type.symm

theorem membership_iff (rightPart : Nat) (left right : ValStruct) (leftOperand : LeftOperand left)
    (rightOperand : RightOperand right) :
    (∃ ret, checkComp rightPart (.ok left) (.ok right) .inCond = .ok ret ∧ (ret = true ↔ Member left right)) ↔
      MembershipDecided left right := by
  by_cases entered : Entered left right
  · by_cases typed : right.vals = [] → left.valType = right.valType
    · obtain ⟨ret, ended, decided⟩ := entered_last rightPart leftOperand rightOperand entered typed
      constructor
      · intro answered
        obtain ⟨ret', again, correct⟩ := answered
        rw [ended] at again
        obtain rfl := Except.ok.inj again
        refine ⟨fun _ => entered, fun _ single differs => absurd (typed single) differs, ?_⟩
        intro _ found
        exact correct.mp (decided.mpr found)
      · intro condition
        refine ⟨ret, ended, decided.trans ⟨condition.last entered, ?_⟩⟩
        exact fun member => member _ (last_mem left)
    · rw [Classical.not_imp] at typed
      obtain ⟨single, differs⟩ := typed
      have multi : left.ismulti = true := entered.resolve_left differs
      have never := not_member_other single differs
      have other := entered_other rightPart leftOperand rightOperand multi single
      constructor
      · intro answered
        obtain ⟨ret, ended, correct⟩ := answered
        have fails : ret = false := by
          rw [← Bool.not_eq_true, correct]
          exact never
        refine ⟨fun _ => entered, fun _ _ _ => other.mp (fails ▸ ended), ?_⟩
        intro _ found
        obtain ⟨pair, listed, type, -⟩ := found
        rw [ValStruct.literals, if_pos single, List.mem_singleton] at listed
        rw [listed] at type
        exact absurd type.symm differs
      · intro condition
        exact ⟨false, other.mpr (condition.other multi single differs), by simp [never]⟩
  · have ended := checkComp_skipped rightPart entered
    constructor
    · intro answered
      obtain ⟨ret, again, correct⟩ := answered
      rw [ended] at again
      obtain rfl := Except.ok.inj again
      refine ⟨fun member => absurd (correct.mpr member) (by decide), ?_, fun inside => absurd inside entered⟩
      exact fun multi => absurd (.inr multi) entered
    · intro condition
      exact ⟨false, ended, by simp [mt condition.typed entered]⟩

def textOperand (values : List Bytes) : ValStruct := ⟨.text, false, none, values.map fun value => (value, .text)⟩

theorem textOperand_right {values : List Bytes} (several : values ≠ []) : RightOperand (textOperand values) := by
  have vals : (textOperand values).vals ≠ [] := fun empty => several (List.map_eq_nil_iff.mp empty)
  refine ⟨fun empty => absurd empty vals, ?_, ?_⟩
  all_goals
    intro pair member
    rw [ValStruct.literals, if_neg vals] at member
    obtain ⟨value, -, rfl⟩ := List.mem_map.mp member
  · exact VtwType.noConfusion
  · exact .inr (.inl rfl)

theorem textOperand_left {values : List Bytes} (several : values ≠ []) : LeftOperand (textOperand values) := by
  refine ⟨fun empty => absurd (List.map_eq_nil_iff.mp empty) several, ?_, fun _ _ => .inl rfl⟩
  intro pair member
  obtain ⟨value, -, rfl⟩ := List.mem_map.mp member
  exact .inl rfl

theorem membership_found : ∃ ret,
    checkComp 0 (.ok (textOperand [str "a", str "b"])) (.ok (textOperand [str "b", str "a"])) .inCond = .ok ret ∧
      (ret = true ↔ Member (textOperand [str "a", str "b"]) (textOperand [str "b", str "a"])) := by
  have member : Member (textOperand [str "a", str "b"]) (textOperand [str "b", str "a"]) := by
    intro l inside
    have either : l = str "a" ∨ l = str "b" := by simpa [textOperand, ValStruct.values] using inside
    rcases either with rfl | rfl
    · exact ⟨(str "a", .text), by decide, rfl, rfl⟩
    · exact ⟨(str "b", .text), by decide, rfl, rfl⟩
  apply (membership_iff 0 _ _ (textOperand_left (by decide)) (textOperand_right (by decide))).mpr
  exact ⟨fun _ => .inl rfl, fun _ empty => absurd empty (by decide), fun _ _ => member⟩

/-- The first of two values is not in the list; the last one decides. -/
theorem membership_last_decides : ¬ ∀ (rightPart : Nat) (left right : ValStruct), LeftOperand left →
    RightOperand right →
    ∃ ret, checkComp rightPart (.ok left) (.ok right) .inCond = .ok ret ∧ (ret = true ↔ Member left right) := by
  intro all
  obtain ⟨ret, ended, correct⟩ := all 0 (textOperand [str "x", str "b"]) (textOperand [str "a", str "b"])
    (textOperand_left (by decide)) (textOperand_right (by decide))
  have computed : checkComp 0 (.ok (textOperand [str "x", str "b"])) (.ok (textOperand [str "a", str "b"])) .inCond =
      .ok true := by decide +kernel
  rw [computed] at ended
  obtain rfl := Except.ok.inj ended
  obtain ⟨pair, listed, -, same⟩ := correct.mp rfl (str "x") (by decide)
  have values : pair = (str "a", .text) ∨ pair = (str "b", .text) := by
    simpa [textOperand, ValStruct.literals] using listed
  rw [SameValue, if_pos (.inl rfl)] at same
  rcases values with rfl | rfl
  · exact absurd same (by decide)
  · exact absurd same (by decide)

end Operands

end VyattaCfg.Cliexec
