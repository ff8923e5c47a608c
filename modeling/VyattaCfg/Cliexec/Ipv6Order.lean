import VyattaCfg.Cliexec.Ipv6Accepted
import VyattaCfg.Cliexec.Ipv6Spread
import VyattaCfg.Cliexec.Membership
import VyattaCfg.Library.Positional

namespace VyattaCfg.Cliexec

open ByteString VyattaCfg.Client

namespace Ipv6Literal

variable (literal : Ipv6Literal)

def denoted : List Nat := literal.address ++ (literal.prefixLen.map Decimal.value).toList

/-- The scan fills the array with what the literal denotes, inside its bounds. -/
def ScansRight : Prop :=
  ∃ parts, scanIpv6 literal.text noParts = some parts ∧ parts.take 8 = literal.address ∧
    ∀ decimal ∈ literal.prefixLen, parts[8]? = some decimal.value

/-- There is no prefix length behind a dotted tail, or taking it for one more octet makes no
    difference. -/
def PrefixApart : Prop :=
  ∀ dotted ∈ literal.dotted, ∀ decimal ∈ literal.prefixLen,
    match literal.gap with
    | none => dotted.low = 0 ∧ decimal.value = 0
    | some tail => (∀ group ∈ tail, group.value = 0) ∧ dotted.high = 0 ∧ dotted.low = 0

end Ipv6Literal

section Scanned

theorem shift_iff (a : Nat) (w : List Nat) (x lo plen : Nat) :
    a :: (w ++ [x]) = w ++ [lo, plen] ↔ (∀ n ∈ w, n = a) ∧ lo = a ∧ x = plen := by
  induction w generalizing a with
  | nil => simp [eq_comm]
  | cons b w ih =>
    rw [List.cons_append, List.cons_append, List.cons.injEq, ih, List.forall_mem_cons]
    constructor
    · rintro ⟨rfl, all, low, last⟩
      exact ⟨⟨rfl, all⟩, low, last⟩
    · rintro ⟨⟨rfl, all⟩, low, last⟩
      exact ⟨rfl, all, low, last⟩

theorem scanned_plain {head : List H16} (full : head.length = 8) (prefixLen : Option (Decimal 128)) :
    (partNumbers head none prefixLen ++ partLeft none prefixLen).take (totalOf prefixLen) =
      groupValues head none ++ (prefixLen.map Decimal.value).toList := by
  have whole : (head.map H16.value ++ (prefixLen.map Decimal.value).toList).length ≤ totalOf prefixLen := by
    cases prefixLen <;> simp [totalOf, full]
  simp [partNumbers, partLeft, groupValues, full, List.take_of_length_le whole]

theorem scanned_dotted {head : List H16} (full : head.length = 6) (dotted : Dotted)
    (prefixLen : Option (Decimal 128)) :
    (partNumbers head (some dotted) prefixLen ++ partLeft (some dotted) prefixLen).take (totalOf prefixLen) =
        groupValues head (some dotted) ++ (prefixLen.map Decimal.value).toList ↔
      ∀ decimal ∈ prefixLen, dotted.low = 0 ∧ decimal.value = 0 := by
  cases prefixLen with
  | none =>
    have eight : (head.map H16.value ++ [dotted.high, dotted.low]).length = 8 := by simp [full]
    apply iff_of_true
    · show (head.map H16.value ++ [dotted.high, dotted.low] ++ [dotted.o4.value]).take 8 = _
      rw [List.take_left' eight]
      simp [groupValues]
    · intro decimal given
      cases given
  | some decimal =>
    have nine : (head.map H16.value ++ [dotted.high, dotted.low * 256 + decimal.value] ++
        [decimal.value]).length ≤ 9 := by simp [full]
    show (head.map H16.value ++ [dotted.high, dotted.low * 256 + decimal.value] ++ [decimal.value]).take 9 = _ ↔ _
    rw [List.take_of_length_le nine]
    simp [groupValues]
    omega

theorem scanned_gap {head tail : List H16} (short : head.length + tail.length ≤ 7)
    (prefixLen : Option (Decimal 128)) :
    headNumbers head ++ List.replicate (totalOf prefixLen -
        ((headNumbers head).length + (partNumbers tail none prefixLen).length)) 0 ++ partNumbers tail none prefixLen =
      groupValues head none ++ List.replicate (8 - (head.length + tail.length)) 0 ++ groupValues tail none ++
        (prefixLen.map Decimal.value).toList := by
  have zeros : 8 - (head.length + tail.length) = 1 - head.length + (totalOf prefixLen -
      ((headNumbers head).length + (partNumbers tail none prefixLen).length)) + (1 - tail.length) := by
    rw [headNumbers_length, partNumbers_length]
    cases prefixLen <;> simp [totalOf, dottedLen] <;> omega
  generalize totalOf prefixLen - ((headNumbers head).length + (partNumbers tail none prefixLen).length) = n at zeros ⊢
  rw [zeros, List.replicate_add, List.replicate_add]
  simp only [headNumbers, partNumbers, groupValues, Option.toList_none, List.flatMap_nil, List.append_nil,
    List.append_assoc]

theorem scanned_gap_dotted {head tail : List H16} (short : head.length + tail.length + 2 ≤ 7) (dotted : Dotted)
    (prefixLen : Option (Decimal 128)) :
    headNumbers head ++ List.replicate (totalOf prefixLen -
          ((headNumbers head).length + (partNumbers tail (some dotted) prefixLen).length)) 0 ++
          partNumbers tail (some dotted) prefixLen =
        groupValues head none ++ List.replicate (8 - (head.length + tail.length + 2)) 0 ++
          groupValues tail (some dotted) ++ (prefixLen.map Decimal.value).toList ↔
      ∀ decimal ∈ prefixLen, (∀ group ∈ tail, group.value = 0) ∧ dotted.high = 0 ∧ dotted.low = 0 := by
  have zeros : totalOf prefixLen - ((headNumbers head).length + (partNumbers tail (some dotted) prefixLen).length) +
      (1 - head.length) = totalOf prefixLen - (head.length + tail.length + 2) := by
    rw [headNumbers_length, partNumbers_length]
    cases prefixLen <;> simp [totalOf, dottedLen] <;> omega
  generalize totalOf prefixLen - ((headNumbers head).length + (partNumbers tail (some dotted) prefixLen).length) = n
    at zeros ⊢
  have front : headNumbers head ++ List.replicate n 0 =
      head.map H16.value ++ List.replicate (totalOf prefixLen - (head.length + tail.length + 2)) 0 := by
    rw [← zeros, Nat.add_comm, List.replicate_add, headNumbers, List.append_assoc]
  rw [front]
  cases prefixLen with
  | none =>
    apply iff_of_true
    · simp [partNumbers, groupValues, dottedNumbers, totalOf]
    · intro decimal given
      cases given
  | some decimal =>
    have more : totalOf (some decimal) - (head.length + tail.length + 2) =
        8 - (head.length + tail.length + 2) + 1 := by
      show 9 - _ = _
      omega
    have shifted := shift_iff 0 (List.replicate (8 - (head.length + tail.length + 2)) 0 ++
      tail.map H16.value ++ [dotted.high]) (dotted.low * 256 + decimal.value) dotted.low decimal.value
    rw [more, List.replicate_succ]
    refine Iff.trans ?_ (shifted.trans ?_)
    · simp [partNumbers, groupValues, dottedNumbers]
    · simp only [List.forall_mem_append, List.forall_mem_singleton, List.forall_mem_map, Option.mem_def,
        Option.some.injEq, forall_eq']
      constructor
      · rintro ⟨⟨⟨-, groups⟩, high⟩, low, -⟩
        exact ⟨groups, high, low⟩
      · rintro ⟨groups, high, low⟩
        exact ⟨⟨⟨fun n zero => List.eq_of_mem_replicate zero, groups⟩, high⟩, low, by omega⟩

theorem forall_mem_some {p : Dotted → Prop} {dotted : Dotted} : (∀ d ∈ some dotted, p d) ↔ p dotted := by simp

theorem scanned_iff (literal : Ipv6Literal) : literal.scanned = literal.denoted ↔ literal.PrefixApart := by
  rcases literal with ⟨head, gap, dotted, prefixLen, full, short⟩
  unfold Ipv6Literal.scanned Ipv6Literal.denoted Ipv6Literal.PrefixApart Ipv6Literal.address
  cases gap with
  | none =>
    have full := full rfl
    cases dotted with
    | none => exact iff_of_true (scanned_plain full prefixLen) nofun
    | some dotted =>
      rw [forall_mem_some]
      exact scanned_dotted (Nat.add_right_cancel full) dotted prefixLen
  | some tail =>
    have short := short tail rfl
    cases dotted with
    | none => exact iff_of_true (scanned_gap short prefixLen) nofun
    | some dotted =>
      rw [forall_mem_some]
      exact scanned_gap_dotted short dotted prefixLen

theorem denoted_take (literal : Ipv6Literal) : literal.denoted.take 8 = literal.address :=
  List.take_left' literal.address_length

theorem scansRight_iff (literal : Ipv6Literal) : literal.ScansRight ↔ literal.PrefixApart := by
  obtain ⟨parts, scanned, taken⟩ := scanIpv6_text literal
  rw [← scanned_iff, ← taken]
  have length := scanIpv6_length scanned
  constructor
  · rintro ⟨filled, same, address, plen⟩
    obtain rfl : parts = filled := Option.some.inj (scanned.symm.trans same)
    unfold Ipv6Literal.denoted
    rw [← address]
    cases given : literal.prefixLen with
    | none => simp [totalOf]
    | some decimal =>
      have last := plen decimal given
      have inside : 8 < parts.length := by omega
      rw [List.getElem?_eq_getElem inside] at last
      show parts.take 9 = _
      rw [List.take_succ_eq_append_getElem inside, Option.some.inj last]
      rfl
  · intro same
    refine ⟨parts, scanned, ?_, ?_⟩
    · have total : 8 ≤ totalOf literal.prefixLen := by
        unfold totalOf
        split <;> decide
      rw [← denoted_take, ← same, List.take_take, Nat.min_eq_left total]
    · intro decimal given
      have nine : totalOf literal.prefixLen = 9 := by
        rw [Option.mem_def.mp given]
        rfl
      have whole : parts.take 9 = parts := List.take_of_length_le (le_of_eq length)
      rw [nine, whole] at same
      rw [same, Ipv6Literal.denoted, List.getElem?_append_right (by rw [literal.address_length]),
        literal.address_length, Option.mem_def.mp given]
      rfl

end Scanned

section Order

/-- What the operators of a template mean for two ordered values. -/
def VtwCond.satisfied (cond : VtwCond) (order : Ordering) : Bool :=
  match cond with
  | .eqCond | .inCond => order.isEq
  | .neCond => order.isNe
  | .ltCond => order.isLT
  | .leCond => order.isLE
  | .gtCond => order.isGT
  | .geCond => order.isGE

def signOf : Ordering → Int
  | .lt => -1
  | .eq => 0
  | .gt => 1

theorem holds_signOf (cond : VtwCond) (order : Ordering) : cond.holds (signOf order).sign = cond.satisfied order := by
  cases cond <;> cases order <;> rfl

theorem compareSteps_zip {left right : List Nat} (length : left.length = right.length) :
    compareSteps (left.zip right) 0 = signOf (compare left right) := by
  induction left generalizing right with
  | nil => rw [List.length_eq_zero_iff.mp length.symm]; rfl
  | cons l left ih =>
    cases right with
    | nil => cases length
    | cons r right =>
      rw [List.zip_cons_cons, compareSteps, List.compare_cons_cons, ih (Nat.succ.inj length)]
      rcases lt_trichotomy l r with less | rfl | more
      · rw [if_neg (by omega), if_pos less, compare_lt_iff_lt.mpr less]
        rfl
      · rw [if_neg (lt_irrefl l), if_neg (lt_irrefl l), compare_eq_iff_eq.mpr rfl]
        rfl
      · rw [if_pos more, compare_gt_iff_gt.mpr more]
        rfl

namespace Ipv6Literal

def number (literal : Ipv6Literal) : Nat := Positional.value 65536 literal.address

def prefixValue (literal : Ipv6Literal) : Nat := (literal.prefixLen.map Decimal.value).getD 0

def order (left right : Ipv6Literal) : Ordering :=
  (compare left.number right.number).then (compare left.prefixValue right.prefixValue)

def valType (literal : Ipv6Literal) : VtwType := if literal.prefixLen.isSome then .ipv6net else .ipv6

structure IsOperand (literal : Ipv6Literal) (operand : ValStruct) : Prop where
  valType : operand.valType = literal.valType
  val : operand.val = some literal.text
  single : operand.vals = []

/-- Against everything that is scanned right, the comparison has the answer of the order. -/
def ComparesRight (left : Ipv6Literal) : Prop :=
  ∀ right : Ipv6Literal, right.prefixLen.isSome = left.prefixLen.isSome → right.PrefixApart →
    ∀ (rightPart : Nat) (cond : VtwCond) (lop rop : ValStruct), left.IsOperand lop → right.IsOperand rop →
      compareOperands rightPart lop rop cond = .ok (cond.satisfied (left.order right))

end Ipv6Literal

variable {left right : Ipv6Literal}

theorem totalOf_same (kind : right.prefixLen.isSome = left.prefixLen.isSome) :
    totalOf right.prefixLen = totalOf left.prefixLen := by
  unfold totalOf
  rw [kind]

theorem compare_denoted (kind : right.prefixLen.isSome = left.prefixLen.isSome) :
    compare left.denoted right.denoted = left.order right := by
  have length : left.address.length = right.address.length := by rw [left.address_length, right.address_length]
  unfold Ipv6Literal.denoted Ipv6Literal.order Ipv6Literal.number Ipv6Literal.prefixValue
  rw [Positional.compare_append length, Positional.compare_value length left.address_lt right.address_lt]
  cases given : left.prefixLen with
  | none =>
    rw [given] at kind
    have none : right.prefixLen = none := by simpa using kind
    rw [none]
    rfl
  | some decimal =>
    rw [given] at kind
    obtain ⟨decimal', given'⟩ := Option.isSome_iff_exists.mp kind
    rw [given']
    simp

theorem cmpIpv6_scanned (kind : right.prefixLen.isSome = left.prefixLen.isSome) :
    cmpIpv6 left.text right.text (totalOf left.prefixLen) 0 =
      .ok (signOf (compare left.scanned right.scanned)) := by
  obtain ⟨parts, scanned, taken⟩ := scanIpv6_text left
  obtain ⟨parts', scanned', taken'⟩ := scanIpv6_text right
  have length : (parts.take (totalOf left.prefixLen)).length = (parts'.take (totalOf left.prefixLen)).length := by
    rw [List.length_take, List.length_take, scanIpv6_length scanned, scanIpv6_length scanned']
  have cut : (parts.zip parts').take (totalOf left.prefixLen) =
    (parts.take (totalOf left.prefixLen)).zip (parts'.take (totalOf left.prefixLen)) := List.take_zipWith
  rw [totalOf_same kind] at taken'
  rw [cmpIpv6, scanned, scanned', ← taken, ← taken', ← compareSteps_zip length, ← cut]
  rfl

theorem compareOperands_scanned {rightPart : Nat} {cond : VtwCond} {lop rop : ValStruct} (leftIs : left.IsOperand lop)
    (rightIs : right.IsOperand rop) (kind : right.prefixLen.isSome = left.prefixLen.isSome) :
    compareOperands rightPart lop rop cond = .ok (cond.satisfied (compare left.scanned right.scanned)) := by
  rcases lop with ⟨lopType, lopMulti, lopVal, lopVals⟩
  rcases rop with ⟨ropType, ropMulti, ropVal, ropVals⟩
  obtain ⟨rfl, rfl, rfl⟩ := leftIs
  obtain ⟨rfl, rfl, rfl⟩ := rightIs
  have type : right.valType = left.valType := by
    unfold Ipv6Literal.valType
    rw [kind]
  have notInt : left.valType ≠ .int := by
    unfold Ipv6Literal.valType
    split <;> decide
  have round : cmpValues left.valType (some left.text) (some right.text) 0 =
      .ok (signOf (compare left.scanned right.scanned)) := by
    rw [← cmpIpv6_scanned kind]
    unfold Ipv6Literal.valType totalOf
    split <;> rfl
  have sameKind : ¬ (left.valType ≠ right.valType ∧ lopMulti = false) := fun other => other.1 type.symm
  have notCounted : ¬ (lopMulti = true ∧ cond ≠ .inCond ∧ ([] : List (Bytes × VtwType)) = [] ∧
      right.valType = .int) := fun counted => notInt (type ▸ counted.2.2.2)
  rw [compareOperands, if_neg sameKind, valCmp, if_neg notCounted, ← holds_signOf]
  exact leftLoop_single round

end Order

section Plain

def hexDigitOf (d : Nat) : UInt8 := if d < 10 then (48 + d).toUInt8 else (87 + d).toUInt8

theorem digit_hexDigitOf : ∀ d < 16, Scanf.digit (hexDigitOf d) = some d := by decide

def H16.ofNat (n : Nat) : H16 where
  text := [hexDigitOf (n / 4096 % 16), hexDigitOf (n / 256 % 16), hexDigitOf (n / 16 % 16), hexDigitOf (n % 16)]
  length := ⟨by simp, by simp⟩
  digits := by
    have digit (k : Nat) : Scanf.IsDigit 16 (hexDigitOf (k % 16)) :=
      ⟨k % 16, digit_hexDigitOf _ (Nat.mod_lt k (by decide)), Nat.mod_lt k (by decide)⟩
    simp [digit]

theorem H16.value_ofNat {n : Nat} (fits : n < 65536) : (H16.ofNat n).value = n := by
  have digit (k : Nat) : Scanf.digit (hexDigitOf (k % 16)) = some (k % 16) :=
    digit_hexDigitOf _ (Nat.mod_lt k (by decide))
  simp [H16.value, H16.ofNat, Scanf.number, digit]
  omega

def Ipv6Literal.plain (literal : Ipv6Literal) : Ipv6Literal where
  head := literal.address.map H16.ofNat
  gap := none
  dotted := none
  prefixLen := literal.prefixLen
  full _ := by simp [literal.address_length, dottedLen]
  short := nofun

theorem plain_address (literal : Ipv6Literal) : literal.plain.address = literal.address := by
  show (literal.address.map H16.ofNat).map H16.value ++ [] = literal.address
  rw [List.append_nil, List.map_map]
  have kept : ∀ value ∈ literal.address, (H16.value ∘ H16.ofNat) value = id value := by
    intro value member
    rw [Function.comp_apply, H16.value_ofNat (literal.address_lt value member), id_eq]
  rw [List.map_congr_left kept, List.map_id]

theorem plain_apart (literal : Ipv6Literal) : literal.plain.PrefixApart := nofun

theorem plain_denoted (literal : Ipv6Literal) : literal.plain.denoted = literal.denoted := by
  rw [Ipv6Literal.denoted, plain_address]
  rfl

end Plain

theorem comparesRight_iff (literal : Ipv6Literal) : literal.ComparesRight ↔ literal.PrefixApart := by
  constructor
  · intro compares
    have operand (l : Ipv6Literal) : l.IsOperand ⟨l.valType, false, some l.text, []⟩ := ⟨rfl, rfl, rfl⟩
    have answer := compares literal.plain rfl (plain_apart literal) 0 .eqCond _ _ (operand _) (operand _)
    have scanned := (scanned_iff literal.plain).mpr (plain_apart literal)
    have kind : literal.plain.prefixLen.isSome = literal.prefixLen.isSome := rfl
    rw [compareOperands_scanned (operand literal) (operand literal.plain) kind, ← compare_denoted kind, scanned,
      plain_denoted] at answer
    have even : compare literal.denoted literal.denoted = .eq := Std.ReflCmp.compare_self
    rw [even] at answer
    have same : compare literal.scanned literal.denoted = .eq := by
      cases order : compare literal.scanned literal.denoted with
      | eq => rfl
      | lt => rw [order] at answer; cases answer
      | gt => rw [order] at answer; cases answer
    exact (scanned_iff literal).mp (Std.LawfulEqCmp.eq_of_compare same)
  · intro apart right kind rightApart rightPart cond lop rop leftIs rightIs
    rw [compareOperands_scanned leftIs rightIs kind, (scanned_iff literal).mpr apart, (scanned_iff right).mpr rightApart,
      compare_denoted kind]

/-- An accepted string stands for an address, which the scan and the comparison get right but
    for a prefix length behind a dotted tail. -/
theorem ipv6_scanned_iff {s : Bytes} (net : Bool)
    (accepted : s ∈ (if net then reIpv6Net else reIpv6).matches') :
    (∃ literal : Ipv6Literal, literal.text = s ∧ literal.prefixLen.isSome = net) ∧
      ∀ literal : Ipv6Literal, literal.text = s →
        (literal.ScansRight ∧ literal.ComparesRight ↔ literal.PrefixApart) := by
  constructor
  · cases net with
    | false =>
      obtain ⟨literal, bare, text⟩ := literal_of_mem accepted
      exact ⟨literal, text, by rw [bare]; rfl⟩
    | true =>
      obtain ⟨literal, given, text⟩ := literal_of_mem_net accepted
      exact ⟨literal, text, given⟩
  · intro literal _
    rw [scansRight_iff, comparesRight_iff, and_self]

theorem ipv6_scanned_documentation : (∃ literal : Ipv6Literal, literal.text = str "2001:DB8::1/64" ∧
      literal.prefixLen.isSome = true) ∧
    ∀ literal : Ipv6Literal, literal.text = str "2001:DB8::1/64" →
      (literal.ScansRight ∧ literal.ComparesRight ↔ literal.PrefixApart) := by
  apply ipv6_scanned_iff true
  show str "2001:DB8::1/64" ∈ reIpv6Net.matches'
  rw [← RegularExpression.rmatch_iff_matches']
  decide +kernel

section Compatible

def decimalOf (c : Char) {bound : Nat} (digit : Scanf.IsDigit 10 (ch c))
    (fits : Scanf.number 10 [ch c] ≤ bound) : Decimal bound :=
  ⟨[ch c], ⟨by simp, by simp⟩, List.forall_mem_singleton.mpr digit, fits⟩

def compatibleNet : Ipv6Literal where
  head := []
  gap := some []
  dotted := some ⟨decimalOf '1' (by decide) (by decide), decimalOf '2' (by decide) (by decide),
    decimalOf '3' (by decide) (by decide), decimalOf '4' (by decide) (by decide)⟩
  prefixLen := some (decimalOf '9' (by decide) (by decide))
  full := nofun
  short _ _ := by simp_all [dottedLen]

/-- The prefix length becomes a fifth octet, and the `::` is one group too wide. -/
theorem ipv6_dotted_net_misread : str "::1.2.3.4/9" ∈ reIpv6Net.matches' ∧
    compatibleNet.text = str "::1.2.3.4/9" ∧
    compatibleNet.denoted = [0, 0, 0, 0, 0, 0, 258, 772, 9] ∧
    scanIpv6 (str "::1.2.3.4/9") noParts = some [0, 0, 0, 0, 0, 0, 0, 258, 197641] ∧
    ¬ compatibleNet.ScansRight := by
  have scanned : scanIpv6 (str "::1.2.3.4/9") noParts = some [0, 0, 0, 0, 0, 0, 0, 258, 197641] := by decide +kernel
  have text : compatibleNet.text = str "::1.2.3.4/9" := by decide
  refine ⟨?_, text, by decide, scanned, ?_⟩
  · rw [← RegularExpression.rmatch_iff_matches']
    decide +kernel
  · rintro ⟨parts, filled, address, -⟩
    rw [text, scanned] at filled
    rw [← Option.some.inj filled] at address
    exact absurd address (by decide)

end Compatible

end VyattaCfg.Cliexec
