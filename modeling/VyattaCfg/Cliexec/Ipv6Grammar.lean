import VyattaCfg.Cliexec.Ipv6Accepted

namespace VyattaCfg.Cliexec

open ByteString Regex

section Digits

/-- The symbols from `low` on, `count` of them, are in a class. -/
theorem mem_of_range {c : UInt8} {symbols : Bytes} {low count : Nat}
    (known : ∀ i < count, UInt8.ofNat (low + i) ∈ symbols) (least : low ≤ c.toNat) (most : c.toNat < low + count) :
    c ∈ symbols := by
  have member := known (c.toNat - low) (by omega)
  rwa [Nat.add_sub_cancel' least, UInt8.ofNat_toNat] at member

theorem decDigit_mem {c : UInt8} (digit : Scanf.IsDigit 10 c) : c ∈ str "0123456789" := by
  obtain ⟨d, found, small⟩ := digit
  have range : 48 ≤ c.toNat ∧ c.toNat < 48 + 10 := by
    rcases Scanf.digit_eq_some found with range | range | range <;> omega
  exact mem_of_range (by decide) range.1 range.2

theorem hexDigit_mem {c : UInt8} (digit : Scanf.IsDigit 16 c) : c ∈ str "abcdefABCDEF0123456789" := by
  obtain ⟨d, found, -⟩ := digit
  have decimals : ∀ i < 10, UInt8.ofNat (48 + i) ∈ str "abcdefABCDEF0123456789" := by decide
  have small : ∀ i < 6, UInt8.ofNat (97 + i) ∈ str "abcdefABCDEF0123456789" := by decide
  have large : ∀ i < 6, UInt8.ofNat (65 + i) ∈ str "abcdefABCDEF0123456789" := by decide
  rcases Scanf.digit_eq_some found with ⟨least, most, -⟩ | ⟨least, most, -⟩ | ⟨least, most, -⟩
  · exact mem_of_range decimals least (by omega)
  · exact mem_of_range small least (by omega)
  · exact mem_of_range large least (by omega)

theorem digitValue_toNat {c : UInt8} (digit : Scanf.IsDigit 10 c) :
    48 ≤ c.toNat ∧ c.toNat = 48 + digitValue c ∧ digitValue c ≤ 9 := by
  obtain ⟨d, found, small⟩ := digit
  have value : digitValue c = d := by
    rw [digitValue, found, Option.getD_some]
  rw [value]
  rcases Scanf.digit_eq_some found with range | range | range <;> omega

/-- A digit of a value up to `top` is in the class of the digits from zero to `top`. -/
theorem upTo_mem {c : UInt8} {symbols : Bytes} {top : Nat} (digit : Scanf.IsDigit 10 c)
    (known : ∀ i < top + 1, UInt8.ofNat (48 + i) ∈ symbols) (small : digitValue c ≤ top) :
    [c] ∈ (anyOf symbols).matches' := by
  have range := digitValue_toNat digit
  exact mem_anyOf.mpr ⟨c, mem_of_range known range.1 (by omega), rfl⟩

/-- The one digit of a value. -/
theorem digit_eq {c d : UInt8} (digit : Scanf.IsDigit 10 c) (same : d.toNat = 48 + digitValue c) : c = d := by
  have range := digitValue_toNat digit
  apply UInt8.toNat_inj.mp
  omega

theorem decDigit_matches {c : UInt8} (digit : Scanf.IsDigit 10 c) : [c] ∈ decDigit.matches' :=
  mem_anyOf.mpr ⟨c, decDigit_mem digit, rfl⟩

end Digits

section Octets

theorem mem_triple {first second third : Pattern} {a b c : UInt8} (one : [a] ∈ first.matches')
    (two : [b] ∈ second.matches') (three : [c] ∈ third.matches') :
    [a, b, c] ∈ (first * second * third).matches' :=
  mem_mul.mpr ⟨[a, b], mem_mul.mpr ⟨[a], one, [b], two, rfl⟩, [c], three, rfl⟩

theorem three_digits_mem {a b c : UInt8} (first : Scanf.IsDigit 10 a) (second : Scanf.IsDigit 10 b)
    (third : Scanf.IsDigit 10 c) (fits : (digitValue a * 10 + digitValue b) * 10 + digitValue c ≤ 255) :
    [a, b, c] ∈ reIpv4Byte.matches' := by
  by_cases low : digitValue a ≤ 1
  · have matched : [a, b, c] ∈ (anyOf (str "01") * decDigit * decDigit).matches' :=
      mem_triple (upTo_mem first (by decide) low) (decDigit_matches second) (decDigit_matches third)
    exact mem_add.mpr (.inl (mem_add.mpr (.inr matched)))
  · have two : a = ch '2' := digit_eq first (by have two : (ch '2').toNat = 50 := rfl; omega)
    subst two
    have value : digitValue (ch '2') = 2 := by decide
    by_cases high : digitValue b ≤ 4
    · have matched : [ch '2', b, c] ∈ (lit (str "2") * anyOf (str "01234") * decDigit).matches' :=
        mem_triple (mem_lit.mpr rfl) (upTo_mem second (by decide) high) (decDigit_matches third)
      exact mem_add.mpr (.inl (mem_add.mpr (.inl (mem_add.mpr (.inr matched)))))
    · have five : b = ch '5' := digit_eq second (by have five : (ch '5').toNat = 53 := rfl; omega)
      subst five
      have value' : digitValue (ch '5') = 5 := by decide
      have top : digitValue c ≤ 5 := by omega
      have matched : [ch '2', ch '5', c] ∈ (lit (str "25") * anyOf (str "012345")).matches' :=
        mem_mul.mpr ⟨str "25", mem_lit.mpr rfl, [c], upTo_mem third (by decide) top, rfl⟩
      exact mem_add.mpr (.inl (mem_add.mpr (.inl (mem_add.mpr (.inl matched)))))

theorem octet_mem (octet : Decimal 255) : octet.text ∈ reIpv4Byte.matches' := by
  obtain ⟨text, length, digits, fits⟩ := octet
  by_cases short : text.length ≤ 2
  · have matched : text ∈ (rep 1 2 decDigit).matches' :=
      (mem_rep_anyOf (by decide)).mpr ⟨⟨length.1, short⟩, fun c member => decDigit_mem (digits c member)⟩
    exact mem_add.mpr (.inr matched)
  · obtain ⟨a, b, c, rfl⟩ := List.length_eq_three.mp (by omega : text.length = 3)
    have value : Scanf.number 10 [a, b, c] = (digitValue a * 10 + digitValue b) * 10 + digitValue c := by
      simp [Scanf.number, digitValue]
    rw [value] at fits
    exact three_digits_mem (digits a (by simp)) (digits b (by simp)) (digits c (by simp)) fits

theorem dotted_mem (dotted : Dotted) : dotted.text ∈ reIpv4.matches' := by
  have point (octet : Decimal 255) : ch '.' :: octet.text ∈ (lit (str ".") * reIpv4Byte).matches' :=
    mem_mul.mpr ⟨str ".", mem_lit.mpr rfl, octet.text, octet_mem octet, rfl⟩
  refine mem_mul.mpr ⟨dotted.o1.text, octet_mem dotted.o1, _, mem_pow.mpr ⟨[ch '.' :: dotted.o2.text,
    ch '.' :: dotted.o3.text, ch '.' :: dotted.o4.text], rfl, rfl, ?_⟩, ?_⟩
  · intro piece member
    simp only [List.mem_cons, List.not_mem_nil, or_false] at member
    rcases member with rfl | rfl | rfl
    · exact point dotted.o2
    · exact point dotted.o3
    · exact point dotted.o4
  · simp [Dotted.text, Words.join, List.intercalate_cons_cons]

end Octets

section Groups

theorem h16_mem (group : H16) : group.text ∈ reH16.matches' :=
  (mem_rep_anyOf (by decide)).mpr ⟨group.length, fun c member => hexDigit_mem (group.digits c member)⟩

theorem h16Colon_mem (group : H16) : group.text ++ [ch ':'] ∈ reH16Colon.matches' :=
  mem_mul.mpr ⟨group.text, h16_mem group, [ch ':'], mem_lit.mpr rfl, rfl⟩

def colonPieces (groups : List H16) : List Bytes := groups.map fun group => group.text ++ [ch ':']

theorem colonPieces_mem (groups : List H16) : ∀ piece ∈ colonPieces groups, piece ∈ reH16Colon.matches' := by
  intro piece member
  obtain ⟨group, -, rfl⟩ := List.mem_map.mp member
  exact h16Colon_mem group

theorem colonText_pow {groups : List H16} {n : Nat} (count : groups.length = n) :
    colonText groups ∈ (reH16Colon ^ n).matches' := by
  refine mem_pow.mpr ⟨colonPieces groups, List.flatMap_def, ?_, colonPieces_mem groups⟩
  rw [colonPieces, List.length_map, count]

theorem colonText_rep {groups : List H16} {n : Nat} (few : groups.length ≤ n) :
    colonText groups ∈ (rep 0 n reH16Colon).matches' := by
  refine (mem_rep (Nat.zero_le n)).mpr ⟨colonPieces groups, List.flatMap_def, ⟨Nat.zero_le _, ?_⟩, colonPieces_mem groups⟩
  rwa [colonPieces, List.length_map]

theorem ends_with_two {groups : List H16} {n : Nat} (count : groups.length = n + 2) :
    ∃ front first second, groups = front ++ [first] ++ [second] ∧ front.length = n := by
  rcases List.eq_nil_or_concat groups with rfl | ⟨more, second, rfl⟩
  · cases count
  · rw [List.length_concat] at count
    rcases List.eq_nil_or_concat more with rfl | ⟨front, first, rfl⟩
    · cases count
    · rw [List.length_concat] at count
      exact ⟨front, first, second, by simp, by omega⟩

theorem ls32_mem {groups : List H16} {dotted : Option Dotted} {n : Nat}
    (count : groups.length + dottedLen dotted = n + 2) :
    groupsText groups dotted ∈ (reH16Colon ^ n * reLs32).matches' := by
  cases dotted with
  | some dotted =>
    have length : groups.length = n := Nat.add_right_cancel count
    rw [groupsText_dotted]
    exact mem_mul.mpr ⟨_, colonText_pow length, _, mem_add.mpr (.inr (dotted_mem dotted)), rfl⟩
  | none =>
    have length : groups.length = n + 2 := count
    obtain ⟨front, first, second, rfl, before⟩ := ends_with_two length
    have text : groupsText (front ++ [first] ++ [second]) none =
        colonText front ++ (first.text ++ [ch ':'] ++ second.text) := by
      rw [groupsText_snoc]
      simp [colonText]
    have pair : first.text ++ [ch ':'] ++ second.text ∈ (reH16 * lit (str ":") * reH16).matches' :=
      mem_mul.mpr ⟨_, h16Colon_mem first, second.text, h16_mem second, rfl⟩
    rw [text]
    exact mem_mul.mpr ⟨_, colonText_pow before, _, mem_add.mpr (.inl pair), rfl⟩

theorem head_mem {groups : List H16} {n : Nat} (few : groups.length ≤ n + 1) :
    groupsText groups none ∈ (opt (rep 0 n reH16Colon * reH16)).matches' := by
  rcases List.eq_nil_or_concat groups with rfl | ⟨front, last, rfl⟩
  · exact mem_opt.mpr (.inl rfl)
  · rw [List.concat_eq_append] at few ⊢
    rw [List.length_append, List.length_singleton] at few
    rw [groupsText_snoc]
    exact mem_opt.mpr (.inr (mem_mul.mpr ⟨_, colonText_rep (by omega), last.text, h16_mem last, rfl⟩))

end Groups

section Addresses

/-- The alternatives with a `::`, by what stands in front of it and behind it. -/
theorem parts_mem {front back : Pattern} {head tail : List H16} {dotted : Option Dotted}
    (first : groupsText head none ∈ front.matches') (last : groupsText tail dotted ∈ back.matches') :
    groupsText head none ++ str "::" ++ groupsText tail dotted ∈ (front * lit (str "::") * back).matches' :=
  mem_mul.mpr ⟨_, mem_mul.mpr ⟨_, first, _, mem_lit.mpr rfl, rfl⟩, _, last, rfl⟩

theorem tail_of_none {tail : List H16} {dotted : Option Dotted} (count : tail.length + dottedLen dotted = 0) :
    groupsText tail dotted = [] := by
  cases dotted with
  | none =>
    rw [List.length_eq_zero_iff.mp count]
    rfl
  | some dotted => exact absurd count (Nat.succ_ne_zero _)

theorem tail_of_one {tail : List H16} {dotted : Option Dotted} (count : tail.length + dottedLen dotted = 1) :
    groupsText tail dotted ∈ reH16.matches' := by
  cases dotted with
  | none =>
    obtain ⟨group, rfl⟩ := List.length_eq_one_iff.mp count
    have text : groupsText [group] none = group.text := Words.join_singleton _ _
    rw [text]
    exact h16_mem group
  | some dotted => simp [dottedLen] at count

theorem head_of_one {head : List H16} (few : head.length ≤ 1) : groupsText head none ∈ (opt reH16).matches' := by
  rcases Nat.le_one_iff_eq_zero_or_eq_one.mp few with none | one
  · rw [List.length_eq_zero_iff.mp none]
    exact mem_opt.mpr (.inl rfl)
  · exact mem_opt.mpr (.inr (tail_of_one one))

theorem mem_reIpv6 {s : Bytes} : s ∈ reIpv6.matches' ↔ s ∈ reIpv6P1.matches' ∨ s ∈ reIpv6P2.matches' ∨
    s ∈ reIpv6P3.matches' ∨ s ∈ reIpv6P4.matches' ∨ s ∈ reIpv6P5.matches' ∨ s ∈ reIpv6P6.matches' ∨
      s ∈ reIpv6P7.matches' ∨ s ∈ reIpv6P8.matches' ∨ s ∈ reIpv6P9.matches' := by
  simp only [reIpv6, mem_add, or_assoc]

theorem gap_mem {head tail : List H16} {dotted : Option Dotted}
    (short : head.length + tail.length + dottedLen dotted ≤ 7) :
    groupsText head none ++ str "::" ++ groupsText tail dotted ∈ reIpv6.matches' := by
  have assoc (a b c d : Pattern) : (a * b * c * d).matches' = (a * b * (c * d)).matches' := by
    simp only [RegularExpression.matches'_mul, mul_assoc]
  have few : head.length + (tail.length + dottedLen dotted) ≤ 7 := by omega
  rw [mem_reIpv6]
  -- what follows the `::` tells the alternative
  match count : tail.length + dottedLen dotted with
  | 0 =>
    have heads : head.length ≤ 6 + 1 := by omega
    rw [tail_of_none count, List.append_nil]
    have matched := mem_mul.mpr ⟨_, head_mem heads, str "::", mem_lit.mpr rfl, rfl⟩
    exact .inr (.inr (.inr (.inr (.inr (.inr (.inr (.inr matched)))))))
  | 1 =>
    have heads : head.length ≤ 5 + 1 := by omega
    exact .inr (.inr (.inr (.inr (.inr (.inr (.inr (.inl (parts_mem (head_mem heads) (tail_of_one count)))))))))
  | 2 =>
    have heads : head.length ≤ 4 + 1 := by omega
    have last : groupsText tail dotted ∈ reLs32.matches' := by
      have counted : tail.length + dottedLen dotted = 0 + 2 := count
      obtain ⟨front, none, back, last, joined⟩ := mem_mul.mp (ls32_mem counted)
      have empty : front = [] := (Language.mem_one front).mp none
      rwa [← joined, empty]
    exact .inr (.inr (.inr (.inr (.inr (.inr (.inl (parts_mem (head_mem heads) last)))))))
  | 3 =>
    have heads : head.length ≤ 3 + 1 := by omega
    have counted : tail.length + dottedLen dotted = 1 + 2 := count
    have matched := parts_mem (head_mem heads) (ls32_mem counted)
    rw [← assoc] at matched
    exact .inr (.inr (.inr (.inr (.inr (.inl matched)))))
  | 4 =>
    have heads : head.length ≤ 2 + 1 := by omega
    have counted : tail.length + dottedLen dotted = 2 + 2 := count
    have matched := parts_mem (head_mem heads) (ls32_mem counted)
    rw [← assoc] at matched
    exact .inr (.inr (.inr (.inr (.inl matched))))
  | 5 =>
    have heads : head.length ≤ 1 + 1 := by omega
    have counted : tail.length + dottedLen dotted = 3 + 2 := count
    have matched := parts_mem (head_mem heads) (ls32_mem counted)
    rw [← assoc] at matched
    exact .inr (.inr (.inr (.inl matched)))
  | 6 =>
    have heads : head.length ≤ 1 := by omega
    have counted : tail.length + dottedLen dotted = 4 + 2 := count
    have matched := parts_mem (head_of_one heads) (ls32_mem counted)
    rw [← assoc] at matched
    exact .inr (.inr (.inl matched))
  | 7 =>
    have heads : head = [] := List.length_eq_zero_iff.mp (by omega)
    have counted : tail.length + dottedLen dotted = 5 + 2 := count
    have matched := mem_mul.mpr ⟨str "::", mem_lit.mpr rfl, _, ls32_mem counted, rfl⟩
    have front : groupsText head none ++ str "::" = str "::" := by
      rw [heads]
      rfl
    rw [front]
    rw [reIpv6P2, RegularExpression.matches'_mul, RegularExpression.matches'_mul, mul_assoc]
    exact .inr (.inl matched)
  | k + 8 => omega

theorem full_mem {head : List H16} {dotted : Option Dotted} (full : head.length + dottedLen dotted = 8) :
    groupsText head dotted ∈ reIpv6.matches' := by
  have counted : head.length + dottedLen dotted = 6 + 2 := full
  exact mem_reIpv6.mpr (.inl (ls32_mem counted))

theorem mem_of_isAddress {s : Bytes} (address : IsAddress s) : s ∈ reIpv6.matches' := by
  obtain ⟨⟨head, gap, dotted, prefixLen, full, short⟩, bare, rfl⟩ := address
  simp only at bare
  subst bare
  cases gap with
  | none =>
    have text : Ipv6Literal.text ⟨head, none, dotted, none, full, short⟩ = groupsText head dotted :=
      List.append_nil _
    rw [text]
    exact full_mem (full rfl)
  | some tail =>
    have text : Ipv6Literal.text ⟨head, some tail, dotted, none, full, short⟩ =
        groupsText head none ++ str "::" ++ groupsText tail dotted := List.append_nil _
    rw [text]
    exact gap_mem (short tail rfl)

end Addresses

section PrefixLengths

/-- A decimal of a value from 0 to 128. A zero may stand in front of one more digit. -/
structure PrefixNumeral (s : Bytes) : Prop where
  nonempty : s ≠ []
  digits : ∀ c ∈ s, Scanf.IsDigit 10 c
  fits : Scanf.number 10 s ≤ 128
  leading : s.head? = some (ch '0') → s.length ≤ 2

theorem le_foldl_digits (n : Nat) (s : Bytes) :
    n * 10 ^ s.length ≤ s.foldl (fun n c => n * 10 + (Scanf.digit c).getD 0) n := by
  induction s generalizing n with
  | nil => exact (Nat.mul_one n).le
  | cons c s ih =>
    rw [List.foldl_cons, List.length_cons, Nat.pow_succ]
    calc n * (10 ^ s.length * 10) = n * 10 * 10 ^ s.length := by ac_rfl
      _ ≤ (n * 10 + (Scanf.digit c).getD 0) * 10 ^ s.length := Nat.mul_le_mul_right _ (Nat.le_add_right _ _)
      _ ≤ _ := ih _

/-- A number that does not start with a zero has at most three digits when it is at most 128. -/
theorem PrefixNumeral.length_le {s : Bytes} (numeral : PrefixNumeral s) : s.length ≤ 3 := by
  obtain ⟨nonempty, digits, fits, leading⟩ := numeral
  obtain ⟨c, rest, rfl⟩ := List.exists_cons_of_ne_nil nonempty
  by_cases zero : c = ch '0'
  · have short := leading (congrArg some zero)
    omega
  · have range := digitValue_toNat (digits c List.mem_cons_self)
    have positive : 1 ≤ digitValue c := by
      by_contra none
      apply zero
      apply UInt8.toNat_inj.mp
      have nul : (ch '0').toNat = 48 := rfl
      omega
    have least := le_foldl_digits (digitValue c) rest
    have value : Scanf.number 10 (c :: rest) = rest.foldl (fun n c => n * 10 + (Scanf.digit c).getD 0) (digitValue c) := by
      rw [Scanf.number, List.foldl_cons, Nat.zero_mul, Nat.zero_add, digitValue]
    rw [value] at fits
    by_contra long
    have power : 10 ^ 3 ≤ 10 ^ rest.length := Nat.pow_le_pow_right (by decide) (by rw [List.length_cons] at long; omega)
    have scaled : 1 * 10 ^ 3 ≤ digitValue c * 10 ^ rest.length := Nat.mul_le_mul positive power
    omega

theorem PrefixNumeral.mem {s : Bytes} (numeral : PrefixNumeral s) : s ∈ reIpv6PrefixLen.matches' := by
  have most := numeral.length_le
  obtain ⟨nonempty, digits, fits, leading⟩ := numeral
  rw [reIpv6PrefixLen, mem_add, mem_add]
  match s with
  | [] => exact absurd rfl nonempty
  | [a] =>
    have first := decDigit_matches (digits a (by simp))
    exact .inr (mem_mul.mpr ⟨[a], first, [], mem_opt.mpr (.inl rfl), rfl⟩)
  | [a, b] =>
    have first := decDigit_matches (digits a (by simp))
    have second := decDigit_matches (digits b (by simp))
    exact .inr (mem_mul.mpr ⟨[a], first, [b], mem_opt.mpr (.inr second), rfl⟩)
  | [a, b, c] =>
    have value : Scanf.number 10 [a, b, c] = (digitValue a * 10 + digitValue b) * 10 + digitValue c := by
      simp [Scanf.number, digitValue]
    rw [value] at fits
    have first := digitValue_toNat (digits a (by simp))
    have second := digitValue_toNat (digits b (by simp))
    have notZero : a ≠ ch '0' := by
      intro zero
      have short := leading (congrArg some zero)
      simp at short
    have positive : a.toNat ≠ 48 := fun zero => notZero (UInt8.toNat_inj.mp zero)
    have one : a = ch '1' := UInt8.toNat_inj.mp (by have one : (ch '1').toNat = 49 := rfl; omega)
    subst one
    by_cases low : digitValue b ≤ 1
    · left; right
      exact mem_triple (mem_lit.mpr rfl) (upTo_mem (digits b (by simp)) (by decide) low)
        (decDigit_matches (digits c (by simp)))
    · have two : b = ch '2' := UInt8.toNat_inj.mp (by have two : (ch '2').toNat = 50 := rfl; omega)
      subst two
      have unit : digitValue (ch '1') = 1 := by decide
      have pair : digitValue (ch '2') = 2 := by decide
      have top : digitValue c ≤ 8 := by omega
      left; left
      exact mem_mul.mpr ⟨str "12", mem_lit.mpr rfl, [c], upTo_mem (digits c (by simp)) (by decide) top, rfl⟩
  | _ :: _ :: _ :: _ :: _ =>
    simp only [List.length_cons] at most
    omega

theorem prefixNumeral_of_mem {s : Bytes} (matched : s ∈ reIpv6PrefixLen.matches') : PrefixNumeral s := by
  obtain ⟨decimal, rfl⟩ := prefixLen_of_mem matched
  have nonempty : decimal.text ≠ [] := List.ne_nil_of_length_pos decimal.length.1
  refine ⟨nonempty, decimal.digits, decimal.fits, ?_⟩
  intro zero
  rw [reIpv6PrefixLen, mem_add, mem_add] at matched
  rcases matched with (top | high) | short
  · obtain ⟨front, two, last, -, same⟩ := mem_mul.mp top
    rw [mem_lit.mp two] at same
    rw [← same] at zero
    exact absurd zero (by simp [str, ch])
  · obtain ⟨front, two, last, -, same⟩ := mem_mul.mp high
    obtain ⟨one, first, next, -, rfl⟩ := mem_mul.mp two
    rw [mem_lit.mp first] at same
    rw [← same] at zero
    exact absurd zero (by simp [str, ch])
  · obtain ⟨first, one, rest, more, same⟩ := mem_mul.mp short
    obtain ⟨a, -, rfl⟩ := mem_anyOf.mp one
    rw [← same]
    rcases mem_opt.mp more with rfl | second
    · simp
    · obtain ⟨b, -, rfl⟩ := mem_anyOf.mp second
      simp

theorem mem_reIpv6Net {s : Bytes} : s ∈ reIpv6Net.matches' ↔
    ∃ address numeral, IsAddress address ∧ PrefixNumeral numeral ∧ s = address ++ ch '/' :: numeral := by
  constructor
  · intro matched
    obtain ⟨front, slashed, numeral, number, rfl⟩ := mem_mul.mp matched
    obtain ⟨address, first, slash, one, rfl⟩ := mem_mul.mp slashed
    refine ⟨address, numeral, isAddress_of_mem first, prefixNumeral_of_mem number, ?_⟩
    rw [mem_lit.mp one, List.append_assoc]
    rfl
  · rintro ⟨address, numeral, first, number, rfl⟩
    have slashed := mem_mul.mpr ⟨address, mem_of_isAddress first, str "/", mem_lit.mpr rfl, rfl⟩
    have matched := mem_mul.mpr ⟨address ++ str "/", slashed, numeral, number.mem, rfl⟩
    rwa [List.append_assoc] at matched

end PrefixLengths

/-- `RE_IPV6` matches the addresses of up to eight groups, `RE_IPV6NET` those with a prefix length. -/
theorem ipv6_grammar :
    (∀ s : Bytes, s ∈ reIpv6.matches' ↔ ∃ literal : Ipv6Literal, literal.prefixLen = none ∧ literal.text = s) ∧
    ∀ s : Bytes, s ∈ reIpv6Net.matches' ↔ ∃ (literal : Ipv6Literal) (numeral : Bytes),
      literal.prefixLen = none ∧ PrefixNumeral numeral ∧ s = literal.text ++ ch '/' :: numeral := by
  constructor
  · intro s
    exact ⟨isAddress_of_mem, mem_of_isAddress⟩
  · intro s
    rw [mem_reIpv6Net]
    constructor
    · rintro ⟨address, numeral, ⟨literal, bare, rfl⟩, number, rfl⟩
      exact ⟨literal, numeral, bare, number, rfl⟩
    · rintro ⟨literal, numeral, bare, number, rfl⟩
      exact ⟨literal.text, numeral, ⟨literal, bare, rfl⟩, number, rfl⟩

end VyattaCfg.Cliexec
