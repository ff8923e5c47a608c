import VyattaCfg.Cliexec.Ipv6Scanning

namespace VyattaCfg.Cliexec

open ByteString

section Parts

/-- The numbers in front of a `::`. Without a group the `::` itself closes a zero. -/
def headNumbers (head : List H16) : List Nat := head.map H16.value ++ List.replicate (1 - head.length) 0

def partNumbers (groups : List H16) (dotted : Option Dotted) (prefixLen : Option (Decimal 128)) : List Nat :=
  match dotted with
  | some dotted => groups.map H16.value ++ dottedNumbers dotted prefixLen
  | none =>
    List.replicate (1 - groups.length) 0 ++ groups.map H16.value ++ (prefixLen.map Decimal.value).toList

def partLeft (dotted : Option Dotted) (prefixLen : Option (Decimal 128)) : List Nat :=
  dotted.toList.map fun dotted => dottedLeft dotted prefixLen

def Ipv6Literal.scanned (literal : Ipv6Literal) : List Nat :=
  let total := totalOf literal.prefixLen
  match literal.gap with
  | none =>
    (partNumbers literal.head literal.dotted literal.prefixLen ++
      partLeft literal.dotted literal.prefixLen).take total
  | some tail =>
    let back := partNumbers tail literal.dotted literal.prefixLen
    headNumbers literal.head ++
      List.replicate (total - ((headNumbers literal.head).length + back.length)) 0 ++ back

theorem headNumbers_length (head : List H16) :
    (headNumbers head).length = head.length + (1 - head.length) := by
  simp [headNumbers]

theorem partNumbers_length (groups : List H16) (dotted : Option Dotted) (prefixLen : Option (Decimal 128)) :
    (partNumbers groups dotted prefixLen).length =
      groups.length + dottedLen dotted + if dotted.isSome then 0 else 1 - groups.length + (totalOf prefixLen - 8) := by
  cases dotted <;> cases prefixLen <;> simp [partNumbers, dottedNumbers, dottedLen, totalOf] <;> omega

theorem partLeft_length (dotted : Option Dotted) (prefixLen : Option (Decimal 128)) :
    (partLeft dotted prefixLen).length = if dotted.isSome then 1 else 0 := by
  cases dotted <;> rfl

end Parts

namespace Ipv6Scan

variable {done left : List Nat} {pos : Option Nat} {dotCnt base total : Nat} {rest : Bytes}

theorem dotted_head (dotted : Dotted) {c : UInt8} (notDigit : ¬ Scanf.IsDigit 16 c) :
    (dotted.text ++ rest).head? ≠ some c := by
  rw [Dotted.text, Words.join_cons _ _ (by simp), List.append_assoc]
  exact digits_head dotted.o1.length.1 (decimal_digits dotted.o1) notDigit

theorem loop_part (groups : List H16) (dotted : Option Dotted) (prefixLen : Option (Decimal 128))
    (inside : done.length + groups.length + dottedLen dotted ≤ 8) (bare : groups = [] → done.length ≤ 7) :
    ∃ dotCnt base, loop (groupsText groups dotted ++ prefixText prefixLen) (after done [] 0 pos 0 16 8) =
      some (after (done ++ partNumbers groups dotted prefixLen) (partLeft dotted prefixLen) 0 pos dotCnt base
        (totalOf prefixLen)) := by
  cases dotted with
  | some dotted =>
    simp only [dottedLen, Option.isSome_some, if_true] at inside
    have count : (done ++ groups.map H16.value).length ≤ 6 := by
      rw [List.length_append, List.length_map]
      omega
    obtain ⟨base, ended⟩ : ∃ base, loop (dotted.text ++ prefixText prefixLen)
        (after (done ++ groups.map H16.value) [] 0 pos 0 16 8) = _ := loop_dotted dotted count prefixLen
    refine ⟨3, base, ?_⟩
    rw [groupsText_dotted, List.append_assoc, loop_colons groups (dotted_head dotted (by decide)) (by omega), ended,
      List.append_assoc]
    rfl
  | none =>
    rcases groups.eq_nil_or_concat with rfl | ⟨front, group, rfl⟩
    · obtain ⟨base, ended⟩ : ∃ base, loop ([] ++ prefixText prefixLen) (after done [] 0 pos 0 16 8) = _ :=
        loop_number_end (by simp) (by decide) (bare rfl) prefixLen
      exact ⟨0, base, ended⟩
    · rw [List.concat_eq_append] at inside ⊢
      rw [List.length_append, List.length_singleton] at inside
      have value : Scanf.number 16 group.text < 0x100000000 := group.value_lt.trans (by decide)
      have count : (done ++ front.map H16.value).length ≤ 7 := by
        rw [List.length_append, List.length_map]
        omega
      obtain ⟨base, ended⟩ : ∃ base, loop (group.text ++ prefixText prefixLen)
          (after (done ++ front.map H16.value) [] 0 pos 0 16 8) = _ :=
        loop_number_end group.digits value count prefixLen
      refine ⟨0, base, ?_⟩
      rw [groupsText_snoc, List.append_assoc, loop_colons front (h16_head group (by decide)) (by omega), ended]
      simp [partNumbers, partLeft, H16.value]

/-- The scan up to behind the `::`, which stands for nothing but its position so far. -/
theorem loop_head (head : List H16) (short : head.length ≤ 7) :
    loop (groupsText head none ++ str "::" ++ rest) (start noParts) =
      loop rest (after (headNumbers head) [] 0 (some (headNumbers head).length) 0 16 8) := by
  have opened : start noParts = after [] [] 0 none 0 16 8 := rfl
  have gap {done : List Nat} {num : Nat} (inside : done.length < 9) (fits : num < 0x100000000) :
      loop (str "::" ++ rest) (after done [] num none 0 16 8) =
        loop rest (after (done ++ [num]) [] 0 (some (done ++ [num]).length) 0 16 8) := by
    have size : (done ++ []).length ≤ 9 := by
      rw [List.append_nil]
      omega
    have closed : (after done [] num (some (done.length + 1)) 0 16 8).close (ch ':') = _ :=
      close_after inside fits (by decide) size
    rw [loop_gap]
    show ((after done [] num (some (done.length + 1)) 0 16 8).close (ch ':')).bind _ = _
    rw [closed, List.length_append, List.length_singleton]
    rfl
  rw [opened]
  rcases head.eq_nil_or_concat with rfl | ⟨front, group, rfl⟩
  · exact gap (by decide) (by decide)
  · rw [List.concat_eq_append] at short ⊢
    rw [List.length_append, List.length_singleton] at short
    have value : group.value < 0x100000000 := group.value_lt.trans (by decide)
    have count : ([] ++ front.map H16.value).length < 9 := by
      rw [List.nil_append, List.length_map]
      omega
    rw [groupsText_snoc, List.append_assoc, List.append_assoc, loop_colons front (h16_head group (by decide))
      (by simp only [List.length_nil]; omega), loop_number group.digits]
    show loop (str "::" ++ rest) (after ([] ++ front.map H16.value) [] group.value none 0 16 8) = _
    rw [gap count value]
    simp [headNumbers]

section Spread

variable {numbers : List Nat}

theorem spread_none : (after numbers left 0 none dotCnt base total).spread = some (filled (numbers ++ left)) := rfl

theorem filled_take {n : Nat} (short : n ≤ (numbers ++ left).length) :
    (filled (numbers ++ left)).take n = (numbers ++ left).take n := by
  rw [filled, List.take_append_of_le_length short]

theorem spread_some {gap : Nat} (inside : gap ≤ numbers.length) (room : numbers.length ≤ total ∧ total ≤ 9)
    (size : (numbers ++ left).length ≤ 9) :
    ∃ parts, (after numbers left 0 (some gap) dotCnt base total).spread = some parts ∧
      parts.take total = numbers.take gap ++ List.replicate (total - numbers.length) 0 ++ numbers.drop gap := by
  have whole := filled_length size
  have front : (filled (numbers ++ left)).take numbers.length = numbers := by
    rw [filled_take (by simp), List.take_left]
  by_cases even : total = numbers.length
  · refine ⟨filled (numbers ++ left), if_pos even, ?_⟩
    rw [even, Nat.sub_self, List.replicate_zero, List.append_nil, List.take_append_drop, front]
  · have notBefore : ¬ numbers.length < gap := by omega
    have kept : ((filled (numbers ++ left)).drop gap).take (numbers.length - gap) = numbers.drop gap := by
      rw [← List.drop_take, front]
    have dest : gap + total - numbers.length = gap + (total - numbers.length) := by omega
    have first : (filled (numbers ++ left)).take gap = numbers.take gap := by
      rw [filled_take (by rw [List.length_append]; omega), List.take_append_of_le_length inside]
    have long : ((filled (numbers ++ left)).take (gap + (total - numbers.length))).length =
        gap + (total - numbers.length) := by
      rw [List.length_take, whole]
      omega
    have front' : ∀ t, ((filled (numbers ++ left)).take (gap + (total - numbers.length)) ++ t).take gap =
        numbers.take gap := by
      intro t
      rw [List.take_append_of_le_length (by omega), List.take_take, Nat.min_eq_left (by omega), first]
    have back : ∀ t, ((filled (numbers ++ left)).take (gap + (total - numbers.length)) ++ t).drop
        (gap + (total - numbers.length)) = t := fun t => List.drop_left' long
    refine ⟨_, (if_neg even).trans (if_neg notBefore), ?_⟩
    have length : (numbers.take gap ++ (List.replicate (total - numbers.length) 0 ++ numbers.drop gap)).length =
        total := by
      simp only [List.length_append, List.length_take, List.length_drop, List.length_replicate]
      omega
    simp only [after, kept, dest, List.append_assoc, front', back]
    rw [← List.append_assoc (List.replicate _ _), ← List.append_assoc, List.take_left' length]

end Spread

end Ipv6Scan

section Literals

variable (literal : Ipv6Literal)

theorem text_head : literal.text.head? ≠ some (ch '.') := by
  have groups_head {groups : List H16} (filled : groups ≠ []) (dotted : Option Dotted) (rest : Bytes) :
      (groupsText groups dotted ++ rest).head? ≠ some (ch '.') := by
    obtain ⟨group, groups, rfl⟩ := List.exists_cons_of_ne_nil filled
    obtain ⟨more, text⟩ : ∃ more, groupsText (group :: groups) dotted = group.text ++ more := by
      by_cases last : groups.map H16.text ++ dotted.toList.map Dotted.text = []
      · exact ⟨[], by simp [groupsText, List.map_cons, last, Words.join_singleton]⟩
      · exact ⟨_, Words.join_cons _ _ last⟩
    rw [text, List.append_assoc]
    exact Ipv6Scan.h16_head group (by decide)
  unfold Ipv6Literal.text Ipv6Literal.addressText
  split
  · rename_i closed
    apply groups_head
    rintro empty
    have full := literal.full closed
    rw [empty] at full
    unfold dottedLen at full
    split at full <;> cases full
  · rename_i tail opened
    rw [List.append_assoc, List.append_assoc]
    by_cases filled : literal.head = []
    · rw [filled]
      exact fun same => absurd (Option.some.inj same) (by decide)
    · exact groups_head filled none _

theorem not_whiteout : ¬ str ".wh." <+: literal.text := by
  rintro ⟨rest, text⟩
  apply text_head literal
  rw [← text]
  rfl

theorem scanIpv6_text : ∃ parts, scanIpv6 literal.text noParts = some parts ∧
    parts.take (totalOf literal.prefixLen) = literal.scanned := by
  have plain : scanIpv6 literal.text noParts = (Ipv6Scan.loop literal.text (.start noParts)).bind Ipv6Scan.spread := by
    unfold scanIpv6
    rw [if_neg (not_whiteout literal)]
  rw [plain]
  unfold Ipv6Literal.text Ipv6Literal.addressText Ipv6Literal.scanned
  have total : 8 ≤ totalOf literal.prefixLen ∧ totalOf literal.prefixLen ≤ 9 := by
    unfold totalOf
    split <;> decide
  cases opened : literal.gap with
  | none =>
    have full := literal.full opened
    have dots : dottedLen literal.dotted ≤ 2 := by
      unfold dottedLen
      split <;> decide
    have inside : ([] : List Nat).length + literal.head.length + dottedLen literal.dotted ≤ 8 := by
      rw [List.length_nil]
      omega
    obtain ⟨dotCnt, base, looped⟩ : ∃ dotCnt base, Ipv6Scan.loop
        (groupsText literal.head literal.dotted ++ prefixText literal.prefixLen) (.start noParts) = _ :=
      Ipv6Scan.loop_part literal.head literal.dotted literal.prefixLen inside fun _ => Nat.zero_le 7
    refine ⟨_, (congrArg (Option.bind · Ipv6Scan.spread) looped).trans Ipv6Scan.spread_none, ?_⟩
    rw [Ipv6Scan.filled_take, List.nil_append]
    rw [List.nil_append, List.length_append, partNumbers_length, partLeft_length]
    simp only [dottedLen] at full ⊢
    split at full <;> rename_i present <;> simp [present] <;> omega
  | some tail =>
    have short := literal.short tail opened
    have headLength := headNumbers_length literal.head
    have count := partNumbers_length tail literal.dotted literal.prefixLen
    have leftLength := partLeft_length literal.dotted literal.prefixLen
    have inside : (headNumbers literal.head).length + tail.length + dottedLen literal.dotted ≤ 8 := by omega
    have room : tail = [] → (headNumbers literal.head).length ≤ 7 := by omega
    obtain ⟨dotCnt, base, looped⟩ : ∃ dotCnt base, Ipv6Scan.loop (groupsText tail literal.dotted ++
        prefixText literal.prefixLen) (.after (headNumbers literal.head) [] 0
          (some (headNumbers literal.head).length) 0 16 8) = _ :=
      Ipv6Scan.loop_part tail literal.dotted literal.prefixLen inside room
    have fits : (headNumbers literal.head ++ partNumbers tail literal.dotted literal.prefixLen).length ≤
          totalOf literal.prefixLen ∧
        (headNumbers literal.head ++ partNumbers tail literal.dotted literal.prefixLen ++
          partLeft literal.dotted literal.prefixLen).length ≤ 9 := by
      simp only [List.length_append, headLength, count, leftLength]
      unfold dottedLen at short ⊢
      split at short <;> rename_i present <;> simp only [present, if_true, Bool.false_eq_true, if_false] <;> omega
    obtain ⟨parts, spread, taken⟩ : ∃ parts, (Ipv6Scan.after (headNumbers literal.head ++ partNumbers tail
        literal.dotted literal.prefixLen) (partLeft literal.dotted literal.prefixLen) 0
          (some (headNumbers literal.head).length) dotCnt base (totalOf literal.prefixLen)).spread = some parts ∧ _ :=
      Ipv6Scan.spread_some (by simp) ⟨fits.1, total.2⟩ fits.2
    refine ⟨parts, ?_, ?_⟩
    · rw [List.append_assoc, Ipv6Scan.loop_head literal.head (by omega), looped, Option.bind_some, spread]
    · rw [taken, List.take_left, List.drop_left, List.length_append]

end Literals

end VyattaCfg.Cliexec
