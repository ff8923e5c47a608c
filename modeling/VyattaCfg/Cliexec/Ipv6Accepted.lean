import VyattaCfg.Cliexec.Ipv6Literal

namespace VyattaCfg.Cliexec

open ByteString Regex

section Decimals

def digitValue (c : UInt8) : Nat := (Scanf.digit c).getD 0

theorem decDigit_digits : ∀ c ∈ str "0123456789", Scanf.IsDigit 10 c ∧ digitValue c ≤ 9 := by decide +kernel

theorem decDigit_upTo {n : Nat} {symbols s : Bytes} (matched : s ∈ (anyOf symbols).matches')
    (known : ∀ c ∈ symbols, Scanf.IsDigit 10 c ∧ digitValue c ≤ n) :
    ∃ c, s = [c] ∧ Scanf.IsDigit 10 c ∧ digitValue c ≤ n := by
  obtain ⟨c, member, rfl⟩ := mem_anyOf.mp matched
  exact ⟨c, rfl, known c member⟩

variable {bound : Nat} {s : Bytes}

theorem one_digit {a : UInt8} (first : Scanf.IsDigit 10 a) (fits : digitValue a ≤ bound) :
    ∃ decimal : Decimal bound, decimal.text = [a] := by
  refine ⟨⟨[a], by simp, List.forall_mem_singleton.mpr first, ?_⟩, rfl⟩
  simpa [Scanf.number, digitValue] using fits

theorem two_digits {a b : UInt8} (first : Scanf.IsDigit 10 a) (second : Scanf.IsDigit 10 b)
    (fits : digitValue a * 10 + digitValue b ≤ bound) : ∃ decimal : Decimal bound, decimal.text = [a, b] := by
  refine ⟨⟨[a, b], by simp, List.forall_mem_cons.mpr ⟨first, List.forall_mem_singleton.mpr second⟩, ?_⟩, rfl⟩
  simpa [Scanf.number, digitValue] using fits

theorem three_digits {a b c : UInt8} (first : Scanf.IsDigit 10 a) (second : Scanf.IsDigit 10 b)
    (third : Scanf.IsDigit 10 c) (fits : (digitValue a * 10 + digitValue b) * 10 + digitValue c ≤ bound) :
    ∃ decimal : Decimal bound, decimal.text = [a, b, c] := by
  refine ⟨⟨[a, b, c], by simp, ?_, ?_⟩, rfl⟩
  · exact List.forall_mem_cons.mpr ⟨first, List.forall_mem_cons.mpr ⟨second, List.forall_mem_singleton.mpr third⟩⟩
  · simpa [Scanf.number, digitValue] using fits

/-- Two digits as they are and one from a class: `25[0-5]` and `12[0-8]`. -/
theorem decimal_of_top {a b : UInt8} {symbols : Bytes} {n : Nat}
    (matched : s ∈ (lit [a, b] * anyOf symbols).matches') (first : Scanf.IsDigit 10 a)
    (second : Scanf.IsDigit 10 b) (known : ∀ c ∈ symbols, Scanf.IsDigit 10 c ∧ digitValue c ≤ n)
    (fits : (digitValue a * 10 + digitValue b) * 10 + n ≤ bound) : ∃ decimal : Decimal bound, decimal.text = s := by
  obtain ⟨front, two, last, third, rfl⟩ := mem_mul.mp matched
  rw [mem_lit.mp two]
  obtain ⟨c, rfl, digit, most⟩ := decDigit_upTo third known
  exact three_digits first second digit (by omega)

/-- Three digits of which the first two are limited: `2[0-4][0-9]`, `[01][0-9][0-9]` and
    `1[01][0-9]`. -/
theorem decimal_of_limited {front middle : Pattern} {symbols symbols' : Bytes} {n k : Nat}
    (matched : s ∈ (front * middle * decDigit).matches')
    (firsts : ∀ t ∈ front.matches', t ∈ (anyOf symbols).matches')
    (seconds : ∀ t ∈ middle.matches', t ∈ (anyOf symbols').matches')
    (known : ∀ c ∈ symbols, Scanf.IsDigit 10 c ∧ digitValue c ≤ n)
    (known' : ∀ c ∈ symbols', Scanf.IsDigit 10 c ∧ digitValue c ≤ k)
    (fits : (n * 10 + k) * 10 + 9 ≤ bound) : ∃ decimal : Decimal bound, decimal.text = s := by
  obtain ⟨left, two, last, third, rfl⟩ := mem_mul.mp matched
  obtain ⟨one, first, next, second, rfl⟩ := mem_mul.mp two
  obtain ⟨a, rfl, digit, most⟩ := decDigit_upTo (firsts one first) known
  obtain ⟨b, rfl, digit', most'⟩ := decDigit_upTo (seconds next second) known'
  obtain ⟨c, rfl, digit'', most''⟩ := decDigit_upTo third decDigit_digits
  exact three_digits digit digit' digit'' (by omega)

theorem anyOf_of_lit {c : UInt8} : ∀ t ∈ (lit [c]).matches', t ∈ (anyOf [c]).matches' := by
  intro t one
  exact mem_anyOf.mpr ⟨c, List.mem_singleton_self c, mem_lit.mp one⟩

theorem octet_of_mem (matched : s ∈ reIpv4Byte.matches') : ∃ octet : Decimal 255, octet.text = s := by
  rcases mem_add.mp matched with matched | short
  · rcases mem_add.mp matched with matched | low
    · rcases mem_add.mp matched with top | high
      · refine decimal_of_top (n := 5) top ?_ ?_ ?_ ?_ <;> decide +kernel
      · refine decimal_of_limited (n := 2) (k := 4) high anyOf_of_lit (fun t => id) ?_ ?_ ?_ <;> decide +kernel
    · refine decimal_of_limited (n := 1) (k := 9) low (fun t => id) (fun t => id) ?_ ?_ ?_ <;> decide +kernel
  · obtain ⟨length, members⟩ := (mem_rep_anyOf (by decide)).mp short
    have known := fun c member => decDigit_digits c (members c member)
    cases s with
    | nil => cases length.1
    | cons a s =>
      have first := known a List.mem_cons_self
      cases s with
      | nil => exact one_digit first.1 (by omega)
      | cons b s =>
        have second := known b (List.mem_cons_of_mem _ List.mem_cons_self)
        have none : s = [] := by
          apply List.length_eq_zero_iff.mp
          simp only [List.length_cons] at length
          omega
        rw [none]
        exact two_digits first.1 second.1 (by omega)

theorem prefixLen_of_mem (matched : s ∈ reIpv6PrefixLen.matches') : ∃ decimal : Decimal 128, decimal.text = s := by
  rcases mem_add.mp matched with matched | short
  · rcases mem_add.mp matched with top | high
    · refine decimal_of_top (n := 8) top ?_ ?_ ?_ ?_ <;> decide +kernel
    · refine decimal_of_limited (n := 1) (k := 1) high anyOf_of_lit (fun t => id) ?_ ?_ ?_ <;> decide +kernel
  · obtain ⟨first, one, rest, more, rfl⟩ := mem_mul.mp short
    obtain ⟨a, rfl, digit, most⟩ := decDigit_upTo one decDigit_digits
    rcases mem_opt.mp more with rfl | two
    · exact one_digit digit (by omega)
    · obtain ⟨b, rfl, digit', most'⟩ := decDigit_upTo two decDigit_digits
      exact two_digits digit digit' (by omega)

theorem dotted_of_mem (matched : s ∈ reIpv4.matches') : ∃ dotted : Dotted, dotted.text = s := by
  obtain ⟨first, one, rest, more, rfl⟩ := mem_mul.mp matched
  obtain ⟨pieces, rfl, three, all⟩ := mem_pow.mp more
  have octets : ∀ piece ∈ pieces, ∃ octet : Decimal 255, piece = ch '.' :: octet.text := by
    intro piece member
    obtain ⟨point, dot, last, byte, rfl⟩ := mem_mul.mp (all piece member)
    obtain ⟨octet, rfl⟩ := octet_of_mem byte
    rw [mem_lit.mp dot]
    exact ⟨octet, rfl⟩
  obtain ⟨o1, rfl⟩ := octet_of_mem one
  obtain ⟨second, third, fourth, rfl⟩ := List.length_eq_three.mp three
  obtain ⟨o2, rfl⟩ := octets second (by simp)
  obtain ⟨o3, rfl⟩ := octets third (by simp)
  obtain ⟨o4, rfl⟩ := octets fourth (by simp)
  refine ⟨⟨o1, o2, o3, o4⟩, ?_⟩
  simp [Dotted.text, Words.join, List.intercalate_cons_cons]

end Decimals

section Groups

theorem hexDigit_digits : ∀ c ∈ str "abcdefABCDEF0123456789", Scanf.IsDigit 16 c := by decide +kernel

variable {s : Bytes}

theorem h16_of_mem (matched : s ∈ reH16.matches') : ∃ group : H16, group.text = s := by
  obtain ⟨length, members⟩ := (mem_rep_anyOf (by decide)).mp matched
  exact ⟨⟨s, length, fun c member => hexDigit_digits c (members c member)⟩, rfl⟩

theorem colonText_of_mem {pieces : List Bytes} (all : ∀ piece ∈ pieces, piece ∈ reH16Colon.matches') :
    ∃ groups : List H16, groups.length = pieces.length ∧ colonText groups = pieces.flatten := by
  induction pieces with
  | nil => exact ⟨[], rfl, rfl⟩
  | cons piece pieces ih =>
    obtain ⟨groups, length, text⟩ := ih fun piece member => all piece (List.mem_cons_of_mem _ member)
    obtain ⟨word, digits, colon, one, rfl⟩ := mem_mul.mp (all piece List.mem_cons_self)
    obtain ⟨group, rfl⟩ := h16_of_mem digits
    refine ⟨group :: groups, by simp [length], ?_⟩
    rw [colonText, List.flatMap_cons, ← colonText, text, List.flatten_cons, mem_lit.mp one]
    rfl

theorem groups_of_ls32 {n : Nat} (matched : s ∈ (reH16Colon ^ n * reLs32).matches') :
    ∃ groups dotted, groups.length + dottedLen dotted = n + 2 ∧ groupsText groups dotted = s := by
  obtain ⟨front, least, back, last, rfl⟩ := mem_mul.mp matched
  obtain ⟨pieces, rfl, length, all⟩ := mem_pow.mp least
  obtain ⟨groups, count, text⟩ := colonText_of_mem all
  rcases mem_add.mp last with hex | dec
  · obtain ⟨two, left, second, right, rfl⟩ := mem_mul.mp hex
    obtain ⟨first, digits, colon, one, rfl⟩ := mem_mul.mp left
    obtain ⟨g, rfl⟩ := h16_of_mem digits
    obtain ⟨g', rfl⟩ := h16_of_mem right
    refine ⟨groups ++ [g] ++ [g'], none, ?_, ?_⟩
    · simp only [List.length_append, List.length_singleton, dottedLen]
      simp
      omega
    · rw [groupsText_snoc, colonText, List.flatMap_append, ← colonText, text, mem_lit.mp one]
      simp [str]
  · obtain ⟨dotted, rfl⟩ := dotted_of_mem dec
    refine ⟨groups, some dotted, ?_, ?_⟩
    · simp only [dottedLen, Option.isSome_some, if_true]
      omega
    · rw [groupsText_dotted, text]

theorem groups_of_rep {n : Nat} (matched : s ∈ (rep 0 n reH16Colon * reH16).matches') :
    ∃ groups, groups.length ≤ n + 1 ∧ groupsText groups none = s := by
  obtain ⟨front, least, back, last, rfl⟩ := mem_mul.mp matched
  obtain ⟨pieces, rfl, length, all⟩ := (mem_rep (Nat.zero_le n)).mp least
  obtain ⟨groups, count, text⟩ := colonText_of_mem all
  obtain ⟨g, rfl⟩ := h16_of_mem last
  refine ⟨groups ++ [g], ?_, by rw [groupsText_snoc, text]⟩
  rw [List.length_append, List.length_singleton]
  omega

theorem groups_of_head {n : Nat} (matched : s ∈ (opt (rep 0 n reH16Colon * reH16)).matches') :
    ∃ groups, groups.length ≤ n + 1 ∧ groupsText groups none = s := by
  rcases mem_opt.mp matched with rfl | more
  · exact ⟨[], Nat.zero_le _, rfl⟩
  · exact groups_of_rep more

end Groups

section Addresses

variable {s : Bytes}

def IsAddress (s : Bytes) : Prop := ∃ literal : Ipv6Literal, literal.prefixLen = none ∧ literal.text = s

theorem isAddress_of_gap {head tail : List H16} {dotted : Option Dotted}
    (short : head.length + tail.length + dottedLen dotted ≤ 7) :
    IsAddress (groupsText head none ++ str "::" ++ groupsText tail dotted) := by
  refine ⟨⟨head, some tail, dotted, none, nofun, ?_⟩, rfl, ?_⟩
  · intro other same
    rw [← Option.some.inj same]
    exact short
  · simp [Ipv6Literal.text, Ipv6Literal.addressText, prefixText]

theorem isAddress_of_parts {front back : Pattern} {n k : Nat}
    (heads : ∀ t ∈ front.matches', ∃ groups, groups.length ≤ n ∧ groupsText groups none = t)
    (tails : ∀ t ∈ back.matches', ∃ groups dotted, groups.length + dottedLen dotted = k ∧
      groupsText groups dotted = t)
    (short : n + k ≤ 7) (matched : s ∈ (front * lit (str "::") * back).matches') : IsAddress s := by
  obtain ⟨left, opening, t, right, rfl⟩ := mem_mul.mp matched
  obtain ⟨u, first, colons, gap, rfl⟩ := mem_mul.mp opening
  obtain ⟨head, few, rfl⟩ := heads u first
  obtain ⟨tail, dotted, count, rfl⟩ := tails t right
  rw [mem_lit.mp gap]
  exact isAddress_of_gap (by omega)

theorem heads_of_one : ∀ t ∈ (opt reH16).matches', ∃ groups, groups.length ≤ 1 ∧ groupsText groups none = t := by
  intro t matched
  rcases mem_opt.mp matched with rfl | more
  · exact ⟨[], Nat.zero_le 1, rfl⟩
  · obtain ⟨g, rfl⟩ := h16_of_mem more
    exact ⟨[g], le_refl 1, Words.join_singleton _ _⟩

theorem tails_of_ls32 : ∀ t ∈ reLs32.matches', ∃ groups dotted, groups.length + dottedLen dotted = 2 ∧
    groupsText groups dotted = t := by
  intro t matched
  have counted : t ∈ (reH16Colon ^ 0 * reLs32).matches' := mem_mul.mpr ⟨[], Language.nil_mem_one, t, matched, rfl⟩
  exact groups_of_ls32 counted

theorem tails_of_h16 : ∀ t ∈ reH16.matches', ∃ groups dotted, groups.length + dottedLen dotted = 1 ∧
    groupsText groups dotted = t := by
  intro t matched
  obtain ⟨g, rfl⟩ := h16_of_mem matched
  exact ⟨[g], none, rfl, Words.join_singleton _ _⟩

theorem tails_of_nothing : ∀ t ∈ (1 : Pattern).matches', ∃ groups dotted, groups.length + dottedLen dotted = 0 ∧
    groupsText groups dotted = t := by
  intro t matched
  exact ⟨[], none, rfl, ((Language.mem_one t).mp matched).symm⟩

theorem isAddress_of_mem (matched : s ∈ reIpv6.matches') : IsAddress s := by
  -- the concatenations of the source nest to the left, `isAddress_of_parts` cuts behind the `::`
  have assoc (a b c d : Pattern) : (a * b * c * d).matches' = (a * b * (c * d)).matches' := by
    simp only [RegularExpression.matches'_mul, mul_assoc]
  rcases mem_add.mp matched with matched | p9
  · rcases mem_add.mp matched with matched | p8
    · rcases mem_add.mp matched with matched | p7
      · rcases mem_add.mp matched with matched | p6
        · rcases mem_add.mp matched with matched | p5
          · rcases mem_add.mp matched with matched | p4
            · rcases mem_add.mp matched with matched | p3
              · rcases mem_add.mp matched with p1 | p2
                · obtain ⟨groups, dotted, full, rfl⟩ := groups_of_ls32 p1
                  refine ⟨⟨groups, none, dotted, none, fun _ => full, nofun⟩, rfl, ?_⟩
                  simp [Ipv6Literal.text, Ipv6Literal.addressText, prefixText]
                · have parts : s ∈ ((1 : Pattern) * lit (str "::") * (reH16Colon ^ 5 * reLs32)).matches' := by
                    rw [reIpv6P2] at p2
                    simp only [RegularExpression.matches'_mul] at p2 ⊢
                    rwa [RegularExpression.matches'_epsilon, one_mul, ← mul_assoc]
                  refine isAddress_of_parts (n := 0) ?_ (fun t => groups_of_ls32) (by decide) parts
                  intro t empty
                  exact ⟨[], le_refl 0, ((Language.mem_one t).mp empty).symm⟩
              · rw [reIpv6P3, assoc] at p3
                exact isAddress_of_parts heads_of_one (fun t => groups_of_ls32) (by decide) p3
            · rw [reIpv6P4, assoc] at p4
              exact isAddress_of_parts (fun t => groups_of_head) (fun t => groups_of_ls32) (by decide) p4
          · rw [reIpv6P5, assoc] at p5
            exact isAddress_of_parts (fun t => groups_of_head) (fun t => groups_of_ls32) (by decide) p5
        · rw [reIpv6P6, assoc] at p6
          exact isAddress_of_parts (fun t => groups_of_head) (fun t => groups_of_ls32) (by decide) p6
      · exact isAddress_of_parts (fun t => groups_of_head) tails_of_ls32 (by decide) p7
    · exact isAddress_of_parts (fun t => groups_of_head) tails_of_h16 (by decide) p8
  · have parts : s ∈ (opt (rep 0 6 reH16Colon * reH16) * lit (str "::") * (1 : Pattern)).matches' :=
      mem_mul.mpr ⟨s, p9, [], Language.nil_mem_one, List.append_nil s⟩
    exact isAddress_of_parts (fun t => groups_of_head) tails_of_nothing (by decide) parts

theorem literal_of_mem (matched : s ∈ reIpv6.matches') :
    ∃ literal : Ipv6Literal, literal.prefixLen = none ∧ literal.text = s := isAddress_of_mem matched

theorem literal_of_mem_net (matched : s ∈ reIpv6Net.matches') :
    ∃ literal : Ipv6Literal, literal.prefixLen.isSome ∧ literal.text = s := by
  obtain ⟨front, slashed, last, number, rfl⟩ := mem_mul.mp matched
  obtain ⟨address, first, slash, one, rfl⟩ := mem_mul.mp slashed
  obtain ⟨literal, bare, rfl⟩ := isAddress_of_mem first
  obtain ⟨decimal, rfl⟩ := prefixLen_of_mem number
  refine ⟨⟨literal.head, literal.gap, literal.dotted, some decimal, literal.full, literal.short⟩, rfl, ?_⟩
  rw [mem_lit.mp one]
  simp [Ipv6Literal.text, Ipv6Literal.addressText, prefixText, bare, str]

end Addresses

end VyattaCfg.Cliexec
