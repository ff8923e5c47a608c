import VyattaCfg.Cliexec.DefLexer
import VyattaCfg.Cliexec.Ipv6Accepted

namespace VyattaCfg.Cliexec

open ByteString Regex VyattaCfg.Client

section Decided

-- The bytes of the text are gone through, where all 256 would be.
instance decidableEach {p : UInt8 → Prop} [DecidablePred p] (text : Bytes) : Decidable (∀ b ∈ text, p b) :=
  List.decidableBAll p text

instance decidableSome {p : UInt8 → Prop} [DecidablePred p] (text : Bytes) : Decidable (∃ b ∈ text, p b) :=
  List.decidableBEx p text

instance decidableNext {p : UInt8 → Prop} [DecidablePred p] (next : Option UInt8) : Decidable (∀ b ∈ next, p b) :=
  Option.decidableForallMem next

end Decided

section Alphabets

def valueTypes : List VtwType := [.priority, .int, .ipv4, .ipv4net, .ipv6, .ipv6net, .bool, .macaddr]

def alphabet : VtwType → Bytes
  | .priority => str "PARENT"
  | .int => str "0123456789"
  | .ipv4 => str "0123456789."
  | .ipv4net => str "0123456789./"
  | .ipv6 => str "abcdefABCDEF0123456789:."
  | .ipv6net => str "abcdefABCDEF0123456789:./"
  | .bool => str "truefals"
  | .macaddr => str "abcdefABCDEF0123456789:"
  | .error | .domain | .text => []

theorem valueTypes_of_mem {type : VtwType} {w : Bytes} (known : w ∈ (valuePattern type).matches') :
    type ∈ valueTypes := by
  cases type with
  | error | domain | text => exact absurd known (Language.notMem_zero w)
  | _ => decide

theorem spelled_ipv4 {letters : Bytes} (digits : ∀ a ∈ str "0123456789", a ∈ letters) (dot : ch '.' ∈ letters) :
    Spelled letters reIpv4 := by
  have digit : Spelled letters decDigit := spelled_anyOf.mpr digits
  have some : ∀ {symbols : Bytes}, symbols ⊆ str "0123456789" → ∀ a ∈ symbols, a ∈ letters :=
    fun part a inside => digits a (part inside)
  have byte : Spelled letters reIpv4Byte := by
    rw [reIpv4Byte]
    simp only [spelled_add, spelled_mul, spelled_lit, spelled_anyOf]
    exact ⟨⟨⟨⟨some (by decide), some (by decide)⟩, ⟨some (by decide), some (by decide)⟩, digit⟩,
      ⟨some (by decide), digit⟩, digit⟩, digit.rep 1 2⟩
  have dotted : Spelled letters (lit (str ".") * reIpv4Byte) :=
    spelled_mul.mpr ⟨spelled_lit.mpr (by simpa [str, ch] using dot), byte⟩
  exact spelled_mul.mpr ⟨byte, dotted.pow 3⟩

theorem spelled_ipv6 {letters : Bytes} (hex : ∀ a ∈ str "abcdefABCDEF0123456789", a ∈ letters)
    (colon : ch ':' ∈ letters) (dot : ch '.' ∈ letters) : Spelled letters reIpv6 := by
  have h16 : Spelled letters reH16 := (spelled_anyOf.mpr hex).rep 1 4
  have one : Spelled letters (lit (str ":")) := spelled_lit.mpr (by simpa [str, ch] using colon)
  have two : Spelled letters (lit (str "::")) := spelled_lit.mpr (by simpa [str, ch] using colon)
  have group : Spelled letters reH16Colon := spelled_mul.mpr ⟨h16, one⟩
  have ipv4 := spelled_ipv4 (fun a digit => hex a (by revert a; decide)) dot
  have last : Spelled letters reLs32 := spelled_add.mpr ⟨spelled_mul.mpr ⟨spelled_mul.mpr ⟨h16, one⟩, h16⟩, ipv4⟩
  have head (n : Nat) : Spelled letters (opt (rep 0 n reH16Colon * reH16)) :=
    spelled_opt.mpr (spelled_mul.mpr ⟨group.rep 0 n, h16⟩)
  unfold reIpv6
  simp only [spelled_add]
  exact ⟨⟨⟨⟨⟨⟨⟨⟨spelled_mul.mpr ⟨group.pow 6, last⟩,
    spelled_mul.mpr ⟨spelled_mul.mpr ⟨two, group.pow 5⟩, last⟩⟩,
    spelled_mul.mpr ⟨spelled_mul.mpr ⟨spelled_mul.mpr ⟨spelled_opt.mpr h16, two⟩, group.pow 4⟩, last⟩⟩,
    spelled_mul.mpr ⟨spelled_mul.mpr ⟨spelled_mul.mpr ⟨head 1, two⟩, group.pow 3⟩, last⟩⟩,
    spelled_mul.mpr ⟨spelled_mul.mpr ⟨spelled_mul.mpr ⟨head 2, two⟩, group.pow 2⟩, last⟩⟩,
    spelled_mul.mpr ⟨spelled_mul.mpr ⟨spelled_mul.mpr ⟨head 3, two⟩, group.pow 1⟩, last⟩⟩,
    spelled_mul.mpr ⟨spelled_mul.mpr ⟨head 4, two⟩, last⟩⟩,
    spelled_mul.mpr ⟨spelled_mul.mpr ⟨head 5, two⟩, h16⟩⟩,
    spelled_mul.mpr ⟨head 6, two⟩⟩

theorem spelled_value (type : VtwType) : Spelled (alphabet type) (valuePattern type) := by
  have slash : ∀ {letters : Bytes}, ch '/' ∈ letters → Spelled letters (lit (str "/")) :=
    fun inside => spelled_lit.mpr (by simpa [str, ch] using inside)
  cases type with
  | priority => exact spelled_lit.mpr (by decide)
  | int => exact spelled_mul.mpr ⟨spelled_anyOf.mpr (by decide), spelled_anyOf.mpr (by decide)⟩
  | ipv4 => exact spelled_ipv4 (by decide) (by decide)
  | ipv4net =>
    have digit : Spelled (alphabet .ipv4net) decDigit := spelled_anyOf.mpr (by decide)
    refine spelled_mul.mpr ⟨spelled_mul.mpr ⟨spelled_ipv4 (by decide) (by decide), slash (by decide)⟩, ?_⟩
    simp only [reIpv4PrefixLen, spelled_add, spelled_mul, spelled_lit, spelled_anyOf]
    exact ⟨⟨⟨by decide, by decide⟩, by decide, digit⟩, digit⟩
  | ipv6 => exact spelled_ipv6 (by decide) (by decide) (by decide)
  | ipv6net =>
    have digit : Spelled (alphabet .ipv6net) decDigit := spelled_anyOf.mpr (by decide)
    refine spelled_mul.mpr
      ⟨spelled_mul.mpr ⟨spelled_ipv6 (by decide) (by decide) (by decide), slash (by decide)⟩, ?_⟩
    simp only [reIpv6PrefixLen, spelled_add, spelled_mul, spelled_lit, spelled_anyOf, spelled_opt]
    exact ⟨⟨⟨by decide, by decide⟩, ⟨by decide, by decide⟩, digit⟩, digit, digit⟩
  | bool => exact spelled_add.mpr ⟨spelled_lit.mpr (by decide), spelled_lit.mpr (by decide)⟩
  | macaddr =>
    have pair : Spelled (alphabet .macaddr) (rep 1 2 hexDigit) := (spelled_anyOf.mpr (by decide)).rep 1 2
    exact spelled_mul.mpr ⟨pair, (spelled_mul.mpr ⟨spelled_lit.mpr (by decide), pair⟩).pow 5⟩
  | error | domain | text => exact List.forall_mem_nil _

theorem value_foreign {a : UInt8} (foreign : ∀ type ∈ valueTypes, a ∉ alphabet type) (type : VtwType) :
    a ∉ letters (valuePattern type) := by
  intro inside
  by_cases known : type ∈ valueTypes
  · exact foreign type known (spelled_value type a inside)
  · cases type with
    | error | domain | text => cases inside
    | _ => exact known (by decide)

end Alphabets

section Types

theorem macaddr_join {w : Bytes} (known : w ∈ reMacaddr.matches') :
    ∃ words, words.length = 6 ∧ Words.Separable (ch ':') words ∧ Words.join (ch ':') words = w := by
  have pair : ∀ h ∈ (rep 1 2 hexDigit).matches', h ≠ [] ∧ ch ':' ∉ h := by
    intro h word
    obtain ⟨length, digits⟩ := (mem_rep_anyOf (by decide)).mp word
    refine ⟨List.ne_nil_of_length_pos length.1, fun inside => ?_⟩
    exact absurd (digits _ inside) (by decide)
  have joined : ∀ (pieces : List Bytes) (h : Bytes), h ≠ [] ∧ ch ':' ∉ h →
      (∀ piece ∈ pieces, piece ∈ (lit (str ":") * rep 1 2 hexDigit).matches') →
        ∃ words, words.length = pieces.length + 1 ∧ Words.Separable (ch ':') words ∧
          Words.join (ch ':') words = h ++ pieces.flatten := by
    intro pieces
    induction pieces with
    | nil =>
      intro h solid _
      refine ⟨[h], rfl, List.forall_mem_singleton.mpr solid, ?_⟩
      rw [Words.join_singleton, List.flatten_nil, List.append_nil]
    | cons piece pieces ih =>
      intro h solid all
      rw [List.forall_mem_cons] at all
      obtain ⟨colon, first, next, second, rfl⟩ := mem_mul.mp all.1
      obtain ⟨words, count, separable, same⟩ := ih next (pair next second) all.2
      have filled : words ≠ [] := List.ne_nil_of_length_pos (by omega)
      refine ⟨h :: words, by rw [List.length_cons, List.length_cons, count],
        List.forall_mem_cons.mpr ⟨solid, separable⟩, ?_⟩
      rw [Words.join_cons _ _ filled, same, mem_lit.mp first, List.flatten_cons]
      simp [str, ch]
  obtain ⟨h, first, rest, more, rfl⟩ := mem_mul.mp known
  obtain ⟨pieces, rfl, count, all⟩ := mem_pow.mp more
  obtain ⟨words, six, separable, same⟩ := joined pieces h (pair h first) all
  exact ⟨words, by rw [six, count], separable, same⟩

theorem groups_separable (groups : List H16) (dotted : Option Dotted) :
    Words.Separable (ch ':') (groups.map H16.text ++ dotted.toList.map Dotted.text) := by
  have colon : ∀ {base : Nat} {s : Bytes}, base ≤ 16 → (∀ c ∈ s, Scanf.IsDigit base c) → ch ':' ∉ s := by
    intro base s small digits inside
    exact absurd ((digits _ inside).mono small) (by decide)
  have octet : ∀ {bound : Nat} (decimal : Decimal bound), decimal.text ≠ [] ∧ ch ':' ∉ decimal.text :=
    fun decimal => ⟨List.ne_nil_of_length_pos decimal.length.1, colon (by decide) decimal.digits⟩
  intro word inside
  rcases List.mem_append.mp inside with here | there
  · obtain ⟨group, -, rfl⟩ := List.mem_map.mp here
    exact ⟨List.ne_nil_of_length_pos group.length.1, colon (le_refl 16) group.digits⟩
  · obtain ⟨address, -, rfl⟩ := List.mem_map.mp there
    rw [Dotted.text]
    constructor
    · rw [Words.join_cons _ _ (List.cons_ne_nil _ _)]
      simp
    · intro member
      rcases Words.mem_join member with dot | ⟨word, known, there⟩
      · exact absurd dot (by decide)
      · simp only [List.mem_cons, List.not_mem_nil, or_false] at known
        rcases known with rfl | rfl | rfl | rfl <;> exact (octet _).2 there

/-- An IPv6 address has a `::`, or eight groups, or six and an IPv4 address. -/
theorem not_macaddr {w : Bytes} (known : w ∈ reIpv6.matches') : w ∉ reMacaddr.matches' := by
  intro mac
  obtain ⟨words, six, separable, same⟩ := macaddr_join mac
  obtain ⟨literal, bare, rfl⟩ := literal_of_mem known
  rw [Ipv6Literal.text, bare, Ipv6Literal.addressText] at same
  cases gap : literal.gap with
  | none =>
    rw [gap] at same
    have same : Words.join (ch ':') words = groupsText literal.head literal.dotted := by
      simpa [prefixText] using same
    have counted := congrArg List.length
      (Words.join_injective _ separable (groups_separable literal.head literal.dotted) same)
    have full := literal.full gap
    rw [six, List.length_append, List.length_map, List.length_map] at counted
    cases dotted : literal.dotted with
    | none =>
      simp [dotted, dottedLen] at full counted
      omega
    | some address =>
      simp [dotted, dottedLen] at full counted
      omega
  | some tail =>
    rw [gap] at same
    apply Words.join_ne_double (ch ':') separable (groupsText literal.head none) (groupsText tail literal.dotted)
    rw [same]
    simp [prefixText, str, ch]

/-- What every text of the one type has and none of the other. -/
theorem types_marked : ∀ t ∈ valueTypes, ∀ u ∈ valueTypes, t ≠ u → (t, u) ≠ (.ipv6, .macaddr) →
    (t, u) ≠ (.macaddr, .ipv6) → marked (fun a => decide (a ∉ alphabet t)) (valuePattern u) ||
      marked (fun a => decide (a ∉ alphabet u)) (valuePattern t) := by
  decide +kernel

/-- A text is a value of one type at most. -/
theorem value_unique {t u : VtwType} {w : Bytes} (known : w ∈ (valuePattern t).matches')
    (other : w ∈ (valuePattern u).matches') : t = u := by
  by_contra differ
  have apart : ∀ {t u : VtwType}, w ∈ (valuePattern t).matches' → w ∈ (valuePattern u).matches' →
      marked (fun a => decide (a ∉ alphabet t)) (valuePattern u) = true → False := by
    intro t u known other mark
    obtain ⟨a, inside, foreign⟩ := marked_sound mark other
    exact of_decide_eq_true foreign ((spelled_value t).mem known a inside)
  by_cases first : (t, u) = (.ipv6, .macaddr)
  · cases first
    exact not_macaddr known other
  · by_cases second : (t, u) = (.macaddr, .ipv6)
    · cases second
      exact not_macaddr other known
    · have mark := types_marked t (valueTypes_of_mem known) u (valueTypes_of_mem other) differ first second
      rcases Bool.or_eq_true_iff.mp mark with mark | mark
      · exact apart known other mark
      · exact apart other known mark

end Types

end VyattaCfg.Cliexec
