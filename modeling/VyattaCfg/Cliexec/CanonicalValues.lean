import VyattaCfg.Cliexec.AddressTexts

namespace VyattaCfg.Cliexec

open ByteString Regex VyattaCfg.Client

section Prefixes

theorem number_concat (s : Bytes) (c : UInt8) : Scanf.number 10 (s ++ [c]) = Scanf.number 10 s * 10 + digitValue c := by
  rw [Scanf.number_append]
  rfl

theorem digit_inj {c d : UInt8} (one : Scanf.IsDigit 10 c) (other : Scanf.IsDigit 10 d)
    (same : digitValue c = digitValue d) : c = d := by
  have left := digitValue_toNat one
  have right := digitValue_toNat other
  apply UInt8.toNat_inj.mp
  omega

/-- Numerals of one length and value are one numeral. -/
theorem numeral_inj {left right : Bytes} (digits : ∀ c ∈ left, Scanf.IsDigit 10 c)
    (digits' : ∀ c ∈ right, Scanf.IsDigit 10 c) (length : left.length = right.length)
    (same : Scanf.number 10 left = Scanf.number 10 right) : left = right := by
  induction left using List.reverseRecOn generalizing right with
  | nil => exact (List.length_eq_zero_iff.mp length.symm).symm
  | append_singleton left c ih =>
    rcases List.eq_nil_or_concat right with rfl | ⟨right, d, rfl⟩
    · simp at length
    · rw [List.concat_eq_append] at digits' length same ⊢
      rw [number_concat, number_concat] at same
      rw [List.length_append, List.length_append, List.length_singleton, List.length_singleton] at length
      have one := digits c (by simp)
      have other := digits' d (by simp)
      have small := digitValue_toNat one
      have small' := digitValue_toNat other
      have fronts := ih (fun b member => digits b (List.mem_append_left _ member))
        (fun b member => digits' b (List.mem_append_left _ member)) (by omega) (by omega)
      rw [fronts, digit_inj one other (by omega)]

/-- The second numeral is the first behind a zero. -/
def Padded (left right : Bytes) : Prop := ∃ c, left = [c] ∧ right = [ch '0', c]

theorem padded_of_lengths {left right : Bytes} (numeral : PrefixNumeral left) (numeral' : PrefixNumeral right)
    (shorter : left.length < right.length) (same : Scanf.number 10 left = Scanf.number 10 right) :
    Padded left right := by
  have most := numeral'.length_le
  have filled := List.length_pos_iff.mpr numeral.nonempty
  have bound := Scanf.number_lt numeral.digits
  by_cases three : right.length = 3
  · obtain ⟨a, b, c, rfl⟩ := List.length_eq_three.mp three
    have notZero : a ≠ ch '0' := by
      intro zero
      have short := numeral'.leading (congrArg some zero)
      simp at short
    have range := digitValue_toNat (numeral'.digits a (by simp))
    have positive : a.toNat ≠ 48 := fun zero => notZero (UInt8.toNat_inj.mp zero)
    have value : Scanf.number 10 [a, b, c] = (digitValue a * 10 + digitValue b) * 10 + digitValue c := by
      simp [Scanf.number, digitValue]
    have power : 10 ^ left.length ≤ 10 ^ 2 := Nat.pow_le_pow_right (by decide) (by omega)
    omega
  · obtain ⟨c, rfl⟩ := List.length_eq_one_iff.mp (by omega : left.length = 1)
    obtain ⟨a, b, rfl⟩ := List.length_eq_two.mp (by omega : right.length = 2)
    have small := digitValue_toNat (numeral.digits c (by simp))
    have value : Scanf.number 10 [c] = digitValue c := by simp [Scanf.number, digitValue]
    have value' : Scanf.number 10 [a, b] = digitValue a * 10 + digitValue b := by simp [Scanf.number, digitValue]
    have first := digitValue_toNat (numeral'.digits a (by simp))
    have zero : a = ch '0' := UInt8.toNat_inj.mp (by have zero : (ch '0').toNat = 48 := rfl; omega)
    have unit : b = c := digit_inj (numeral'.digits b (by simp)) (numeral.digits c (by simp)) (by omega)
    exact ⟨c, rfl, by rw [zero, unit]⟩

theorem PrefixNumeral.eq_or_padded {left right : Bytes} (numeral : PrefixNumeral left)
    (numeral' : PrefixNumeral right) (same : Scanf.number 10 left = Scanf.number 10 right) :
    left = right ∨ Padded left right ∨ Padded right left := by
  rcases Nat.lt_trichotomy left.length right.length with shorter | equal | longer
  · exact .inr (.inl (padded_of_lengths numeral numeral' shorter same))
  · exact .inl (numeral_inj numeral.digits numeral'.digits equal same)
  · exact .inr (.inr (padded_of_lengths numeral' numeral longer same.symm))

/-- No IPv4 prefix length starts with a zero and goes on. -/
theorem ipv4PrefixLen_numeral {len : Bytes} (matched : len ∈ reIpv4PrefixLen.matches') :
    PrefixNumeral len ∧ ∀ c, len ≠ [ch '0', c] := by
  have field := prefix_field matched
  have two {a b : UInt8} (first : a ≠ ch '0') (shape : len = [a, b]) : len.length ≤ 2 ∧ ∀ c, len ≠ [ch '0', c] := by
    subst shape
    refine ⟨le_refl 2, ?_⟩
    intro c same
    exact first (List.cons.inj same).1
  have shape : len.length ≤ 2 ∧ ∀ c, len ≠ [ch '0', c] := by
    rw [reIpv4PrefixLen, mem_add, mem_add] at matched
    rcases matched with (top | high) | single
    · obtain ⟨front, three, last, unit, same⟩ := mem_mul.mp top
      obtain ⟨b, -, rfl⟩ := mem_anyOf.mp unit
      rw [mem_lit.mp three] at same
      exact two (by decide) same.symm
    · obtain ⟨front, tens, last, unit, same⟩ := mem_mul.mp high
      obtain ⟨a, inside, rfl⟩ := mem_anyOf.mp tens
      obtain ⟨b, -, rfl⟩ := mem_anyOf.mp unit
      have first : a ≠ ch '0' := by
        rintro rfl
        exact absurd inside (by decide)
      exact two first same.symm
    · obtain ⟨c, -, rfl⟩ := mem_anyOf.mp single
      exact ⟨Nat.le_succ 1, fun c same => by cases same⟩
  have below : Scanf.number 10 len < 10 ^ 2 := calc
    Scanf.number 10 len < 10 ^ len.length := Scanf.number_lt field.all
    _ ≤ 10 ^ 2 := Nat.pow_le_pow_right (by decide) shape.1
  exact ⟨⟨field.nonempty, field.all, by omega, fun _ => shape.1⟩, shape.2⟩

end Prefixes

section Lexed

/-- A text that a rule of the value lexer takes, with the NUL behind it or without, and what it puts
    into the value. -/
inductive Lexed (lib : AddressLib) (type : VtwType) (text val : Bytes) : Prop where
  | rule {rule : Flex.Rule UInt8 (Option ValToken)} {ending : Bytes} : rule ∈ cliValRules lib →
    ending = [0] ∨ ending = [] → 0 ∉ text → text ++ ending ∈ rule.pattern.matches' →
      rule.action (text ++ ending) = some (.value type val) → Lexed lib type text val

def IsAddressType (type : VtwType) : Prop :=
  type = .ipv4 ∨ type = .ipv4net ∨ type = .ipv6 ∨ type = .ipv6net ∨ type = .macaddr

instance (type : VtwType) : Decidable (IsAddressType type) := inferInstanceAs (Decidable (_ ∨ _))

variable {lib : AddressLib} {type : VtwType} {text val : Bytes}

theorem terminated_of_valueRule {re : Pattern} {token : Bytes → ValToken} {ending : Bytes}
    (endings : ending = [0] ∨ ending = []) (free : 0 ∉ text)
    (matched : text ++ ending ∈ (valueRule re token).pattern.matches') :
    text ∈ re.matches' ∧ (valueRule re token).action (text ++ ending) = some (token text) := by
  obtain ⟨front, inside, same⟩ := mem_valueRule matched
  rcases endings with rfl | rfl
  · obtain rfl := (List.append_inj' same rfl).1
    exact ⟨inside, congrArg (fun t => some (token t)) (cstr_cut free [])⟩
  · rw [List.append_nil] at same
    exact absurd (by rw [same]; simp) free

/-- What an address rule takes and stores. -/
theorem Lexed.normal (lexed : Lexed lib type text val) (kind : IsAddressType type) :
    text ∈ (valuePattern type).matches' ∧ normalText lib type text = some val := by
  obtain @⟨rule, ending, known, endings, free, matched, action⟩ := lexed
  have address (found : VtwType) {token : Bytes → ValToken}
      (given : text ++ ending ∈ (valueRule (valuePattern found) token).pattern.matches')
      (made : (valueRule (valuePattern found) token).action (text ++ ending) = some (.value type val))
      (shape : token text = normalToken found (normalText lib found text)) :
      text ∈ (valuePattern type).matches' ∧ normalText lib type text = some val := by
    obtain ⟨inside, acted⟩ := terminated_of_valueRule endings free given
    rw [made, shape] at acted
    obtain ⟨same, value⟩ := normalToken_eq (Option.some.inj acted).symm
    subst same
    exact ⟨inside, value⟩
  have other {found : VtwType} (same : found = type) (foreign : ¬ IsAddressType found) :
      text ∈ (valuePattern type).matches' ∧ normalText lib type text = some val := absurd (same ▸ kind) foreign
  simp only [cliValRules, List.mem_cons, List.not_mem_nil, or_false] at known
  rcases known with rfl | rfl | rfl | rfl | rfl | rfl | rfl | rfl | rfl | rfl | rfl | rfl | rfl
  · have gap := mem_lit.mp matched
    obtain ⟨same, found⟩ := normalToken_eq (Option.some.inj action)
    subst same
    rcases endings with rfl | rfl
    · have last := congrArg List.getLast? gap
      rw [List.getLast?_concat] at last
      cases last
    · rw [List.append_nil] at gap found
      subst gap
      have short : ([] : List H16).length + ([] : List H16).length + dottedLen none ≤ 7 := by decide
      exact ⟨gap_mem short, found⟩
  · obtain ⟨-, token⟩ := terminated_of_valueRule endings free matched
    exact other (ValToken.value.inj (Option.some.inj (token.symm.trans action))).1 (by decide)
  · obtain ⟨-, token⟩ := terminated_of_valueRule endings free matched
    exact other (ValToken.value.inj (Option.some.inj (token.symm.trans action))).1 (by decide)
  · obtain ⟨-, token⟩ := terminated_of_valueRule endings free matched
    exact other (@intToken_eq lib type text val (Option.some.inj (token.symm.trans action))).1 (by decide)
  · exact address .ipv4 matched action rfl
  · exact address .ipv4net matched action rfl
  · exact address .ipv6 matched action rfl
  · exact address .ipv6net matched action rfl
  · exact address .macaddr matched action rfl
  · cases action
  · cases action
  · cases action
  · cases action

theorem infix_terminated {input : Bytes} {piece : Bytes} (inside : piece <:+: input ++ [0]) :
    ∃ text ending, piece = text ++ ending ∧ (ending = [0] ∨ ending = []) ∧ text <:+: input := by
  obtain ⟨front, back, joined⟩ := inside
  rcases List.eq_nil_or_concat back with rfl | ⟨back, last, rfl⟩
  · rw [List.append_nil] at joined
    rcases List.eq_nil_or_concat piece with rfl | ⟨text, last, rfl⟩
    · exact ⟨[], [], rfl, .inr rfl, List.nil_infix⟩
    · rw [List.concat_eq_append, ← List.append_assoc] at joined
      obtain ⟨whole, nul⟩ := List.append_inj' joined rfl
      refine ⟨text, [0], ?_, .inl rfl, front, [], ?_⟩
      · rw [List.concat_eq_append, nul]
      · rw [List.append_nil, whole]
  · rw [List.concat_eq_append, ← List.append_assoc] at joined
    exact ⟨piece, [], (List.append_nil piece).symm, .inr rfl, front, back, (List.append_inj' joined rfl).1⟩

/-- The values that the lexer delivers are those of such texts. -/
theorem lexed_of_token {input : Bytes} (free : 0 ∉ input) (delivered : .value type val ∈ valTokens lib input) :
    ∃ text, text <:+: input ∧ Lexed lib type text val := by
  obtain ⟨token, scanned, made⟩ := List.mem_filterMap.mp delivered
  obtain ⟨rule, known, piece, inside, matched, action⟩ := Flex.mem_scan scanned
  rw [id_eq] at made
  rw [made] at action
  obtain ⟨text, ending, rfl, endings, within⟩ := infix_terminated inside
  exact ⟨text, within, .rule known endings (fun nul => free (within.subset nul)) matched action⟩

end Lexed

section Canonical

variable {lib : AddressLib} {type : VtwType} {s t u v : Bytes} {n m : List Nat} {k l : Option Nat}

theorem splits_once {a b c d : Bytes} (plain : ch '/' ∉ a) (plain' : ch '/' ∉ c)
    (same : a ++ ch '/' :: b = c ++ ch '/' :: d) : a = c ∧ b = d := by
  have front {x : Bytes} (plain : ch '/' ∉ x) (y : Bytes) :
      (x ++ ch '/' :: y).takeWhile (· ≠ ch '/') = x := by
    rw [List.takeWhile_append_of_pos]
    · simp
    · intro c member
      exact decide_eq_true fun here => plain (here ▸ member)
  have fronts : a = c := by rw [← front plain b, same, front plain' d]
  subst fronts
  exact ⟨rfl, (List.cons.inj (List.append_cancel_left same)).2⟩

theorem Denotes.unique {whole whole' : Bytes} (first : Denotes type whole n k) (second : Denotes type whole' m l)
    (same : whole = whole') : n = m ∧ k = l := by
  cases first with
  | bare bare4 bare6 given =>
    cases second with
    | bare _ _ given' => exact ⟨AddressText.unique given (same ▸ given'), rfl⟩
    | net kind => rcases kind with net | net <;> contradiction
  | net kind given =>
    cases second with
    | bare bare4 bare6 => rcases kind with net | net <;> contradiction
    | net kind' given' =>
      obtain ⟨rfl, rfl⟩ := splits_once given.plain.2 given'.plain.2 same
      exact ⟨given.unique given', rfl⟩

/-- Two values of one network in which one prefix length has a zero in front of it. -/
def Respelt (type : VtwType) (s t : Bytes) : Prop :=
  type = .ipv6net ∧ ∃ a b address len len', AddressText .ipv6net a address ∧ AddressText .ipv6net b address ∧
    s = a ++ ch '/' :: len ∧ t = b ++ ch '/' :: len' ∧ (Padded len len' ∨ Padded len' len)

/-- What stands behind the address of an accepted value. -/
theorem prefixNumeral_of_value {text len : Bytes} (plain : ch '/' ∉ text) (net : type = .ipv4net ∨ type = .ipv6net)
    (matched : text ++ ch '/' :: len ∈ (valuePattern type).matches') :
    PrefixNumeral len ∧ (type = .ipv4net → ∀ c, len ≠ [ch '0', c]) := by
  rcases net with rfl | rfl
  · obtain ⟨front, before, last, number, same⟩ := mem_mul.mp matched
    obtain ⟨address, first, slash, one, rfl⟩ := mem_mul.mp before
    obtain ⟨octets, written, -⟩ := ipv4_written first
    rw [mem_lit.mp one, List.append_assoc] at same
    obtain ⟨-, rfl⟩ := splits_once (slash_free written) plain same
    obtain ⟨numeral, single⟩ := ipv4PrefixLen_numeral number
    exact ⟨numeral, fun _ => single⟩
  · obtain ⟨address, numeral, ⟨literal, bare, rfl⟩, number, same⟩ := mem_reIpv6Net.mp matched
    obtain ⟨-, rfl⟩ := splits_once plain (literal_text_plain bare).2 same
    exact ⟨number, fun other => by cases other⟩

theorem denotes_of_value (kind : IsAddressType type) (matched : s ∈ (valuePattern type).matches') :
    ∃ address prefixLen, Denotes type s address prefixLen := by
  rcases kind with rfl | rfl | rfl | rfl | rfl
  · obtain ⟨octets, written, fits⟩ := ipv4_written matched
    exact ⟨octets, none, .bare (by decide) (by decide) (.ipv4 written fits)⟩
  · obtain ⟨address, len, octets, rfl, written, fits, field⟩ := net_of_mem matched
    exact ⟨octets, _, .net (.inl rfl) (.ipv4net written fits) field.nonempty field.all⟩
  · obtain ⟨literal, bare, rfl⟩ := isAddress_of_mem matched
    exact ⟨_, none, .bare (by decide) (by decide) (.ipv6 bare)⟩
  · obtain ⟨address, numeral, ⟨literal, bare, rfl⟩, number, rfl⟩ := mem_reIpv6Net.mp matched
    exact ⟨_, _, .net (.inr rfl) (.ipv6net bare) number.nonempty number.digits⟩
  · have numeric : Numeric .macaddr := by decide
    obtain ⟨bytes, written, fits⟩ := written_of_mem numeric matched
    exact ⟨bytes, none, .bare (by decide) (by decide) (.macaddr written (fits (by decide)))⟩

/-- Values of one address and prefix length that are not respelt have one normal text. -/
theorem normal_of_denoted (inverse : lib.Inverse) (left : s ∈ (valuePattern type).matches')
    (right : t ∈ (valuePattern type).matches') (found : normalText lib type s = some u)
    (found' : normalText lib type t = some v) (denotes : Denotes type s n k) (denotes' : Denotes type t n k)
    (alike : ¬ Respelt type s t) : u = v := by
  cases denotes with
  | bare bare4 bare6 given =>
    cases denotes' with
    | bare _ _ given' =>
      rw [normalText_bare given] at found
      rw [normalText_bare given'] at found'
      have print := (normalAddress_spec inverse given found).1
      have print' := (normalAddress_spec inverse given' found').1
      exact Option.some.inj (print.symm.trans print')
  | @net text len address net given nonempty digits =>
    generalize number : Scanf.number 10 len = value at denotes'
    cases denotes' with
    | @net text' len' address' _ given' nonempty' digits' =>
      rw [normalText_prefixed given net (decimal_plain nonempty digits)] at found
      rw [normalText_prefixed given' net (decimal_plain nonempty' digits')] at found'
      obtain ⟨front, made, rfl⟩ := Option.map_eq_some_iff.mp found
      obtain ⟨front', made', rfl⟩ := Option.map_eq_some_iff.mp found'
      have print := (normalAddress_spec inverse given made).1
      have print' := (normalAddress_spec inverse given' made').1
      obtain rfl := Option.some.inj (print.symm.trans print')
      obtain ⟨numeral, single⟩ := prefixNumeral_of_value given.plain.2 net left
      obtain ⟨numeral', single'⟩ := prefixNumeral_of_value given'.plain.2 net right
      rcases net with rfl | rfl
      · rcases numeral.eq_or_padded numeral' number with rfl | ⟨c, -, padded⟩ | ⟨c, -, padded⟩
        · rfl
        · exact absurd padded (single' rfl c)
        · exact absurd padded (single rfl c)
      · rcases numeral.eq_or_padded numeral' number with rfl | padded
        · rfl
        · exact absurd ⟨rfl, text, text', _, len, len', given, given', rfl, rfl, padded⟩ alike

theorem number_padded {len len' : Bytes} (padded : Padded len len') :
    Scanf.number 10 len = Scanf.number 10 len' ∧ len ≠ len' := by
  obtain ⟨c, rfl, rfl⟩ := padded
  have zero : (Scanf.digit (ch '0')).getD 0 = 0 := by decide
  constructor
  · simp [Scanf.number, zero]
  · simp

theorem different_of_respelt (inverse : lib.Inverse) (left : s ∈ (valuePattern type).matches')
    (right : t ∈ (valuePattern type).matches') (found : normalText lib type s = some u)
    (found' : normalText lib type t = some v) (denotes : Denotes type s n k) (denotes' : Denotes type t m l)
    (respelt : Respelt type s t) : (n = m ∧ k = l) ∧ u ≠ v := by
  obtain ⟨rfl, a, b, address, len, len', given, given', rfl, rfl, padded⟩ := respelt
  have numbers : Scanf.number 10 len = Scanf.number 10 len' ∧ len ≠ len' := by
    rcases padded with padded | padded
    · exact number_padded padded
    · have reversed := number_padded padded
      exact ⟨reversed.1.symm, reversed.2.symm⟩
  obtain ⟨numeral, -⟩ := prefixNumeral_of_value given.plain.2 (.inr rfl) left
  obtain ⟨numeral', -⟩ := prefixNumeral_of_value given'.plain.2 (.inr rfl) right
  obtain ⟨rfl, rfl⟩ := denotes.unique (.net (.inr rfl) given numeral.nonempty numeral.digits) rfl
  obtain ⟨rfl, rfl⟩ := denotes'.unique (.net (.inr rfl) given' numeral'.nonempty numeral'.digits) rfl
  rw [normalText_prefixed given (.inr rfl) (decimal_plain numeral.nonempty numeral.digits)] at found
  rw [normalText_prefixed given' (.inr rfl) (decimal_plain numeral'.nonempty numeral'.digits)] at found'
  obtain ⟨front, made, rfl⟩ := Option.map_eq_some_iff.mp found
  obtain ⟨front', made', rfl⟩ := Option.map_eq_some_iff.mp found'
  have plain := (normalAddress_spec inverse given made).2.1.plain.2
  have plain' := (normalAddress_spec inverse given' made').2.1.plain.2
  refine ⟨⟨rfl, congrArg some numbers.1⟩, ?_⟩
  intro same
  exact numbers.2 (splits_once plain plain' same).2

/-- Of two values of one type, the normal texts are equal exactly when the same is denoted, but for a
    prefix length behind an IPv6 address that is respelt with a zero. The normal text is kept by
    normalisation and denotes the same. -/
theorem canonical_values_iff (inverse : lib.Inverse) (kind : IsAddressType type) (left : Lexed lib type s u)
    (right : Lexed lib type t v) :
    (∃ address prefixLen, Denotes type s address prefixLen) ∧
      ∀ n m k l, Denotes type s n k → Denotes type t m l →
        ((u = v ↔ n = m ∧ k = l) ∧ normalText lib type u = some u ∧ Denotes type u n k ↔ ¬ Respelt type s t) := by
  obtain ⟨matched, found⟩ := left.normal kind
  obtain ⟨matched', found'⟩ := right.normal kind
  refine ⟨denotes_of_value kind matched, ?_⟩
  intro n m k l denotes denotes'
  obtain ⟨kept, again⟩ := normalText_kept inverse denotes found
  obtain ⟨kept', -⟩ := normalText_kept inverse denotes' found'
  constructor
  · rintro ⟨same, -⟩ respelt
    obtain ⟨equal, different⟩ := different_of_respelt inverse matched matched' found found' denotes denotes' respelt
    exact different (same.mpr equal)
  · intro alike
    refine ⟨⟨kept.unique kept', ?_⟩, again, kept⟩
    rintro ⟨rfl, rfl⟩
    exact normal_of_denoted inverse matched matched' found found' denotes denotes' alike

end Canonical

section Examples

/-- Only `::` among the IPv6 addresses. -/
def gapLib : AddressLib :=
  { numeralLib with
    inetPton6 := fun s => if s = str "::" then some (List.replicate 16 0) else none
    inetNtop6 := fun buf => if buf = List.replicate 16 0 then some (str "::") else none }

def gapLiteral : Ipv6Literal := ⟨[], some [], none, none, nofun, fun tail same => by cases same; decide⟩

theorem gapLib_inverse : gapLib.Inverse where
  toNotations := ⟨numeralLib_notations.ntop4, numeralLib_notations.aton, numeralLib_notations.ntoa⟩
  pton6 := by
    intro literal buf bare read
    have split : literal.text = str "::" ∧ buf = List.replicate 16 0 := by
      by_cases gap : literal.text = str "::"
      · have given : (if literal.text = str "::" then some (List.replicate 16 (0 : UInt8)) else none) = some buf := read
        rw [if_pos gap] at given
        exact ⟨gap, (Option.some.inj given).symm⟩
      · have given : (if literal.text = str "::" then some (List.replicate 16 (0 : UInt8)) else none) = some buf := read
        rw [if_neg gap] at given
        cases given
    have address : literal.address = gapLiteral.address := address_of_text bare rfl split.1
    rw [split.2, address]
    decide
  ntop6 := by
    intro buf text _ print
    have given : (if buf = List.replicate 16 0 then some (str "::") else none) = some text := print
    by_cases zeros : buf = List.replicate 16 0
    · rw [if_pos zeros] at given
      obtain rfl := Option.some.inj given
      exact ⟨zeros ▸ rfl, gapLiteral, rfl, rfl⟩
    · rw [if_neg zeros] at given
      cases given
  atonNtoa := by
    intro bytes six
    have written := numeralLib_notations.ntoa bytes six
    have small : ∀ n ∈ bytes.map UInt8.toNat, n < 256 := by
      intro n member
      obtain ⟨b, -, rfl⟩ := List.mem_map.mp member
      exact b.toNat_lt
    have read := numeralLib_etherAton written small
    have back : (bytes.map UInt8.toNat).map Nat.toUInt8 = bytes := by
      rw [List.map_map]
      exact List.map_id'' (fun b => UInt8.ofNat_toNat) bytes
    rwa [back] at read

theorem lexed_value {re : Pattern} {type : VtwType} {af : AddressFamily} {s val : Bytes}
    (known : valueRule re (fun yytext => normalToken type (normalizeIp gapLib af yytext)) ∈ cliValRules gapLib)
    (matched : s ∈ re.matches') (free : 0 ∉ s) (found : normalizeIp gapLib af s = some val) :
    Lexed gapLib type s val := by
  refine .rule known (.inl rfl) free (mem_mul.mpr ⟨s, matched, [0], mem_lit.mpr rfl, rfl⟩) ?_
  have action : normalToken type (normalizeIp gapLib af (cstr (s ++ [0]))) = .value type val := by
    rw [cstr_cut free, found]
    rfl
  exact congrArg some action

theorem canonical_values_iff_zeros :
    (∃ address prefixLen, Denotes .ipv4 (str "010.0.0.007") address prefixLen) ∧
      ∀ n m k l, Denotes .ipv4 (str "010.0.0.007") n k → Denotes .ipv4 (str "10.000.0.7") m l →
        ((str "10.0.0.7" = str "10.0.0.7" ↔ n = m ∧ k = l) ∧
          normalText gapLib .ipv4 (str "10.0.0.7") = some (str "10.0.0.7") ∧ Denotes .ipv4 (str "10.0.0.7") n k ↔
            ¬ Respelt .ipv4 (str "010.0.0.007") (str "10.000.0.7")) := by
  have known : valueRule reIpv4 (fun yytext => normalToken .ipv4 (normalizeIp gapLib .inet yytext)) ∈
      cliValRules gapLib := by simp [cliValRules]
  have left : Lexed gapLib .ipv4 (str "010.0.0.007") (str "10.0.0.7") := by
    apply lexed_value known
    · rw [← RegularExpression.rmatch_iff_matches']
      decide +kernel
    · decide
    · decide +kernel
  have right : Lexed gapLib .ipv4 (str "10.000.0.7") (str "10.0.0.7") := by
    apply lexed_value known
    · rw [← RegularExpression.rmatch_iff_matches']
      decide +kernel
    · decide
    · decide +kernel
  exact canonical_values_iff gapLib_inverse (by decide) left right

theorem gap_net {len : Bytes} (numeral : PrefixNumeral len) :
    Lexed gapLib .ipv6net (str "::" ++ ch '/' :: len) (str "::" ++ ch '/' :: len) ∧
      Denotes .ipv6net (str "::" ++ ch '/' :: len) gapLiteral.address (some (Scanf.number 10 len)) := by
  have given : AddressText .ipv6net gapLiteral.text gapLiteral.address := .ipv6net rfl
  have net : VtwType.ipv6net = .ipv4net ∨ VtwType.ipv6net = .ipv6net := .inr rfl
  refine ⟨?_, .net net given numeral.nonempty numeral.digits⟩
  have known : valueRule reIpv6Net (fun yytext => normalToken .ipv6net (normalizeIp gapLib .inet6 yytext)) ∈
      cliValRules gapLib := by simp [cliValRules]
  apply lexed_value known
  · exact mem_reIpv6Net.mpr ⟨str "::", len, ⟨gapLiteral, rfl, rfl⟩, numeral, rfl⟩
  · intro nul
    rcases List.mem_append.mp nul with front | back
    · exact absurd front (by decide)
    · rcases List.mem_cons.mp back with slash | digit
      · exact absurd slash (by decide)
      · exact absurd (numeral.digits 0 digit) (by decide)
  · exact normalIp_prefixed .inet6 given.plain (decimal_plain numeral.nonempty numeral.digits)

/-- A zero in front of a prefix length stays. -/
theorem respelt_prefix : ¬ ∀ lib : AddressLib, lib.Inverse → ∀ type, IsAddressType type → ∀ s t u v,
    Lexed lib type s u → Lexed lib type t v → ∀ n m k l, Denotes type s n k → Denotes type t m l →
      (u = v ↔ n = m ∧ k = l) := by
  intro all
  have numeral : ∀ s ∈ [str "1", str "01"], ∀ c ∈ s, Scanf.IsDigit 10 c := by
    have ones : [str "1", str "01"] = [[ch '1'], [ch '0', ch '1']] := by decide
    simp only [ones, List.forall_mem_cons, List.not_mem_nil, false_implies, implies_true, and_true]
    decide
  have one : PrefixNumeral (str "1") := ⟨by decide, numeral _ (by simp), by decide, by decide⟩
  have zeroOne : PrefixNumeral (str "01") := ⟨by decide, numeral _ (by simp), by decide, by decide⟩
  obtain ⟨lexed, denotes⟩ := gap_net one
  obtain ⟨lexed', denotes'⟩ := gap_net zeroOne
  have same := all gapLib gapLib_inverse .ipv6net (by decide) _ _ _ _ lexed lexed' _ _ _ _ denotes denotes'
  have value : Scanf.number 10 (str "1") = Scanf.number 10 (str "01") := by decide
  exact absurd (same.mpr ⟨rfl, congrArg some value⟩) (by decide)

end Examples

end VyattaCfg.Cliexec
