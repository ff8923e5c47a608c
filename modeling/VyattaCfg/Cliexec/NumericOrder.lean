import VyattaCfg.Cliexec.CliParse
import VyattaCfg.Cliexec.Ipv6Order

namespace VyattaCfg.Cliexec

open ByteString Regex VyattaCfg.Client

section Literals

def Numeric (type : VtwType) : Prop := type = .int ∨ type = .ipv4 ∨ type = .ipv4net ∨ type = .macaddr

instance (type : VtwType) : Decidable (Numeric type) := inferInstanceAs (Decidable (_ ∨ _ ∨ _ ∨ _))

def baseOf : VtwType → Nat
  | .macaddr => 16
  | _ => 10

def separators : VtwType → Bytes
  | .ipv4 => str "..."
  | .ipv4net => str ".../"
  | .macaddr => str ":::::"
  | _ => []

/-- A number, the bytes of an address, those and the prefix length behind them. -/
def denoted (type : VtwType) (text : Bytes) : List Nat :=
  (text.splitOnP fun c => !decide (Scanf.IsDigit (baseOf type) c)).map (Scanf.number (baseOf type))

def Written (type : VtwType) (text : Bytes) (numbers : List Nat) : Prop :=
  Scanf.Reads (baseOf type) (separators type) text numbers

theorem separators_directives {type : VtwType} (numeric : Numeric type) :
    Scanf.directives (condFormats type) = Scanf.separated (baseOf type) (separators type) ∧
      condFormatLens type = (separators type).length + 1 := by
  rcases numeric with rfl | rfl | rfl | rfl <;> decide

theorem denoted_of_written {type : VtwType} {text : Bytes} {numbers : List Nat} (written : Written type text numbers) :
    denoted type text = numbers := written.splitOnP

variable {s : Bytes}

theorem byte_field (matched : s ∈ reIpv4Byte.matches') : Scanf.Field 10 256 s := by
  obtain ⟨octet, rfl⟩ := octet_of_mem matched
  refine ⟨List.ne_nil_of_length_pos octet.length.1, octet.digits, ?_⟩
  have fits := octet.fits
  omega

theorem short_field {base : Nat} (length : 1 ≤ s.length ∧ s.length ≤ 2) (small : base ≤ 16)
    (digits : ∀ c ∈ s, Scanf.IsDigit base c) : Scanf.Field base 256 s := by
  refine ⟨List.ne_nil_of_length_pos length.1, digits, ?_⟩
  have positive : 0 < base := by
    obtain ⟨c, t, rfl⟩ := List.exists_cons_of_length_pos length.1
    obtain ⟨d, -, below⟩ := digits c List.mem_cons_self
    omega
  calc Scanf.number base s < base ^ s.length := Scanf.number_lt digits
    _ ≤ base ^ 2 := Nat.pow_le_pow_right positive length.2
    _ ≤ 16 ^ 2 := Nat.pow_le_pow_left small 2

theorem prefix_field (matched : s ∈ reIpv4PrefixLen.matches') : Scanf.Field 10 256 s := by
  have decimal : ∀ c ∈ str "0123456789", Scanf.IsDigit 10 c := fun c member => (decDigit_digits c member).1
  have two {front : Bytes} (known : ∀ c ∈ front, Scanf.IsDigit 10 c)
      {back : Bytes} (known' : ∀ c ∈ back, Scanf.IsDigit 10 c)
      (given : s ∈ (anyOf front * anyOf back).matches') : Scanf.Field 10 256 s := by
    obtain ⟨a, one, b, other, rfl⟩ := mem_mul.mp given
    obtain ⟨c, inside, rfl⟩ := mem_anyOf.mp one
    obtain ⟨d, inside', rfl⟩ := mem_anyOf.mp other
    apply short_field (by simp) (by decide)
    exact List.forall_mem_cons.mpr ⟨known c inside, List.forall_mem_singleton.mpr (known' d inside')⟩
  rcases mem_add.mp matched with long | short
  · rcases mem_add.mp long with top | middle
    · obtain ⟨a, three, b, last, rfl⟩ := mem_mul.mp top
      have front : str "3" ∈ (anyOf (str "3")).matches' := mem_anyOf.mpr ⟨ch '3', by decide, rfl⟩
      obtain rfl := mem_lit.mp three
      exact two (by decide +kernel) (by decide +kernel) (mem_mul.mpr ⟨_, front, b, last, rfl⟩)
    · exact two (by decide +kernel) decimal middle
  · obtain ⟨c, inside, rfl⟩ := mem_anyOf.mp short
    exact short_field (by simp) (by decide) (List.forall_mem_singleton.mpr (decimal c inside))

theorem mac_field (matched : s ∈ (rep 1 2 hexDigit).matches') : Scanf.Field 16 256 s := by
  obtain ⟨length, members⟩ := (mem_rep_anyOf (by decide)).mp matched
  exact short_field length (le_refl 16) fun c member => hexDigit_digits c (members c member)

theorem reads_of_mem {base bound : Nat} {sep : UInt8} {field : Pattern} {n : Nat}
    (stop : ¬ Scanf.IsDigit base sep ∧ sep ≠ ch 'x' ∧ sep ≠ ch 'X')
    (fields : ∀ t ∈ field.matches', Scanf.Field base bound t)
    (matched : s ∈ (field * (lit [sep] * field) ^ n).matches') :
    ∃ numbers, Scanf.Reads base (List.replicate n sep) s numbers ∧ ∀ k ∈ numbers, k < bound := by
  obtain ⟨first, one, rest, more, rfl⟩ := mem_mul.mp matched
  obtain ⟨pieces, rfl, rfl, all⟩ := mem_pow.mp more
  apply Scanf.reads_of_fields stop (fields first one)
  intro piece member
  obtain ⟨mark, point, digits, last, rfl⟩ := mem_mul.mp (all piece member)
  rw [mem_lit.mp point]
  exact ⟨digits, rfl, fields digits last⟩

theorem ipv4_written (matched : s ∈ reIpv4.matches') :
    ∃ numbers, Written .ipv4 s numbers ∧ ∀ k ∈ numbers, k < 256 :=
  reads_of_mem (by decide) (fun _ => byte_field) matched

theorem Written.withPrefix {address len : Bytes} {numbers : List Nat} (written : Written .ipv4 address numbers)
    (field : Scanf.Field 10 256 len) : Written .ipv4net (address ++ ch '/' :: len) (numbers ++ [Scanf.number 10 len]) :=
  Scanf.Reads.append written (by decide) (.last field.nonempty field.all)

theorem net_of_mem (matched : s ∈ reIpv4Net.matches') :
    ∃ address len numbers, s = address ++ ch '/' :: len ∧ Written .ipv4 address numbers ∧
      (∀ k ∈ numbers, k < 256) ∧ Scanf.Field 10 256 len := by
  obtain ⟨front, before, len, length, rfl⟩ := mem_mul.mp matched
  obtain ⟨address, given, slash, mark, rfl⟩ := mem_mul.mp before
  obtain ⟨numbers, written, fits⟩ := ipv4_written given
  obtain rfl := mem_lit.mp mark
  exact ⟨address, len, numbers, List.append_assoc _ _ _, written, fits, prefix_field length⟩

theorem written_of_mem {type : VtwType} (numeric : Numeric type) (matched : s ∈ (valuePattern type).matches') :
    ∃ numbers, Written type s numbers ∧ (type ≠ .int → ∀ k ∈ numbers, k < 256) := by
  rcases numeric with rfl | rfl | rfl | rfl
  · obtain ⟨first, one, rest, more, rfl⟩ := mem_mul.mp matched
    obtain ⟨c, inside, rfl⟩ := mem_anyOf.mp one
    refine ⟨_, .last (List.cons_ne_nil _ _) ?_, fun other => absurd rfl other⟩
    intro d member
    rcases List.mem_cons.mp member with rfl | later
    · exact (decDigit_digits d inside).1
    · exact (decDigit_digits d (mem_star_anyOf more d later)).1
  · obtain ⟨numbers, written, fits⟩ := ipv4_written matched
    exact ⟨numbers, written, fun _ => fits⟩
  · obtain ⟨address, len, numbers, rfl, written, fits, field⟩ := net_of_mem matched
    refine ⟨_, written.withPrefix field, fun _ => ?_⟩
    intro k member
    rcases List.mem_append.mp member with inside | last
    · exact fits k inside
    · rw [List.mem_singleton.mp last]
      exact field.fits
  · obtain ⟨numbers, written, fits⟩ := reads_of_mem (by decide) (fun _ => mac_field) matched
    exact ⟨numbers, written, fun _ => fits⟩

end Literals

section Accepted

/-- How `inet_ntop` and `ether_ntoa` write an address, and what `ether_aton` reads. -/
structure AddressLib.Notations (lib : AddressLib) : Prop where
  ntop4 : ∀ (o0 o1 o2 o3 : Nat) (normal : Bytes), o0 < 256 → o1 < 256 → o2 < 256 → o3 < 256 →
    lib.inetNtop4 (((o3 * 256 + o2) * 256 + o1) * 256 + o0) = some normal → Written .ipv4 normal [o0, o1, o2, o3]
  aton : ∀ (mac : Bytes) (numbers : List Nat) (bytes : Bytes), Written .macaddr mac numbers →
    (∀ n ∈ numbers, n < 256) → lib.etherAton mac = some bytes → bytes.map UInt8.toNat = numbers
  ntoa : ∀ bytes : Bytes, bytes.length = 6 → Written .macaddr (lib.etherNtoa bytes) (bytes.map UInt8.toNat)

/-- A literal that one of the lexers takes for a value of a type, and what it puts into the value. -/
inductive Accepted (lib : AddressLib) : VtwType → Bytes → Bytes → Prop where
  | template {type : VtwType} {text : Bytes} : text ∈ (valuePattern type).matches' → Accepted lib type text text
  | value {rule : Flex.Rule UInt8 (Option ValToken)} {type : VtwType} {text val : Bytes} :
    rule ∈ cliValRules lib → text ++ [0] ∈ rule.pattern.matches' →
      rule.action (text ++ [0]) = some (.value type val) → Accepted lib type text val

def normalOf (lib : AddressLib) (type : VtwType) (text : Bytes) : Option Bytes :=
  match type with
  | .int => if 0xffffffff < Scanf.number 10 text then none else some text
  | .macaddr => normalizeEther lib text
  | _ => normalizeIp lib .inet text

variable {lib : AddressLib} {type : VtwType} {text val : Bytes}

theorem not_mem_separators (numeric : Numeric type) : 0 ∉ separators type ∧ ¬ Scanf.IsDigit (baseOf type) 0 := by
  rcases numeric with rfl | rfl | rfl | rfl <;> decide

theorem nul_free_of_mem (numeric : Numeric type) (matched : text ∈ (valuePattern type).matches') : 0 ∉ text := by
  obtain ⟨numbers, written, -⟩ := written_of_mem numeric matched
  obtain ⟨noSep, noDigit⟩ := not_mem_separators numeric
  exact written.not_mem noDigit noSep

theorem mem_valueRule {re : Pattern} {token : Bytes → ValToken} {yytext : Bytes}
    (matched : yytext ∈ (valueRule re token).pattern.matches') : ∃ text ∈ re.matches', yytext = text ++ [0] := by
  obtain ⟨text, given, last, nul, rfl⟩ := mem_mul.mp matched
  rw [mem_lit.mp nul]
  exact ⟨text, given, rfl⟩

theorem normalToken_eq {known : VtwType} {normval : Option Bytes}
    (token : normalToken known normval = .value type val) : known = type ∧ normval = some val := by
  cases normval with
  | none => cases token
  | some normval =>
    obtain ⟨same, rfl⟩ := ValToken.value.inj token
    exact ⟨same, rfl⟩

theorem intToken_eq (token : intToken text = .value type val) : .int = type ∧ normalOf lib .int text = some val := by
  unfold intToken at token
  split at token
  · cases token
  · rename_i fits
    obtain ⟨same, rfl⟩ := ValToken.value.inj token
    exact ⟨same, if_neg fits⟩

theorem normal_of_rule (numeric : Numeric type) {rule : Flex.Rule UInt8 (Option ValToken)}
    (known : rule ∈ cliValRules lib) {yytext : Bytes} (matched : yytext ∈ rule.pattern.matches')
    (action : rule.action yytext = some (.value type val)) :
    ∃ text ∈ (valuePattern type).matches', yytext = text ++ [0] ∧ normalOf lib type text = some val := by
  have other {found : VtwType} (same : found = type) (foreign : ¬ Numeric found) : False := foreign (same ▸ numeric)
  have normal (found : VtwType) {token : Bytes → ValToken}
      (given : yytext ∈ (valueRule (valuePattern found) token).pattern.matches')
      (made : (valueRule (valuePattern found) token).action yytext = some (.value type val))
      (shape : ∀ t, token t = .value type val → found = type ∧ normalOf lib found t = some val) :
      ∃ text ∈ (valuePattern type).matches', yytext = text ++ [0] ∧ normalOf lib type text = some val := by
    obtain ⟨same, value⟩ := shape _ (Option.some.inj made)
    subst same
    obtain ⟨text, inside, rfl⟩ := mem_valueRule given
    rw [cstr_cut (nul_free_of_mem numeric inside)] at value
    exact ⟨text, inside, rfl, value⟩
  simp only [cliValRules, List.mem_cons, List.not_mem_nil, or_false] at known
  rcases known with rfl | rfl | rfl | rfl | rfl | rfl | rfl | rfl | rfl | rfl | rfl | rfl | rfl
  · exact (other (normalToken_eq (Option.some.inj action)).1 (by decide)).elim
  · exact (other (ValToken.value.inj (Option.some.inj action)).1 (by decide)).elim
  · exact (other (ValToken.value.inj (Option.some.inj action)).1 (by decide)).elim
  · exact normal .int matched action fun _ => intToken_eq
  · exact normal .ipv4 matched action fun _ => normalToken_eq
  · exact normal .ipv4net matched action fun _ => normalToken_eq
  · exact (other (normalToken_eq (Option.some.inj action)).1 (by decide)).elim
  · exact (other (normalToken_eq (Option.some.inj action)).1 (by decide)).elim
  · exact normal .macaddr matched action fun _ => normalToken_eq
  · cases action
  · cases action
  · cases action
  · cases action

theorem sscanf_written (numeric : Numeric type) {numbers : List Nat} (written : Written type text numbers) :
    sscanf text (condFormats type) = numbers.map (Scanf.clamp false) := by
  rw [sscanf, (separators_directives numeric).1]
  exact Scanf.scan_reads written

theorem map_clamp {numbers : List Nat} (fits : ∀ k ∈ numbers, k < 256) : numbers.map (Scanf.clamp false) = numbers := by
  have same : ∀ k ∈ numbers, Scanf.clamp false k = id k := by
    intro k member
    have small := fits k member
    exact Scanf.clamp_small (by omega)
  rw [List.map_congr_left same, List.map_id]

variable {numbers : List Nat}

theorem normalizeAddress_written (notations : lib.Notations) (written : Written .ipv4 text numbers)
    (fits : ∀ k ∈ numbers, k < 256) (normal : normalizeAddress lib .inet text = some val) :
    Written .ipv4 val numbers := by
  have read := sscanf_written (by decide) written
  rw [map_clamp fits] at read
  have four : numbers.length = 4 := written.length
  obtain ⟨o0, o1, o2, o3, rfl⟩ := List.length_eq_four.mp four
  have scanned : sscanf text (str "%u.%u.%u.%u") = [o0, o1, o2, o3] := read
  simp only [List.forall_mem_cons, List.not_mem_nil, false_implies, implies_true, and_true] at fits
  have small : o3 ≤ 255 ∧ o2 ≤ 255 ∧ o1 ≤ 255 ∧ o0 ≤ 255 := by omega
  simp only [normalizeAddress, scanned, if_pos small] at normal
  exact notations.ntop4 o0 o1 o2 o3 val fits.1 fits.2.1 fits.2.2.1 fits.2.2.2 normal

theorem slash_free {address : Bytes} (written : Written .ipv4 address numbers) : ch '/' ∉ address :=
  written.not_mem (by decide) (by decide)

theorem createSep_address {address : Bytes} (written : Written .ipv4 address numbers) :
    Argz.createSep address (ch '/') = [address] := by
  have separable : Words.Separable (ch '/') [address] := by
    intro w member
    rw [List.mem_singleton.mp member]
    exact ⟨written.ne_nil, slash_free written⟩
  have split := Argz.createSep_join (List.cons_ne_nil _ _) separable (.inl rfl)
  rwa [Words.join_singleton] at split

theorem createSep_net {address len : Bytes} (written : Written .ipv4 address numbers)
    (field : Scanf.Field 10 256 len) : Argz.createSep (address ++ ch '/' :: len) (ch '/') = [address, len] := by
  have separable : Words.Separable (ch '/') [address, len] := by
    intro w member
    rcases List.mem_cons.mp member with rfl | last
    · exact ⟨written.ne_nil, slash_free written⟩
    · rw [List.mem_singleton.mp last]
      refine ⟨field.nonempty, ?_⟩
      intro inside
      exact absurd (field.all _ inside) (by decide)
  have split := Argz.createSep_join (List.cons_ne_nil _ _) separable (.inl rfl)
  rwa [Words.join_cons _ _ (List.cons_ne_nil _ _), Words.join_singleton] at split

/-- What is put into a value denotes what is denoted by the literal. -/
theorem written_normal (notations : lib.Notations) (numeric : Numeric type)
    (matched : text ∈ (valuePattern type).matches') (normal : normalOf lib type text = some val) :
    ∃ numbers, Written type text numbers ∧ Written type val numbers ∧ (type ≠ .int → ∀ k ∈ numbers, k < 256) := by
  obtain ⟨numbers, written, fits⟩ := written_of_mem numeric matched
  refine ⟨numbers, written, ?_, fits⟩
  rcases numeric with rfl | rfl | rfl | rfl
  · unfold normalOf at normal
    dsimp only at normal
    split at normal
    · cases normal
    · obtain rfl := Option.some.inj normal
      exact written
  · simp only [normalOf, normalizeIp, createSep_address written, Option.map_eq_some_iff] at normal
    obtain ⟨address, found, rfl⟩ := normal
    have kept := normalizeAddress_written notations written (fits (by decide)) found
    rwa [Argz.stringify, List.intercalate_singleton]
  · obtain ⟨address, len, parts, rfl, front, small, field⟩ := net_of_mem matched
    obtain rfl : numbers = parts ++ [Scanf.number 10 len] :=
      (denoted_of_written written).symm.trans (denoted_of_written (front.withPrefix field))
    simp only [normalOf, normalizeIp, createSep_net front field, Option.map_eq_some_iff] at normal
    obtain ⟨normal, found, rfl⟩ := normal
    have kept := normalizeAddress_written notations front small found
    rw [Argz.stringify, List.intercalate_cons_cons, List.intercalate_singleton, List.append_assoc,
      List.singleton_append]
    exact kept.withPrefix field
  · simp only [normalOf, normalizeEther, Option.map_eq_some_iff] at normal
    obtain ⟨bytes, read, rfl⟩ := normal
    have same := notations.aton text numbers bytes written (fits (by decide)) read
    have six : bytes.length = 6 := by
      have count : numbers.length = 6 := written.length
      rwa [← same, List.length_map] at count
    have printed := notations.ntoa bytes six
    rwa [same] at printed

theorem written_of_accepted (notations : lib.Notations) (numeric : Numeric type) (accepted : Accepted lib type text val) :
    ∃ numbers, Written type text numbers ∧ Written type val numbers ∧ (type ≠ .int → ∀ k ∈ numbers, k < 256) := by
  cases accepted with
  | template matched =>
    obtain ⟨numbers, written, fits⟩ := written_of_mem numeric matched
    exact ⟨numbers, written, written, fits⟩
  | value known matched action =>
    obtain ⟨text', inside, same, normal⟩ := normal_of_rule numeric known matched action
    obtain rfl := (List.append_inj' same rfl).1
    exact written_normal notations numeric inside normal

/-- The values that the value lexer delivers are accepted, each for a text in its input. -/
theorem accepted_of_token (numeric : Numeric type) {input : Bytes} (delivered : .value type val ∈ valTokens lib input) :
    ∃ text, text ++ [0] <:+: input ++ [0] ∧ Accepted lib type text val := by
  obtain ⟨token, scanned, made⟩ := List.mem_filterMap.mp delivered
  obtain ⟨rule, known, yytext, inside, matched, action⟩ := Flex.mem_scan scanned
  rw [id_eq] at made
  rw [made] at action
  obtain ⟨text, -, rfl, -⟩ := normal_of_rule numeric known matched action
  exact ⟨text, inside, .value known matched action⟩

end Accepted

section Compared

/-- What `%u` stores: an `unsigned long` stops at its largest value and is then cut to 32 bits. -/
def stored (n : Nat) : Nat := if n < 0x10000000000000000 then n % 0x100000000 else 0xffffffff

/-- The numbers are in the same order after they are stored. -/
def KeepsOrder (a b : Nat) : Prop := compare (stored a) (stored b) = compare a b

theorem clamp_eq_stored (n : Nat) : Scanf.clamp false n = stored n := by
  unfold Scanf.clamp stored Scanf.ulongMax
  by_cases long : 0xffffffffffffffff < n
  · have above : ¬ n < 0x10000000000000000 := by omega
    rw [if_pos long, if_neg above]
  · have below : n < 0x10000000000000000 := by omega
    rw [if_neg long, if_neg Bool.false_ne_true, if_pos below]

theorem keepsOrder_of_fits {a b : Nat} (left : a ≤ 0xffffffff) (right : b ≤ 0xffffffff) : KeepsOrder a b := by
  have kept {n : Nat} (fits : n ≤ 0xffffffff) : stored n = n := by
    unfold stored
    rw [if_pos (by omega)]
    omega
  rw [KeepsOrder, kept left, kept right]

variable {lib : AddressLib} {type : VtwType} {lval rval : Bytes} {left right : List Nat}

theorem compareParts_read {read read' : List Nat} (length : read.length = read'.length) :
    compareParts (readParts read) (readParts read') read.length 0 = signOf (compare read read') := by
  have first := readParts_take read
  have second := readParts_take read'
  rw [← length] at second
  have cut : ((readParts read).zip (readParts read')).take read.length =
    ((readParts read).take read.length).zip ((readParts read').take read.length) := List.take_zipWith
  rw [compareParts, cut, first, second, compareSteps_zip length]

theorem written_int {text : Bytes} {numbers : List Nat} (written : Written .int text numbers) :
    numbers = [Scanf.number 10 text] := by
  have reads : Scanf.Reads 10 [] text numbers := written
  cases reads with
  | last => rfl

theorem cmpValues_written (numeric : Numeric type) (leftWritten : Written type lval left)
    (rightWritten : Written type rval right) :
    cmpValues type (some lval) (some rval) 0 =
      .ok (signOf (compare (left.map (Scanf.clamp false)) (right.map (Scanf.clamp false)))) := by
  have scanned : cmpValues type (some lval) (some rval) 0 = .ok (cmpScanned type lval rval 0) := by
    rcases numeric with rfl | rfl | rfl | rfl <;> rfl
  have leftLength := leftWritten.length
  have rightLength := rightWritten.length
  have leftSome : left.map (Scanf.clamp false) ≠ [] := by
    intro empty
    rw [List.map_eq_nil_iff.mp empty] at leftLength
    cases leftLength
  have rightSome : right.map (Scanf.clamp false) ≠ [] := by
    intro empty
    rw [List.map_eq_nil_iff.mp empty] at rightLength
    cases rightLength
  have parts : condFormatLens type = (left.map (Scanf.clamp false)).length := by
    rw [(separators_directives numeric).2, List.length_map, leftLength]
  have length : (left.map (Scanf.clamp false)).length = (right.map (Scanf.clamp false)).length := by
    rw [List.length_map, List.length_map, leftLength, rightLength]
  rw [scanned, cmpScanned, sscanf_written numeric leftWritten, sscanf_written numeric rightWritten]
  simp only [if_neg leftSome, if_neg rightSome, parts]
  rw [compareParts_read length]

theorem valCmp_written (numeric : Numeric type) (leftWritten : Written type lval left)
    (rightWritten : Written type rval right) (rightPart : Nat) (cond : VtwCond) :
    valCmp rightPart (cliValue type lval) (cliValue type rval) cond =
      .ok (cond.satisfied (compare (left.map (Scanf.clamp false)) (right.map (Scanf.clamp false)))) := by
  have notCounted : ¬ ((cliValue type lval).ismulti = true ∧ cond ≠ .inCond ∧ (cliValue type rval).vals = [] ∧
      (cliValue type rval).valType = .int) := fun counted => Bool.false_ne_true counted.1
  rw [valCmp, if_neg notCounted, ← holds_signOf]
  exact leftLoop_single (cmpValues_written numeric leftWritten rightWritten)

theorem satisfied_inj {order order' : Ordering}
    (same : ∀ cond : VtwCond, cond ≠ .inCond → cond.satisfied order = cond.satisfied order') : order = order' := by
  have equal := same .eqCond (by decide)
  have less := same .ltCond (by decide)
  cases order <;> cases order' <;> first | rfl | exact absurd equal (by decide) | exact absurd less (by decide)

theorem compare_singleton (a b : Nat) : compare [a] [b] = compare a b := by
  rw [List.compare_cons_cons]
  cases compare a b <;> rfl

end Compared

section Notations

def numeral (base n : Nat) : Bytes := (Nat.toDigits base n).map ch

/-- The notations of the C library, without those of an IPv6 address. -/
def numeralLib : AddressLib where
  inetPton6 _ := none
  inetNtop4 s_addr :=
    some (Words.join (ch '.')
      ([s_addr % 256, s_addr / 256 % 256, s_addr / 65536 % 256, s_addr / 16777216 % 256].map (numeral 10)))
  inetNtop6 _ := none
  etherAton mac :=
    let read := sscanf mac (str "%x:%x:%x:%x:%x:%x")
    if read.length = 6 ∧ ∀ n ∈ read, n < 256 then some (read.map Nat.toUInt8) else none
  etherNtoa bytes := Words.join (ch ':') ((bytes.map UInt8.toNat).map (numeral 16))

theorem digit_digitChar : ∀ d < 16, Scanf.digit (ch d.digitChar) = some d := by decide

/-- A printed number is read as itself. -/
theorem numeral_written {base : Nat} (valid : 1 < base ∧ base ≤ 16) (n : Nat) : numeral base n ≠ [] ∧
    (∀ c ∈ numeral base n, Scanf.IsDigit base c) ∧ Scanf.number base (numeral base n) = n := by
  have last : ∀ d < base, Scanf.IsDigit base (ch d.digitChar) :=
    fun d small => ⟨d, digit_digitChar d (by omega), small⟩
  induction n using Nat.strong_induction_on with
  | _ n ih =>
    rcases Nat.lt_or_ge n base with small | large
    · have single : numeral base n = [ch n.digitChar] := by rw [numeral, Nat.toDigits_of_lt_base small, List.map_singleton]
      rw [single, List.forall_mem_singleton]
      refine ⟨by simp, last n small, ?_⟩
      simp [Scanf.number, digit_digitChar n (by omega)]
    · obtain ⟨-, all, value⟩ := ih (n / base) (Nat.div_lt_self (by omega) valid.1)
      have step : numeral base n = numeral base (n / base) ++ [ch (n % base).digitChar] := by
        rw [numeral, Nat.toDigits_of_base_le valid.1 large, List.map_append, List.map_singleton, numeral]
      have small : n % base < base := Nat.mod_lt n (by omega)
      rw [step]
      refine ⟨by simp, ?_, ?_⟩
      · intro c member
        rcases List.mem_append.mp member with front | behind
        · exact all c front
        · rw [List.mem_singleton.mp behind]
          exact last _ small
      · rw [Scanf.number_append, value, List.foldl_cons, List.foldl_nil, digit_digitChar _ (by omega),
          Option.getD_some]
        exact Nat.div_add_mod' n base

theorem reads_numerals {base : Nat} {sep : UInt8} (valid : 1 < base ∧ base ≤ 16)
    (stop : ¬ Scanf.IsDigit base sep ∧ sep ≠ ch 'x' ∧ sep ≠ ch 'X') (first : Nat) (rest : List Nat) :
    Scanf.Reads base (List.replicate rest.length sep) (Words.join sep ((first :: rest).map (numeral base)))
      (first :: rest) := by
  induction rest generalizing first with
  | nil =>
    obtain ⟨nonempty, all, value⟩ := numeral_written valid first
    have read := Scanf.Reads.last nonempty all
    rw [value] at read
    rw [List.map_singleton, Words.join_singleton]
    exact read
  | cons second rest ih =>
    obtain ⟨nonempty, all, value⟩ := numeral_written valid first
    have read := Scanf.Reads.next nonempty all stop (ih second)
    rw [value] at read
    rw [List.map_cons, Words.join_cons _ _ (by simp)]
    exact read

theorem numeralLib_etherAton {mac : Bytes} {numbers : List Nat} (written : Written .macaddr mac numbers)
    (small : ∀ n ∈ numbers, n < 256) : numeralLib.etherAton mac = some (numbers.map Nat.toUInt8) := by
  have scanned : sscanf mac (str "%x:%x:%x:%x:%x:%x") = numbers := by
    rw [← map_clamp small]
    exact sscanf_written (by decide) written
  have six : numbers.length = 6 := written.length
  show (if _ then some (_ : Bytes) else none) = _
  rw [scanned, if_pos ⟨six, small⟩]

theorem numeralLib_notations : numeralLib.Notations where
  ntop4 o0 o1 o2 o3 normal small0 small1 small2 small3 printed := by
    have octets : [(((o3 * 256 + o2) * 256 + o1) * 256 + o0) % 256,
        (((o3 * 256 + o2) * 256 + o1) * 256 + o0) / 256 % 256,
        (((o3 * 256 + o2) * 256 + o1) * 256 + o0) / 65536 % 256,
        (((o3 * 256 + o2) * 256 + o1) * 256 + o0) / 16777216 % 256] = [o0, o1, o2, o3] := by
      simp only [List.cons.injEq, and_true]
      omega
    obtain rfl := Option.some.inj printed
    rw [octets]
    exact reads_numerals (by decide) (by decide) o0 [o1, o2, o3]
  aton mac numbers bytes written small read := by
    rw [numeralLib_etherAton written small] at read
    obtain rfl := Option.some.inj read
    have kept : ∀ n ∈ numbers, (UInt8.toNat ∘ Nat.toUInt8) n = id n := by
      intro n member
      exact Nat.mod_eq_of_lt (small n member)
    rw [List.map_map, List.map_congr_left kept, List.map_id]
  ntoa bytes six := by
    obtain ⟨first, rest, rfl⟩ := List.exists_cons_of_length_pos (by omega : 0 < bytes.length)
    have count : (rest.map UInt8.toNat).length = 5 := by
      rw [List.length_map]
      simpa using six
    have stop : ¬ Scanf.IsDigit 16 (ch ':') ∧ ch ':' ≠ ch 'x' ∧ ch ':' ≠ ch 'X' := by decide
    have read := reads_numerals (by decide) stop first.toNat (rest.map UInt8.toNat)
    rw [count] at read
    exact read

end Notations

end VyattaCfg.Cliexec
