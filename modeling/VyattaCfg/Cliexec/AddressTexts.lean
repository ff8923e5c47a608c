import VyattaCfg.Cliexec.Ipv6Grammar
import VyattaCfg.Cliexec.NumericOrder

namespace VyattaCfg.Cliexec

open ByteString Regex VyattaCfg.Client

section Addresses

/-- An `in6_addr`: each group with its high byte first. -/
def in6Addr (address : List Nat) : Bytes := address.flatMap fun group => [(group / 256).toUInt8, (group % 256).toUInt8]

/-- What the text of an address, without a prefix length, stands for. -/
inductive AddressText : VtwType → Bytes → List Nat → Prop where
  | ipv4 {text : Bytes} {octets : List Nat} : Written .ipv4 text octets → (∀ n ∈ octets, n < 256) →
    AddressText .ipv4 text octets
  | ipv4net {text : Bytes} {octets : List Nat} : Written .ipv4 text octets → (∀ n ∈ octets, n < 256) →
    AddressText .ipv4net text octets
  | ipv6 {literal : Ipv6Literal} : literal.prefixLen = none → AddressText .ipv6 literal.text literal.address
  | ipv6net {literal : Ipv6Literal} : literal.prefixLen = none → AddressText .ipv6net literal.text literal.address
  | macaddr {text : Bytes} {bytes : List Nat} : Written .macaddr text bytes → (∀ n ∈ bytes, n < 256) →
    AddressText .macaddr text bytes

/-- A value of a type with the address and the prefix length that it denotes. -/
inductive Denotes (type : VtwType) : Bytes → List Nat → Option Nat → Prop where
  | bare {text : Bytes} {address : List Nat} : type ≠ .ipv4net → type ≠ .ipv6net → AddressText type text address →
    Denotes type text address none
  | net {text len : Bytes} {address : List Nat} : type = .ipv4net ∨ type = .ipv6net → AddressText type text address →
    len ≠ [] → (∀ c ∈ len, Scanf.IsDigit 10 c) →
      Denotes type (text ++ ch '/' :: len) address (some (Scanf.number 10 len))

/-- The text that the action of a type's rule puts into the value. -/
def normalText (lib : AddressLib) (type : VtwType) (text : Bytes) : Option Bytes :=
  match type with
  | .macaddr => normalizeEther lib text
  | .ipv6 | .ipv6net => normalizeIp lib .inet6 text
  | _ => normalizeIp lib .inet text

/-- The same without a prefix length. -/
def normalAddress (lib : AddressLib) (type : VtwType) (text : Bytes) : Option Bytes :=
  match type with
  | .macaddr => normalizeEther lib text
  | .ipv6 | .ipv6net => normalizeAddress lib .inet6 text
  | _ => normalizeAddress lib .inet text

/-- The library reads and prints addresses, and reads what it prints. -/
structure AddressLib.Inverse (lib : AddressLib) : Prop extends lib.Notations where
  pton6 : ∀ (literal : Ipv6Literal) (buf : Bytes), literal.prefixLen = none →
    lib.inetPton6 literal.text = some buf → buf = in6Addr literal.address
  ntop6 : ∀ buf text : Bytes, buf.length = 16 → lib.inetNtop6 buf = some text →
    lib.inetPton6 text = some buf ∧ ∃ literal : Ipv6Literal, literal.prefixLen = none ∧ literal.text = text
  atonNtoa : ∀ bytes : Bytes, bytes.length = 6 → lib.etherAton (lib.etherNtoa bytes) = some bytes

theorem in6Addr_length (address : List Nat) : (in6Addr address).length = 2 * address.length := by
  induction address with
  | nil => rfl
  | cons group address ih =>
    rw [in6Addr, List.flatMap_cons, ← in6Addr, List.length_append, ih, List.length_cons]
    simp only [List.length_cons, List.length_nil]
    omega

theorem in6Addr_inj {left right : List Nat} (small : ∀ n ∈ left, n < 65536) (small' : ∀ n ∈ right, n < 65536)
    (same : in6Addr left = in6Addr right) : left = right := by
  induction left generalizing right with
  | nil =>
    cases right with
    | nil => rfl
    | cons group right => cases same
  | cons group left ih =>
    cases right with
    | nil => cases same
    | cons group' right =>
      rw [List.forall_mem_cons] at small small'
      simp only [in6Addr, List.flatMap_cons, List.cons_append, List.nil_append, List.cons.injEq] at same
      obtain ⟨high, low, rest⟩ := same
      have byte {n : Nat} (fits : n < 256) : n.toUInt8.toNat = n := Nat.mod_eq_of_lt fits
      have upper := congrArg UInt8.toNat high
      have lower := congrArg UInt8.toNat low
      rw [byte (by omega), byte (by omega)] at upper lower
      rw [ih small.2 small'.2 rest]
      have equal : group = group' := by omega
      rw [equal]

/-- The text of a literal determines its address. -/
theorem address_of_text {left right : Ipv6Literal} (bare : left.prefixLen = none) (bare' : right.prefixLen = none)
    (same : left.text = right.text) : left.address = right.address := by
  have apart (literal : Ipv6Literal) (bare : literal.prefixLen = none) : literal.scanned = literal.address := by
    have none : literal.PrefixApart := by
      intro dotted _ decimal given
      rw [bare] at given
      cases given
    rw [(scanned_iff literal).mpr none, Ipv6Literal.denoted, bare]
    exact List.append_nil _
  obtain ⟨parts, scanned, taken⟩ := scanIpv6_text left
  obtain ⟨parts', scanned', taken'⟩ := scanIpv6_text right
  rw [same, scanned'] at scanned
  obtain rfl := Option.some.inj scanned
  rw [bare, apart left bare] at taken
  rw [bare', apart right bare'] at taken'
  exact taken.symm.trans taken'

theorem AddressText.unique {type : VtwType} {text : Bytes} {left right : List Nat}
    (first : AddressText type text left) (second : AddressText type text right) : left = right := by
  have written {type : VtwType} (one : Written type text left) (other : Written type text right) : left = right :=
    (denoted_of_written one).symm.trans (denoted_of_written other)
  cases first with
  | ipv4 one => cases second with | ipv4 other => exact written one other
  | ipv4net one => cases second with | ipv4net other => exact written one other
  | macaddr one => cases second with | macaddr other => exact written one other
  | @ipv6 literal bare =>
    generalize same : literal.text = text at second
    cases second with
    | ipv6 bare' => exact address_of_text bare bare' same
  | @ipv6net literal bare =>
    generalize same : literal.text = text at second
    cases second with
    | ipv6net bare' => exact address_of_text bare bare' same

theorem literal_text_plain {literal : Ipv6Literal} (bare : literal.prefixLen = none) :
    literal.text ≠ [] ∧ ch '/' ∉ literal.text := by
  have matched : literal.text ∈ reIpv6.matches' := mem_of_isAddress ⟨literal, bare, rfl⟩
  constructor
  · intro empty
    rw [empty, ← RegularExpression.rmatch_iff_matches'] at matched
    exact absurd matched (by decide +kernel)
  · have hex (group : H16) : ch '/' ∉ group.text := fun member => absurd (group.digits _ member) (by decide)
    have decimal {bound : Nat} (number : Decimal bound) : ch '/' ∉ number.text :=
      fun member => absurd (number.digits _ member) (by decide)
    have point (dotted : Dotted) : ch '/' ∉ dotted.text := by
      intro member
      rcases Words.mem_join member with same | ⟨w, inside, here⟩
      · exact absurd same (by decide)
      · simp only [List.mem_cons, List.not_mem_nil, or_false] at inside
        rcases inside with rfl | rfl | rfl | rfl
        · exact decimal _ here
        · exact decimal _ here
        · exact decimal _ here
        · exact decimal _ here
    have groups (groups : List H16) (dotted : Option Dotted) : ch '/' ∉ groupsText groups dotted := by
      intro member
      rcases Words.mem_join member with same | ⟨w, inside, here⟩
      · exact absurd same (by decide)
      · rcases List.mem_append.mp inside with inside | inside
        · obtain ⟨group, -, rfl⟩ := List.mem_map.mp inside
          exact hex group here
        · obtain ⟨dotted, -, rfl⟩ := List.mem_map.mp inside
          exact point dotted here
    have none : literal.text = literal.addressText := by
      rw [Ipv6Literal.text, bare]
      exact List.append_nil _
    rw [none, Ipv6Literal.addressText]
    split
    · exact groups _ _
    · rw [List.mem_append, List.mem_append, not_or, not_or]
      exact ⟨⟨groups _ _, by decide⟩, groups _ _⟩

theorem AddressText.plain {type : VtwType} {text : Bytes} {address : List Nat} (given : AddressText type text address) :
    text ≠ [] ∧ ch '/' ∉ text := by
  cases given with
  | ipv4 written | ipv4net written => exact ⟨Scanf.Reads.ne_nil written, slash_free written⟩
  | ipv6 bare | ipv6net bare => exact literal_text_plain bare
  | macaddr written => exact ⟨Scanf.Reads.ne_nil written, written.not_mem (by decide) (by decide)⟩

/-- What is printed for an address. -/
def printed (lib : AddressLib) (type : VtwType) (address : List Nat) : Option Bytes :=
  match type, address with
  | .macaddr, bytes => some (lib.etherNtoa (bytes.map Nat.toUInt8))
  | .ipv6, groups | .ipv6net, groups => lib.inetNtop6 (in6Addr groups)
  | _, [a0, a1, a2, a3] => lib.inetNtop4 (((a3 * 256 + a2) * 256 + a1) * 256 + a0)
  | _, _ => none

variable {lib : AddressLib} {text normal : Bytes} {address : List Nat}

theorem normalizeAddress_inet (written : Written .ipv4 text address) (fits : ∀ n ∈ address, n < 256) :
    normalizeAddress lib .inet text = printed lib .ipv4 address := by
  have read := sscanf_written (by decide) written
  rw [map_clamp fits] at read
  have four : address.length = 4 := written.length
  obtain ⟨o0, o1, o2, o3, rfl⟩ := List.length_eq_four.mp four
  have scanned : sscanf text (str "%u.%u.%u.%u") = [o0, o1, o2, o3] := read
  simp only [List.forall_mem_cons, List.not_mem_nil, false_implies, implies_true, and_true] at fits
  have small : o3 ≤ 255 ∧ o2 ≤ 255 ∧ o1 ≤ 255 ∧ o0 ≤ 255 := by omega
  simp only [normalizeAddress, scanned, if_pos small]
  rfl

/-- An IPv4 address is printed from its octets, and the text has the same octets again. -/
theorem inet_normal (inverse : lib.Inverse) (written : Written .ipv4 text address) (fits : ∀ n ∈ address, n < 256)
    (found : normalizeAddress lib .inet text = some normal) :
    printed lib .ipv4 address = some normal ∧ Written .ipv4 normal address ∧
      normalizeAddress lib .inet normal = some normal := by
  have again := normalizeAddress_written inverse.toNotations written fits found
  have print := (normalizeAddress_inet written fits).symm.trans found
  exact ⟨print, again, (normalizeAddress_inet again fits).trans print⟩

theorem inet6_normal (inverse : lib.Inverse) {literal : Ipv6Literal} (bare : literal.prefixLen = none)
    (found : normalizeAddress lib .inet6 literal.text = some normal) :
    lib.inetNtop6 (in6Addr literal.address) = some normal ∧
      (∃ other : Ipv6Literal, other.prefixLen = none ∧ other.text = normal ∧ other.address = literal.address) ∧
      normalizeAddress lib .inet6 normal = some normal := by
  obtain ⟨buf, read, print⟩ := Option.bind_eq_some_iff.mp found
  have bytes := inverse.pton6 literal buf bare read
  have sixteen : buf.length = 16 := by rw [bytes, in6Addr_length, literal.address_length]
  obtain ⟨reread, other, bare', text⟩ := inverse.ntop6 buf normal sixteen print
  have bytes' := inverse.pton6 other buf bare' (by rw [text, reread])
  have same := in6Addr_inj other.address_lt literal.address_lt (bytes'.symm.trans bytes)
  refine ⟨bytes ▸ print, ⟨other, bare', text, same⟩, ?_⟩
  rw [normalizeAddress, reread]
  exact print

theorem ether_normal (inverse : lib.Inverse) (written : Written .macaddr text address) (fits : ∀ n ∈ address, n < 256)
    (found : normalizeEther lib text = some normal) :
    printed lib .macaddr address = some normal ∧ Written .macaddr normal address ∧
      normalizeEther lib normal = some normal := by
  obtain ⟨bytes, read, print⟩ := Option.map_eq_some_iff.mp found
  have same := inverse.aton text address bytes written fits read
  have six : bytes.length = 6 := by
    have count : address.length = 6 := written.length
    rwa [← same, List.length_map] at count
  have again := inverse.ntoa bytes six
  rw [same, print] at again
  refine ⟨?_, again, ?_⟩
  · have back : (bytes.map UInt8.toNat).map Nat.toUInt8 = bytes := by
      rw [List.map_map]
      exact List.map_id'' (fun b => UInt8.ofNat_toNat) bytes
    rw [printed, ← same, back, print]
  · rw [normalizeEther, ← print, inverse.atonNtoa bytes six]
    rfl

/-- The address is normalised by what it stands for, and kept. -/
theorem normalAddress_spec (inverse : lib.Inverse) {type : VtwType} (given : AddressText type text address)
    (found : normalAddress lib type text = some normal) :
    printed lib type address = some normal ∧ AddressText type normal address ∧
      normalAddress lib type normal = some normal := by
  cases given with
  | ipv4 written fits =>
    obtain ⟨print, again, same⟩ := inet_normal inverse written fits found
    exact ⟨print, .ipv4 again fits, same⟩
  | ipv4net written fits =>
    obtain ⟨print, again, same⟩ := inet_normal inverse written fits found
    have four : address.length = 4 := written.length
    obtain ⟨o0, o1, o2, o3, rfl⟩ := List.length_eq_four.mp four
    exact ⟨print, .ipv4net again fits, same⟩
  | ipv6 bare =>
    obtain ⟨print, ⟨other, bare', text, address⟩, same⟩ := inet6_normal inverse bare found
    exact ⟨print, text ▸ address ▸ .ipv6 bare', same⟩
  | ipv6net bare =>
    obtain ⟨print, ⟨other, bare', text, address⟩, same⟩ := inet6_normal inverse bare found
    exact ⟨print, text ▸ address ▸ .ipv6net bare', same⟩
  | macaddr written fits =>
    obtain ⟨print, again, same⟩ := ether_normal inverse written fits found
    exact ⟨print, .macaddr again fits, same⟩

end Addresses

section Values

variable {lib : AddressLib} {type : VtwType} {text len : Bytes} {address : List Nat}

theorem createSep_bare (plain : text ≠ [] ∧ ch '/' ∉ text) : Argz.createSep text (ch '/') = [text] := by
  have separable : Words.Separable (ch '/') [text] := by
    intro w member
    rw [List.mem_singleton.mp member]
    exact plain
  have split := Argz.createSep_join (List.cons_ne_nil _ _) separable (.inl rfl)
  rwa [Words.join_singleton] at split

theorem createSep_prefixed (plain : text ≠ [] ∧ ch '/' ∉ text) (plain' : len ≠ [] ∧ ch '/' ∉ len) :
    Argz.createSep (text ++ ch '/' :: len) (ch '/') = [text, len] := by
  have separable : Words.Separable (ch '/') [text, len] := by
    intro w member
    rcases List.mem_cons.mp member with rfl | last
    · exact plain
    · rw [List.mem_singleton.mp last]
      exact plain'
  have split := Argz.createSep_join (List.cons_ne_nil _ _) separable (.inl rfl)
  rwa [Words.join_cons _ _ (List.cons_ne_nil _ _), Words.join_singleton] at split

theorem decimal_plain (nonempty : len ≠ []) (digits : ∀ c ∈ len, Scanf.IsDigit 10 c) : len ≠ [] ∧ ch '/' ∉ len :=
  ⟨nonempty, fun member => absurd (digits _ member) (by decide)⟩

theorem normalIp_bare (af : AddressFamily) (plain : text ≠ [] ∧ ch '/' ∉ text) :
    normalizeIp lib af text = normalizeAddress lib af text := by
  have same : (fun s : Bytes => Argz.stringify [s] (ch '/')) = id := by
    funext s
    exact List.intercalate_singleton
  simp only [normalizeIp, createSep_bare plain, same, Option.map_id, id_eq]

theorem normalIp_prefixed (af : AddressFamily) (plain : text ≠ [] ∧ ch '/' ∉ text)
    (plain' : len ≠ [] ∧ ch '/' ∉ len) : normalizeIp lib af (text ++ ch '/' :: len) =
      (normalizeAddress lib af text).map fun s => s ++ ch '/' :: len := by
  have same : (fun s : Bytes => Argz.stringify [s, len] (ch '/')) = fun s => s ++ ch '/' :: len := by
    funext s
    rw [Argz.stringify, List.intercalate_cons_cons, List.intercalate_singleton, List.append_assoc]
    rfl
  simp only [normalizeIp, createSep_prefixed plain plain', same]

theorem normalText_bare (given : AddressText type text address) :
    normalText lib type text = normalAddress lib type text := by
  have plain := given.plain
  cases given with
  | ipv4 | ipv4net => exact normalIp_bare .inet plain
  | ipv6 | ipv6net => exact normalIp_bare .inet6 plain
  | macaddr => rfl

theorem normalText_prefixed (given : AddressText type text address) (net : type = .ipv4net ∨ type = .ipv6net)
    (plain' : len ≠ [] ∧ ch '/' ∉ len) : normalText lib type (text ++ ch '/' :: len) =
      (normalAddress lib type text).map fun s => s ++ ch '/' :: len := by
  rcases net with rfl | rfl
  · exact normalIp_prefixed .inet given.plain plain'
  · exact normalIp_prefixed .inet6 given.plain plain'

/-- The value is normalised, stays so, and denotes the same. -/
theorem normalText_kept (inverse : lib.Inverse) {normal : Bytes} {prefixLen : Option Nat}
    (denotes : Denotes type text address prefixLen) (found : normalText lib type text = some normal) :
    Denotes type normal address prefixLen ∧ normalText lib type normal = some normal := by
  cases denotes with
  | bare bare4 bare6 given =>
    rw [normalText_bare given] at found
    obtain ⟨-, again, same⟩ := normalAddress_spec inverse given found
    exact ⟨.bare bare4 bare6 again, (normalText_bare again).trans same⟩
  | net kind given nonempty digits =>
    have plain' := decimal_plain nonempty digits
    rw [normalText_prefixed given kind plain'] at found
    obtain ⟨front, made, rfl⟩ := Option.map_eq_some_iff.mp found
    obtain ⟨-, again, same⟩ := normalAddress_spec inverse given made
    refine ⟨.net kind again nonempty digits, ?_⟩
    rw [normalText_prefixed again kind plain', same]
    rfl

end Values

end VyattaCfg.Cliexec
