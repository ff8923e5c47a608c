import VyattaCfg.Cliexec.AddressPatterns
import VyattaCfg.Cliexec.ValCmp
import VyattaCfg.Library.Argz
import VyattaCfg.Library.Flex

namespace VyattaCfg.Cliexec

open ByteString Regex VyattaCfg.Client

structure AddressLib where
  inetPton6 : Bytes → Option Bytes
  /-- Of an `in_addr` as a number. -/
  inetNtop4 : Nat → Option Bytes
  inetNtop6 : Bytes → Option Bytes
  etherAton : Bytes → Option Bytes
  etherNtoa : Bytes → Bytes

inductive AddressFamily where
  | inet
  | inet6

section Normalize

variable (lib : AddressLib)

def normalizeAddress (af : AddressFamily) (argz : Bytes) : Option Bytes :=
  match af with
  | .inet =>
    match sscanf argz (str "%u.%u.%u.%u") with
    | [a0, a1, a2, a3] =>
      if a3 ≤ 255 ∧ a2 ≤ 255 ∧ a1 ≤ 255 ∧ a0 ≤ 255 then lib.inetNtop4 (((a3 * 256 + a2) * 256 + a1) * 256 + a0)
      else none
    | _ => none
  | .inet6 => (lib.inetPton6 argz).bind lib.inetNtop6

def normalizeIp (af : AddressFamily) (addr : Bytes) : Option Bytes :=
  match Argz.createSep addr (ch '/') with
  -- no rule matches an empty address
  | [] => none
  | oldaddr :: rest => (normalizeAddress lib af oldaddr).map fun s => Argz.stringify (s :: rest) (ch '/')

def normalizeEther (mac : Bytes) : Option Bytes := (lib.etherAton mac).map lib.etherNtoa

end Normalize

/-- What `yy_cli_val_lex` returns before the end of the input, with the type and the text that
    `make_val_value` puts into `cli_value`. -/
inductive ValToken where
  | value (type : VtwType) (val : Bytes)
  | eol
  | syntaxError
  deriving DecidableEq, Repr

/-- `^RE\0` with its action on the text without the NUL. -/
def valueRule (re : Pattern) (token : Bytes → ValToken) : Flex.Rule UInt8 (Option ValToken) :=
  ⟨true, re * lit [0], fun yytext => some (token (cstr yytext))⟩

def normalToken (type : VtwType) (normval : Option Bytes) : ValToken :=
  match normval with
  | none => .syntaxError
  | some normval => .value type normval

/-- The range check of the numbers rule. `strtoll` stops at `LLONG_MAX`, beyond the range. -/
def intToken (yytext : Bytes) : ValToken :=
  if 0xffffffff < Scanf.number 10 yytext then .syntaxError else .value .int yytext

def anyByte : Pattern := anyOf (((List.range 256).map Nat.toUInt8).filter (· ≠ ch '\n'))

/-- The rules of cli_val.l. A rule without a token is for white space. -/
def cliValRules (lib : AddressLib) : List (Flex.Rule UInt8 (Option ValToken)) :=
  [⟨false, lit (str "::"), fun yytext => some (normalToken .ipv6 (normalizeIp lib .inet6 yytext))⟩,
    valueRule (lit (str "true")) (.value .bool),
    valueRule (lit (str "false")) (.value .bool),
    valueRule (decDigit * decDigit.star) intToken,
    valueRule reIpv4 (fun yytext => normalToken .ipv4 (normalizeIp lib .inet yytext)),
    valueRule reIpv4Net (fun yytext => normalToken .ipv4net (normalizeIp lib .inet yytext)),
    valueRule reIpv6 (fun yytext => normalToken .ipv6 (normalizeIp lib .inet6 yytext)),
    valueRule reIpv6Net (fun yytext => normalToken .ipv6net (normalizeIp lib .inet6 yytext)),
    valueRule reMacaddr (fun yytext => normalToken .macaddr (normalizeEther lib yytext)),
    ⟨false, lit (str "\\\n"), fun _ => none⟩,
    ⟨false, anyOf (str " \t") * (anyOf (str " \t")).star, fun _ => none⟩,
    ⟨false, lit (str "\n"), fun _ => some .eol⟩,
    ⟨false, anyByte, fun _ => some .syntaxError⟩]

/-- The tokens of a value, which the lexer reads with its NUL. -/
def valTokens (lib : AddressLib) (value : Bytes) : List ValToken :=
  (Flex.tokens (cliValRules lib) (ch '\n') (value ++ [0])).filterMap id

section Lines

/-- What one rule does with a text: a value rule with a `\0` is at the end of the input. -/
inductive CliValAction (lib : AddressLib) : List UInt8 → Option ValToken → Prop where
  | gap {text : Bytes} : text = str "::" → CliValAction lib text (some (normalToken .ipv6 (normalizeIp lib .inet6 text)))
  | terminated {text : Bytes} (token : ValToken) : 0 ∈ text → CliValAction lib text (some token)
  | space {text : Bytes} : CliValAction lib text none
  | eol {text : Bytes} : CliValAction lib text (some .eol)
  | other {text : Bytes} : CliValAction lib text (some .syntaxError)

theorem cliValRules_action {lib : AddressLib} {rule : Flex.Rule UInt8 (Option ValToken)}
    (known : rule ∈ cliValRules lib) {text : Bytes} (matched : text ∈ rule.pattern.matches') :
    CliValAction lib text (rule.action text) := by
  have ended {re : Pattern} {token : Bytes → ValToken} (given : text ∈ (valueRule re token).pattern.matches') :
      CliValAction lib text ((valueRule re token).action text) := by
    obtain ⟨front, -, last, nul, rfl⟩ := mem_mul.mp given
    rw [mem_lit.mp nul]
    exact .terminated _ (by simp)
  simp only [cliValRules, List.mem_cons, List.not_mem_nil, or_false] at known
  rcases known with rfl | rfl | rfl | rfl | rfl | rfl | rfl | rfl | rfl | rfl | rfl | rfl | rfl
  · exact .gap (mem_lit.mp matched)
  · exact ended matched
  · exact ended matched
  · exact ended matched
  · exact ended matched
  · exact ended matched
  · exact ended matched
  · exact ended matched
  · exact ended matched
  · exact .space
  · exact .space
  · exact .eol
  · exact .other

/-- A value that is not at the end of the input is `::`, the only one that is matched without
    the NUL. -/
theorem scan_value {lib : AddressLib} {fuel : Nat} {atBol : Bool} {u : Bytes} (free : 0 ∉ u) {type : VtwType}
    {val : Bytes} {next : ValToken} {rest : List ValToken}
    (scanned : (Flex.scan (cliValRules lib) (ch '\n') fuel atBol (u ++ [0])).filterMap id =
      .value type val :: next :: rest) :
    type = .ipv6 ∧ normalizeIp lib .inet6 (str "::") = some val := by
  induction fuel generalizing atBol u with
  | zero => cases scanned
  | succ fuel ih =>
    have later {atBol : Bool} {n : Nat} (inside : n ≤ (u ++ [0]).length)
        (scanned : (Flex.scan (cliValRules lib) (ch '\n') fuel atBol ((u ++ [0]).drop n)).filterMap id =
          .value type val :: next :: rest) : type = .ipv6 ∧ normalizeIp lib .inet6 (str "::") = some val := by
      by_cases whole : n ≤ u.length
      · rw [List.drop_append_of_le_length whole] at scanned
        exact ih (fun zero => free (List.mem_of_mem_drop zero)) scanned
      · rw [List.drop_eq_nil_of_le (by rw [List.length_append, List.length_singleton]; omega)] at scanned
        cases fuel <;> cases scanned
    obtain ⟨c, s, split⟩ := List.exists_cons_of_ne_nil (List.append_ne_nil_of_right_ne_nil u (List.cons_ne_nil 0 []))
    rw [split, Flex.scan] at scanned
    cases chosen : Flex.choose atBol (c :: s) (cliValRules lib) with
    | none =>
      simp only [chosen] at scanned
      have tail : s = (u ++ [0]).drop 1 := by rw [split]; rfl
      rw [tail] at scanned
      exact later (by simp) scanned
    | some best =>
      obtain ⟨n, rule⟩ := best
      simp only [chosen] at scanned
      obtain ⟨known, matched⟩ := Flex.choose_matches chosen
      rw [← split] at scanned matched
      have action := cliValRules_action known matched.mem
      generalize token : rule.action ((u ++ [0]).take n) = token at action scanned
      cases action with
      | gap text =>
        rw [text] at scanned
        cases normal : normalizeIp lib .inet6 (str "::") with
        | none =>
          rw [normal] at scanned
          cases scanned
        | some normval =>
          rw [normal] at scanned
          obtain ⟨rfl, rfl⟩ := ValToken.value.inj (List.cons.inj scanned).1
          exact ⟨rfl, rfl⟩
      | terminated token nul =>
        have whole : u.length < n := by
          by_contra short
          rw [List.take_append_of_le_length (by omega)] at nul
          exact free (List.mem_of_mem_take nul)
        rw [List.drop_eq_nil_of_le (by rw [List.length_append, List.length_singleton]; omega)] at scanned
        cases fuel <;> cases scanned
      | space => exact later matched.inside scanned
      | eol => cases scanned
      | other => cases scanned

theorem value_before_more {lib : AddressLib} {value : Bytes} (free : 0 ∉ value) {type : VtwType} {val : Bytes}
    {next : ValToken} {rest : List ValToken} (tokens : valTokens lib value = .value type val :: next :: rest) :
    type = .ipv6 ∧ normalizeIp lib .inet6 (str "::") = some val := scan_value free tokens

end Lines

end VyattaCfg.Cliexec
