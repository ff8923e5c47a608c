import VyattaCfg.Cliexec.AddressPatterns
import VyattaCfg.Library.Scanf
import VyattaCfg.Library.Words

namespace VyattaCfg.Cliexec

open ByteString Regex

structure H16 where
  text : Bytes
  length : 1 ≤ text.length ∧ text.length ≤ 4
  digits : ∀ c ∈ text, Scanf.IsDigit 16 c

structure Decimal (bound : Nat) where
  text : Bytes
  length : 1 ≤ text.length ∧ text.length ≤ 3
  digits : ∀ c ∈ text, Scanf.IsDigit 10 c
  fits : Scanf.number 10 text ≤ bound

structure Dotted where
  o1 : Decimal 255
  o2 : Decimal 255
  o3 : Decimal 255
  o4 : Decimal 255

def H16.value (group : H16) : Nat := Scanf.number 16 group.text

def Decimal.value {bound : Nat} (decimal : Decimal bound) : Nat := Scanf.number 10 decimal.text

namespace Dotted

variable (dotted : Dotted)

def text : Bytes := Words.join (ch '.') [dotted.o1.text, dotted.o2.text, dotted.o3.text, dotted.o4.text]

def high : Nat := dotted.o1.value * 256 + dotted.o2.value

def low : Nat := dotted.o3.value * 256 + dotted.o4.value

end Dotted

def dottedLen (dotted : Option Dotted) : Nat := if dotted.isSome then 2 else 0

/-- The notation of an address, with what follows the `::` if there is one. -/
structure Ipv6Literal where
  head : List H16
  gap : Option (List H16)
  dotted : Option Dotted
  prefixLen : Option (Decimal 128)
  full : gap = none → head.length + dottedLen dotted = 8
  short : ∀ tail ∈ gap, head.length + tail.length + dottedLen dotted ≤ 7

def groupsText (groups : List H16) (dotted : Option Dotted) : Bytes :=
  Words.join (ch ':') (groups.map H16.text ++ dotted.toList.map Dotted.text)

def groupValues (groups : List H16) (dotted : Option Dotted) : List Nat :=
  groups.map H16.value ++ dotted.toList.flatMap fun dotted => [dotted.high, dotted.low]

def prefixText (prefixLen : Option (Decimal 128)) : Bytes :=
  (prefixLen.map fun decimal => ch '/' :: decimal.text).getD []

namespace Ipv6Literal

variable (literal : Ipv6Literal)

def addressText : Bytes :=
  match literal.gap with
  | none => groupsText literal.head literal.dotted
  | some tail => groupsText literal.head none ++ str "::" ++ groupsText tail literal.dotted

def text : Bytes := literal.addressText ++ prefixText literal.prefixLen

def address : List Nat :=
  match literal.gap with
  | none => groupValues literal.head literal.dotted
  | some tail =>
    groupValues literal.head none ++
      List.replicate (8 - (literal.head.length + tail.length + dottedLen literal.dotted)) 0 ++
      groupValues tail literal.dotted

end Ipv6Literal

section Texts

def colonText (groups : List H16) : Bytes := groups.flatMap fun group => group.text ++ [ch ':']

theorem join_snoc (words : List Bytes) (w : Bytes) :
    Words.join (ch ':') (words ++ [w]) = (words.flatMap fun word => word ++ [ch ':']) ++ w := by
  induction words with
  | nil => exact Words.join_singleton _ w
  | cons word words ih =>
    rw [List.cons_append, Words.join_cons _ _ (by simp), ih, List.flatMap_cons]
    simp

theorem groupsText_snoc (groups : List H16) (group : H16) :
    groupsText (groups ++ [group]) none = colonText groups ++ group.text := by
  rw [groupsText, colonText]
  simp [join_snoc, List.flatMap_map]

theorem groupsText_dotted (groups : List H16) (dotted : Dotted) :
    groupsText groups (some dotted) = colonText groups ++ dotted.text := by
  rw [groupsText, colonText]
  simp [join_snoc, List.flatMap_map]

end Texts

section Numbers

theorem H16.value_lt (group : H16) : group.value < 65536 := by
  have bound := Scanf.number_lt group.digits
  have length := Nat.pow_le_pow_right (n := 16) (by decide) group.length.2
  exact bound.trans_le length

theorem Dotted.high_lt (dotted : Dotted) : dotted.high < 65536 := by
  have first : dotted.o1.value ≤ 255 := dotted.o1.fits
  have second : dotted.o2.value ≤ 255 := dotted.o2.fits
  unfold Dotted.high
  omega

theorem Dotted.low_lt (dotted : Dotted) : dotted.low < 65536 := by
  have third : dotted.o3.value ≤ 255 := dotted.o3.fits
  have fourth : dotted.o4.value ≤ 255 := dotted.o4.fits
  unfold Dotted.low
  omega

theorem groupValues_length (groups : List H16) (dotted : Option Dotted) :
    (groupValues groups dotted).length = groups.length + dottedLen dotted := by
  cases dotted <;> simp [groupValues, dottedLen]

theorem groupValues_lt (groups : List H16) (dotted : Option Dotted) :
    ∀ value ∈ groupValues groups dotted, value < 65536 := by
  intro value member
  rcases List.mem_append.mp member with inGroups | inDotted
  · obtain ⟨group, -, rfl⟩ := List.mem_map.mp inGroups
    exact group.value_lt
  · obtain ⟨dotted, -, here⟩ := List.mem_flatMap.mp inDotted
    rcases List.mem_cons.mp here with rfl | here
    · exact dotted.high_lt
    · rw [List.mem_singleton.mp here]
      exact dotted.low_lt

namespace Ipv6Literal

theorem address_length (literal : Ipv6Literal) : literal.address.length = 8 := by
  unfold address
  split
  · rename_i closed
    rw [groupValues_length, literal.full closed]
  · rename_i tail opened
    have short := literal.short tail opened
    simp only [List.length_append, groupValues_length, List.length_replicate]
    simp only [dottedLen] at short ⊢
    simp
    omega

theorem address_lt (literal : Ipv6Literal) : ∀ value ∈ literal.address, value < 65536 := by
  unfold address
  split
  · exact groupValues_lt _ _
  · intro value member
    rcases List.mem_append.mp member with before | after
    · rcases List.mem_append.mp before with head | zeros
      · exact groupValues_lt _ _ value head
      · rw [List.eq_of_mem_replicate zeros]
        decide
    · exact groupValues_lt _ _ value after

end Ipv6Literal

end Numbers

end VyattaCfg.Cliexec
