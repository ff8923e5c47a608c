import Mathlib.Algebra.Group.Nat.Defs
import Mathlib.Data.List.Induction
import VyattaCfg.Library.Bytes

namespace Scanf

open ByteString

section Digits

def digit (c : UInt8) : Option Nat :=
  if ch '0' ≤ c ∧ c ≤ ch '9' then some (c.toNat - 48)
  else if ch 'a' ≤ c ∧ c ≤ ch 'f' then some (c.toNat - 87)
  else if ch 'A' ≤ c ∧ c ≤ ch 'F' then some (c.toNat - 55)
  else none

def IsDigit (base : Nat) (c : UInt8) : Prop := ∃ d ∈ digit c, d < base

instance (base : Nat) (c : UInt8) : Decidable (IsDigit base c) :=
  inferInstanceAs (Decidable (∃ d ∈ digit c, d < base))

def number (base : Nat) (s : Bytes) : Nat := s.foldl (fun n c => n * base + (digit c).getD 0) 0

theorem number_append (base : Nat) (s t : Bytes) :
    number base (s ++ t) = t.foldl (fun n c => n * base + (digit c).getD 0) (number base s) := by
  rw [number, List.foldl_append, number]

theorem number_lt {base : Nat} {s : Bytes} (digits : ∀ c ∈ s, IsDigit base c) :
    number base s < base ^ s.length := by
  induction s using List.reverseRecOn with
  | nil => exact Nat.one_pos
  | append_singleton s c ih =>
    obtain ⟨d, found, bound⟩ := digits c (by simp)
    have before := ih fun b member => digits b (List.mem_append_left _ member)
    rw [number_append, List.foldl_cons, List.foldl_nil, found, Option.getD_some, List.length_append,
      List.length_singleton, Nat.pow_succ]
    calc number base s * base + d < number base s * base + base := Nat.add_lt_add_left bound _
      _ = (number base s + 1) * base := by rw [Nat.add_mul, Nat.one_mul]
      _ ≤ base ^ s.length * base := Nat.mul_le_mul_right base before

theorem digit_eq_some {c : UInt8} {d : Nat} (found : digit c = some d) :
    (48 ≤ c.toNat ∧ c.toNat ≤ 57 ∧ d = c.toNat - 48) ∨ (97 ≤ c.toNat ∧ c.toNat ≤ 102 ∧ d = c.toNat - 87) ∨
      (65 ≤ c.toNat ∧ c.toNat ≤ 70 ∧ d = c.toNat - 55) := by
  unfold digit at found
  split at found
  · rename_i range
    exact .inl ⟨range.1, range.2, (Option.some.inj found).symm⟩
  · split at found
    · rename_i range
      exact .inr (.inl ⟨range.1, range.2, (Option.some.inj found).symm⟩)
    · split at found
      · rename_i range
        exact .inr (.inr ⟨range.1, range.2, (Option.some.inj found).symm⟩)
      · cases found

theorem IsDigit.mono {base wider : Nat} {c : UInt8} (isDigit : IsDigit base c) (le : base ≤ wider) :
    IsDigit wider c := by
  obtain ⟨d, found, bound⟩ := isDigit
  exact ⟨d, found, by omega⟩

end Digits

/-- What a format asks for: a number in a base, or a byte as it is. -/
inductive Directive where
  | unsigned (base : Nat)
  | literal (byte : UInt8)
  deriving DecidableEq, Repr

def directives : Bytes → List Directive
  | [] => []
  | [c] => [.literal c]
  | c :: d :: rest =>
    if c = ch '%' ∧ d = ch 'u' then .unsigned 10 :: directives rest
    else if c = ch '%' ∧ d = ch 'x' then .unsigned 16 :: directives rest
    else .literal c :: directives (d :: rest)

def isSpace (c : UInt8) : Bool := c = ch ' ' ∨ ch '\t' ≤ c ∧ c ≤ ch '\r'

def splitSign : Bytes → Bool × Bytes
  | [] => (false, [])
  | c :: rest =>
    if c = ch '-' then (true, rest) else if c = ch '+' then (false, rest) else (false, c :: rest)

def skipHexMark : Bytes → Bytes
  | c :: d :: rest => if c = ch '0' ∧ (d = ch 'x' ∨ d = ch 'X') then rest else c :: d :: rest
  | s => s

def ulongMax : Nat := 0xffffffffffffffff

/-- An `unsigned long`, then cut to an `unsigned int`. -/
def clamp (negative : Bool) (magnitude : Nat) : Nat :=
  (if ulongMax < magnitude then ulongMax
    else if negative then (ulongMax + 1 - magnitude) % (ulongMax + 1)
    else magnitude) % 0x100000000

/-- One conversion: the number and what follows it. -/
def readUnsigned (base : Nat) (s : Bytes) : Option (Nat × Bytes) :=
  let (negative, unsigned) := splitSign (s.dropWhile isSpace)
  let body := if base = 16 then skipHexMark unsigned else unsigned
  match body.takeWhile (IsDigit base ·) with
  | [] => none
  | digits => some (clamp negative (number base digits), body.dropWhile (IsDigit base ·))

/-- The numbers that a format reads off a text, up to the first thing that does not match. -/
def scan : List Directive → Bytes → List Nat
  | [], _ => []
  | .unsigned base :: rest, s =>
    match readUnsigned base s with
    | none => []
    | some (n, after) => n :: scan rest after
  | .literal byte :: rest, s =>
    match s with
    | [] => []
    | c :: after => if c = byte then scan rest after else []

section Reading

theorem isSpace_false_of_isDigit {base : Nat} {c : UInt8} (isDigit : IsDigit base c) : isSpace c = false := by
  obtain ⟨d, found, -⟩ := isDigit
  have range := digit_eq_some found
  have notBlank : c ≠ ch ' ' := by
    intro blank
    have value : c.toNat = 32 := congrArg UInt8.toNat blank
    omega
  have notControl : ¬ (ch '\t' ≤ c ∧ c ≤ ch '\r') := by
    intro control
    have high : c.toNat ≤ 13 := control.2
    omega
  simp [isSpace, notBlank, notControl]

theorem splitSign_of_isDigit {base : Nat} {c : UInt8} (isDigit : IsDigit base c) (rest : Bytes) :
    splitSign (c :: rest) = (false, c :: rest) := by
  obtain ⟨d, found, -⟩ := isDigit
  have range := digit_eq_some found
  have notMinus : c ≠ ch '-' := by
    intro minus
    have value : c.toNat = 45 := congrArg UInt8.toNat minus
    omega
  have notPlus : c ≠ ch '+' := by
    intro plus
    have value : c.toNat = 43 := congrArg UInt8.toNat plus
    omega
  rw [splitSign, if_neg notMinus, if_neg notPlus]

theorem ne_hexMark_of_isDigit {base : Nat} {c : UInt8} (isDigit : IsDigit base c) : c ≠ ch 'x' ∧ c ≠ ch 'X' := by
  obtain ⟨d, found, -⟩ := isDigit
  have range := digit_eq_some found
  constructor
  · intro mark
    have value : c.toNat = 120 := congrArg UInt8.toNat mark
    omega
  · intro mark
    have value : c.toNat = 88 := congrArg UInt8.toNat mark
    omega

theorem skipHexMark_of_next {c : UInt8} {rest : Bytes} (next : ∀ d ∈ rest.head?, d ≠ ch 'x' ∧ d ≠ ch 'X') :
    skipHexMark (c :: rest) = c :: rest := by
  cases rest with
  | nil => rfl
  | cons d rest =>
    have unmarked := next d rfl
    simp [skipHexMark, unmarked]

theorem takeWhile_digits {base : Nat} {digits rest : Bytes} (all : ∀ c ∈ digits, IsDigit base c)
    (stop : ∀ c ∈ rest.head?, ¬ IsDigit base c) :
    (digits ++ rest).takeWhile (IsDigit base ·) = digits ∧ (digits ++ rest).dropWhile (IsDigit base ·) = rest := by
  have inside : ∀ c ∈ digits, decide (IsDigit base c) = true := fun c member => decide_eq_true (all c member)
  rw [List.takeWhile_append_of_pos inside, List.dropWhile_append_of_pos inside]
  cases rest with
  | nil => simp
  | cons c rest =>
    have ended := stop c rfl
    simp [ended]

/-- A run of digits is read up to its end, whatever its length. -/
theorem readUnsigned_run {base : Nat} {digits rest : Bytes}
    (nonempty : digits ≠ []) (all : ∀ c ∈ digits, IsDigit base c)
    (stop : ∀ c ∈ rest.head?, ¬ IsDigit base c ∧ c ≠ ch 'x' ∧ c ≠ ch 'X') :
    readUnsigned base (digits ++ rest) = some (clamp false (number base digits), rest) := by
  obtain ⟨c, later, rfl⟩ := List.exists_cons_of_ne_nil nonempty
  have first := all c List.mem_cons_self
  have noBlank : (c :: (later ++ rest)).dropWhile isSpace = c :: (later ++ rest) := by
    rw [List.dropWhile_cons, isSpace_false_of_isDigit first]
    rfl
  have unmarked : skipHexMark (c :: (later ++ rest)) = c :: (later ++ rest) := by
    apply skipHexMark_of_next
    intro d next
    cases later with
    | nil => exact (stop d next).2
    | cons d' later =>
      obtain rfl := Option.some.inj next
      exact ne_hexMark_of_isDigit (all d' (by simp))
  have body : (if base = 16 then skipHexMark (c :: (later ++ rest)) else c :: (later ++ rest)) =
      c :: later ++ rest := by
    rw [unmarked, ite_self, List.cons_append]
  obtain ⟨taken, dropped⟩ := takeWhile_digits all fun d next => (stop d next).1
  unfold readUnsigned
  rw [List.cons_append, noBlank, splitSign_of_isDigit first]
  simp only [body, taken, dropped]

theorem clamp_small {n : Nat} (small : n < 0x100000000) : clamp false n = n := by
  have inLong : ¬ ulongMax < n := by
    unfold ulongMax
    omega
  rw [clamp, if_neg inLong]
  exact Nat.mod_eq_of_lt small

/-- A number that is followed by something that no longer belongs to it is read as it is. -/
theorem readUnsigned_digits {base : Nat} {digits rest : Bytes}
    (nonempty : digits ≠ []) (all : ∀ c ∈ digits, IsDigit base c)
    (stop : ∀ c ∈ rest.head?, ¬ IsDigit base c ∧ c ≠ ch 'x' ∧ c ≠ ch 'X')
    (small : number base digits < 0x100000000) :
    readUnsigned base (digits ++ rest) = some (number base digits, rest) := by
  rw [readUnsigned_run nonempty all stop, clamp_small small]

end Reading

section Fields

/-- The text is made of these numbers, with these separators between them. -/
inductive Reads (base : Nat) : List UInt8 → Bytes → List Nat → Prop where
  | last {digits : Bytes} (nonempty : digits ≠ []) (all : ∀ c ∈ digits, IsDigit base c) :
      Reads base [] digits [number base digits]
  | next {digits : Bytes} {sep : UInt8} {seps : List UInt8} {text : Bytes} {numbers : List Nat}
      (nonempty : digits ≠ []) (all : ∀ c ∈ digits, IsDigit base c)
      (stop : ¬ IsDigit base sep ∧ sep ≠ ch 'x' ∧ sep ≠ ch 'X') (rest : Reads base seps text numbers) :
      Reads base (sep :: seps) (digits ++ sep :: text) (number base digits :: numbers)

/-- The format that asks for numbers with these separators. -/
def separated (base : Nat) : List UInt8 → List Directive
  | [] => [.unsigned base]
  | sep :: seps => .unsigned base :: .literal sep :: separated base seps

variable {base : Nat} {seps : List UInt8} {text : Bytes} {numbers : List Nat}

theorem scan_reads (reads : Reads base seps text numbers) :
    scan (separated base seps) text = numbers.map (clamp false) := by
  induction reads with
  | @last digits nonempty all =>
    have noRest : ∀ c ∈ ([] : Bytes).head?, ¬ IsDigit base c ∧ c ≠ ch 'x' ∧ c ≠ ch 'X' := nofun
    have read := readUnsigned_run nonempty all noRest
    rw [List.append_nil] at read
    rw [separated, scan, read]
    rfl
  | @next digits sep seps text numbers nonempty all stop rest ih =>
    have first : ∀ c ∈ (sep :: text).head?, ¬ IsDigit base c ∧ c ≠ ch 'x' ∧ c ≠ ch 'X' := by
      intro c next
      obtain rfl := Option.some.inj next
      exact stop
    rw [separated, scan, readUnsigned_run nonempty all first]
    dsimp only
    rw [scan, if_pos rfl, ih, List.map_cons]

theorem Reads.length (reads : Reads base seps text numbers) : numbers.length = seps.length + 1 := by
  induction reads with
  | last => rfl
  | next _ _ _ _ ih => rw [List.length_cons, List.length_cons, ih]

/-- The numbers are those of the runs of digits. -/
theorem Reads.splitOnP (reads : Reads base seps text numbers) :
    (text.splitOnP fun c => !decide (IsDigit base c)).map (number base) = numbers := by
  induction reads with
  | @last digits nonempty all =>
    have inside : ∀ c ∈ digits, (!decide (IsDigit base c)) = false := by
      intro c member
      simp [all c member]
    rw [List.splitOnP_eq_singleton inside]
    rfl
  | @next digits sep seps text numbers nonempty all stop rest ih =>
    have inside : ∀ c ∈ digits, (!decide (IsDigit base c)) = false := by
      intro c member
      simp [all c member]
    have outside : (!decide (IsDigit base sep)) = true := by
      simp [stop.1]
    rw [List.splitOnP_append_cons_of_forall_mem inside sep outside, List.map_cons, ih]

theorem Reads.append {sep : UInt8} {seps' : List UInt8} {text' : Bytes} {numbers' : List Nat}
    (reads : Reads base seps text numbers) (stop : ¬ IsDigit base sep ∧ sep ≠ ch 'x' ∧ sep ≠ ch 'X')
    (rest : Reads base seps' text' numbers') :
    Reads base (seps ++ sep :: seps') (text ++ sep :: text') (numbers ++ numbers') := by
  induction reads with
  | last nonempty all => exact .next nonempty all stop rest
  | next nonempty all stop' _ ih =>
    rw [List.append_assoc, List.cons_append, List.cons_append, List.cons_append]
    exact .next nonempty all stop' ih

theorem Reads.not_mem (reads : Reads base seps text numbers) {c : UInt8} (noDigit : ¬ IsDigit base c)
    (noSep : c ∉ seps) : c ∉ text := by
  induction reads with
  | last _ all => exact fun member => noDigit (all c member)
  | next _ all _ _ ih =>
    rw [List.mem_cons, not_or] at noSep
    intro member
    rcases List.mem_append.mp member with inside | later
    · exact noDigit (all c inside)
    · rcases List.mem_cons.mp later with same | rest
      · exact noSep.1 same
      · exact ih noSep.2 rest

theorem Reads.ne_nil (reads : Reads base seps text numbers) : text ≠ [] := by
  cases reads with
  | last nonempty _ => exact nonempty
  | next => simp

/-- A number of its own that stays below a bound. -/
structure Field (base bound : Nat) (digits : Bytes) : Prop where
  nonempty : digits ≠ []
  all : ∀ c ∈ digits, IsDigit base c
  fits : number base digits < bound

/-- Fields with the same separator before each of them but the first. -/
theorem reads_of_fields {bound : Nat} {sep : UInt8} {first : Bytes} {pieces : List Bytes}
    (stop : ¬ IsDigit base sep ∧ sep ≠ ch 'x' ∧ sep ≠ ch 'X') (front : Field base bound first)
    (fields : ∀ piece ∈ pieces, ∃ digits, piece = sep :: digits ∧ Field base bound digits) :
    ∃ numbers, Reads base (List.replicate pieces.length sep) (first ++ pieces.flatten) numbers ∧
      ∀ n ∈ numbers, n < bound := by
  induction pieces generalizing first with
  | nil =>
    rw [List.flatten_nil, List.append_nil]
    exact ⟨_, .last front.nonempty front.all, List.forall_mem_singleton.mpr front.fits⟩
  | cons piece pieces ih =>
    rw [List.forall_mem_cons] at fields
    obtain ⟨digits, rfl, field⟩ := fields.1
    obtain ⟨numbers, reads, fits⟩ := ih field fields.2
    refine ⟨_, .next front.nonempty front.all stop reads, ?_⟩
    exact List.forall_mem_cons.mpr ⟨front.fits, fits⟩

end Fields

end Scanf
