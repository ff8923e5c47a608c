import VyattaCfg.Cliexec.Ipv6Literal
import VyattaCfg.Cliexec.ScanIpv6

namespace VyattaCfg.Cliexec

open ByteString

def filled (written : List Nat) : List Nat := written ++ List.replicate (9 - written.length) 0

theorem filled_length {written : List Nat} (fits : written.length ≤ 9) : (filled written).length = 9 := by
  rw [filled, List.length_append, List.length_replicate]
  omega

theorem filled_set {done : List Nat} (inside : done.length < 9) (left : List Nat) (n : Nat) :
    (filled (done ++ left)).set done.length n = filled (done ++ n :: left.tail) := by
  cases left with
  | nil =>
    have zeros : 9 - done.length = (9 - (done.length + 1)) + 1 := by omega
    simp only [filled, List.append_nil, List.tail_nil, List.length_append, List.length_singleton]
    rw [zeros, List.replicate_succ, List.set_append_right _ _ (le_refl _), Nat.sub_self, List.set_cons_zero]
    simp
  | cons x left =>
    simp only [filled, List.tail_cons, List.append_assoc, List.length_append, List.length_cons, List.cons_append]
    rw [List.set_append_right _ _ (le_refl _), Nat.sub_self, List.set_cons_zero]

theorem filled_getD (done left : List Nat) (x : Nat) : (filled (done ++ x :: left)).getD done.length 0 = x := by
  simp [filled]

theorem lower_digit {c : UInt8} {d : Nat} (found : Scanf.digit c = some d) (scan : Ipv6Scan) :
    scan.digit c = { scan with num := scan.num * scan.base + d } := by
  have small : c < 128 := by
    apply UInt8.lt_iff_toNat_lt.mpr
    show c.toNat < 128
    rcases Scanf.digit_eq_some found with range | range | range <;> omega
  have decimal : (ch '0' ≤ c ∧ c ≤ ch '9') ↔ 48 ≤ c.toNat ∧ c.toNat ≤ 57 := by
    rw [UInt8.le_iff_toNat_le, UInt8.le_iff_toNat_le]
    rfl
  have upper : (ch 'A' ≤ c ∧ c ≤ ch 'Z') ↔ 65 ≤ c.toNat ∧ c.toNat ≤ 90 := by
    rw [UInt8.le_iff_toNat_le, UInt8.le_iff_toNat_le]
    rfl
  unfold Ipv6Scan.digit Ipv6Scan.lower
  simp only [decimal, upper, if_pos small]
  rcases Scanf.digit_eq_some found with ⟨low, high, rfl⟩ | ⟨low, high, rfl⟩ | ⟨low, high, rfl⟩
  · have notUpper : ¬ (65 ≤ c.toNat ∧ c.toNat ≤ 90) := by omega
    rw [if_pos ⟨low, high⟩, if_neg notUpper]
    congr 1
    omega
  · have notDecimal : ¬ (48 ≤ c.toNat ∧ c.toNat ≤ 57) := by omega
    have notUpper : ¬ (65 ≤ c.toNat ∧ c.toNat ≤ 90) := by omega
    rw [if_neg notDecimal, if_neg notUpper]
    congr 1
    omega
  · have notDecimal : ¬ (48 ≤ c.toNat ∧ c.toNat ≤ 57) := by omega
    have isUpper : 65 ≤ c.toNat ∧ c.toNat ≤ 90 := by omega
    rw [if_neg notDecimal, if_pos isUpper]
    congr 1
    omega

def totalOf (prefixLen : Option (Decimal 128)) : Nat := if prefixLen.isSome then 9 else 8

/-- What the scan has at the end of a dotted tail: with a prefix length, that is taken for one
    more octet. -/
def dottedNumbers (dotted : Dotted) : Option (Decimal 128) → List Nat
  | none => [dotted.high, dotted.low]
  | some decimal => [dotted.high, dotted.low * 256 + decimal.value]

def dottedLeft (dotted : Dotted) : Option (Decimal 128) → Nat
  | none => dotted.o4.value
  | some decimal => decimal.value

namespace Ipv6Scan

/-- The scan behind the numbers of `done`. What a merge left over stands behind them. -/
def after (done left : List Nat) (num : Nat) (pos : Option Nat) (dotCnt base total : Nat) : Ipv6Scan :=
  ⟨filled (done ++ left), num, done.length, pos, dotCnt, base, total⟩

variable {done left : List Nat} {num : Nat} {pos : Option Nat} {dotCnt base total : Nat} {c : UInt8} {rest : Bytes}

theorem toUnsigned_cast {n : Nat} (fits : n < 0x100000000) : toUnsigned (n : Int) = n := by
  unfold toUnsigned
  omega

theorem close_after (inside : done.length < 9) (fits : num < 0x100000000)
    (plain : ¬ (dotCnt = 2 ∨ (dotCnt = 3 ∧ (c = 0 ∨ c = ch '/')))) (size : (done ++ left).length ≤ 9) :
    (after done left num pos dotCnt base total).close c =
      some (after (done ++ [num]) left.tail 0 pos dotCnt base total) := by
  have bound : ¬ (filled (done ++ left)).length ≤ done.length := by
    rw [filled_length size]
    omega
  unfold close after
  simp only [if_neg bound, if_neg plain, toUnsigned_cast fits, filled_set inside, List.length_append,
    List.length_singleton, List.append_assoc, List.singleton_append]
  rfl

theorem close_merged {a : Nat} (inside : done.length < 8) (fits : a * 256 + num < 0x100000000)
    (merges : dotCnt = 2 ∨ (dotCnt = 3 ∧ (c = 0 ∨ c = ch '/'))) (size : (done ++ [a] ++ left).length ≤ 9) :
    (after (done ++ [a]) left num pos dotCnt base total).close c =
      some (after (done ++ [a * 256 + num]) (num :: left.tail) 0 pos dotCnt base total) := by
  have index : (done ++ [a]).length = done.length + 1 := by simp
  have within : (done ++ [a]).length < 9 := by omega
  have bound : ¬ (filled (done ++ [a] ++ left)).length ≤ (done ++ [a]).length := by
    rw [filled_length size]
    omega
  have written := filled_set within left num
  have before : (filled (done ++ [a] ++ num :: left.tail)).getD done.length 0 = a := by
    rw [List.append_assoc, List.singleton_append, filled_getD]
  have here : (filled (done ++ [a] ++ num :: left.tail)).getD (done ++ [a]).length 0 = num := filled_getD _ _ _
  have inside : done.length < 9 := by omega
  have last := filled_set inside (a :: num :: left.tail) (a * 256 + num)
  have small : num < 0x100000000 := by omega
  unfold close after
  simp only [if_neg bound, if_pos merges, toUnsigned_cast small, written, here]
  rw [index, Nat.add_sub_cancel, before, Nat.mod_eq_of_lt fits, List.append_assoc, List.singleton_append, last]
  simp

theorem loop_cons {scan : Ipv6Scan} (alone : ¬ (c = ch ':' ∧ rest.head? = some (ch ':'))) :
    loop (c :: rest) scan = (scan.step c).bind fun scan => loop rest scan := by
  cases rest with
  | nil =>
    rw [loop]
    simp only [loop]
  | cons d rest =>
    have apart : ¬ (c = ch ':' ∧ d = ch ':') := fun both => alone ⟨both.1, congrArg some both.2⟩
    rw [loop, if_neg apart]

theorem loop_gap {scan : Ipv6Scan} :
    loop (str "::" ++ rest) scan = (scan.gapHere.close (ch ':')).bind fun scan => loop rest scan := by
  show loop (ch ':' :: ch ':' :: rest) scan = _
  rw [loop, if_pos ⟨rfl, rfl⟩]

theorem step_digit {d : Nat} (found : Scanf.digit c = some d) (scan : Ipv6Scan) :
    scan.step c = some { scan with num := scan.num * scan.base + d } := by
  have stop : ∀ s ∈ str ".:/", c ≠ s := by
    rintro s member rfl
    revert found
    rcases (by simpa [str] using member : c = ch '.' ∨ c = ch ':' ∨ c = ch '/') with rfl | rfl | rfl <;> decide +revert
  rw [step, if_neg (stop _ (by decide)), if_neg (stop _ (by decide)), if_neg (stop _ (by decide)), lower_digit found]

theorem loop_digits {text : Bytes} (digits : ∀ b ∈ text, Scanf.IsDigit 16 b) :
    loop (text ++ rest) (after done left num pos dotCnt base total) =
      loop rest (after done left (text.foldl (fun n b => n * base + (Scanf.digit b).getD 0) num) pos dotCnt base
        total) := by
  induction text generalizing num with
  | nil => rfl
  | cons b text ih =>
    rw [List.forall_mem_cons] at digits
    obtain ⟨⟨d, found, -⟩, others⟩ := digits
    have digit : b ≠ ch ':' := by
      rintro rfl
      exact absurd found (by decide +revert)
    rw [List.cons_append, loop_cons fun both => digit both.1, step_digit found, Option.bind_some, List.foldl_cons,
      found, Option.getD_some, ← ih others]
    rfl

theorem loop_number {text : Bytes} {base : Nat} (digits : ∀ b ∈ text, Scanf.IsDigit 16 b) :
    loop (text ++ rest) (after done left 0 pos dotCnt base total) =
      loop rest (after done left (Scanf.number base text) pos dotCnt base total) := loop_digits digits

section Groups

theorem digits_head {text : Bytes} (nonempty : 1 ≤ text.length) (digits : ∀ b ∈ text, Scanf.IsDigit 16 b)
    (notDigit : ¬ Scanf.IsDigit 16 c) : (text ++ rest).head? ≠ some c := by
  obtain ⟨b, others, rfl⟩ := List.exists_cons_of_ne_nil (List.ne_nil_of_length_pos nonempty)
  intro same
  obtain rfl : b = c := Option.some.inj same
  exact notDigit (digits b List.mem_cons_self)

theorem h16_head (group : H16) (notDigit : ¬ Scanf.IsDigit 16 c) : (group.text ++ rest).head? ≠ some c :=
  digits_head group.length.1 group.digits notDigit

theorem colonText_head (groups : List H16) (next : rest.head? ≠ some (ch ':')) :
    (colonText groups ++ rest).head? ≠ some (ch ':') := by
  cases groups with
  | nil => exact next
  | cons group groups =>
    rw [colonText, List.flatMap_cons, List.append_assoc, List.append_assoc]
    exact h16_head group (by decide)

theorem loop_colon (next : rest.head? ≠ some (ch ':')) (inside : done.length < 9) (fits : num < 0x100000000) :
    loop (ch ':' :: rest) (after done [] num pos 0 base total) =
      loop rest (after (done ++ [num]) [] 0 pos 0 base total) := by
  have size : (done ++ []).length ≤ 9 := by
    rw [List.append_nil]
    omega
  have closed : (after done [] num pos 0 base total).close (ch ':') =
      some (after (done ++ [num]) [] 0 pos 0 base total) := close_after inside fits (by decide) size
  rw [loop_cons fun both => next both.2]
  show ((after done [] num pos 0 base total).close (ch ':')).bind _ = _
  rw [closed]
  rfl

theorem loop_colons (groups : List H16) (next : rest.head? ≠ some (ch ':')) (inside : done.length + groups.length ≤ 8) :
    loop (colonText groups ++ rest) (after done [] 0 pos 0 16 8) =
      loop rest (after (done ++ groups.map H16.value) [] 0 pos 0 16 8) := by
  induction groups generalizing done with
  | nil => simp [colonText]
  | cons group groups ih =>
    rw [List.length_cons] at inside
    have value : group.value < 0x100000000 := group.value_lt.trans (by decide)
    have first : (done ++ [group.value]).length + groups.length ≤ 8 := by
      rw [List.length_append, List.length_singleton]
      omega
    calc loop (colonText (group :: groups) ++ rest) (after done [] 0 pos 0 16 8)
        = loop (group.text ++ ch ':' :: (colonText groups ++ rest)) (after done [] 0 pos 0 16 8) := by
          simp [colonText]
      _ = loop (ch ':' :: (colonText groups ++ rest)) (after done [] group.value pos 0 16 8) :=
          loop_number group.digits
      _ = loop (colonText groups ++ rest) (after (done ++ [group.value]) [] 0 pos 0 16 8) :=
          loop_colon (colonText_head groups next) (by omega) value
      _ = loop rest (after (done ++ group.value :: groups.map H16.value) [] 0 pos 0 16 8) := by
          rw [ih first, List.append_assoc, List.singleton_append]

end Groups

section Ends

theorem decimal_digits {bound : Nat} (decimal : Decimal bound) : ∀ b ∈ decimal.text, Scanf.IsDigit 16 b :=
  fun b member => (decimal.digits b member).mono (by decide)

theorem loop_decimal {bound : Nat} (decimal : Decimal bound) :
    loop (decimal.text ++ rest) (after done left 0 pos dotCnt 10 total) =
      loop rest (after done left decimal.value pos dotCnt 10 total) := loop_number (decimal_digits decimal)

theorem loop_end (inside : done.length < 9) (fits : num < 0x100000000) (size : (done ++ left).length ≤ 9)
    (plain : dotCnt ≠ 2 ∧ dotCnt ≠ 3) :
    loop [] (after done left num pos dotCnt base total) =
      some (after (done ++ [num]) left.tail 0 pos dotCnt base total) := by
  rw [loop]
  exact close_after inside fits (by omega) size

theorem loop_end_merged {a : Nat} (inside : done.length < 8) (fits : a * 256 + num < 0x100000000)
    (size : (done ++ [a] ++ left).length ≤ 9) :
    loop [] (after (done ++ [a]) left num pos 3 base total) =
      some (after (done ++ [a * 256 + num]) (num :: left.tail) 0 pos 3 base total) := by
  rw [loop]
  exact close_merged inside fits (.inr ⟨rfl, .inl rfl⟩) size

theorem loop_slash : loop (ch '/' :: rest) (after done left num pos dotCnt base total) =
    ((after done left num pos dotCnt 10 9).close (ch '/')).bind fun scan => loop rest scan := by
  rw [loop_cons fun both => absurd both.1 (by decide)]
  rfl

theorem loop_number_end {text : Bytes} (digits : ∀ b ∈ text, Scanf.IsDigit 16 b)
    (fits : Scanf.number 16 text < 0x100000000) (inside : done.length ≤ 7) (prefixLen : Option (Decimal 128)) :
    ∃ base, loop (text ++ prefixText prefixLen) (after done [] 0 pos 0 16 8) =
      some (after (done ++ Scanf.number 16 text :: (prefixLen.map Decimal.value).toList) [] 0 pos 0 base
        (totalOf prefixLen)) := by
  have size : (done ++ []).length ≤ 9 := by
    rw [List.append_nil]
    omega
  cases prefixLen with
  | none =>
    refine ⟨16, ?_⟩
    rw [loop_number digits]
    exact loop_end (by omega) fits size (by decide)
  | some decimal =>
    have bound : decimal.value ≤ 128 := decimal.fits
    have length : (done ++ [Scanf.number 16 text]).length = done.length + 1 := by simp
    have wider : (done ++ [Scanf.number 16 text] ++ []).length ≤ 9 := by
      rw [List.append_nil, length]
      omega
    have ended : loop (decimal.text ++ []) (after (done ++ [Scanf.number 16 text]) [] 0 pos 0 10 9) =
        loop [] (after (done ++ [Scanf.number 16 text]) [] decimal.value pos 0 10 9) := loop_decimal decimal
    refine ⟨10, ?_⟩
    rw [loop_number digits]
    show loop (ch '/' :: decimal.text) _ = _
    rw [loop_slash, close_after (by omega) fits (by decide) size, Option.bind_some, List.tail_nil,
      ← List.append_nil decimal.text, ended, loop_end (by omega) (by omega) wider (by decide)]
    simp [totalOf]

end Ends

section Dots

theorem reread {text : Bytes} (length : text.length ≤ 3) (digits : ∀ b ∈ text, Scanf.IsDigit 10 b) :
    Scanf.number 16 text / 256 * 100 + Scanf.number 16 text % 256 / 16 * 10 + Scanf.number 16 text % 16 =
      Scanf.number 10 text := by
  have value : ∀ b ∈ text, (Scanf.digit b).getD 0 < 10 := by
    intro b member
    obtain ⟨d, found, bound⟩ := digits b member
    rw [found]
    exact bound
  match text with
  | [] => rfl
  | [a] =>
    have first := value a (by simp)
    simp only [Scanf.number, List.foldl_cons, List.foldl_nil]
    omega
  | [a, b] =>
    have first := value a (by simp)
    have second := value b (by simp)
    simp only [Scanf.number, List.foldl_cons, List.foldl_nil]
    omega
  | [a, b, c] =>
    have first := value a (by simp)
    have second := value b (by simp)
    have third := value c (by simp)
    simp only [Scanf.number, List.foldl_cons, List.foldl_nil]
    omega
  | _ :: _ :: _ :: _ :: _ =>
    simp only [List.length_cons] at length
    omega

theorem step_dot (scan : Ipv6Scan) : scan.step (ch '.') = scan.dot.close (ch '.') := rfl

theorem dot_later (later : dotCnt ≠ 0) :
    (after done left num pos dotCnt base total).dot = after done left num pos (dotCnt + 1) base total := by
  unfold dot after
  rw [if_neg later]

theorem dot_first {octet : Decimal 255} :
    (after done left (Scanf.number 16 octet.text) pos 0 16 total).dot =
      after done left octet.value pos 1 10 total := by
  have known := reread octet.length.2 octet.digits
  have cast (n : Nat) : (n : Int).tdiv 256 * 100 + ((n : Int).tmod 256).tdiv 16 * 10 + (n : Int).tmod 16 =
      ((n / 256 * 100 + n % 256 / 16 * 10 + n % 16 : Nat) : Int) := rfl
  unfold dot after
  simp only [if_true, cast, known, Decimal.value]
  rfl

variable (octet : Decimal 255)

theorem octet_lt : octet.value < 0x100000000 := octet.fits.trans_lt (by decide)

theorem loop_first_octet (inside : done.length < 9) :
    loop (octet.text ++ ch '.' :: rest) (after done [] 0 pos 0 16 total) =
      loop rest (after (done ++ [octet.value]) [] 0 pos 1 10 total) := by
  have size : (done ++ []).length ≤ 9 := by
    rw [List.append_nil]
    omega
  rw [loop_number (decimal_digits octet), loop_cons fun both => absurd both.1 (by decide), step_dot, dot_first,
    close_after inside (octet_lt octet) (by decide) size]
  rfl

theorem loop_second_octet {a : Nat} (inside : done.length < 8) (fits : a ≤ 255) :
    loop (octet.text ++ ch '.' :: rest) (after (done ++ [a]) [] 0 pos 1 10 total) =
      loop rest (after (done ++ [a * 256 + octet.value]) [octet.value] 0 pos 2 10 total) := by
  have bound : octet.value ≤ 255 := octet.fits
  have size : (done ++ [a] ++ []).length ≤ 9 := by
    rw [List.append_nil, List.length_append, List.length_singleton]
    omega
  rw [loop_decimal octet, loop_cons fun both => absurd both.1 (by decide), step_dot,
    dot_later (by decide)]
  show ((after (done ++ [a]) [] octet.value pos 2 10 total).close (ch '.')).bind _ = _
  rw [close_merged inside (by omega) (.inl rfl) size]
  rfl

theorem loop_third_octet (inside : done.length < 9) (size : (done ++ left).length ≤ 9) :
    loop (octet.text ++ ch '.' :: rest) (after done left 0 pos 2 10 total) =
      loop rest (after (done ++ [octet.value]) left.tail 0 pos 3 10 total) := by
  rw [loop_decimal octet, loop_cons fun both => absurd both.1 (by decide), step_dot,
    dot_later (by decide)]
  show ((after done left octet.value pos 3 10 total).close (ch '.')).bind _ = _
  rw [close_after inside (octet_lt octet) (by decide) size]
  rfl

theorem loop_last_octet {a : Nat} (inside : done.length < 8) (fits : a ≤ 255) (prefixLen : Option (Decimal 128)) :
    loop (octet.text ++ prefixText prefixLen) (after (done ++ [a]) [] 0 pos 3 10 8) =
      match prefixLen with
      | none => some (after (done ++ [a * 256 + octet.value]) [octet.value] 0 pos 3 10 8)
      | some decimal => some (after (done ++ [(a * 256 + octet.value) * 256 + decimal.value]) [decimal.value] 0 pos 3
          10 9) := by
  have bound : octet.value ≤ 255 := octet.fits
  have size : (done ++ [a] ++ []).length ≤ 9 := by
    rw [List.append_nil, List.length_append, List.length_singleton]
    omega
  rw [loop_decimal octet]
  cases prefixLen with
  | none => exact loop_end_merged inside (by omega) size
  | some decimal =>
    have plen : decimal.value ≤ 128 := decimal.fits
    have wider : (done ++ [a * 256 + octet.value] ++ [octet.value]).length ≤ 9 := by
      simp only [List.length_append, List.length_singleton]
      omega
    have merged : (after (done ++ [a]) [] octet.value pos 3 10 9).close (ch '/') =
        some (after (done ++ [a * 256 + octet.value]) [octet.value] 0 pos 3 10 9) :=
      close_merged inside (by omega) (.inr ⟨rfl, .inr rfl⟩) size
    have ended : loop (decimal.text ++ []) (after (done ++ [a * 256 + octet.value]) [octet.value] 0 pos 3 10 9) =
        loop [] (after (done ++ [a * 256 + octet.value]) [octet.value] decimal.value pos 3 10 9) :=
      loop_decimal decimal
    show loop (ch '/' :: decimal.text) (after (done ++ [a]) [] octet.value pos 3 10 8) = _
    rw [loop_slash, merged, Option.bind_some, ← List.append_nil decimal.text, ended]
    exact loop_end_merged inside (by omega) wider

theorem loop_dotted (dotted : Dotted) (inside : done.length ≤ 6) (prefixLen : Option (Decimal 128)) :
    ∃ base, loop (dotted.text ++ prefixText prefixLen) (after done [] 0 pos 0 16 8) =
      some (after (done ++ dottedNumbers dotted prefixLen) [dottedLeft dotted prefixLen] 0 pos 3 base
        (totalOf prefixLen)) := by
  refine ⟨10, ?_⟩
  have first : dotted.o1.value ≤ 255 := dotted.o1.fits
  have third : dotted.o3.value ≤ 255 := dotted.o3.fits
  have size : (done ++ [dotted.high] ++ [dotted.o2.value]).length ≤ 9 := by
    simp only [List.length_append, List.length_singleton]
    omega
  have room : (done ++ [dotted.high]).length < 8 := by
    rw [List.length_append, List.length_singleton]
    omega
  have text : dotted.text ++ prefixText prefixLen =
      dotted.o1.text ++ ch '.' :: (dotted.o2.text ++ ch '.' :: (dotted.o3.text ++ ch '.' ::
        (dotted.o4.text ++ prefixText prefixLen))) := by
    simp [Dotted.text, Words.join, List.intercalate_cons_cons]
  rw [text, loop_first_octet _ (by omega), loop_second_octet _ (by omega) first]
  show loop _ (after (done ++ [dotted.high]) [dotted.o2.value] 0 pos 2 10 8) = _
  rw [loop_third_octet _ (by omega) size, List.tail_cons, loop_last_octet _ room third]
  cases prefixLen <;> simp [dottedNumbers, dottedLeft, totalOf, Dotted.low]

end Dots

end Ipv6Scan

end VyattaCfg.Cliexec
