import VyattaCfg.Library.Bytes

namespace Percent

open ByteString

abbrev mark : UInt8 := ch '%'

abbrev cr : UInt8 := 13

abbrev lf : UInt8 := 10

/-- The bytes that are never escaped: letters, digits and `-._~`. -/
def unreserved (b : UInt8) : Bool :=
  (ch 'a' ≤ b ∧ b ≤ ch 'z') ∨ (ch 'A' ≤ b ∧ b ≤ ch 'Z') ∨ (ch '0' ≤ b ∧ b ≤ ch '9') ∨
    b ∈ str "-._~"

def hexDigit (n : UInt8) : UInt8 := if n < 10 then ch '0' + n else ch 'A' + (n - 10)

def hexValue (b : UInt8) : Option UInt8 :=
  if ch '0' ≤ b ∧ b ≤ ch '9' then some (b - ch '0')
  else if ch 'A' ≤ b ∧ b ≤ ch 'F' then some (b - ch 'A' + 10)
  else if ch 'a' ≤ b ∧ b ≤ ch 'f' then some (b - ch 'a' + 10)
  else none

def triplet (b : UInt8) : Bytes := [mark, hexDigit (b / 16), hexDigit (b % 16)]

def tripletValue (b high low : UInt8) : Option UInt8 :=
  if b = mark then do
    let h ← hexValue high
    let l ← hexValue low
    some (h * 16 + l)
  else none

/-- Every line break, LF, CR or CRLF, becomes CRLF. -/
def normalizeBreaks (afterCr : Bool) : Bytes → Bytes
  | [] => []
  | b :: rest =>
    if b = cr then cr :: lf :: normalizeBreaks true rest
    else if b = lf then
      if afterCr then normalizeBreaks false rest else cr :: lf :: normalizeBreaks false rest
    else b :: normalizeBreaks false rest

def escapeByte (b : UInt8) : Bytes := if unreserved b then [b] else triplet b

/-- Percent-encoding, after which only the line breaks are normalised ones. -/
def escape (s : Bytes) : Bytes := (normalizeBreaks false s).flatMap escapeByte

/-- A triplet becomes its byte; a `%` that starts no triplet stays. -/
def unescape : Bytes → Bytes
  | [] => []
  | [b] => [b]
  | [b, c] => [b, c]
  | b :: high :: low :: rest =>
    match tripletValue b high low with
    | some value => value :: unescape rest
    | none => b :: unescape (high :: low :: rest)

theorem hexValue_hexDigit (n : UInt8) (small : n < 16) : hexValue (hexDigit n) = some n := by
  have all : ∀ n : Fin 16, hexValue (hexDigit (UInt8.ofNat n)) = some (UInt8.ofNat n) := by decide
  have bound : n.toNat < 16 := by simpa [UInt8.lt_iff_toNat_lt] using small
  simpa using all ⟨n.toNat, bound⟩

theorem unreserved_hexDigit (n : UInt8) (small : n < 16) : unreserved (hexDigit n) := by
  have all : ∀ n : Fin 16, unreserved (hexDigit (UInt8.ofNat n)) = true := by decide
  have bound : n.toNat < 16 := by simpa [UInt8.lt_iff_toNat_lt] using small
  simpa using all ⟨n.toNat, bound⟩

theorem high_lt (b : UInt8) : b / 16 < 16 := by
  have bound := b.toNat_lt
  simp only [UInt8.lt_iff_toNat_lt, UInt8.toNat_div, UInt8.reduceToNat]
  omega

theorem low_lt (b : UInt8) : b % 16 < 16 := by
  simp only [UInt8.lt_iff_toNat_lt, UInt8.toNat_mod, UInt8.reduceToNat]
  omega

theorem tripletValue_triplet (b : UInt8) :
    tripletValue mark (hexDigit (b / 16)) (hexDigit (b % 16)) = some b := by
  have whole : b / 16 * 16 + b % 16 = b := by
    apply UInt8.toNat.inj
    have bound := b.toNat_lt
    simp only [UInt8.toNat_add, UInt8.toNat_mul, UInt8.toNat_div, UInt8.toNat_mod, UInt8.reduceToNat]
    omega
  simp [tripletValue, hexValue_hexDigit _ (high_lt b), hexValue_hexDigit _ (low_lt b), whole]

theorem unescape_triplet (b : UInt8) (rest : Bytes) : unescape (triplet b ++ rest) = b :: unescape rest := by
  simp [triplet, unescape, tripletValue_triplet]

theorem unescape_plain {b : UInt8} (plain : b ≠ mark) (rest : Bytes) :
    unescape (b :: rest) = b :: unescape rest := by
  match rest with
  | [] => rfl
  | [_] => rfl
  | _ :: _ :: _ => simp [unescape, tripletValue, plain]

theorem ne_mark_of_unreserved {b : UInt8} (kept : unreserved b) : b ≠ mark := by
  intro given
  subst given
  exact absurd kept (by decide)

theorem unescape_escapeByte (b : UInt8) (rest : Bytes) :
    unescape (escapeByte b ++ rest) = b :: unescape rest := by
  by_cases kept : unreserved b
  · rw [escapeByte, if_pos kept]
    exact unescape_plain (ne_mark_of_unreserved kept) rest
  · rw [escapeByte, if_neg kept]
    exact unescape_triplet b rest

theorem unescape_flatMap (s : Bytes) : unescape (s.flatMap escapeByte) = s := by
  induction s with
  | nil => rfl
  | cons b s ih => rw [List.flatMap_cons, unescape_escapeByte, ih]

theorem unescape_escape (s : Bytes) : unescape (escape s) = normalizeBreaks false s :=
  unescape_flatMap _

theorem mem_escapeByte {b c : UInt8} (member : c ∈ escapeByte b) : unreserved c ∨ c = mark := by
  by_cases kept : unreserved b
  · rw [escapeByte, if_pos kept, List.mem_singleton] at member
    exact .inl (member ▸ kept)
  · simp only [escapeByte, if_neg kept, triplet, List.mem_cons, List.not_mem_nil, or_false] at member
    rcases member with rfl | rfl | rfl
    · exact .inr rfl
    · exact .inl (unreserved_hexDigit _ (high_lt b))
    · exact .inl (unreserved_hexDigit _ (low_lt b))

theorem mem_escape {s : Bytes} {c : UInt8} (member : c ∈ escape s) : unreserved c ∨ c = mark := by
  rw [escape, List.mem_flatMap] at member
  rcases member with ⟨b, _, member⟩
  exact mem_escapeByte member

theorem not_mem_escape {c : UInt8} (reserved : unreserved c = false) (other : c ≠ mark) (s : Bytes) :
    c ∉ escape s := by
  intro member
  rcases mem_escape member with kept | same
  · simp [reserved] at kept
  · exact other same

theorem normalizeBreaks_cr (afterCr : Bool) (rest : Bytes) :
    normalizeBreaks afterCr (cr :: rest) = cr :: lf :: normalizeBreaks true rest := by
  simp [normalizeBreaks]

theorem normalizeBreaks_lf (afterCr : Bool) (rest : Bytes) : normalizeBreaks afterCr (lf :: rest) =
    if afterCr then normalizeBreaks false rest else cr :: lf :: normalizeBreaks false rest := by
  have differs : lf ≠ cr := by decide
  simp [normalizeBreaks, differs]

theorem normalizeBreaks_plain {b : UInt8} (notCr : b ≠ cr) (notLf : b ≠ lf) (afterCr : Bool) (rest : Bytes) :
    normalizeBreaks afterCr (b :: rest) = b :: normalizeBreaks false rest := by
  simp [normalizeBreaks, notCr, notLf]

theorem normalizeBreaks_nil_iff (s : Bytes) : normalizeBreaks false s = [] ↔ s = [] := by
  cases s with
  | nil => simp [normalizeBreaks]
  | cons b s =>
    by_cases isCr : b = cr
    · simp [isCr, normalizeBreaks_cr]
    · by_cases isLf : b = lf
      · simp [isLf, normalizeBreaks_lf]
      · simp [normalizeBreaks_plain isCr isLf]

theorem escape_nil_iff (s : Bytes) : escape s = [] ↔ s = [] := by
  constructor
  · intro empty
    rw [← normalizeBreaks_nil_iff, ← unescape_escape, empty, unescape]
  · intro given
    subst given
    rfl

theorem normalizeBreaks_nul_free {s : Bytes} (free : 0 ∉ s) (afterCr : Bool) :
    0 ∉ normalizeBreaks afterCr s := by
  have breakFree : (0 : UInt8) ≠ cr ∧ (0 : UInt8) ≠ lf := by decide
  induction s generalizing afterCr with
  | nil => simp [normalizeBreaks]
  | cons b s ih =>
    rw [List.mem_cons, not_or] at free
    by_cases isCr : b = cr
    · simp [isCr, normalizeBreaks_cr, breakFree, ih free.2]
    · by_cases isLf : b = lf
      · cases afterCr <;> simp [isLf, normalizeBreaks_lf, breakFree, ih free.2]
      · simp [normalizeBreaks_plain isCr isLf, free.1, ih free.2]

/-- Behind a CR that is already there, the normal form of what follows needs its LF first. -/
theorem normalizeBreaks_idempotent (afterCr : Bool) (s : Bytes) :
    normalizeBreaks false (normalizeBreaks afterCr s) = normalizeBreaks afterCr s := by
  induction s generalizing afterCr with
  | nil => rfl
  | cons b s ih =>
    by_cases isCr : b = cr
    · simp [isCr, normalizeBreaks_cr, normalizeBreaks_lf, ih]
    · by_cases isLf : b = lf
      · cases afterCr <;> simp [isLf, normalizeBreaks_cr, normalizeBreaks_lf, ih]
      · simp [normalizeBreaks_plain isCr isLf, ih]

theorem length_normalizeBreaks (afterCr : Bool) (s : Bytes) :
    s.length ≤ (normalizeBreaks afterCr s).length + if afterCr then 1 else 0 := by
  induction s generalizing afterCr with
  | nil => simp
  | cons b s ih =>
    have behind := ih true
    have fresh := ih false
    simp only [if_true, Bool.false_eq_true, if_false, Nat.add_zero] at behind fresh
    by_cases isCr : b = cr
    · rw [isCr, normalizeBreaks_cr]
      simp only [List.length_cons]
      omega
    · by_cases isLf : b = lf
      · rw [isLf, normalizeBreaks_lf]
        cases afterCr <;> simp <;> omega
      · rw [normalizeBreaks_plain isCr isLf]
        simp only [List.length_cons]
        omega

theorem length_flatMap_escapeByte (s : Bytes) : s.length ≤ (s.flatMap escapeByte).length := by
  induction s with
  | nil => simp
  | cons b s ih =>
    have one : 1 ≤ (escapeByte b).length := by
      unfold escapeByte
      split <;> simp [triplet]
    rw [List.flatMap_cons, List.length_append, List.length_cons]
    omega

theorem length_escape (s : Bytes) : s.length ≤ (escape s).length := by
  have normal := length_normalizeBreaks false s
  simp only [Bool.false_eq_true, if_false, Nat.add_zero] at normal
  exact normal.trans (length_flatMap_escapeByte _)

/-- A text that needs no escape. -/
def Plain (s : Bytes) : Prop := ∀ b ∈ s, unreserved b

instance (s : Bytes) : Decidable (Plain s) := inferInstanceAs (Decidable (∀ b ∈ s, unreserved b))

theorem plain_of_normalizeBreaks {s : Bytes} (plain : Plain (normalizeBreaks false s)) : Plain s := by
  induction s with
  | nil => exact fun _ member => nomatch member
  | cons b s ih =>
    have breakReserved : ¬ unreserved cr := by decide
    by_cases isCr : b = cr
    · rw [isCr, normalizeBreaks_cr] at plain
      exact absurd (plain cr List.mem_cons_self) breakReserved
    · by_cases isLf : b = lf
      · rw [isLf, normalizeBreaks_lf] at plain
        exact absurd (plain cr (by simp)) breakReserved
      · rw [normalizeBreaks_plain isCr isLf] at plain
        intro c member
        rcases List.mem_cons.mp member with rfl | member
        · exact plain _ List.mem_cons_self
        · exact ih (fun d inside => plain d (List.mem_cons_of_mem _ inside)) c member

theorem escape_of_plain {s : Bytes} (plain : Plain s) : escape s = s := by
  induction s with
  | nil => rfl
  | cons b s ih =>
    have kept : unreserved b := plain b List.mem_cons_self
    have notCr : b ≠ cr := fun same => absurd (same ▸ kept) (by decide)
    have notLf : b ≠ lf := fun same => absurd (same ▸ kept) (by decide)
    have rest := ih fun c member => plain c (List.mem_cons_of_mem _ member)
    rw [escape] at rest
    rw [escape, normalizeBreaks_plain notCr notLf, List.flatMap_cons, rest, escapeByte, if_pos kept]
    rfl

theorem plain_of_plain_escape {s : Bytes} (plain : Plain (escape s)) : Plain s := by
  apply plain_of_normalizeBreaks
  intro b member
  by_contra reserved
  have marked : mark ∈ escape s := by
    rw [escape, List.mem_flatMap]
    exact ⟨b, member, by simp [escapeByte, reserved, triplet]⟩
  exact ne_mark_of_unreserved (plain mark marked) rfl

theorem length_escape_lt {s : Bytes} (reserved : ¬ Plain s) : s.length < (escape s).length := by
  have bytes : ∀ t : Bytes, ¬ Plain t → t.length < (t.flatMap escapeByte).length := by
    intro t
    induction t with
    | nil => exact fun some => absurd (fun _ member => nomatch member) some
    | cons b t ih =>
      intro some
      have rest := length_flatMap_escapeByte t
      by_cases kept : unreserved b
      · have more : ¬ Plain t := by
          intro all
          apply some
          intro c member
          rcases List.mem_cons.mp member with rfl | member
          · exact kept
          · exact all c member
        rw [List.flatMap_cons, escapeByte, if_pos kept, List.length_append, List.length_cons, List.length_singleton]
        have grown := ih more
        omega
      · rw [List.flatMap_cons, escapeByte, if_neg kept, List.length_append, List.length_cons]
        have three : (triplet b).length = 3 := rfl
        omega
  have normal := length_normalizeBreaks false s
  simp only [Bool.false_eq_true, if_false, Nat.add_zero] at normal
  exact normal.trans_lt (bytes _ (mt plain_of_normalizeBreaks reserved))

/-- What becomes of a text that is escaped once or more. -/
structure Grown (s t : Bytes) : Prop where
  plain : Plain s → t = s
  marked : ¬ Plain s → ¬ Plain t ∧ (escape s).length ≤ t.length

theorem grown_escape (s : Bytes) : Grown s (escape s) where
  plain := escape_of_plain
  marked reserved := ⟨mt plain_of_plain_escape reserved, le_refl _⟩

theorem Grown.escape {s t : Bytes} (grown : Grown s t) : Grown s (Percent.escape t) where
  plain all := by rw [grown.plain all, escape_of_plain all]
  marked reserved :=
    ⟨mt plain_of_plain_escape (grown.marked reserved).1,
      (grown.marked reserved).2.trans (length_escape t)⟩

theorem Grown.escape_eq_iff {s t : Bytes} (grown : Grown s t) :
    Percent.escape t = Percent.escape s ↔ Plain s := by
  constructor
  · intro same
    by_contra reserved
    have more := length_escape_lt (grown.marked reserved).1
    have least := (grown.marked reserved).2
    rw [same] at more
    omega
  · intro all
    rw [grown.plain all]

/-- Nothing but line breaks of one byte each. -/
def LoneBreaks (s : Bytes) : Prop := (∀ b ∈ s, b = cr ∨ b = lf) ∧ ¬ [cr, lf] <:+: s

instance (s : Bytes) : Decidable (LoneBreaks s) := inferInstanceAs (Decidable (_ ∧ _))

theorem prefix_crlf (b : UInt8) (s : Bytes) : [cr, lf] <+: b :: s ↔ b = cr ∧ s.head? = some lf := by
  rw [List.cons_prefix_cons]
  cases s with
  | nil => simp
  | cons c s => simp [eq_comm]

theorem loneBreaks_nil : LoneBreaks [] := by simp [LoneBreaks]

theorem loneBreaks_cons (b : UInt8) (s : Bytes) :
    LoneBreaks (b :: s) ↔ (b = cr ∨ b = lf) ∧ ¬ (b = cr ∧ s.head? = some lf) ∧ LoneBreaks s := by
  rw [LoneBreaks, LoneBreaks, List.forall_mem_cons, List.infix_cons_iff, prefix_crlf, not_or]
  constructor
  · rintro ⟨⟨first, rest⟩, apart, later⟩
    exact ⟨first, apart, rest, later⟩
  · rintro ⟨first, apart, rest, later⟩
    exact ⟨⟨first, rest⟩, apart, later⟩

theorem length_escapeByte_le (b : UInt8) : (escapeByte b).length ≤ 3 := by
  unfold escapeByte
  split
  · simp
  · exact le_refl 3

/-- What a LF that belongs to the CR in front of it saves. -/
def saved (afterCr : Bool) (s : Bytes) : Nat := if afterCr ∧ s.head? = some lf then 6 else 0

def escapedLength (afterCr : Bool) (s : Bytes) : Nat := ((normalizeBreaks afterCr s).flatMap escapeByte).length

theorem escapedLength_cr (afterCr : Bool) (s : Bytes) :
    escapedLength afterCr (cr :: s) = 6 + escapedLength true s := by
  have three : (escapeByte cr).length = 3 ∧ (escapeByte lf).length = 3 := by decide
  rw [escapedLength, normalizeBreaks_cr, List.flatMap_cons, List.flatMap_cons, List.length_append,
    List.length_append, three.1, three.2, escapedLength]
  omega

theorem escapedLength_lf (afterCr : Bool) (s : Bytes) :
    escapedLength afterCr (lf :: s) + saved afterCr (lf :: s) = 6 + escapedLength false s := by
  have three : (escapeByte cr).length = 3 ∧ (escapeByte lf).length = 3 := by decide
  rw [escapedLength, normalizeBreaks_lf]
  cases afterCr with
  | true => simp [escapedLength, saved, Nat.add_comm]
  | false =>
    simp only [Bool.false_eq_true, if_false, List.flatMap_cons, List.length_append, three, escapedLength, saved,
      false_and]
    omega

theorem escapedLength_plain {b : UInt8} (notCr : b ≠ cr) (notLf : b ≠ lf) (afterCr : Bool) (s : Bytes) :
    escapedLength afterCr (b :: s) = (escapeByte b).length + escapedLength false s := by
  rw [escapedLength, normalizeBreaks_plain notCr notLf, List.flatMap_cons, List.length_append, escapedLength]

/-- Six bytes for a byte are enough, and only lone line breaks take all of them. -/
theorem escapedLength_le (afterCr : Bool) (s : Bytes) :
    escapedLength afterCr s + saved afterCr s ≤ 6 * s.length ∧
      (escapedLength afterCr s + saved afterCr s = 6 * s.length ↔ LoneBreaks s) := by
  have apart : cr ≠ lf := by decide
  induction s generalizing afterCr with
  | nil => simp [escapedLength, normalizeBreaks, saved, loneBreaks_nil]
  | cons b s ih =>
    rw [loneBreaks_cons, List.length_cons]
    by_cases isCr : b = cr
    · subst isCr
      obtain ⟨most, all⟩ := ih true
      have none : saved afterCr (cr :: s) = 0 := by simp [saved, apart]
      rw [escapedLength_cr, none, ← all]
      by_cases pair : s.head? = some lf
      · simp only [saved, pair, and_self, if_true] at most ⊢
        simp only [not_true_eq_false, false_and, and_false, iff_false]
        omega
      · simp only [saved, pair, and_false, if_false] at most ⊢
        simp only [not_false_eq_true, true_or, true_and]
        omega
    · by_cases isLf : b = lf
      · subst isLf
        obtain ⟨most, all⟩ := ih false
        simp only [saved, Bool.false_eq_true, false_and, if_false, Nat.add_zero] at most all
        rw [escapedLength_lf, ← all]
        simp only [isCr, or_true, false_and, not_false_eq_true, true_and]
        omega
      · have most := (ih false).1
        have small := length_escapeByte_le b
        have none : saved afterCr (b :: s) = 0 := by simp [saved, isLf]
        simp only [saved, Bool.false_eq_true, false_and, if_false, Nat.add_zero] at most
        rw [escapedLength_plain isCr isLf, none]
        simp only [isCr, isLf, or_self, false_and, iff_false]
        omega

theorem length_escape_lt_iff (s : Bytes) : (escape s).length < 6 * s.length ↔ ¬ LoneBreaks s := by
  obtain ⟨most, all⟩ := escapedLength_le false s
  simp only [saved, Bool.false_eq_true, false_and, if_false, Nat.add_zero] at most all
  rw [← all]
  exact ⟨Nat.ne_of_lt, Nat.lt_of_le_of_ne most⟩

end Percent
