import VyattaCfg.Cliexec.TokenTexts

namespace VyattaCfg.Cliexec

open ByteString Regex VyattaCfg.Client

section Openings

/-- What a field starts with. -/
def opening (name : String) : Bytes := str name ++ [ch ':']

def reExpression : Pattern := reBlank.star * (lit (str "expression:") * reBlank.star)

theorem name_colon : ∀ entry ∈ regTokens ++ actTokens, ch ':' ∉ str entry.1 := by decide

theorem mem_oneOf {names : List String} {w : Bytes} :
    w ∈ (oneOf names).matches' ↔ ∃ name ∈ names, w = str name := by
  induction names with
  | nil => exact iff_of_false (Language.notMem_zero w) (fun ⟨_, inside, _⟩ => nomatch inside)
  | cons name names ih =>
    rw [oneOf, List.foldr_cons, mem_add, mem_lit, List.exists_mem_cons_iff]
    exact or_congr Iff.rfl ih

theorem cut_unique {c : UInt8} {x y u v : Bytes} (left : c ∉ x) (right : c ∉ y) (same : x ++ c :: u = y ++ c :: v) :
    x = y ∧ u = v := by
  induction x generalizing y with
  | nil =>
    cases y with
    | nil => exact ⟨rfl, (List.cons.inj same).2⟩
    | cons d y => exact absurd ((List.cons.inj same).1 ▸ List.mem_cons_self) right
  | cons d x ih =>
    rw [List.mem_cons, not_or] at left
    cases y with
    | nil => exact absurd (List.cons.inj same).1.symm left.1
    | cons e y =>
      obtain ⟨rfl, rest⟩ := List.cons.inj same
      obtain ⟨rfl, rfl⟩ := ih left.2 (fun inside => right (List.mem_cons_of_mem _ inside)) rest
      exact ⟨rfl, rfl⟩

/-- The colon of a field is the first one. -/
theorem field_mul {fields rest : Pattern} (free : ∀ name ∈ fields.matches', ch ':' ∉ name) {name : String}
    (named : ch ':' ∉ str name) {y : Bytes} :
    opening name ++ y ∈ (fields * lit (str ":") * rest).matches' ↔ str name ∈ fields.matches' ∧ y ∈ rest.matches' := by
  rw [opening, List.append_assoc, List.singleton_append]
  constructor
  · intro word
    obtain ⟨front, before, own, after, same⟩ := mem_mul.mp word
    obtain ⟨other, known, colon, mark, rfl⟩ := mem_mul.mp before
    rw [mem_lit.mp mark, List.append_assoc] at same
    have same : other ++ ch ':' :: own = str name ++ ch ':' :: y := same
    obtain ⟨rfl, rfl⟩ := cut_unique (free other known) named same
    exact ⟨known, after⟩
  · rintro ⟨known, after⟩
    apply mem_mul.mpr
    refine ⟨str name ++ str ":", mem_mul.mpr ⟨_, known, _, mem_lit.mpr rfl, rfl⟩, y, after, ?_⟩
    rw [List.append_assoc]
    rfl

theorem field_names {names : List String} (free : ∀ name ∈ names, ch ':' ∉ str name) :
    ∀ w ∈ (oneOf names).matches', ch ':' ∉ w := by
  intro w known
  obtain ⟨name, listed, rfl⟩ := mem_oneOf.mp known
  exact free name listed

theorem opening_front : (∀ entry ∈ regTokens, ∀ rule ∈ (frontRules .initial).take 2,
    barren (derivs rule.pattern (opening entry.1)) = true) ∧
    (∀ entry ∈ actTokens, ∀ rule ∈ (frontRules .initial).take 4,
      barren (derivs rule.pattern (opening entry.1)) = true) ∧
    (∀ entry ∈ regTokens ++ actTokens, ∀ rule ∈ (frontRules .initial).take 4 ++ (frontRules .initial).drop 5,
      ∀ a ∈ letters (derivs rule.pattern (opening entry.1)), isBlank a = true) ∧
    ∀ entry ∈ regTokens ++ actTokens, ∀ type ∈ valueTypes, ∃ a ∈ opening entry.1, a ∉ alphabet type := by
  decide +kernel

theorem expressionRule_eq : (reActField * lit (str ":") * reBlank.star * lit (str "expression:") *
    reBlank.star).matches' = (reActField * lit (str ":") * reExpression).matches' := by
  simp only [reExpression, RegularExpression.matches'_mul, mul_assoc]

/-- How the words of the rules go on behind the name of a field. -/
theorem opening_words {entry : String × DefToken} (known : entry ∈ regTokens ++ actTokens) {rule : ValuedRule}
    (inside : rule ∈ valuedRulesOf .initial) {y : Bytes} (word : opening entry.1 ++ y ∈ rule.pattern.matches') :
    (∀ a ∈ y, isBlank a) ∨ (str entry.1 ∈ reActField.matches' ∧ y ∈ reExpression.matches') := by
  have split : frontRules .initial = (frontRules .initial).take 4 ++ ⟨false,
      reActField * lit (str ":") * reBlank.star * lit (str "expression:") * reBlank.star, actField .expression⟩ ::
        (frontRules .initial).drop 5 := rfl
  rw [valuedRulesOf_eq rfl, List.mem_append] at inside
  rcases inside with front | behind
  · rw [split, List.mem_append, List.mem_cons] at front
    have blanks : rule ∈ (frontRules .initial).take 4 ++ (frontRules .initial).drop 5 → ∀ a ∈ y, isBlank a :=
      fun listed => mem_of_derivs (opening_front.2.2.1 entry known rule listed) word
    rcases front with before | rfl | later
    · exact .inl (blanks (List.mem_append_left _ before))
    · right
      rw [expressionRule_eq] at word
      exact (field_mul (field_names (by decide)) (name_colon entry known)).mp word
    · exact .inl (blanks (List.mem_append_right _ later))
  · exfalso
    rw [List.mem_append, List.mem_map, List.mem_singleton] at behind
    rcases behind with ⟨type, listed, rfl⟩ | rfl
    · obtain ⟨a, own, foreign⟩ := opening_front.2.2.2 entry known type listed
      exact notMem_of_foreign (List.mem_append_left _ own) (fun letter => foreign (spelled_value type a letter)) word
    · obtain ⟨b, -, same⟩ := mem_anyOf.mp word
      have long : ∀ entry ∈ regTokens ++ actTokens, 2 ≤ (opening entry.1).length := by decide
      have short := congrArg List.length same
      rw [List.length_append, List.length_singleton] at short
      have := long entry known
      omega

end Openings

section Fields

theorem blanks_star {blanks : Bytes} (blank : ∀ b ∈ blanks, isBlank b) : blanks ∈ reBlank.star.matches' := by
  apply mem_star_of_each
  exact fun b inside => mem_anyOf.mpr ⟨b, of_decide_eq_true (blank b inside), rfl⟩

theorem star_blanks {blanks : Bytes} (word : blanks ∈ reBlank.star.matches') : ∀ b ∈ blanks, isBlank b :=
  fun b inside => decide_eq_true (mem_star_anyOf word b inside)

theorem mem_reExpression {y : Bytes} : y ∈ reExpression.matches' ↔ ∃ blanks blanks',
    (∀ b ∈ blanks, isBlank b) ∧ (∀ b ∈ blanks', isBlank b) ∧ y = blanks ++ (str "expression:" ++ blanks') := by
  constructor
  · intro word
    obtain ⟨blanks, first, rest, later, rfl⟩ := mem_mul.mp word
    obtain ⟨mark, middle, blanks', last, rfl⟩ := mem_mul.mp later
    rw [mem_lit.mp middle]
    exact ⟨blanks, blanks', star_blanks first, star_blanks last, rfl⟩
  · rintro ⟨blanks, blanks', first, last, rfl⟩
    apply mem_mul.mpr
    exact ⟨blanks, blanks_star first, _, mem_mul.mpr ⟨_, mem_lit.mpr rfl, blanks', blanks_star last, rfl⟩, rfl⟩

variable {entry : String × DefToken} {blanks rest : Bytes}

theorem reg_found (known : entry ∈ regTokens) (blank : ∀ b ∈ blanks, isBlank b) :
    (valuedRulesOf .initial).find? (fun rule => rule.pattern.rmatch (opening entry.1 ++ blanks)) =
      some ⟨false, reRegField * lit (str ":") * reBlank.star, regField⟩ := by
  have split : frontRules .initial = (frontRules .initial).take 2 ++
      ⟨false, reRegField * lit (str ":") * reBlank.star, regField⟩ :: (frontRules .initial).drop 3 := rfl
  have named : ∀ entry ∈ regTokens, entry.1 ∈ ["default", "tag", "type", "multi", "priority", "secret"] := by decide
  apply front_found rfl
  rw [split]
  apply find_first
  · exact fun rule inside word => barren_sound (opening_front.1 entry known rule inside) _ (mem_derivs.mpr word)
  · apply (field_mul (field_names (by decide)) (name_colon entry (List.mem_append_left _ known))).mpr
    exact ⟨mem_oneOf.mpr ⟨_, named entry known, rfl⟩, blanks_star blank⟩

theorem act_named (known : entry ∈ actTokens) : str entry.1 ∈ reActField.matches' := by
  have named : ∀ entry ∈ actTokens, entry.1 ∈ ["help", "syntax", "commit", "delete", "update", "activate", "create",
    "begin", "end", "sub", "enumeration", "comp_help", "allowed", "val_help"] := by decide
  exact mem_oneOf.mpr ⟨_, named entry known, rfl⟩

theorem expression_found (known : entry ∈ actTokens) {y : Bytes} (word : y ∈ reExpression.matches') :
    (valuedRulesOf .initial).find? (fun rule => rule.pattern.rmatch (opening entry.1 ++ y)) =
      some ⟨false, reActField * lit (str ":") * reBlank.star * lit (str "expression:") * reBlank.star,
        actField .expression⟩ := by
  have split : frontRules .initial = (frontRules .initial).take 4 ++ ⟨false,
      reActField * lit (str ":") * reBlank.star * lit (str "expression:") * reBlank.star, actField .expression⟩ ::
        (frontRules .initial).drop 5 := rfl
  apply front_found rfl
  rw [split]
  apply find_first
  · exact fun rule inside word => barren_sound (opening_front.2.1 entry known rule inside) _ (mem_derivs.mpr word)
  · show _ ∈ (reActField * lit (str ":") * reBlank.star * lit (str "expression:") * reBlank.star).matches'
    rw [expressionRule_eq]
    apply (field_mul (field_names (by decide)) (name_colon entry (List.mem_append_right _ known))).mpr
    exact ⟨act_named known, word⟩

theorem action_found (known : entry ∈ actTokens) (blank : ∀ b ∈ blanks, isBlank b) :
    (valuedRulesOf .initial).find? (fun rule => rule.pattern.rmatch (opening entry.1 ++ blanks)) =
      some ⟨false, reActField * lit (str ":") * reBlank.star, actField .action⟩ := by
  have split : frontRules .initial = ((frontRules .initial).take 4 ++ [⟨false,
      reActField * lit (str ":") * reBlank.star * lit (str "expression:") * reBlank.star, actField .expression⟩]) ++
        ⟨false, reActField * lit (str ":") * reBlank.star, actField .action⟩ :: (frontRules .initial).drop 6 := rfl
  have colon := name_colon entry (List.mem_append_right _ known)
  apply front_found rfl
  rw [split]
  apply find_first
  · rw [List.forall_mem_append, List.forall_mem_singleton]
    constructor
    · exact fun rule inside word => barren_sound (opening_front.2.1 entry known rule inside) _ (mem_derivs.mpr word)
    · show _ ∉ (reActField * lit (str ":") * reBlank.star * lit (str "expression:") * reBlank.star).matches'
      rw [expressionRule_eq]
      intro word
      obtain ⟨front, back, -, -, rfl⟩ := mem_reExpression.mp ((field_mul (field_names (by decide)) colon).mp word).2
      have letter : isBlank (ch 'e') := blank _ (List.mem_append_right _ List.mem_cons_self)
      exact absurd letter (by decide)
  · exact (field_mul (field_names (by decide)) colon).mpr ⟨act_named known, blanks_star blank⟩

end Fields

section Lines

def fieldNames : List String := (regTokens ++ actTokens).map Prod.fst

/-- Whether a line starts a field or a comment. -/
def opensLine (line : Bytes) : Bool :=
  (str "#").isPrefixOf line || fieldNames.any fun name => (opening name).isPrefixOf line

def reLineStart : Pattern := (reRegField + reActField) * lit (str ":") + lit (str "#")

theorem opensLine_iff {line : Bytes} : opensLine line = true ↔ ∃ start ∈ reLineStart.matches', start <+: line := by
  have names : ∀ w, w ∈ (reRegField + reActField).matches' ↔ ∃ name ∈ fieldNames, w = str name := by
    intro w
    show w ∈ (oneOf _ + oneOf _).matches' ↔ ∃ name ∈ ["default", "tag", "type", "multi", "priority", "secret"] ++ _, _
    rw [mem_add, mem_oneOf, mem_oneOf]
    simp only [List.mem_append, or_and_right, exists_or]
    rfl
  rw [opensLine, Bool.or_eq_true, List.any_eq_true]
  simp only [List.isPrefixOf_iff_prefix]
  constructor
  · rintro (comment | ⟨name, known, field⟩)
    · exact ⟨_, mem_add.mpr (.inr (mem_lit.mpr rfl)), comment⟩
    · refine ⟨_, mem_add.mpr (.inl (mem_mul.mpr ⟨_, (names _).mpr ⟨name, known, rfl⟩, _, mem_lit.mpr rfl, rfl⟩)), field⟩
  · rintro ⟨start, word, front⟩
    rcases mem_add.mp word with field | comment
    · obtain ⟨name, known, colon, mark, rfl⟩ := mem_mul.mp field
      obtain ⟨name, listed, rfl⟩ := (names _).mp known
      rw [mem_lit.mp mark] at front
      exact .inr ⟨name, listed, front⟩
    · rw [mem_lit.mp comment] at front
      exact .inl front

theorem lineStart_free {start : Bytes} (word : start ∈ reLineStart.matches') : ch '\n' ∉ start := by
  have free : ch '\n' ∉ letters reLineStart := by decide
  exact fun inside => free (mem_letters word _ inside)

theorem prefix_of_line {start line rest : Bytes} (free : ch '\n' ∉ start) (ends : ∀ b ∈ rest.head?, b = ch '\n')
    (front : start <+: line ++ rest) : start <+: line := by
  rcases List.prefix_or_prefix_of_prefix front (List.prefix_append line rest) with short | ⟨more, rfl⟩
  · exact short
  · cases more with
    | nil => rw [List.append_nil]
    | cons b more =>
      obtain ⟨tail, same⟩ := front
      rw [List.append_assoc, List.append_right_inj] at same
      have newline := ends b (by rw [← same]; rfl)
      exact absurd (List.mem_append_right line (newline ▸ List.mem_cons_self)) free

/-- Only the line itself decides. -/
theorem opensLine_append {line rest : Bytes} (ends : ∀ b ∈ rest.head?, b = ch '\n') :
    opensLine (line ++ rest) = opensLine line := by
  rw [Bool.eq_iff_iff, opensLine_iff, opensLine_iff]
  apply exists_congr
  intro start
  apply and_congr_right
  intro word
  constructor
  · exact prefix_of_line (lineStart_free word) ends
  · exact fun front => front.trans (List.prefix_append line rest)

theorem mem_nextField {y : Bytes} : ch '\n' :: y ∈ reNextField.matches' ↔ opensLine y = true ∧ ch '\n' ∉ y := by
  have newline : ch '\n' ∈ str "\n" := by decide
  rw [opensLine_iff]
  constructor
  · intro word
    obtain ⟨front, before, back, after, same⟩ := mem_mul.mp word
    obtain ⟨mark, first, start, opens, rfl⟩ := mem_mul.mp before
    rw [mem_lit.mp first] at same
    obtain rfl : start ++ back = y := (List.cons.inj same).2
    refine ⟨⟨start, opens, List.prefix_append _ _⟩, ?_⟩
    rw [List.mem_append, not_or]
    exact ⟨lineStart_free opens, fun inside => noneOf_free after _ inside newline⟩
  · rintro ⟨⟨start, opens, back, rfl⟩, free⟩
    rw [List.mem_append, not_or] at free
    apply mem_mul.mpr
    refine ⟨str "\n" ++ start, mem_mul.mpr ⟨_, mem_lit.mpr rfl, start, opens, rfl⟩, back, noneOf_star ?_, rfl⟩
    intro b inside
    rw [show str "\n" = [ch '\n'] from rfl, List.mem_singleton]
    rintro rfl
    exact free.2 inside

theorem nextField_first {c : UInt8} {y : Bytes} (word : c :: y ∈ reNextField.matches') : c = ch '\n' := by
  have first : firsts reNextField = [ch '\n'] := by decide
  rw [← List.mem_singleton, ← first]
  exact mem_firsts word

end Lines

end VyattaCfg.Cliexec
