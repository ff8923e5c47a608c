import VyattaCfg.Cliexec.ValueTexts

namespace VyattaCfg.Cliexec

open ByteString Regex VyattaCfg.Client

section Rules

abbrev ValuedRule := Flex.Rule UInt8 (DefState → Option ValuedReaction)

/-- The rules before those of the values. -/
def frontRules : Condition → List ValuedRule
  | .initial => (valuedRulesOf .initial).take 9
  | .expression => (valuedRulesOf .expression).take 8
  | .action | .str => []

def valueRuleOf (type : VtwType) : ValuedRule := ⟨false, valuePattern type, valueAction type⟩

def dotRule : ValuedRule := ⟨false, reDot, delivers .syntaxError⟩

/-- The conditions that tokens stand in. -/
def Condition.holdsTokens : Condition → Bool
  | .initial | .expression => true
  | .action | .str => false

variable {condition : Condition}

theorem valuedRulesOf_eq (tokens : condition.holdsTokens) :
    valuedRulesOf condition = frontRules condition ++ (valueTypes.map valueRuleOf ++ [dotRule]) := by
  cases condition with
  | initial | expression => rfl
  | action | str => cases tokens

theorem valuedRules_bol : ∀ rule ∈ valuedRulesOf condition, rule.bol = false := by
  have all : ∀ entry ∈ valuedRules, entry.2.bol = false := by decide
  intro rule known
  obtain ⟨entry, inside, rfl⟩ := List.mem_map.mp known
  exact all entry (List.mem_of_mem_filter inside)

theorem dot_stops {w : Bytes} (nonempty : w ≠ []) (c : UInt8) : Stops reDot w c := by
  apply stops_of_length _ (List.length_pos_iff.mpr nonempty)
  intro v word
  obtain ⟨b, -, rfl⟩ := mem_anyOf.mp word
  exact le_refl 1

/-- What goes beyond a text is a matter of the first rules, where the values do not. -/
theorem rules_stop (tokens : condition.holdsTokens) {w : Bytes} (nonempty : w ≠ []) {c : UInt8}
    (front : ∀ rule ∈ frontRules condition, Stops rule.pattern w c) (values : ∀ type, Stops (valuePattern type) w c) :
    ∀ rule ∈ valuedRulesOf condition, Stops rule.pattern w c := by
  rw [valuedRulesOf_eq tokens]
  simp only [List.forall_mem_append, List.forall_mem_map, List.forall_mem_singleton]
  exact ⟨front, fun type _ => values type, dot_stops nonempty c⟩

theorem front_found (tokens : condition.holdsTokens) {w : Bytes} {rule : ValuedRule}
    (found : (frontRules condition).find? (fun rule => rule.pattern.rmatch w) = some rule) :
    (valuedRulesOf condition).find? (fun rule => rule.pattern.rmatch w) = some rule := by
  rw [valuedRulesOf_eq tokens, List.find?_append, found]
  rfl

theorem find_at {rules : List ValuedRule} {w : Bytes} {n : Nat} {rule : ValuedRule} (listed : rules[n]? = some rule)
    (idx : rules.findIdx (fun rule => whole w rule.pattern) = n) :
    rules.find? (fun rule => rule.pattern.rmatch w) = some rule := by
  have same : (fun rule : ValuedRule => rule.pattern.rmatch w) = fun rule => whole w rule.pattern := by
    funext rule
    rw [Bool.eq_iff_iff, whole_iff, RegularExpression.rmatch_iff_matches']
  rw [same, List.find?_eq_getElem?_findIdx, idx, listed]

theorem find_first {before later : List ValuedRule} {w : Bytes} {rule : ValuedRule}
    (unlike : ∀ rule ∈ before, w ∉ rule.pattern.matches') (own : w ∈ rule.pattern.matches') :
    (before ++ rule :: later).find? (fun rule => rule.pattern.rmatch w) = some rule := by
  have none : before.find? (fun rule => rule.pattern.rmatch w) = none := by
    rw [List.find?_eq_none]
    intro rule inside
    rw [RegularExpression.rmatch_iff_matches']
    exact unlike rule inside
  rw [List.find?_append, none, Option.none_or, List.find?_cons_of_pos]
  exact (RegularExpression.rmatch_iff_matches' _ _).mpr own

theorem front_found_at (tokens : condition.holdsTokens) {w : Bytes} {n : Nat} {rule : ValuedRule}
    (listed : (frontRules condition)[n]? = some rule)
    (idx : (frontRules condition).findIdx (fun rule => whole w rule.pattern) = n) :
    (valuedRulesOf condition).find? (fun rule => rule.pattern.rmatch w) = some rule :=
  front_found tokens (find_at listed idx)

end Rules

variable {condition : Condition}

section Breaks

def isBlank (b : UInt8) : Bool := b ∈ str " \t"

/-- What ends a token that does not end by itself. -/
def isBreak (b : UInt8) : Bool := b ∈ str " \t\n#,;()\"`$"

theorem break_foreign {b : UInt8} (ends : isBreak b) (type : VtwType) : b ∉ letters (valuePattern type) := by
  apply value_foreign
  have all : ∀ type ∈ valueTypes, ∀ b ∈ str " \t\n#,;()\"`$", b ∉ alphabet type := by decide
  exact fun type known => all type known b (of_decide_eq_true ends)

theorem isBreak_of_blank {b : UInt8} (blank : isBlank b) : isBreak b := by
  have all : ∀ b ∈ str " \t", isBreak b := by decide
  exact all b (of_decide_eq_true blank)

def DefToken.closed : DefToken → Bool
  | .exp (.string _) | .exp (.exString _) | .exp (.var _) | .exp .lp | .exp .rp | .exp .comma | .exp .semi => true
  | _ => false

/-- What can stand behind a token. -/
def DefToken.allows (token : DefToken) (b : UInt8) : Bool := token.closed || isBreak b

end Breaks

section Names

/-- The names that stand in a condition. -/
def tableOf : Condition → List (String × DefToken)
  | .initial => typeTokens ++ opTokens
  | .expression => condTokens ++ opTokens
  | .action | .str => []

theorem name_halts : ∀ condition, ∀ entry ∈ tableOf condition, ∀ rule ∈ frontRules condition,
    halts (str entry.1) entry.2.allows rule.pattern = true := by
  intro condition
  cases condition with
  | initial => decide +kernel
  | expression => decide +kernel
  | action | str => exact List.forall_mem_nil _

theorem name_nonempty : ∀ condition, ∀ entry ∈ tableOf condition, str entry.1 ≠ [] := by
  intro condition
  cases condition <;> decide

theorem name_idx : (∀ entry ∈ typeTokens,
    (frontRules .initial).findIdx (fun rule => whole (str entry.1) rule.pattern) = 7) ∧
    (∀ entry ∈ condTokens, (frontRules .expression).findIdx (fun rule => whole (str entry.1) rule.pattern) = 5) ∧
    ∀ entry ∈ opTokens, (frontRules .initial).findIdx (fun rule => whole (str entry.1) rule.pattern) = 8 ∧
      (frontRules .expression).findIdx (fun rule => whole (str entry.1) rule.pattern) = 6 := by
  decide +kernel

theorem delivers_name {table : List (String × DefToken)} {text : Bytes} {token : DefToken}
    (found : lookupToken table text = some token) (state : DefState) :
    deliversFrom table text state = state.delivers token := by
  unfold deliversFrom
  rw [found]

theorem name_found {entry : String × DefToken} (known : entry ∈ tableOf condition) :
    ∃ rule, (valuedRulesOf condition).find? (fun rule => rule.pattern.rmatch (str entry.1)) = some rule ∧
      ∀ state, rule.action (str entry.1) state = state.delivers entry.2 := by
  have types : ∀ entry ∈ typeTokens, lookupToken typeTokens (str entry.1) = some entry.2 := by decide
  have conds : ∀ entry ∈ condTokens, lookupToken condTokens (str entry.1) = some entry.2 := by decide
  have ops : ∀ entry ∈ opTokens, lookupToken opTokens (str entry.1) = some entry.2 := by decide
  cases condition with
  | initial =>
    rcases List.mem_append.mp known with type | op
    · exact ⟨_, front_found_at rfl rfl (name_idx.1 entry type), delivers_name (types entry type)⟩
    · exact ⟨_, front_found_at rfl rfl (name_idx.2.2 entry op).1, delivers_name (ops entry op)⟩
  | expression =>
    rcases List.mem_append.mp known with cond | op
    · exact ⟨_, front_found_at rfl rfl (name_idx.2.1 entry cond), delivers_name (conds entry cond)⟩
    · exact ⟨_, front_found_at rfl rfl (name_idx.2.2 entry op).2, delivers_name (ops entry op)⟩
  | action | str => cases known

theorem name_closed : ∀ condition, ∀ entry ∈ tableOf condition, entry.2.closed →
    ∀ type ∈ valueTypes, ∃ a ∈ str entry.1, a ∉ alphabet type := by
  intro condition
  cases condition <;> decide

theorem tableOf_holds {entry : String × DefToken} (known : entry ∈ tableOf condition) : condition.holdsTokens := by
  cases condition with
  | initial | expression => rfl
  | action | str => cases known

theorem name_stops {entry : String × DefToken} (known : entry ∈ tableOf condition) {b : UInt8}
    (ends : entry.2.allows b) : ∀ rule ∈ valuedRulesOf condition, Stops rule.pattern (str entry.1) b := by
  apply rules_stop (tableOf_holds known) (name_nonempty condition entry known)
  · exact fun rule inside => halts_sound (name_halts condition entry known rule inside) ends
  · intro type
    rcases Bool.or_eq_true_iff.mp ends with closed | ends
    · by_cases listed : type ∈ valueTypes
      · obtain ⟨a, inside, other⟩ := name_closed condition entry known closed type listed
        exact stops_of_foreign inside (fun letter => other (spelled_value type a letter)) b
      · intro v word
        exact listed (valueTypes_of_mem word)
    · exact stops_of_letter (break_foreign ends type) _

end Names

section Values

/-- Two alphabets that the values of each type are written in one of. -/
def frontAlphabets : List Bytes := [str "truefals", str "PARENT0123456789abcdefABCDEF:./"]

theorem front_apart : ∀ condition, ∀ letters ∈ frontAlphabets, ∀ b ∈ str " \t\n#,;()\"`$", ∀ rule ∈ frontRules condition,
    apart letters b rule.pattern = true := by
  intro condition
  cases condition with
  | initial => decide +kernel
  | expression => decide +kernel
  | action | str => decide

theorem alphabet_listed : ∀ type ∈ valueTypes, ∃ letters ∈ frontAlphabets, ∀ a ∈ alphabet type, a ∈ letters := by
  decide

theorem value_nonempty {type : VtwType} {w : Bytes} (known : w ∈ (valuePattern type).matches') : w ≠ [] := by
  rintro rfl
  have nonempty : ∀ type ∈ valueTypes, marked (fun _ => true) (valuePattern type) = true := by decide
  obtain ⟨a, inside, -⟩ := marked_sound (nonempty type (valueTypes_of_mem known)) known
  cases inside

theorem value_apart {type : VtwType} {w : Bytes} (known : w ∈ (valuePattern type).matches') {b : UInt8}
    (ends : isBreak b) : ∀ rule ∈ frontRules condition, w ∉ rule.pattern.matches' ∧ Stops rule.pattern w b := by
  intro rule inside
  obtain ⟨letters, listed, within⟩ := alphabet_listed type (valueTypes_of_mem known)
  have separate := front_apart condition letters listed b (of_decide_eq_true ends) rule inside
  exact apart_sound separate (value_nonempty known) fun a member => within a ((spelled_value type).mem known a member)

theorem value_found (tokens : condition.holdsTokens) {type : VtwType} {w : Bytes}
    (known : w ∈ (valuePattern type).matches') :
    (valuedRulesOf condition).find? (fun rule => rule.pattern.rmatch w) = some (valueRuleOf type) := by
  have front : (frontRules condition).find? (fun rule => rule.pattern.rmatch w) = none := by
    rw [List.find?_eq_none]
    intro rule inside
    rw [RegularExpression.rmatch_iff_matches']
    exact (value_apart known (b := ch ' ') rfl rule inside).1
  have first : valueTypes.find? (fun other => (valuePattern other).rmatch w) = some type := by
    have one : (fun other => (valuePattern other).rmatch w) = fun other => decide (other = type) := by
      funext other
      rw [Bool.eq_iff_iff, RegularExpression.rmatch_iff_matches', decide_eq_true_iff]
      constructor
      · exact fun word => value_unique word known
      · rintro rfl
        exact known
    have listed : ∀ type ∈ valueTypes, valueTypes.find? (fun other => decide (other = type)) = some type := by decide
    rw [one, listed type (valueTypes_of_mem known)]
  rw [valuedRulesOf_eq tokens, List.find?_append, front, Option.none_or, List.find?_append, List.find?_map]
  show (((valueTypes.find? fun other => (valuePattern other).rmatch w).map valueRuleOf).or _) = _
  rw [first]
  rfl

theorem value_stops (tokens : condition.holdsTokens) {type : VtwType} {w : Bytes}
    (known : w ∈ (valuePattern type).matches') {b : UInt8} (ends : isBreak b) :
    ∀ rule ∈ valuedRulesOf condition, Stops rule.pattern w b := by
  apply rules_stop tokens (value_nonempty known)
  · exact fun rule inside => (value_apart known ends rule inside).2
  · exact fun type => stops_of_letter (break_foreign ends type) _

end Values

section Variables

def reVar : Pattern := lit (str "$VAR(") * (noneOf (str ")") * (noneOf (str ")")).star) * lit (str ")")

theorem noneOf_mem {excluded : Bytes} {b : UInt8} (other : b ∉ excluded) : [b] ∈ (noneOf excluded).matches' := by
  apply mem_anyOf.mpr
  refine ⟨b, List.mem_filter.mpr ⟨List.mem_map.mpr ⟨b.toNat, ?_, ?_⟩, by simpa using other⟩, rfl⟩
  · exact List.mem_range.mpr b.toNat_lt
  · exact UInt8.ofNat_toNat

theorem noneOf_star {excluded : Bytes} {w : Bytes} (other : ∀ b ∈ w, b ∉ excluded) :
    w ∈ (noneOf excluded).star.matches' := mem_star_of_each fun b inside => noneOf_mem (other b inside)

theorem noneOf_free {excluded : Bytes} {w : Bytes} (word : w ∈ (noneOf excluded).star.matches') :
    ∀ b ∈ w, b ∉ excluded := by
  intro b inside
  have listed := mem_star_anyOf word b inside
  simpa using (List.mem_filter.mp listed).2

theorem var_text_mem (token : VarToken) : token.text ∈ reVar.matches' := by
  obtain ⟨path, filled, closed, free⟩ := token
  obtain ⟨b, path, rfl⟩ := List.exists_cons_of_ne_nil filled
  have other : ∀ c ∈ b :: path, c ∉ str ")" := by
    intro c inside
    rw [show str ")" = [ch ')'] from rfl, List.mem_singleton]
    rintro rfl
    exact closed inside
  rw [List.forall_mem_cons] at other
  have inside : [b] ++ path ∈ (noneOf (str ")") * (noneOf (str ")")).star).matches' :=
    mem_mul.mpr ⟨[b], noneOf_mem other.1, path, noneOf_star other.2, rfl⟩
  exact mem_mul.mpr ⟨varRefMarker ++ ([b] ++ path), mem_mul.mpr ⟨varRefMarker, mem_lit.mpr rfl, _, inside, rfl⟩,
    str ")", mem_lit.mpr rfl, List.append_assoc ..⟩

theorem var_pattern_stops (token : VarToken) (c : UInt8) : Stops reVar token.text c := by
  intro v word
  obtain ⟨front, opened, last, closed, same⟩ := mem_mul.mp word
  obtain ⟨marker, first, path, inside, rfl⟩ := mem_mul.mp opened
  obtain ⟨start, one, rest, more, rfl⟩ := mem_mul.mp inside
  have free : ch ')' ∉ start ++ rest := by
    obtain ⟨b, other, rfl⟩ := mem_anyOf.mp one
    intro member
    rcases List.mem_append.mp member with here | there
    · rw [List.mem_singleton] at here
      subst here
      exact absurd other (by decide)
    · exact absurd (noneOf_free more _ there) (by decide)
  rw [mem_lit.mp first, mem_lit.mp closed, VarToken.text] at same
  have same : (start ++ rest) ++ [ch ')'] = token.path ++ ch ')' :: c :: v := by
    have same : str "$VAR(" ++ ((start ++ rest) ++ [ch ')']) = str "$VAR(" ++ (token.path ++ ch ')' :: c :: v) := by
      rw [← List.append_assoc]
      refine same.trans ?_
      rw [List.append_assoc, List.append_assoc]
      rfl
    exact (List.append_right_inj _).mp same
  rcases List.append_eq_append_iff.mp same with ⟨z, -, tail⟩ | ⟨z, path, tail⟩
  · have short := congrArg List.length tail
    simp at short
    omega
  · cases z with
    | nil => cases tail
    | cons d z =>
      obtain ⟨rfl, -⟩ := List.cons.inj tail
      exact free (by rw [path]; simp)

theorem var_firsts : ∀ rule ∈ (frontRules .expression).take 7, ch '$' ∉ firsts rule.pattern := by
  decide

theorem var_found (token : VarToken) :
    (valuedRulesOf .expression).find? (fun rule => rule.pattern.rmatch token.text) = some ⟨false, reVar, varAction⟩ := by
  have split : frontRules .expression = (frontRules .expression).take 7 ++ [⟨false, reVar, varAction⟩] := rfl
  apply front_found rfl
  rw [split]
  apply find_first _ (var_text_mem token)
  exact fun rule inside word => var_firsts rule inside (mem_firsts word)

theorem var_stops (token : VarToken) (c : UInt8) : ∀ rule ∈ valuedRulesOf .expression, Stops rule.pattern token.text c := by
  have split : frontRules .expression = (frontRules .expression).take 7 ++ [⟨false, reVar, varAction⟩] := rfl
  have foreign : ∀ type ∈ valueTypes, ch '$' ∉ alphabet type := by decide
  have nonempty : token.text ≠ [] := List.cons_ne_nil _ _
  apply rules_stop rfl nonempty
  · rw [split]
    simp only [List.forall_mem_append, List.forall_mem_singleton]
    exact ⟨fun rule inside => stops_of_first (var_firsts rule inside) _ c, var_pattern_stops token c⟩
  · intro type
    exact stops_of_foreign (List.mem_cons_self : ch '$' ∈ token.text) (value_foreign foreign type) c

theorem var_delivers (token : VarToken) (state : DefState) :
    varAction token.text state = state.delivers (.exp (.var token)) := by
  obtain ⟨path, filled, closed, free⟩ := token
  have same : ((varRefMarker ++ (path ++ str ")")).drop 5).dropLast = path := List.dropLast_concat
  unfold varAction VarToken.text
  simp only [same, dif_pos (show path ≠ [] ∧ ch ')' ∉ path ∧ 0 ∉ path from ⟨filled, closed, free⟩)]

end Variables

section Quotes

def isQuote (b : UInt8) : Bool := b ∈ str "\"`"

theorem quote_front : ∀ delim ∈ str "\"`",
    ((frontRules .initial).findIdx (fun rule => whole [delim] rule.pattern) = 3 ∧
      (frontRules .expression).findIdx (fun rule => whole [delim] rule.pattern) = 0) ∧
    (∀ rule ∈ frontRules .initial, halts [delim] (fun _ => true) rule.pattern = true) ∧
      ∀ rule ∈ frontRules .expression, halts [delim] (fun _ => true) rule.pattern = true := by
  decide +kernel

theorem quote_found (tokens : condition.holdsTokens) {delim : UInt8} (quote : isQuote delim) :
    ∃ rule, (valuedRulesOf condition).find? (fun rule => rule.pattern.rmatch [delim]) = some rule ∧
      rule.action = beginsStr condition := by
  have idx := (quote_front delim (of_decide_eq_true quote)).1
  cases condition with
  | initial => exact ⟨_, front_found_at rfl rfl idx.1, rfl⟩
  | expression => exact ⟨_, front_found_at rfl rfl idx.2, rfl⟩
  | action | str => cases tokens

theorem quote_stops (tokens : condition.holdsTokens) {delim : UInt8} (quote : isQuote delim) (c : UInt8) :
    ∀ rule ∈ valuedRulesOf condition, Stops rule.pattern [delim] c := by
  have foreign : ∀ delim ∈ str "\"`", ∀ type ∈ valueTypes, delim ∉ alphabet type := by decide
  have listed : delim ∈ str "\"`" := of_decide_eq_true quote
  apply rules_stop tokens (List.cons_ne_nil _ _)
  · intro rule inside
    cases condition with
    | initial => exact halts_sound ((quote_front delim listed).2.1 rule inside) rfl
    | expression => exact halts_sound ((quote_front delim listed).2.2 rule inside) rfl
    | action | str => cases tokens
  · exact fun type => stops_of_foreign (List.mem_singleton_self delim) (value_foreign (foreign delim listed) type) c

end Quotes

section Separators

theorem blank_firsts : ∀ b ∈ str " \t", (∀ rule ∈ (frontRules .initial).take 6, b ∉ firsts rule.pattern) ∧
    (∀ rule ∈ (frontRules .initial).drop 7, b ∉ firsts rule.pattern) ∧
    (∀ rule ∈ (frontRules .expression).take 3, b ∉ firsts rule.pattern) ∧
      ∀ rule ∈ (frontRules .expression).drop 4, b ∉ firsts rule.pattern := by
  decide

/-- The rules around that of the blanks do not start with one. -/
theorem blank_split (tokens : condition.holdsTokens) : ∃ before after, frontRules condition =
    before ++ ⟨false, reBlank * reBlank.star, skips⟩ :: after ∧
      ∀ b, isBlank b → ∀ rule ∈ before ++ after, b ∉ firsts rule.pattern := by
  have listed : ∀ {b : UInt8}, isBlank b → b ∈ str " \t" := fun blank => of_decide_eq_true blank
  cases condition with
  | initial =>
    refine ⟨(frontRules .initial).take 6, (frontRules .initial).drop 7, rfl, fun b blank => ?_⟩
    rw [List.forall_mem_append]
    exact ⟨(blank_firsts b (listed blank)).1, (blank_firsts b (listed blank)).2.1⟩
  | expression =>
    refine ⟨(frontRules .expression).take 3, (frontRules .expression).drop 4, rfl, fun b blank => ?_⟩
    rw [List.forall_mem_append]
    exact ⟨(blank_firsts b (listed blank)).2.2.1, (blank_firsts b (listed blank)).2.2.2⟩
  | action | str => cases tokens

theorem blank_run {w : Bytes} (nonempty : w ≠ []) (blank : ∀ b ∈ w, isBlank b) : w ∈ (reBlank * reBlank.star).matches' := by
  obtain ⟨b, w, rfl⟩ := List.exists_cons_of_ne_nil nonempty
  rw [List.forall_mem_cons] at blank
  have one : ∀ {b : UInt8}, isBlank b → [b] ∈ reBlank.matches' :=
    fun blank => mem_anyOf.mpr ⟨_, of_decide_eq_true blank, rfl⟩
  exact mem_mul.mpr ⟨[b], one blank.1, w, mem_star_of_each fun c inside => one (blank.2 c inside), rfl⟩

theorem blank_found (tokens : condition.holdsTokens) {w : Bytes} (nonempty : w ≠ []) (blank : ∀ b ∈ w, isBlank b) :
    (valuedRulesOf condition).find? (fun rule => rule.pattern.rmatch w) =
      some ⟨false, reBlank * reBlank.star, skips⟩ := by
  obtain ⟨before, after, split, unlike⟩ := blank_split tokens
  apply front_found tokens
  rw [split]
  apply find_first _ (blank_run nonempty blank)
  intro rule inside word
  obtain ⟨b, w, rfl⟩ := List.exists_cons_of_ne_nil nonempty
  exact unlike b (blank b List.mem_cons_self) rule (List.mem_append_left _ inside) (mem_firsts word)

theorem blank_stops (tokens : condition.holdsTokens) {w : Bytes} (nonempty : w ≠ []) (blank : ∀ b ∈ w, isBlank b)
    {c : UInt8} (other : isBlank c = false) : ∀ rule ∈ valuedRulesOf condition, Stops rule.pattern w c := by
  obtain ⟨before, after, split, unlike⟩ := blank_split tokens
  obtain ⟨b, w, rfl⟩ := List.exists_cons_of_ne_nil nonempty
  have here := blank b List.mem_cons_self
  have around : ∀ rule ∈ before ++ after, Stops rule.pattern (b :: w) c :=
    fun rule inside => stops_of_first (unlike b here rule inside) w c
  apply rules_stop tokens (List.cons_ne_nil _ _)
  · rw [split]
    rw [List.forall_mem_append] at around ⊢
    refine ⟨around.1, List.forall_mem_cons.mpr ⟨?_, around.2⟩⟩
    apply stops_of_letter
    have spelled : Spelled (str " \t") (reBlank * reBlank.star) := by
      simp only [reBlank, spelled_mul, spelled_star, spelled_anyOf]
      exact ⟨fun _ inside => inside, fun _ inside => inside⟩
    intro inside
    exact of_decide_eq_false other (spelled c inside)
  · exact fun type => stops_of_foreign List.mem_cons_self (break_foreign (isBreak_of_blank here) type) c

end Separators

end VyattaCfg.Cliexec
