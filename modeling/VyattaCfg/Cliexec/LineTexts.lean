import VyattaCfg.Cliexec.ActionTexts
import VyattaCfg.Cliexec.LiteralTexts

namespace VyattaCfg.Cliexec

open ByteString Regex VyattaCfg.Client

section Openings

variable {entry : String × DefToken} {blanks rest : Bytes} {tokens : List DefToken}

theorem blanks_unique {u v x y : Bytes} (left : ∀ b ∈ u, isBlank b) (right : ∀ b ∈ v, isBlank b)
    (next : ∀ b ∈ x.head?, isBlank b = false) (next' : ∀ b ∈ y.head?, isBlank b = false) (same : u ++ x = v ++ y) :
    u = v ∧ x = y := by
  have front : ∀ {u x : Bytes}, (∀ b ∈ u, isBlank b) → (∀ b ∈ x.head?, isBlank b = false) →
      (u ++ x).takeWhile isBlank = u := by
    intro u x blank next
    rw [List.takeWhile_append_of_pos blank]
    cases x with
    | nil => rw [List.takeWhile_nil, List.append_nil]
    | cons b x => rw [List.takeWhile_cons_of_neg (by rw [next b rfl]; decide), List.append_nil]
  have equal : u = v := by rw [← front left next, same, front right next']
  subst equal
  exact ⟨rfl, List.append_cancel_left same⟩

/-- Nothing goes on behind the blanks of a field. -/
theorem opening_stops (known : entry ∈ regTokens ++ actTokens) (blank : ∀ b ∈ blanks, isBlank b)
    (next : ∀ b ∈ rest.head?, isBlank b = false)
    (plain : str entry.1 ∈ reActField.matches' → ¬ str "expression:" <+: rest) :
    ∀ rule ∈ valuedRulesOf .initial, Ends rule.pattern (opening entry.1 ++ blanks) rest := by
  intro rule inside v some front word
  obtain ⟨b, v, rfl⟩ := List.exists_cons_of_ne_nil some
  obtain ⟨rest, rfl⟩ := front
  rw [List.append_assoc] at word
  rcases opening_words known inside word with all | ⟨act, goes⟩
  · have own := all b (List.mem_append_right _ List.mem_cons_self)
    rw [next b rfl] at own
    cases own
  · obtain ⟨blanks', last, first, -, same⟩ := mem_reExpression.mp goes
    have letter : ∀ b ∈ (str "expression:" ++ last).head?, isBlank b = false := by
      intro b first
      rw [← Option.some.inj first]
      rfl
    obtain ⟨-, same⟩ := @blanks_unique _ _ (b :: v) _ blank first next letter same
    apply plain act
    rw [same, List.append_assoc]
    exact List.prefix_append _ _

theorem expression_stops (known : entry ∈ regTokens ++ actTokens) {y : Bytes} (word : y ∈ reExpression.matches')
    (next : ∀ b ∈ rest.head?, isBlank b = false) :
    ∀ rule ∈ valuedRulesOf .initial, Ends rule.pattern (opening entry.1 ++ y) rest := by
  obtain ⟨blanks, last, blank, -, rfl⟩ := mem_reExpression.mp word
  have letter : ∀ more : Bytes, ∀ b ∈ (str "expression:" ++ more).head?, isBlank b = false := by
    intro more b first
    rw [← Option.some.inj first]
    rfl
  intro rule inside v some front longer
  obtain ⟨b, v, rfl⟩ := List.exists_cons_of_ne_nil some
  obtain ⟨rest, rfl⟩ := front
  have other := next b rfl
  rw [List.append_assoc, List.append_assoc, List.append_assoc] at longer
  rcases opening_words known inside longer with all | ⟨-, goes⟩
  · have own := all b (by simp)
    rw [other] at own
    cases own
  · obtain ⟨blanks', last', first, ends, same⟩ := mem_reExpression.mp goes
    obtain ⟨-, same⟩ := blanks_unique blank first (letter _) (letter _) same
    have own := ends b (by rw [← List.append_cancel_left same]; simp)
    rw [other] at own
    cases own

theorem opening_cut (known : entry ∈ regTokens ++ actTokens) (y : Bytes) :
    (opening entry.1 ++ y).takeWhile (· ≠ ch ':') = str entry.1 := by
  rw [opening, List.append_assoc, List.takeWhile_append_of_pos, List.singleton_append,
    List.takeWhile_cons_of_neg (by decide), List.append_nil]
  intro b inside
  apply decide_eq_true
  rintro rfl
  exact name_colon entry known inside

theorem regToken_delivers (known : entry ∈ regTokens) (y : Bytes) :
    fieldDelivery regTokens (opening entry.1 ++ y) = .deliver entry.2 := by
  have named : ∀ entry ∈ regTokens, lookupToken regTokens (str entry.1) = some entry.2 := by decide
  rw [fieldDelivery, opening_cut (List.mem_append_left _ known), named entry known]

theorem actToken_delivers (known : entry ∈ actTokens) (y : Bytes) :
    fieldDelivery actTokens (opening entry.1 ++ y) = .deliver entry.2 := by
  have named : ∀ entry ∈ actTokens, lookupToken actTokens (str entry.1) = some entry.2 := by decide
  rw [fieldDelivery, opening_cut (List.mem_append_right _ known), named entry known]

theorem opening_nonempty (name : String) (y : Bytes) : opening name ++ y ≠ [] := by
  rw [opening, List.append_assoc]
  exact List.append_ne_nil_of_right_ne_nil _ (List.cons_ne_nil _ _)

theorem field_flag : ∀ entry ∈ regTokens ++ actTokens, entry.2.flag = none := by decide

theorem regField_reads (known : entry ∈ regTokens) (blank : ∀ b ∈ blanks, isBlank b)
    (next : ∀ b ∈ rest.head?, isBlank b = false) (later : ReadsIn .initial rest tokens) :
    ReadsIn .initial (opening entry.1 ++ (blanks ++ rest)) (entry.2 :: tokens) := by
  intro pre delim
  have listed : entry ∈ regTokens ++ actTokens := List.mem_append_left _ known
  have other : ∀ entry ∈ regTokens, str entry.1 ∉ reActField.matches' := by
    intro entry known word
    have apart : ∀ entry ∈ regTokens, ∀ other ∈ ["help", "syntax", "commit", "delete", "update", "activate", "create",
      "begin", "end", "sub", "enumeration", "comp_help", "allowed", "val_help"], str entry.1 ≠ str other := by decide
    obtain ⟨name, act, same⟩ := mem_oneOf.mp word
    exact apart entry known name act same
  have once : valuedOnce (between .initial pre delim tokens) (opening entry.1 ++ blanks ++ rest) =
      some (⟨.deliver entry.2, between .initial pre delim tokens, false⟩, rest) := by
    apply valuedOnce_found (opening_nonempty _ _) (reg_found known blank)
      (opening_stops listed blank next fun act => absurd act (other entry known))
    show some (ValuedReaction.mk (fieldDelivery regTokens _) _ false) = _
    rw [regToken_delivers known]
  rw [between, flagsOf_other (field_flag entry listed), ← List.append_assoc]
  exact .deliver once (later pre delim)

theorem expressionField_reads (known : entry ∈ actTokens) {y : Bytes} (word : y ∈ reExpression.matches')
    (next : ∀ b ∈ rest.head?, isBlank b = false) (later : ReadsIn .expression rest tokens) :
    ReadsIn .initial (opening entry.1 ++ (y ++ rest)) (entry.2 :: tokens) := by
  intro pre delim
  have listed : entry ∈ regTokens ++ actTokens := List.mem_append_right _ known
  have once : valuedOnce (between .initial pre delim tokens) (opening entry.1 ++ y ++ rest) =
      some (⟨.deliver entry.2, between .expression pre delim tokens, false⟩, rest) := by
    apply valuedOnce_found (opening_nonempty _ _) (expression_found known word) (expression_stops listed word next)
    show some (ValuedReaction.mk (fieldDelivery actTokens _) _ false) = _
    rw [actToken_delivers known]
    rfl
  rw [between, flagsOf_other (field_flag entry listed), ← List.append_assoc]
  exact .deliver once (later pre delim)

theorem actionField_reads (known : entry ∈ actTokens) (blank : ∀ b ∈ blanks, isBlank b) {text : Bytes}
    (next : ∀ b ∈ (text ++ rest).head?, isBlank b = false) (plain : ¬ str "expression:" <+: text ++ rest)
    (lines : ActionLines text) (later : ReadsIn .initial rest tokens)
    (ends : rest = [] ∨ ∃ next, rest = ch '\n' :: next ∧ opensLine next = true) :
    ReadsIn .initial (opening entry.1 ++ (blanks ++ (text ++ rest)))
      (entry.2 :: .exp (.string (stringToken text)) :: tokens) := by
  intro pre delim
  have listed : entry ∈ regTokens ++ actTokens := List.mem_append_right _ known
  have once : valuedOnce (between .initial pre delim tokens) (opening entry.1 ++ blanks ++ (text ++ rest)) =
      some (⟨.deliver entry.2, collecting pre delim [] tokens, false⟩, text ++ rest) := by
    apply valuedOnce_found (opening_nonempty _ _) (action_found known blank)
      (opening_stops listed blank next fun _ => plain)
    show some (ValuedReaction.mk (fieldDelivery actTokens _) _ false) = _
    rw [actToken_delivers known]
    rfl
  rw [between, flagsOf_other (field_flag entry listed), flagsOf_other rfl, ← List.append_assoc]
  exact .deliver once (action_reads lines later ends)

end Openings

section Breaks

theorem break_front : (((frontRules .initial).findIdx (fun rule => whole (str "\n") rule.pattern) = 1 ∧
    (frontRules .expression).findIdx (fun rule => whole (str "\n") rule.pattern) = 2) ∧
      (frontRules .expression).findIdx (fun rule => whole (str "\\\n") rule.pattern) = 4) ∧
    ((∀ rule ∈ frontRules .initial, halts (str "\n") (fun _ => true) rule.pattern = true) ∧
      ∀ rule ∈ frontRules .expression, halts (str "\n") (fun b => isBlank b || b == ch '\n') rule.pattern = true) ∧
    (∀ rule ∈ frontRules .expression, halts (str "\\\n") (fun _ => true) rule.pattern = true) ∧
    (∀ rule ∈ (frontRules .initial).drop 1, ch '#' ∉ firsts rule.pattern) ∧
      ∀ rule ∈ (frontRules .expression).take 1 ++ (frontRules .expression).drop 3, ch '\n' ∉ firsts rule.pattern := by
  decide +kernel

theorem break_value : ∀ b ∈ str "\n#\\", ∀ type ∈ valueTypes, b ∉ alphabet type := by decide

variable {rest : Bytes} {tokens : List DefToken}

theorem newline_reads (later : ReadsIn .initial rest tokens) :
    ReadsIn .initial (ch '\n' :: rest) (.eol :: tokens) := by
  intro pre delim
  have once : valuedOnce (between .initial pre delim tokens) (str "\n" ++ rest) =
      some (⟨.deliver .eol, between .initial pre delim tokens, false⟩, rest) := by
    have found : (valuedRulesOf .initial).find? (fun rule => rule.pattern.rmatch (str "\n")) =
        some ⟨false, lit (str "\n"), delivers .eol⟩ := front_found_at rfl rfl break_front.1.1.1
    apply valuedOnce_taken _ found _ rfl rfl
    · exact List.cons_ne_nil _ _
    intro c _
    apply rules_stop rfl (List.cons_ne_nil _ _)
    · exact fun rule inside => halts_sound (break_front.2.1.1 rule inside) rfl
    · intro type
      exact stops_of_foreign List.mem_cons_self (value_foreign (break_value (ch '\n') (by decide)) type) c
  rw [between, flagsOf_other rfl]
  exact .deliver once (later pre delim)

theorem comment_reads {text : Bytes} (free : ch '\n' ∉ text) (later : ReadsIn .initial rest tokens) :
    ReadsIn .initial (ch '#' :: (text ++ ch '\n' :: rest)) (.eol :: tokens) := by
  intro pre delim
  have split : frontRules .initial = ⟨false, lit (str "#") * (noneOf (str "\n")).star * lit (str "\n"), delivers .eol⟩ ::
      (frontRules .initial).drop 1 := rfl
  have nonempty : ch '#' :: (text ++ [ch '\n']) ≠ [] := List.cons_ne_nil _ _
  have word : ch '#' :: (text ++ [ch '\n']) ∈
      (lit (str "#") * (noneOf (str "\n")).star * lit (str "\n")).matches' := by
    apply mem_mul.mpr
    refine ⟨ch '#' :: text, mem_mul.mpr ⟨str "#", mem_lit.mpr rfl, text, noneOf_star ?_, rfl⟩, str "\n",
      mem_lit.mpr rfl, rfl⟩
    intro b inside
    rw [show str "\n" = [ch '\n'] from rfl, List.mem_singleton]
    rintro rfl
    exact free inside
  have found : (valuedRulesOf .initial).find? (fun rule => rule.pattern.rmatch (ch '#' :: (text ++ [ch '\n']))) =
      some ⟨false, lit (str "#") * (noneOf (str "\n")).star * lit (str "\n"), delivers .eol⟩ := by
    apply front_found rfl
    rw [split]
    exact @find_first [] _ _ _ (List.forall_mem_nil _) word
  have stops : ∀ c, ∀ rule ∈ valuedRulesOf .initial, Stops rule.pattern (ch '#' :: (text ++ [ch '\n'])) c := by
    intro c
    apply rules_stop rfl nonempty
    · rw [split, List.forall_mem_cons]
      refine ⟨?_, fun rule inside => stops_of_first (break_front.2.2.2.1 rule inside) _ c⟩
      intro v longer
      obtain ⟨front, before, last, mark, same⟩ := mem_mul.mp longer
      obtain ⟨sharp, first, inner, middle, rfl⟩ := mem_mul.mp before
      rw [mem_lit.mp first, mem_lit.mp mark] at same
      have tail : inner ++ ch '\n' :: [] = text ++ ch '\n' :: (c :: v) := by
        rw [List.append_assoc] at same
        have same : ch '#' :: (inner ++ [ch '\n']) = ch '#' :: (text ++ [ch '\n'] ++ c :: v) := same
        rw [List.append_assoc] at same
        exact (List.cons.inj same).2
      have clear : ch '\n' ∉ inner := fun inside => noneOf_free middle _ inside (by decide)
      exact absurd (cut_unique clear free tail).2 nofun
    · intro type
      exact stops_of_foreign List.mem_cons_self (value_foreign (break_value (ch '#') (by decide)) type) c
  have once : valuedOnce (between .initial pre delim tokens) (ch '#' :: (text ++ [ch '\n']) ++ rest) =
      some (⟨.deliver .eol, between .initial pre delim tokens, false⟩, rest) :=
    valuedOnce_taken nonempty found (fun c _ => stops c) rfl rfl
  rw [List.cons_append, List.append_assoc] at once
  rw [between, flagsOf_other rfl]
  exact .deliver once (later pre delim)

theorem continuation_reads (later : ReadsIn .expression rest tokens) :
    ReadsIn .expression (ch '\\' :: ch '\n' :: rest) tokens := by
  intro pre delim
  have once : valuedOnce (between .expression pre delim tokens) (str "\\\n" ++ rest) =
      some (⟨.goOn, between .expression pre delim tokens, false⟩, rest) := by
    have found : (valuedRulesOf .expression).find? (fun rule => rule.pattern.rmatch (str "\\\n")) =
        some ⟨false, lit (str "\\\n"), skips⟩ := front_found_at rfl rfl break_front.1.2
    apply valuedOnce_taken _ found _ rfl rfl
    · exact List.cons_ne_nil _ _
    intro c _
    apply rules_stop rfl (List.cons_ne_nil _ _)
    · exact fun rule inside => halts_sound (break_front.2.2.1 rule inside) rfl
    · intro type
      exact stops_of_foreign List.mem_cons_self (value_foreign (break_value (ch '\\') (by decide)) type) c
  exact .goOn once (later pre delim)

/-- A line break in an expression that no field follows. -/
theorem indent_reads (next : ∀ b ∈ rest.head?, (isBlank b || b == ch '\n') = true)
    (later : ReadsIn .expression rest tokens) : ReadsIn .expression (ch '\n' :: rest) tokens := by
  intro pre delim
  have once : valuedOnce (between .expression pre delim tokens) (str "\n" ++ rest) =
      some (⟨.goOn, between .expression pre delim tokens, false⟩, rest) := by
    have found : (valuedRulesOf .expression).find? (fun rule => rule.pattern.rmatch (str "\n")) =
        some ⟨false, lit (str "\n"), skips⟩ := front_found_at rfl rfl break_front.1.1.2
    apply valuedOnce_taken _ found _ rfl rfl
    · exact List.cons_ne_nil _ _
    intro c first
    apply rules_stop rfl (List.cons_ne_nil _ _)
    · exact fun rule inside => halts_sound (break_front.2.1.2 rule inside) (next c first)
    · intro type
      exact stops_of_foreign List.mem_cons_self (value_foreign (break_value (ch '\n') (by decide)) type) c
  exact .goOn once (later pre delim)

/-- The line break in front of the next field is given back. -/
theorem nextField_reads {next : Bytes} (opens : opensLine next = true)
    (later : ReadsIn .initial (ch '\n' :: next) tokens) : ReadsIn .expression (ch '\n' :: next) tokens := by
  intro pre delim
  obtain ⟨line, rest, rfl, free, breaks⟩ := line_split next
  rw [opensLine_append breaks] at opens
  have split : frontRules .expression = (frontRules .expression).take 1 ++ ⟨false, reNextField, expressionEnds⟩ ::
      ⟨false, lit (str "\n"), skips⟩ :: (frontRules .expression).drop 3 := rfl
  have others := break_front.2.2.2.2
  rw [List.forall_mem_append] at others
  have word := mem_nextField.mpr ⟨opens, free⟩
  have found : (valuedRulesOf .expression).find? (fun rule => rule.pattern.rmatch (ch '\n' :: line)) =
      some ⟨false, reNextField, expressionEnds⟩ := by
    apply front_found rfl
    rw [split]
    exact find_first (fun rule inside word => others.1 rule inside (mem_firsts word)) word
  have stops : ∀ c ∈ rest.head?, ∀ rule ∈ valuedRulesOf .expression, Stops rule.pattern (ch '\n' :: line) c := by
    intro c first
    apply rules_stop rfl (List.cons_ne_nil _ _)
    · rw [split, List.forall_mem_append, List.forall_mem_cons, List.forall_mem_cons]
      refine ⟨fun rule inside => stops_of_first (others.1 rule inside) _ c, ?_, ?_,
        fun rule inside => stops_of_first (others.2 rule inside) _ c⟩
      · intro v longer
        apply (mem_nextField.mp longer).2
        rw [breaks c first]
        exact List.mem_append_right _ List.mem_cons_self
      · intro v longer
        have short := congrArg List.length (mem_lit.mp longer)
        simp [str] at short
    · intro type
      exact stops_of_foreign List.mem_cons_self (value_foreign (break_value (ch '\n') (by decide)) type) c
  have once : valuedOnce (between .expression pre delim tokens) (ch '\n' :: line ++ rest) =
      some (⟨.goOn, between .initial pre delim tokens, true⟩, ch '\n' :: line ++ rest) :=
    valuedOnce_found (List.cons_ne_nil _ _) found (fun rule inside => ends_of_stops fun c first => stops c first rule inside)
      rfl
  exact .goOn once (later pre delim)

theorem eof_reads : ReadsIn .initial [] [.eol] ∧ ReadsIn .expression [] [.eol] :=
  ⟨fun _ _ => .deliver rfl (.eof rfl), fun _ _ => .deliver rfl (.eof rfl)⟩

end Breaks

end VyattaCfg.Cliexec
