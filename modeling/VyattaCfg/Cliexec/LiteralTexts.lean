import VyattaCfg.Cliexec.ScannerRuns

namespace VyattaCfg.Cliexec

open ByteString Regex VyattaCfg.Client

/-- How the text of a string is written between its quotes. -/
inductive Literal (delim : UInt8) : Bytes → Bytes → Prop
  | nil : Literal delim [] []
  | plain {c : UInt8} {raw text : Bytes} : c ∉ str "\"`\\" → c ≠ 0 → Literal delim raw text →
    Literal delim (c :: raw) (c :: text)
  | quote {c : UInt8} {raw text : Bytes} : isQuote c → c ≠ delim → Literal delim raw text →
    Literal delim (c :: raw) (c :: text)
  | escape {c d : UInt8} {raw text : Bytes} : c ≠ ch '\n' → escapeTable c = some d → d ≠ 0 →
    Literal delim raw text → Literal delim (ch '\\' :: c :: raw) (d :: text)
  | continuation {raw text : Bytes} : Literal delim raw text → Literal delim (ch '\\' :: ch '\n' :: raw) text

def stringOf (delim : UInt8) (text : Bytes) : DefToken :=
  .exp (if delim = ch '"' then .string (stringToken text) else .exString (stringToken text))

/-- In a string, with what has been collected of it. -/
def within (preStrState : Condition) (delim : UInt8) (text : Bytes) (tokens : List DefToken) : DefState :=
  ⟨⟨.str, preStrState, delim, false⟩, [], text, flagsOf tokens⟩

/-- The texts of one run are taken together. -/
theorem Literal.run {delim : UInt8} {raw text : Bytes} (literal : Literal delim raw text) :
    ∃ run raw' text', raw = run ++ raw' ∧ text = run ++ text' ∧ Literal delim raw' text' ∧
      (∀ c ∈ run, c ∉ str "\"`\\" ∧ c ≠ 0) ∧ ∀ c ∈ raw'.head?, c ∈ str "\"`\\" := by
  induction literal with
  | nil => exact ⟨[], [], [], rfl, rfl, .nil, List.forall_mem_nil _, nofun⟩
  | @plain c raw text ordinary nonzero _ ih =>
    obtain ⟨run, raw', text', rfl, rfl, rest, all, next⟩ := ih
    exact ⟨c :: run, raw', text', rfl, rfl, rest, List.forall_mem_cons.mpr ⟨⟨ordinary, nonzero⟩, all⟩, next⟩
  | @quote c raw text quote other rest _ =>
    refine ⟨[], c :: raw, c :: text, rfl, rfl, .quote quote other rest, List.forall_mem_nil _, ?_⟩
    intro b first
    rw [← Option.some.inj first]
    have listed : c ∈ str "\"`" := of_decide_eq_true quote
    exact List.mem_of_mem_dropLast (show c ∈ (str "\"`\\").dropLast from listed)
  | @escape c d raw text other found nonzero rest _ =>
    refine ⟨[], ch '\\' :: c :: raw, d :: text, rfl, rfl, .escape other found nonzero rest, List.forall_mem_nil _, ?_⟩
    intro b first
    rw [← Option.some.inj first]
    decide
  | @continuation raw text rest _ =>
    refine ⟨[], ch '\\' :: ch '\n' :: raw, text, rfl, rfl, .continuation rest, List.forall_mem_nil _, ?_⟩
    intro b first
    rw [← Option.some.inj first]
    decide

theorem strRules_eq : valuedRulesOf .str = [⟨false, anyOf (str "\"`"), strQuote⟩, ⟨false, lit (str "\\\n"), skips⟩,
    ⟨false, lit (str "\\") * reDot, strEscape⟩,
    ⟨false, noneOf (str "\"`\\") * (noneOf (str "\"`\\")).star, strText⟩, dotRule] := rfl

theorem strRules_front : ((∀ c ∈ str "\"`", (valuedRulesOf .str).findIdx (fun rule => whole [c] rule.pattern) = 0) ∧
    (valuedRulesOf .str).findIdx (fun rule => whole (str "\\\n") rule.pattern) = 1) ∧
    (∀ w ∈ (str "\"`").map (fun c => [c]) ++ [str "\\\n"], ∀ rule ∈ valuedRulesOf .str,
      halts w (fun _ => true) rule.pattern = true) ∧
    ∀ c ∈ str "\"`\\", c ∉ firsts (noneOf (str "\"`\\") * (noneOf (str "\"`\\")).star) ∧
      c ∉ letters (noneOf (str "\"`\\") * (noneOf (str "\"`\\")).star) := by
  decide +kernel

variable {pre : Condition} {delim : UInt8} {tokens : List DefToken} {acc : Bytes}

theorem within_append {run : Bytes} (free : 0 ∉ run) :
    (within pre delim acc tokens).appendStr run = within pre delim (acc ++ run) tokens := by
  rw [DefState.appendStr, cstr_of_nul_free free]
  rfl

theorem isQuote_ne_zero {c : UInt8} (quote : isQuote c) : c ≠ 0 := by
  have listed : c ∈ str "\"`" := of_decide_eq_true quote
  have all : ∀ c ∈ str "\"`", c ≠ 0 := by decide
  exact all c listed

theorem str_quote {c : UInt8} (quote : isQuote c) {rest : Bytes} {reaction : ValuedReaction}
    (acted : strQuote [c] (within pre delim acc tokens) = some reaction) (taken : reaction.unput = false) :
    valuedOnce (within pre delim acc tokens) (c :: rest) = some (reaction, rest) := by
  have listed : c ∈ str "\"`" := of_decide_eq_true quote
  apply valuedOnce_taken (List.cons_ne_nil c []) (find_at rfl (strRules_front.1.1 c listed)) _ acted taken
  intro b _ rule inside
  exact halts_sound (strRules_front.2.1 [c] (List.mem_append_left _ (List.mem_map_of_mem listed)) rule inside) rfl

theorem str_closes (quote : isQuote delim) (rest : Bytes) : valuedOnce (within pre delim acc tokens) (delim :: rest) =
    some (⟨.deliver (stringOf delim acc), between pre pre delim tokens, false⟩, rest) := by
  apply str_quote quote
  · show (if delim = delim then _ else _) = _
    rw [if_pos rfl]
    rfl
  · rfl

theorem str_other {c : UInt8} (quote : isQuote c) (other : c ≠ delim) (rest : Bytes) :
    valuedOnce (within pre delim acc tokens) (c :: rest) =
      some (⟨.goOn, within pre delim (acc ++ [c]) tokens, false⟩, rest) := by
  apply str_quote quote
  · show (if delim = c then _ else _) = _
    rw [if_neg (Ne.symm other), List.headD_cons, within_append]
    · rfl
    · rw [List.mem_singleton]
      exact Ne.symm (isQuote_ne_zero quote)
  · rfl

theorem str_continues (rest : Bytes) : valuedOnce (within pre delim acc tokens) (ch '\\' :: ch '\n' :: rest) =
    some (⟨.goOn, within pre delim acc tokens, false⟩, rest) := by
  apply valuedOnce_taken (w := str "\\\n") (by decide) (find_at rfl strRules_front.1.2) _ rfl rfl
  intro b _ rule inside
  exact halts_sound (strRules_front.2.1 _ (by decide) rule inside) rfl

theorem str_escapes {c d : UInt8} (line : c ≠ ch '\n') (found : escapeTable c = some d) (nonzero : d ≠ 0)
    (rest : Bytes) : valuedOnce (within pre delim acc tokens) (ch '\\' :: c :: rest) =
      some (⟨.goOn, within pre delim (acc ++ [d]) tokens, false⟩, rest) := by
  have slash : ch '\\' ∉ firsts (anyOf (str "\"`")) ∧
      ch '\\' ∉ firsts (noneOf (str "\"`\\") * (noneOf (str "\"`\\")).star) :=
    ⟨by decide, (strRules_front.2.2 (ch '\\') (by decide)).1⟩
  have pair : [ch '\\', c] ∈ (lit (str "\\") * reDot).matches' := by
    apply mem_mul.mpr
    refine ⟨[ch '\\'], mem_lit.mpr rfl, [c], noneOf_mem ?_, rfl⟩
    rw [show str "\n" = [ch '\n'] from rfl, List.mem_singleton]
    exact line
  have unlike : [ch '\\', c] ∉ (lit (str "\\\n")).matches' := by
    intro word
    exact line (List.cons.inj (List.cons.inj (mem_lit.mp word)).2).1
  have escape : strEscape [ch '\\', c] (within pre delim acc tokens) =
      some ⟨.goOn, within pre delim (acc ++ [d]) tokens, false⟩ := by
    show (escapeTable c).bind _ = _
    rw [found, Option.bind_some, within_append]
    · rfl
    · rw [List.mem_singleton]
      exact Ne.symm nonzero
  have chosen : (valuedRulesOf .str).find? (fun rule => rule.pattern.rmatch [ch '\\', c]) =
      some ⟨false, lit (str "\\") * reDot, strEscape⟩ := by
    rw [strRules_eq, List.find?_cons_of_neg, List.find?_cons_of_neg, List.find?_cons_of_pos]
    · exact (RegularExpression.rmatch_iff_matches' _ _).mpr pair
    · exact fun word => unlike ((RegularExpression.rmatch_iff_matches' _ _).mp word)
    · exact fun word => slash.1 (mem_firsts ((RegularExpression.rmatch_iff_matches' _ _).mp word))
  have stops : ∀ b, ∀ rule ∈ valuedRulesOf .str, Stops rule.pattern [ch '\\', c] b := by
    intro b
    rw [strRules_eq]
    simp only [List.forall_mem_cons]
    refine ⟨stops_of_first slash.1 _ _, ?_, ?_, stops_of_first slash.2 _ _, dot_stops (List.cons_ne_nil _ _) b,
      List.forall_mem_nil _⟩
    · apply stops_of_length (n := 2) _ (le_refl 2)
      intro v word
      rw [mem_lit.mp word]
      exact le_refl 2
    · apply stops_of_length (n := 2) _ (le_refl 2)
      intro v word
      obtain ⟨first, one, second, two, rfl⟩ := mem_mul.mp word
      obtain ⟨e, -, rfl⟩ := mem_anyOf.mp two
      rw [mem_lit.mp one]
      exact le_refl 2
  show valuedOnce (within pre delim acc tokens) ([ch '\\', c] ++ rest) = _
  exact valuedOnce_taken (List.cons_ne_nil _ _) chosen (fun b _ => stops b) escape rfl

theorem str_runs {run : Bytes} (nonempty : run ≠ []) (ordinary : ∀ c ∈ run, c ∉ str "\"`\\" ∧ c ≠ 0) {rest : Bytes}
    (ends : ∀ c ∈ rest.head?, c ∈ str "\"`\\") : valuedOnce (within pre delim acc tokens) (run ++ rest) =
      some (⟨.goOn, within pre delim (acc ++ run) tokens, false⟩, rest) := by
  obtain ⟨b, more, rfl⟩ := List.exists_cons_of_ne_nil nonempty
  have here := (ordinary b List.mem_cons_self).1
  have opens : ∀ rule ∈ (valuedRulesOf .str).take 3, ∀ a ∈ firsts rule.pattern, a ∈ str "\"`\\" := by decide
  have others : ∀ rule ∈ (valuedRulesOf .str).take 3, b ∉ firsts rule.pattern :=
    fun rule inside first => here (opens rule inside b first)
  have word : b :: more ∈ (noneOf (str "\"`\\") * (noneOf (str "\"`\\")).star).matches' := by
    apply mem_mul.mpr
    exact ⟨[b], noneOf_mem here, more, noneOf_star fun c inside => (ordinary c (List.mem_cons_of_mem _ inside)).1, rfl⟩
  have taken : strText (b :: more) (within pre delim acc tokens) =
      some ⟨.goOn, within pre delim (acc ++ b :: more) tokens, false⟩ := by
    rw [strText, within_append]
    · rfl
    · exact fun inside => (ordinary 0 inside).2 rfl
  have chosen : (valuedRulesOf .str).find? (fun rule => rule.pattern.rmatch (b :: more)) =
      some ⟨false, noneOf (str "\"`\\") * (noneOf (str "\"`\\")).star, strText⟩ := by
    have split : valuedRulesOf .str = (valuedRulesOf .str).take 3 ++
        [⟨false, noneOf (str "\"`\\") * (noneOf (str "\"`\\")).star, strText⟩, dotRule] := rfl
    rw [split]
    exact find_first (fun rule inside word => others rule inside (mem_firsts word)) word
  have stops : ∀ c ∈ rest.head?, ∀ rule ∈ valuedRulesOf .str, Stops rule.pattern (b :: more) c := by
    intro c next
    rw [← List.take_append_drop 3 (valuedRulesOf .str), List.forall_mem_append]
    refine ⟨fun rule inside => stops_of_first (others rule inside) _ c, ?_⟩
    show ∀ rule ∈ [_, dotRule], _
    rw [List.forall_mem_cons, List.forall_mem_singleton]
    exact ⟨stops_of_letter (strRules_front.2.2 c (ends c next)).2 _, dot_stops nonempty c⟩
  exact valuedOnce_taken nonempty chosen stops taken rfl

/-- The text between the quotes becomes the string, with the escapes resolved. -/
theorem literal_reads (quote : isQuote delim) {raw text : Bytes} (literal : Literal delim raw text) {rest : Bytes}
    (later : ReadsIn pre rest tokens) :
    Reads (within pre delim acc tokens) (raw ++ delim :: rest) (stringOf delim (acc ++ text) :: tokens) := by
  induction length : raw.length using Nat.strong_induction_on generalizing raw text acc with
  | _ n ih =>
    subst length
    have whole := literal
    cases literal with
    | nil =>
      rw [List.append_nil]
      exact .deliver (str_closes quote rest) (later pre delim)
    | @plain c raw text ordinary nonzero =>
      obtain ⟨run, raw', text', same, same', literal', all, next⟩ := whole.run
      have nonempty : run ≠ [] := by
        rintro rfl
        rw [List.nil_append] at same
        rw [← same] at next
        exact ordinary (next c rfl)
      have shorter : raw'.length < (c :: raw).length := by
        rw [same, List.length_append]
        have := List.length_pos_iff.mpr nonempty
        omega
      have ends : ∀ b ∈ (raw' ++ delim :: rest).head?, b ∈ str "\"`\\" := by
        intro b first
        cases raw' with
        | nil =>
          rw [← Option.some.inj first]
          exact List.mem_of_mem_dropLast (show delim ∈ (str "\"`\\").dropLast from of_decide_eq_true quote)
        | cons => exact next b first
      rw [same, same', List.append_assoc, ← List.append_assoc acc]
      exact .goOn (str_runs nonempty all ends) (ih _ shorter literal' rfl)
    | @quote c raw text quote' other literal =>
      rw [List.append_cons acc c text]
      exact .goOn (str_other quote' other _) (ih _ (Nat.lt_succ_self _) literal rfl)
    | @escape c d raw text line found nonzero literal =>
      rw [List.append_cons acc d text]
      exact .goOn (str_escapes line found nonzero _) (ih _ (by rw [List.length_cons, List.length_cons]; omega) literal rfl)
    | @continuation raw text literal =>
      exact .goOn (str_continues _) (ih _ (by rw [List.length_cons, List.length_cons]; omega) literal rfl)

end VyattaCfg.Cliexec
