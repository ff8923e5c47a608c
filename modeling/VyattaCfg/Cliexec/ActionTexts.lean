import VyattaCfg.Cliexec.FieldTexts
import VyattaCfg.Cliexec.ScannerRuns

namespace VyattaCfg.Cliexec

open ByteString Regex VyattaCfg.Client

/-- The text of an action: what follows a line break in it is not a new field. -/
structure ActionLines (text : Bytes) : Prop where
  free : 0 ∉ text
  inner : ∀ front line, text = front ++ ch '\n' :: line → opensLine line = false

theorem ActionLines.behind {front text : Bytes} (lines : ActionLines (front ++ text)) : ActionLines text where
  free inside := lines.free (List.mem_append_right _ inside)
  inner before line same := lines.inner (front ++ before) line (by rw [same, List.append_assoc])

def collecting (preStrState : Condition) (strDelim : UInt8) (text : Bytes) (tokens : List DefToken) : DefState :=
  ⟨⟨.action, preStrState, strDelim, false⟩, text, [], flagsOf tokens⟩

def reActionLine : Pattern := opt (lit (str "\n")) * reDot.star

theorem actionRules_eq : valuedRulesOf .action =
    [⟨false, reNextField, actionEnds⟩, ⟨false, reActionLine, actionLine⟩, dotRule] := rfl

theorem mem_actionLine {c : UInt8} {y : Bytes} : c :: y ∈ reActionLine.matches' ↔ ch '\n' ∉ y := by
  have newline : ch '\n' ∈ str "\n" := by decide
  have dots : ∀ {w : Bytes}, ch '\n' ∉ w → w ∈ reDot.star.matches' := by
    intro w free
    apply noneOf_star
    intro b inside
    rw [show str "\n" = [ch '\n'] from rfl, List.mem_singleton]
    rintro rfl
    exact free inside
  constructor
  · intro word inside
    obtain ⟨mark, first, line, dot, same⟩ := mem_mul.mp word
    rcases mem_opt.mp first with rfl | first
    · rw [List.nil_append] at same
      rw [same] at dot
      exact noneOf_free dot _ (List.mem_cons_of_mem _ inside) newline
    · rw [mem_lit.mp first] at same
      rw [← (List.cons.inj same).2] at inside
      exact noneOf_free dot _ inside newline
  · intro free
    apply mem_mul.mpr
    by_cases first : c = ch '\n'
    · subst first
      exact ⟨str "\n", mem_opt.mpr (.inr (mem_lit.mpr rfl)), y, dots free, rfl⟩
    · refine ⟨[], mem_opt.mpr (.inl rfl), c :: y, dots ?_, rfl⟩
      rw [List.mem_cons, not_or]
      exact ⟨Ne.symm first, free⟩

variable {pre : Condition} {delim : UInt8} {tokens : List DefToken} {acc : Bytes}

theorem action_stops {c : UInt8} {y rest : Bytes} (ends : ∀ b ∈ rest.head?, b = ch '\n') :
    ∀ rule ∈ valuedRulesOf .action, Ends rule.pattern (c :: y) rest := by
  have broken : ∀ b ∈ rest.head?, ∀ v, ch '\n' ∈ y ++ b :: v := by
    intro b next v
    rw [ends b next]
    exact List.mem_append_right _ List.mem_cons_self
  rw [actionRules_eq]
  simp only [List.forall_mem_cons]
  refine ⟨?_, ?_, ?_, List.forall_mem_nil _⟩
  all_goals
    apply ends_of_stops
    intro b next
  · intro v word
    obtain rfl := nextField_first word
    exact (mem_nextField.mp word).2 (broken b next v)
  · exact fun v word => mem_actionLine.mp word (broken b next v)
  · exact dot_stops (List.cons_ne_nil c y) b

theorem action_continues {c : UInt8} {y rest : Bytes} (free : ch '\n' ∉ y) (nonzero : 0 ∉ c :: y)
    (inner : c = ch '\n' → opensLine y = false) (ends : ∀ b ∈ rest.head?, b = ch '\n') :
    valuedOnce (collecting pre delim acc tokens) (c :: y ++ rest) =
      some (⟨.goOn, collecting pre delim (acc ++ c :: y) tokens, false⟩, rest) := by
  have found : (valuedRulesOf .action).find? (fun rule => rule.pattern.rmatch (c :: y)) =
      some ⟨false, reActionLine, actionLine⟩ := by
    rw [actionRules_eq]
    apply @find_first [⟨false, reNextField, actionEnds⟩] [dotRule]
    · rw [List.forall_mem_singleton]
      intro word
      obtain rfl := nextField_first word
      have opens := (mem_nextField.mp word).1
      rw [inner rfl] at opens
      cases opens
    · exact mem_actionLine.mpr free
  have taken : actionLine (c :: y) (collecting pre delim acc tokens) =
      some ⟨.goOn, collecting pre delim (acc ++ c :: y) tokens, false⟩ := by
    rw [actionLine, DefState.appendAction, cstr_of_nul_free nonzero]
    rfl
  exact valuedOnce_found (List.cons_ne_nil c y) found (action_stops ends) taken

theorem action_ends {y rest : Bytes} (opens : opensLine y = true) (free : ch '\n' ∉ y)
    (ends : ∀ b ∈ rest.head?, b = ch '\n') :
    valuedOnce (collecting pre delim acc tokens) (ch '\n' :: y ++ rest) =
      some (⟨.deliver (.exp (.string (stringToken acc))), between .initial pre delim tokens, true⟩,
        ch '\n' :: y ++ rest) := by
  have found : (valuedRulesOf .action).find? (fun rule => rule.pattern.rmatch (ch '\n' :: y)) =
      some ⟨false, reNextField, actionEnds⟩ := by
    rw [actionRules_eq]
    exact @find_first [] _ _ _ (List.forall_mem_nil _) (mem_nextField.mpr ⟨opens, free⟩)
  exact valuedOnce_found (List.cons_ne_nil _ y) found (action_stops ends) rfl

theorem line_split (text : Bytes) :
    ∃ line rest, text = line ++ rest ∧ ch '\n' ∉ line ∧ ∀ b ∈ rest.head?, b = ch '\n' := by
  induction text with
  | nil => exact ⟨[], [], rfl, List.not_mem_nil, nofun⟩
  | cons c text ih =>
    by_cases newline : c = ch '\n'
    · refine ⟨[], c :: text, rfl, List.not_mem_nil, ?_⟩
      intro b first
      rw [← Option.some.inj first, newline]
    · obtain ⟨line, rest, rfl, free, ends⟩ := ih
      refine ⟨c :: line, rest, rfl, ?_, ends⟩
      rw [List.mem_cons, not_or]
      exact ⟨Ne.symm newline, free⟩

/-- The lines of an action up to the next field become its text. -/
theorem action_reads {text rest : Bytes} (lines : ActionLines text) (later : ReadsIn .initial rest tokens)
    (ends : rest = [] ∨ ∃ next, rest = ch '\n' :: next ∧ opensLine next = true) :
    Reads (collecting pre delim acc tokens) (text ++ rest)
      (.exp (.string (stringToken (acc ++ text))) :: tokens) := by
  have broken : ∀ b ∈ rest.head?, b = ch '\n' := by
    intro b first
    rcases ends with rfl | ⟨next, rfl, -⟩
    · cases first
    · exact (Option.some.inj first).symm
  induction length : text.length using Nat.strong_induction_on generalizing text acc with
  | _ n ih =>
    subst length
    cases text with
    | nil =>
      rw [List.nil_append, List.append_nil]
      rcases ends with rfl | ⟨next, rfl, opens⟩
      · exact .deliver rfl (later pre delim)
      · obtain ⟨line, more, rfl, free, breaks⟩ := line_split next
        rw [opensLine_append breaks] at opens
        exact .deliver (action_ends opens free breaks) (later pre delim)
    | cons c text =>
      obtain ⟨line, more, rfl, free, breaks⟩ := line_split text
      have behind : ActionLines more := @ActionLines.behind (c :: line) more lines
      have inner : c = ch '\n' → opensLine line = false := by
        rintro rfl
        rw [← opensLine_append breaks]
        exact lines.inner [] _ rfl
      have nonzero : 0 ∉ c :: line := fun inside => lines.free (List.mem_append_left more inside)
      have next : ∀ b ∈ (more ++ rest).head?, b = ch '\n' := by
        cases more with
        | nil => exact broken
        | cons => exact breaks
      have shorter : more.length < (c :: (line ++ more)).length := by
        rw [List.length_cons, List.length_append]
        omega
      have reads : Reads (collecting pre delim (acc ++ c :: line) tokens) (more ++ rest)
          (.exp (.string (stringToken (acc ++ c :: line ++ more))) :: tokens) := ih _ shorter behind rfl
      have once : valuedOnce (collecting pre delim acc tokens) (c :: line ++ (more ++ rest)) =
          some (⟨.goOn, collecting pre delim (acc ++ c :: line) tokens, false⟩, more ++ rest) :=
        action_continues free nonzero inner next
      rw [List.append_assoc] at reads
      rw [List.cons_append, ← List.append_assoc] at once
      exact .goOn once reads

end VyattaCfg.Cliexec
