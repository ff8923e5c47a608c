import VyattaCfg.Cliexec.Char2val

namespace VyattaCfg.Cliexec

open ByteString VyattaCfg.Client

def multiAlloc : Nat := 5

/-- `cnt` rounded up to a multiple of `MULTI_ALLOC`. -/
def roundUp (cnt : Nat) : Nat := (cnt + multiAlloc - 1) / multiAlloc * multiAlloc

/-- What `char2val_text` leaves: its result, the caller's buffer, the value, and the entries that its
    arrays have room for. -/
structure TextResult where
  status : Int
  buffer : Bytes
  valp : ValStruct
  room : Nat

/-- The number of lines that the first loop and the two tests behind it predict. -/
def lineCount (value : Bytes) : Nat :=
  let linecnt := value.count (ch '\n')
  let linecnt := if value ≠ [] ∧ value.getLast? ≠ some (ch '\n') then linecnt + 1 else linecnt
  if linecnt = 0 then 1 else linecnt

def strchr (cp : Bytes) (c : UInt8) : Option Nat := if c ∈ cstr cp then some (cp.idxOf c) else none

/-- The second loop, with the lines still to come, the buffer in front of `cp` and from `cp` on. The
    lines are copied out while a NUL stands for their newline. -/
def copyLines (linecnt : Nat) : Nat → Bytes → Bytes → List Bytes → Except Abort (Bytes × List Bytes)
  | 0, seen, cp, vals => .ok (seen ++ cp, vals)
  | lines + 1, seen, cp, vals =>
    match strchr cp (ch '\n') with
    | some endp =>
      let cut := cp.set endp 0
      let restored := cut.set endp (ch '\n')
      copyLines linecnt lines (seen ++ restored.take (endp + 1)) (restored.drop (endp + 1)) (vals ++ [cstr cut])
    | none =>
      if vals.length + 1 = linecnt then .ok (seen ++ cp, vals ++ [cstr cp]) else .error .assertion

/-- `char2val_text` on a cleared `valstruct`, the memory it asks for being there. -/
def char2valTextIn (value : Bytes) : Except Abort TextResult :=
  let linecnt := lineCount (cstr value)
  if linecnt = 1 then
    let val := cstr value
    let val := match strchr val (ch '\n') with
      | some endp => cstr (val.set endp 0)
      | none => val
    .ok ⟨0, value, { ValStruct.zero with valType := .text, val := some val }, 0⟩
  else do
    let cnt := roundUp linecnt
    let (buffer, vals) ← copyLines linecnt linecnt [] value []
    .ok ⟨0, buffer, { ValStruct.zero with valType := .text, vals := vals.map fun line => (line, .error) }, cnt⟩

/-- `add_val` with the room of its arrays; a value is written only where there is some. -/
def addValIn (first : ValStruct × Nat) (second : ValStruct) : Except Abort (ValStruct × Nat) :=
  if second.vals ≠ [] then .error .assertion
  else
    let cnt := first.1.vals.length
    let room := if cnt % multiAlloc = 0 then cnt + multiAlloc else first.2
    if (if cnt = 0 then 1 else cnt) < room then .ok (addVal first.1 second, room) else .error .overrun

/-- The lines that are left behind a newline. -/
def linesLeft (value : Bytes) : List Bytes := if value = [] then [] else textLines value

theorem textLines_cons {line : Bytes} (whole : ch '\n' ∉ line) (rest : Bytes) :
    textLines (line ++ ch '\n' :: rest) = line :: linesLeft rest := by
  have split : (line ++ ch '\n' :: rest).splitOn (ch '\n') = line :: rest.splitOn (ch '\n') := by
    rw [List.splitOn_append_cons_self, List.splitOn_eq_singleton whole, List.singleton_append]
  unfold linesLeft
  by_cases last : rest = []
  · subst last
    simp [textLines, split]
  · have ends : (line ++ ch '\n' :: rest).getLast? = rest.getLast? := by
      rw [List.getLast?_append_of_ne_nil _ (List.cons_ne_nil _ _), List.getLast?_cons_of_ne_nil last]
    rw [if_neg last, textLines, textLines, ends, split]
    split
    · rw [List.dropLast_cons_of_ne_nil (List.splitOn_ne_nil _ _)]
    · rfl

theorem textLines_whole {line : Bytes} (whole : ch '\n' ∉ line) : textLines line = [line] := by
  have open? : line.getLast? ≠ some (ch '\n') := fun last => whole (List.mem_of_getLast? last)
  rw [textLines, if_neg open?, List.splitOn_eq_singleton whole]

theorem splits_at_newline (value : Bytes) :
    ch '\n' ∉ value ∨ ∃ line rest, value = line ++ ch '\n' :: rest ∧ ch '\n' ∉ line := by
  by_cases split : ch '\n' ∈ value
  · obtain ⟨line, rest, shape, whole⟩ := List.eq_append_cons_of_mem split
    exact .inr ⟨line, rest, shape, whole⟩
  · exact .inl split

theorem linesLeft_length (value : Bytes) :
    (linesLeft value).length =
      value.count (ch '\n') + if value ≠ [] ∧ value.getLast? ≠ some (ch '\n') then 1 else 0 := by
  induction bound : value.length using Nat.strong_induction_on generalizing value with
  | _ n ih =>
    rcases splits_at_newline value with whole | ⟨line, rest, shape, whole⟩
    · have open? : value.getLast? ≠ some (ch '\n') := fun last => whole (List.mem_of_getLast? last)
      rw [List.count_eq_zero_of_not_mem whole, linesLeft, textLines_whole whole]
      by_cases empty : value = []
      · simp [empty]
      · simp [empty, open?]
    · have filled : value ≠ [] := by simp [shape]
      have shorter : rest.length < n := by
        rw [← bound, shape, List.length_append, List.length_cons]
        omega
      have count : value.count (ch '\n') = rest.count (ch '\n') + 1 := by
        rw [shape, List.count_append, List.count_eq_zero_of_not_mem whole, List.count_cons_self]
        omega
      have later := ih rest.length shorter rest rfl
      rw [linesLeft, if_neg filled, shape, textLines_cons whole, ← shape, List.length_cons, later, count]
      by_cases last : rest = []
      · simp [shape, last]
      · have ends : value.getLast? = rest.getLast? := by
          rw [shape, List.getLast?_append_of_ne_nil _ (List.cons_ne_nil _ _), List.getLast?_cons_of_ne_nil last]
        simp only [filled, last, ends, ne_eq, not_false_eq_true, true_and]
        omega

/-- The prediction is right. -/
theorem lineCount_eq (value : Bytes) : lineCount value = (textLines value).length := by
  have left := linesLeft_length value
  unfold lineCount
  by_cases empty : value = []
  · subst empty
    rfl
  · rw [linesLeft, if_neg empty] at left
    have some : (textLines value).length ≠ 0 := by
      rcases splits_at_newline value with whole | ⟨line, rest, shape, whole⟩
      · rw [textLines_whole whole]
        exact Nat.one_ne_zero
      · rw [shape, textLines_cons whole]
        exact Nat.succ_ne_zero _
    split at left
    · rename_i last
      simp only [if_pos last, ← left, if_neg some]
    · rename_i last
      simp only [if_neg last]
      rw [Nat.add_zero] at left
      rw [← left, if_neg some]

theorem strchr_none {value : Bytes} (free : 0 ∉ value) (whole : ch '\n' ∉ value) :
    strchr (value ++ [0]) (ch '\n') = none := by
  rw [strchr, cstr_cut free, if_neg whole]

theorem strchr_some {line rest : Bytes} (free : 0 ∉ line) (whole : ch '\n' ∉ line) :
    strchr (line ++ ch '\n' :: rest) (ch '\n') = some line.length := by
  have present : ch '\n' ∈ cstr (line ++ ch '\n' :: rest) := by
    rw [cstr_append free]
    exact List.mem_append_right _ List.mem_cons_self
  rw [strchr, if_pos present, List.idxOf_append_of_notMem whole, List.idxOf_cons_self, Nat.add_zero]

theorem set_behind (line : Bytes) (c d : UInt8) (rest : Bytes) :
    (line ++ c :: rest).set line.length d = line ++ d :: rest := by
  rw [List.set_append_right _ _ (le_refl _), Nat.sub_self, List.set_cons_zero]

/-- The newlines are back in their places, and the assertion holds. -/
theorem copyLines_eq {linecnt : Nat} {value : Bytes} (free : 0 ∉ value) (seen : Bytes) {vals : List Bytes}
    (predicted : vals.length + (linesLeft value).length = linecnt) :
    copyLines linecnt (linesLeft value).length seen (value ++ [0]) vals =
      .ok (seen ++ (value ++ [0]), vals ++ linesLeft value) := by
  induction bound : value.length using Nat.strong_induction_on generalizing value seen vals with
  | _ n ih =>
    by_cases empty : value = []
    · subst empty
      simp [linesLeft, copyLines]
    · rw [linesLeft, if_neg empty] at predicted ⊢
      rcases splits_at_newline value with whole | ⟨line, rest, shape, whole⟩
      · rw [textLines_whole whole] at predicted ⊢
        have last : vals.length + 1 = linecnt := predicted
        rw [List.length_singleton, copyLines, strchr_none free whole]
        simp only [if_pos last, cstr_cut free]
      · have freeLine : 0 ∉ line := fun nul => free (by rw [shape]; exact List.mem_append_left _ nul)
        have freeRest : 0 ∉ rest := fun nul => free (by rw [shape]; simp [nul])
        have shorter : rest.length < n := by
          rw [← bound, shape, List.length_append, List.length_cons]
          omega
        rw [shape, textLines_cons whole] at predicted ⊢
        have later : (vals ++ [line]).length + (linesLeft rest).length = linecnt := by
          rw [← predicted, List.length_append, List.length_singleton, List.length_cons]
          omega
        have buffer : line ++ ch '\n' :: rest ++ [0] = line ++ ch '\n' :: (rest ++ [0]) := by simp
        have piece : line ++ ch '\n' :: (rest ++ [0]) = line ++ [ch '\n'] ++ (rest ++ [0]) := by simp
        have length : line.length + 1 = (line ++ [ch '\n']).length := by simp
        rw [List.length_cons, copyLines, buffer, strchr_some freeLine whole]
        simp only [set_behind, cstr_cut freeLine]
        rw [piece, length, List.take_left, List.drop_left, ih rest.length shorter freeRest _ later rfl]
        simp

theorem textLines_length_pos (value : Bytes) : 0 < (textLines value).length := by
  rcases splits_at_newline value with whole | ⟨line, rest, shape, whole⟩
  · rw [textLines_whole whole]
    exact Nat.one_pos
  · rw [shape, textLines_cons whole]
    exact Nat.succ_pos _

theorem textLines_head (value : Bytes) : (textLines value).head? = some (value.takeWhile (· ≠ ch '\n')) := by
  have kept : ∀ line : Bytes, ch '\n' ∉ line → ∀ b ∈ line, decide (b ≠ ch '\n') = true := by
    intro line whole b member
    have other : b ≠ ch '\n' := fun same => whole (same ▸ member)
    simpa using other
  rcases splits_at_newline value with whole | ⟨line, rest, shape, whole⟩
  · rw [textLines_whole whole, List.takeWhile_eq_self_iff.mpr (kept value whole), List.head?_cons]
  · rw [shape, textLines_cons whole, List.head?_cons, List.takeWhile_append_of_pos (kept line whole)]
    simp

/-- The first newline of a single line ends the copy. -/
theorem first_line {value : Bytes} (free : 0 ∉ value) :
    (match strchr value (ch '\n') with
      | some endp => cstr (value.set endp 0)
      | none => value) = value.takeWhile (· ≠ ch '\n') := by
  have head := textLines_head value
  rcases splits_at_newline value with whole | ⟨line, rest, shape, whole⟩
  · rw [textLines_whole whole, List.head?_cons] at head
    rw [strchr, cstr_of_nul_free free, if_neg whole]
    exact Option.some.inj head
  · have freeLine : 0 ∉ line := fun nul => free (by rw [shape]; exact List.mem_append_left _ nul)
    rw [shape, textLines_cons whole, List.head?_cons] at head
    rw [shape, strchr_some freeLine whole]
    simp only [set_behind, cstr_cut freeLine]
    exact Option.some.inj head

theorem char2valTextIn_eq {value : Bytes} (free : 0 ∉ value) :
    char2valTextIn (value ++ [0]) =
      .ok ⟨0, value ++ [0], char2valText value, roundUp (char2valText value).vals.length⟩ := by
  have some := textLines_length_pos value
  unfold char2valTextIn char2valText
  simp only [cstr_cut free, lineCount_eq]
  by_cases single : (textLines value).length = 1
  · have none : roundUp 0 = 0 := by decide
    rw [if_pos single, if_pos single.le, first_line free]
    simp [ValStruct.zero, none]
  · have filled : value ≠ [] := by
      intro empty
      subst empty
      exact single rfl
    have several : ¬ (textLines value).length ≤ 1 := by omega
    have left : linesLeft value = textLines value := if_neg filled
    have predicted : ([] : List Bytes).length + (linesLeft value).length = (linesLeft value).length := Nat.zero_add _
    have copied := copyLines_eq free [] predicted
    rw [left] at copied
    rw [if_neg single, if_neg several, copied]
    simp [bind, Except.bind]

theorem char2valText_values (value : Bytes) : (char2valText value).values = textLines value := by
  have some := textLines_length_pos value
  unfold char2valText ValStruct.values
  by_cases single : (textLines value).length ≤ 1
  · obtain ⟨line, only⟩ := List.length_eq_one_iff.mp (Nat.le_antisymm single some)
    have head := textLines_head value
    rw [only, List.head?_cons] at head
    rw [if_pos single, only, Option.some.inj head]
    rfl
  · have filled : textLines value ≠ [] := List.ne_nil_of_length_pos some
    rw [if_neg single]
    simp [filled, Function.comp_def]

theorem char2valText_cnt (value : Bytes) : (char2valText value).vals.length =
    if (textLines value).length = 1 then 0 else (textLines value).length := by
  have some := textLines_length_pos value
  unfold char2valText
  by_cases single : (textLines value).length = 1
  · rw [if_pos single.le, if_pos single]
    rfl
  · have several : ¬ (textLines value).length ≤ 1 := by omega
    rw [if_neg several, if_neg single, List.length_map]

theorem char2valText_single (value : Bytes) (none : (char2valText value).vals = []) :
    ∃ line, (char2valText value).val = some line ∧ (char2valText value).values = [line] := by
  have some := textLines_length_pos value
  refine ⟨value.takeWhile (· ≠ ch '\n'), ?_⟩
  unfold char2valText at *
  by_cases single : (textLines value).length ≤ 1
  · rw [if_pos single]
    exact ⟨rfl, rfl⟩
  · rw [if_neg single] at none
    have empty : textLines value = [] := List.map_eq_nil_iff.mp none
    rw [empty] at some
    exact absurd some (lt_irrefl 0)

theorem textLines_mem {value line : Bytes} (member : line ∈ textLines value) : ch '\n' ∉ line := by
  apply Words.sep_not_mem_splitOn (ch '\n') value line
  unfold textLines at member
  split at member
  · exact List.dropLast_subset _ member
  · exact member

/-- Joined by newlines, the lines are the string again, up to the newline at its end. -/
theorem textLines_join (value : Bytes) : Words.join (ch '\n') (textLines value) ++
    (if value.getLast? = some (ch '\n') then [ch '\n'] else []) = value := by
  have joined : Words.join (ch '\n') (value.splitOn (ch '\n')) = value := List.intercalate_splitOn (ch '\n')
  by_cases final : value.getLast? = some (ch '\n')
  · obtain ⟨front, rfl⟩ := List.getLast?_eq_some_iff.mp final
    have split : (front ++ [ch '\n']).splitOn (ch '\n') = front.splitOn (ch '\n') ++ [[]] := by
      rw [List.splitOn_append_cons_self, List.splitOn_nil]
    rw [textLines, if_pos final, if_pos final, split, List.dropLast_concat]
    exact congrArg (· ++ [ch '\n']) (List.intercalate_splitOn (ch '\n'))
  · rw [textLines, if_neg final, if_neg final, joined, List.append_nil]

/-- There is room for the values and for those that fill up the last `MULTI_ALLOC`. -/
def Roomy (valp : ValStruct) (room : Nat) : Prop := roundUp valp.vals.length ≤ room

theorem addValIn_roomy {first second : ValStruct} {room : Nat} (roomy : Roomy first room)
    (single : second.vals = []) :
    ∃ more, addValIn (first, room) second = .ok (addVal first second, more) ∧ Roomy (addVal first second) more := by
  have added : (addVal first second).vals.length =
      if first.vals.length = 0 then 2 else first.vals.length + 1 := by
    unfold addVal
    by_cases empty : first.vals = []
    · simp [empty]
    · simp [empty]
  have size : multiAlloc = 5 := rfl
  unfold Roomy roundUp at *
  rw [size] at roomy ⊢
  simp only [addValIn, single, ne_eq, not_true_eq_false, if_false]
  rw [size]
  by_cases full : first.vals.length % 5 = 0
  · refine ⟨first.vals.length + 5, ?_, ?_⟩
    · rw [if_pos full, if_pos]
      split <;> omega
    · rw [added]
      split <;> omega
  · have filled : ¬ first.vals.length = 0 := fun empty => full (by rw [empty])
    refine ⟨room, ?_, ?_⟩
    · rw [if_neg full, if_neg filled, if_pos]
      omega
    · rw [added, if_neg filled]
      omega

theorem foldlM_addValIn {first : ValStruct} {room : Nat} (roomy : Roomy first room) (seconds : List ValStruct)
    (single : ∀ second ∈ seconds, second.vals = []) :
    ∃ more, seconds.foldlM addValIn (first, room) = .ok (seconds.foldl addVal first, more) ∧
      Roomy (seconds.foldl addVal first) more := by
  induction seconds generalizing first room with
  | nil => exact ⟨room, rfl, roomy⟩
  | cons second seconds ih =>
    obtain ⟨grown, added, roomy⟩ := addValIn_roomy roomy (single second List.mem_cons_self)
    obtain ⟨more, ended, roomy⟩ := ih roomy fun other member => single other (List.mem_cons_of_mem _ member)
    refine ⟨more, ?_, roomy⟩
    rw [List.foldlM_cons, added]
    exact ended

/-- The value is the list of the lines, the string is as it was, and values can be added. -/
theorem char2valTextIn_lines {value : Bytes} (free : 0 ∉ value) :
    ∃ valp room, char2valTextIn (value ++ [0]) = .ok ⟨0, value ++ [0], valp, room⟩ ∧
      valp.values = textLines value ∧ (valp.vals = [] → ∃ line, valp.val = some line ∧ valp.values = [line]) ∧
      (∀ line ∈ valp.values, ch '\n' ∉ line) ∧
      Words.join (ch '\n') valp.values ++ (if value.getLast? = some (ch '\n') then [ch '\n'] else []) = value ∧
      valp.vals.length = (if valp.values.length = 1 then 0 else valp.values.length) ∧
      room = roundUp valp.vals.length ∧
      ∀ seconds : List ValStruct, (∀ second ∈ seconds, second.vals = []) →
        ∃ more, seconds.foldlM addValIn (valp, room) = .ok (seconds.foldl addVal valp, more) := by
  have values := char2valText_values value
  refine ⟨_, _, char2valTextIn_eq free, values, char2valText_single value, ?_, ?_, ?_, rfl, ?_⟩
  · rw [values]
    intro line member
    exact textLines_mem member
  · rw [values]
    exact textLines_join value
  · rw [values]
    exact char2valText_cnt value
  · intro seconds single
    obtain ⟨more, ended, -⟩ := foldlM_addValIn (le_refl _) seconds single
    exact ⟨more, ended⟩

theorem char2valTextIn_lines_blank :
    ∃ valp room, char2valTextIn (str "a\n\nb\n" ++ [0]) = .ok ⟨0, str "a\n\nb\n" ++ [0], valp, room⟩ ∧
      valp.values = [str "a", [], str "b"] ∧ valp.vals.length = 3 ∧ room = 5 := by
  have free : 0 ∉ str "a\n\nb\n" := by decide
  obtain ⟨valp, room, ran, values, -, -, -, cnt, size, -⟩ := char2valTextIn_lines free
  have lines : textLines (str "a\n\nb\n") = [str "a", [], str "b"] := by decide
  rw [lines] at values
  rw [values] at cnt
  refine ⟨valp, room, ran, values, cnt, ?_⟩
  rw [size, cnt]
  rfl

end VyattaCfg.Cliexec
