import VyattaCfg.Library.ShellQuotes
import Mathlib.Data.List.Basic
import Mathlib.Data.List.Infix

namespace Shell

open ByteString

/-- A blank or a newline: what stands unquoted between words, and what a backslash takes away. -/
def seam (c : UInt8) : Bool := c ∈ str " \t\n"

def plainByte (c : UInt8) : Bool :=
  !commandBlank c && c ≠ squote && c ≠ dquote && c ≠ backslash && !active false c

/-- A word that is read as it stands, without quotes. -/
def PlainWord (w : Bytes) : Prop := w ≠ [] ∧ w.all plainByte ∧ ∀ c ∈ w.head?, c ∉ str "#~"

/-- Inside double quotes the text stands for itself, and it holds no quote. -/
def dquoteInert : Bytes → Bool
  | [] => true
  | c :: rest =>
    c ∉ str "'\"$`" && (c ≠ backslash || rest.head?.any fun d => d ≠ newline && !dquoteEscaped d) && dquoteInert rest

/-- A word begun is the beginning of the first word read. -/
theorem readWords_begun {blank : UInt8 → Bool} {quoting : Quoting} {word : Option Bytes} {text : Bytes}
    {words : List Bytes} (read : readWords blank quoting word text = some words) :
    ∀ begun ∈ word, ∃ w rest, words = w :: rest ∧ begun <+: w := by
  fun_induction readWords blank quoting word text generalizing words with
  | case1 word =>
    obtain rfl := Option.some.inj read
    rintro begun rfl
    exact ⟨begun, [], rfl, List.prefix_rfl⟩
  | case4 word c rest isBlank ih =>
    obtain ⟨later, found, rfl⟩ := Option.map_eq_some_iff.mp read
    rintro begun rfl
    exact ⟨begun, later, rfl, List.prefix_rfl⟩
  | case2 | case3 | case7 | case10 | case15 | case19 => cases read
  | _ =>
    rename_i ih
    rintro begun rfl
    obtain ⟨w, rest, split, grown⟩ := ih read _ rfl
    refine ⟨w, rest, split, ?_⟩
    first
    | exact grown
    | exact (List.prefix_append begun _).trans grown

theorem commandBlank_iff {c : UInt8} : commandBlank c = true ↔ c = space ∨ c = ch '\t' := by
  have blanks : str " \t" = [space, ch '\t'] := by decide
  simp [commandBlank, blanks]

theorem seam_of_blank {c : UInt8} (isBlank : commandBlank c = true) : seam c = true := by
  rcases commandBlank_iff.mp isBlank with rfl | rfl <;> decide

@[simp] theorem seam_newline : seam newline = true := by decide

@[simp] theorem seam_squote : seam squote = false := by decide

@[simp] theorem seam_dquote : seam dquote = false := by decide

@[simp] theorem seam_backslash : seam backslash = false := by decide

/-- Between two words stands a seam that no word keeps. -/
theorem readWords_seams {quoting : Quoting} {word : Option Bytes} {text : Bytes} {words : List Bytes}
    (read : readWords commandBlank quoting word text = some words) :
    words.length + words.flatten.countP seam ≤ text.countP seam + (word.getD []).countP seam + 1 := by
  fun_induction readWords commandBlank quoting word text generalizing words with
  | case1 word =>
    obtain rfl := Option.some.inj read
    cases word <;> simp
    omega
  | case4 word c rest isBlank ih =>
    obtain ⟨later, found, rfl⟩ := Option.map_eq_some_iff.mp read
    have bound := ih found
    have counted := seam_of_blank isBlank
    cases word <;>
      simp only [Option.toList, Option.getD, List.flatten_cons, List.nil_append, List.cons_append,
        List.countP_append, List.length_cons, List.countP_nil, List.countP_cons_of_pos counted] at bound ⊢ <;>
      omega
  | case2 | case3 | case7 | case10 | case15 | case19 => cases read
  | _ =>
    rename_i ih
    have bound := ih read
    simp only [Option.getD_some, List.countP_append, List.countP_cons, List.countP_nil, seam_newline, seam_squote,
      seam_dquote, seam_backslash, Bool.false_eq_true, if_true, if_false] at bound ⊢
    omega

/-- The first word `w` does not copy `piece` behind `begun`: it ends short of that length, by two
    where a newline had to be quoted, or it runs on over the blank `b`. -/
def Misread (quoting : Quoting) (begun piece : Bytes) (b : UInt8) (w : Bytes) : Prop :=
  (w.length < begun.length + piece.length ∧
    (quoting = .bare → newline ∈ piece → w.length + 2 ≤ begun.length + piece.length)) ∨
  ∃ k, begun.length ≤ k ∧ k ≤ begun.length + piece.length ∧
    (quoting = .bare → k < begun.length + piece.length) ∧ w[k]? = some b

theorem newline_not_mem_of_plain {piece : Bytes} (plain : piece.all plainByte) : newline ∉ piece := by
  intro member
  exact absurd (List.all_eq_true.mp plain newline member) (by decide)

theorem Misread.shift {quoting later : Quoting} {begun piece grown left : Bytes} {b : UInt8} {w : Bytes}
    (misread : Misread later grown left b w) (begins : begun.length ≤ grown.length)
    (fits : grown.length + left.length ≤ begun.length + piece.length)
    (kept : quoting = .bare → grown.length + left.length < begun.length + piece.length ∨
      (later = .bare ∧ (newline ∈ piece → newline ∈ left))) :
    Misread quoting begun piece b w := by
  rcases misread with ⟨short, ends⟩ | ⟨k, after, before, strict, found⟩
  · left
    refine ⟨by omega, fun bare broken => ?_⟩
    rcases kept bare with removed | ⟨same, inside⟩
    · omega
    · have two := ends same (inside broken)
      omega
  · right
    refine ⟨k, by omega, by omega, fun bare => ?_, found⟩
    rcases kept bare with removed | ⟨same, -⟩
    · omega
    · have less := strict same
      omega

/-- A blank that is copied behind what was begun shows in the word. -/
theorem misread_of_copied {quoting : Quoting} {begun piece grown : Bytes} {b : UInt8} {w : Bytes}
    (copied : grown ++ [b] <+: w) (begins : begun.length ≤ grown.length)
    (fits : grown.length ≤ begun.length + piece.length)
    (removed : quoting = .bare → grown.length < begun.length + piece.length) :
    Misread quoting begun piece b w := by
  right
  refine ⟨grown.length, begins, fits, removed, ?_⟩
  obtain ⟨rest, rfl⟩ := copied
  simp

theorem blank_inert {b : UInt8} (isBlank : commandBlank b = true) :
    b ≠ newline ∧ b ≠ squote ∧ b ≠ dquote ∧ b ≠ backslash ∧ dquoteEscaped b = false := by
  rcases commandBlank_iff.mp isBlank with rfl | rfl <;> decide

/-- Bytes that neither end a word nor open single quotes. -/
def Solid (piece : Bytes) : Prop := ∀ c ∈ piece, commandBlank c = false ∧ c ≠ squote

theorem solid_of_not_mem {piece : Bytes} (unblank : ∀ c ∈ piece, commandBlank c = false) (unquoted : squote ∉ piece) :
    Solid piece := fun c member => ⟨unblank c member, fun same => unquoted (same ▸ member)⟩

theorem piece_cons {piece rest tail : Bytes} {b c : UInt8} (solid : Solid piece) (differs : b ≠ c)
    (split : piece ++ b :: rest = c :: tail) : ∃ left, piece = c :: left ∧ tail = left ++ b :: rest ∧ Solid left := by
  rcases List.append_eq_cons_iff.mp split with ⟨-, same⟩ | ⟨left, rfl, ends⟩
  · exact absurd (List.cons.inj same).1 differs
  · exact ⟨left, rfl, ends, (List.forall_mem_cons.mp solid).2⟩

theorem piece_cons_cons {piece rest tail : Bytes} {b c d : UInt8} (solid : Solid piece) (differs : b ≠ c)
    (split : piece ++ b :: rest = c :: d :: tail) :
    (piece = [c] ∧ d = b) ∨ ∃ left, piece = c :: d :: left ∧ tail = left ++ b :: rest ∧ Solid left := by
  obtain ⟨left, rfl, next, solid⟩ := piece_cons solid differs split
  rcases List.append_eq_cons_iff.mp next.symm with ⟨rfl, same⟩ | ⟨left, rfl, ends⟩
  · exact .inl ⟨rfl, (List.cons.inj same).1.symm⟩
  · exact .inr ⟨left, rfl, ends, (List.forall_mem_cons.mp solid).2⟩

theorem first_begun {quoting : Quoting} {begun text w : Bytes} {words : List Bytes}
    (read : readWords commandBlank quoting (some begun) text = some (w :: words)) : begun <+: w := by
  obtain ⟨first, later, split, grown⟩ := readWords_begun read begun rfl
  obtain ⟨rfl, -⟩ := List.cons.inj split
  exact grown

/-- The first word copies the piece and ends at the blank behind it, or it is misread. -/
def Pieced (quoting : Quoting) (begun piece : Bytes) (b : UInt8) (rest w : Bytes) (words : List Bytes) : Prop :=
  (quoting = .bare ∧ piece.all plainByte ∧ w = begun ++ piece ∧
    readWords commandBlank .bare none rest = some words) ∨ Misread quoting begun piece b w

section Pieced

variable {quoting later : Quoting} {begun piece grown left rest w : Bytes} {b : UInt8} {words : List Bytes}

/-- A step that drops a byte leads to a word that is misread, whatever becomes of the rest. -/
theorem Pieced.dropped (after : Pieced later grown left b rest w words) (begins : begun.length ≤ grown.length)
    (fewer : grown.length + left.length < begun.length + piece.length)
    (broken : newline ∈ piece → newline ∈ left ∨ grown.length + left.length + 2 ≤ begun.length + piece.length) :
    Misread quoting begun piece b w := by
  rcases after with ⟨-, plain, rfl, -⟩ | misread
  · left
    rw [List.length_append]
    refine ⟨fewer, fun _ member => ?_⟩
    exact (broken member).resolve_left (newline_not_mem_of_plain plain)
  · exact misread.shift begins (Nat.le_of_lt fewer) fun _ => .inl fewer

/-- Inside double quotes the word is misread. -/
theorem Pieced.quoted (after : Pieced .double grown left b rest w words) (begins : begun.length ≤ grown.length)
    (fits : grown.length + left.length ≤ begun.length + piece.length) : Pieced .double begun piece b rest w words := by
  rcases after with ⟨bare, -⟩ | misread
  · cases bare
  · exact .inr (misread.shift begins fits fun bare => nomatch bare)

/-- A plain byte is copied. -/
theorem Pieced.plain {c : UInt8} (here : plainByte c) (after : Pieced .bare (begun ++ [c]) left b rest w words) :
    Pieced .bare begun (c :: left) b rest w words := by
  rcases after with ⟨bare, plain, same, found⟩ | misread
  · refine .inl ⟨bare, ?_, ?_, found⟩
    · rw [List.all_cons, here, plain]
      rfl
    · rw [same, List.append_assoc, List.singleton_append]
  · right
    apply misread.shift
    · simp
    · simp only [List.length_append, List.length_cons, List.length_nil]
      omega
    · intro _
      refine .inr ⟨rfl, fun broken => ?_⟩
      rcases List.mem_cons.mp broken with rfl | inside
      · exact absurd here (by decide)
      · exact inside

end Pieced

theorem readWords_piece {quoting : Quoting} {begun piece rest w : Bytes} {b : UInt8} {words : List Bytes}
    (isBlank : commandBlank b = true) (solid : Solid piece) (open_ : quoting ≠ .single)
    (read : readWords commandBlank quoting (some begun) (piece ++ b :: rest) = some (w :: words)) :
    Pieced quoting begun piece b rest w words := by
  obtain ⟨noNewline, noSquote, noDquote, noBackslash, unescaped⟩ := blank_inert isBlank
  have lineDquote : newline ≠ dquote := by decide
  have lineBackslash : newline ≠ backslash := by decide
  generalize started : some begun = word, split : piece ++ b :: rest = text at read
  fun_induction readWords commandBlank quoting word text generalizing begun piece with
  | case1 word => simp at split
  | case2 | case3 | case7 | case10 | case15 | case19 => cases read
  | case4 word c tail blank ih =>
    rcases List.append_eq_cons_iff.mp split with ⟨rfl, same⟩ | ⟨piece, rfl, -⟩
    · obtain ⟨rfl, rfl⟩ := List.cons.inj same
      obtain ⟨later, found, grown⟩ := Option.map_eq_some_iff.mp read
      rw [← started, Option.toList_some, List.singleton_append, List.cons.injEq] at grown
      obtain ⟨rfl, rfl⟩ := grown
      left
      simpa using found
    · have unblanked := (solid c List.mem_cons_self).1
      rw [blank] at unblanked
      cases unblanked
  | case5 word tail separator ih =>
    obtain ⟨piece, rfl, -⟩ := piece_cons solid noSquote split
    exact absurd rfl (solid squote List.mem_cons_self).2
  | case6 word tail _ _ ih =>
    subst started
    obtain ⟨piece, rfl, rfl, solid⟩ := piece_cons solid noDquote split
    have after := ih solid (by simp) rfl rfl read
    right
    apply after.dropped (Nat.le_refl _)
    · simp
    · intro broken
      left
      simpa [lineDquote] using broken
  | case8 word tail _ _ _ ih =>
    subst started
    rcases piece_cons_cons solid noBackslash split with ⟨-, same⟩ | ⟨piece, rfl, rfl, solid⟩
    · exact absurd same.symm noNewline
    · have after := ih solid open_ rfl rfl read
      right
      apply after.dropped (Nat.le_refl _)
      · simp only [List.length_cons]
        omega
      · intro _
        right
        simp only [List.length_cons]
        omega
  | case9 word d tail shown _ _ _ ih =>
    subst started
    right
    rcases piece_cons_cons solid noBackslash split with ⟨rfl, rfl⟩ | ⟨piece, rfl, rfl, solid⟩
    · apply misread_of_copied (first_begun read) (Nat.le_refl _)
      · simp
      · simp
    · have after := ih solid open_ rfl rfl read
      apply after.dropped
      · simp
      · simp only [Option.getD_some, List.length_append, List.length_cons, List.length_nil]
        omega
      · intro broken
        left
        simpa [lineBackslash, Ne.symm shown] using broken
  | case11 word c tail unblanked notSquote notDquote notBackslash inactive ih =>
    subst started
    have differs : b ≠ c := by
      rintro rfl
      exact unblanked isBlank
    obtain ⟨piece, rfl, rfl, solid⟩ := piece_cons solid differs split
    rw [Option.isNone_some] at inactive
    have here : plainByte c := by
      simp [plainByte, unblanked, notSquote, notDquote, notBackslash, inactive]
    exact (ih solid open_ rfl rfl read).plain here
  | case12 | case13 => exact absurd rfl open_
  | case14 word tail ih =>
    subst started
    obtain ⟨piece, rfl, rfl, solid⟩ := piece_cons solid noDquote split
    have after := ih solid (by simp) rfl rfl read
    right
    apply after.dropped (Nat.le_refl _)
    · simp
    · intro broken
      left
      simpa [lineDquote] using broken
  | case16 word tail _ ih =>
    subst started
    rcases piece_cons_cons solid noBackslash split with ⟨-, same⟩ | ⟨piece, rfl, rfl, solid⟩
    · exact absurd same.symm noNewline
    · apply (ih solid open_ rfl rfl read).quoted (Nat.le_refl _)
      simp only [List.length_cons]
      omega
  | case17 word d tail _ escaped _ ih =>
    subst started
    rcases piece_cons_cons solid noBackslash split with ⟨-, rfl⟩ | ⟨piece, rfl, rfl, solid⟩
    · rw [unescaped] at escaped
      cases escaped
    · apply (ih solid open_ rfl rfl read).quoted
      · simp
      · simp only [Option.getD_some, List.length_append, List.length_cons, List.length_nil]
        omega
  | case18 word d tail _ _ _ ih =>
    subst started
    rcases piece_cons_cons solid noBackslash split with ⟨rfl, rfl⟩ | ⟨piece, rfl, rfl, solid⟩
    · have copied := first_begun read
      rw [Option.getD_some, List.append_cons begun backslash [d]] at copied
      right
      apply misread_of_copied copied
      · simp
      · simp
      · intro bare
        cases bare
    · apply (ih solid open_ rfl rfl read).quoted
      · simp
      · simp only [Option.getD_some, List.length_append, List.length_cons, List.length_nil]
        omega
  | case20 word c tail _ _ _ ih =>
    subst started
    rcases List.append_eq_cons_iff.mp split with ⟨rfl, same⟩ | ⟨piece, rfl, rfl⟩
    · obtain ⟨rfl, rfl⟩ := List.cons.inj same
      right
      apply misread_of_copied (first_begun read) (Nat.le_refl _)
      · simp
      · intro bare
        cases bare
    · apply (ih (List.forall_mem_cons.mp solid).2 open_ rfl rfl read).quoted
      · simp
      · simp only [Option.getD_some, List.length_append, List.length_cons, List.length_nil]
        omega

theorem plainByte_iff (c : UInt8) :
    plainByte c = true ↔
      commandBlank c = false ∧ c ≠ squote ∧ c ≠ dquote ∧ c ≠ backslash ∧ active false c = false := by
  simp [plainByte, and_assoc]

theorem readWords_plain_byte {begun : Option Bytes} {c : UInt8} (plain : plainByte c)
    (start : begun = none → c ∉ str "#~") (rest : Bytes) :
    readWords commandBlank .bare begun (c :: rest) =
      readWords commandBlank .bare (some (begun.getD [] ++ [c])) rest := by
  obtain ⟨unblank, notSquote, notDquote, notBackslash, inactive⟩ := (plainByte_iff c).mp plain
  have quiet : active begun.isNone c = false := by
    cases begun with
    | none => simpa [active, start rfl] using inactive
    | some begun => exact inactive
  cases rest <;> simp [readWords, unblank, notSquote, notDquote, notBackslash, quiet]

theorem readWords_plain_run {w : Bytes} (plain : w.all plainByte) (begun rest : Bytes) :
    readWords commandBlank .bare (some begun) (w ++ rest) =
      readWords commandBlank .bare (some (begun ++ w)) rest := by
  induction w generalizing begun with
  | nil => simp
  | cons c w ih =>
    rw [List.all_cons, Bool.and_eq_true] at plain
    rw [List.cons_append, readWords_plain_byte plain.1 (by simp), Option.getD_some, ih plain.2]
    simp

theorem readWords_plain_word {w : Bytes} (plain : PlainWord w) (rest : Bytes) :
    readWords commandBlank .bare none (w ++ rest) = readWords commandBlank .bare (some w) rest := by
  obtain ⟨filled, bytes, start⟩ := plain
  cases w with
  | nil => exact absurd rfl filled
  | cons c w =>
    rw [List.all_cons, Bool.and_eq_true] at bytes
    rw [List.cons_append, readWords_plain_byte bytes.1 (fun _ => start c rfl), Option.getD_none,
      readWords_plain_run bytes.2]
    rfl

theorem readWords_double_dquote (begun : Option Bytes) (rest : Bytes) :
    readWords commandBlank .double begun (dquote :: rest) = readWords commandBlank .bare begun rest := by
  cases rest <;> simp [readWords]

theorem readWords_double_other {c : UInt8} (other : c ≠ dquote) (unescaped : c ≠ backslash)
    (quiet : c ≠ ch '$' ∧ c ≠ ch '`') (begun rest : Bytes) :
    readWords commandBlank .double (some begun) (c :: rest) =
      readWords commandBlank .double (some (begun ++ [c])) rest := by
  cases rest <;> simp [readWords, other, unescaped, quiet]

theorem readWords_double_backslash {d : UInt8} (shown : d ≠ newline) (plain : dquoteEscaped d = false)
    (begun rest : Bytes) :
    readWords commandBlank .double (some begun) (backslash :: d :: rest) =
      readWords commandBlank .double (some (begun ++ [backslash, d])) rest := by
  have differs : backslash ≠ dquote := by decide
  simp [readWords, shown, plain, differs]

theorem readWords_double_escaped {d : UInt8} (shown : d ≠ newline) (escaped : dquoteEscaped d)
    (begun rest : Bytes) :
    readWords commandBlank .double (some begun) (backslash :: d :: rest) =
      readWords commandBlank .double (some (begun ++ [d])) rest := by
  have differs : backslash ≠ dquote := by decide
  simp [readWords, shown, escaped, differs]

theorem readWords_double_joined (begun : Option Bytes) (rest : Bytes) :
    readWords commandBlank .double begun (backslash :: newline :: rest) =
      readWords commandBlank .double begun rest := by
  have differs : backslash ≠ dquote := by decide
  simp [readWords, differs]

theorem readWords_double_expands {c : UInt8} (expands : c = ch '$' ∨ c = ch '`') (begun : Option Bytes)
    (rest : Bytes) : readWords commandBlank .double begun (c :: rest) = none := by
  have special : c ≠ dquote ∧ c ≠ backslash := by
    rcases expands with rfl | rfl <;> decide
  cases rest <;> simp [readWords, special, expands]

theorem not_dquoteEscaped {d : UInt8} :
    dquoteEscaped d = false ↔ d ≠ ch '$' ∧ d ≠ ch '`' ∧ d ≠ dquote ∧ d ≠ backslash := by
  have special : str "$`\"\\" = [ch '$', ch '`', dquote, backslash] := by decide
  simp [dquoteEscaped, special]

theorem dquoteInert_cons (c : UInt8) (rest : Bytes) :
    dquoteInert (c :: rest) = true ↔
      (c ≠ squote ∧ c ≠ dquote ∧ c ≠ ch '$' ∧ c ≠ ch '`') ∧
        (c = backslash → ∃ d ∈ rest.head?, d ≠ newline ∧ dquoteEscaped d = false) ∧ dquoteInert rest := by
  have special : str "'\"$`" = [squote, dquote, ch '$', ch '`'] := by decide
  rw [dquoteInert, special, Bool.and_eq_true, Bool.and_eq_true, and_assoc]
  simp only [List.mem_cons, List.not_mem_nil, or_false, not_or, decide_eq_true_eq, Bool.or_eq_true, Option.any_eq_true,
    Option.mem_def, Bool.and_eq_true, Bool.not_eq_true', ne_eq, imp_iff_not_or]

theorem readWords_inert_run {m : Bytes} (inert : dquoteInert m) (begun rest : Bytes) :
    readWords commandBlank .double (some begun) (m ++ dquote :: rest) =
      readWords commandBlank .bare (some (begun ++ m)) rest := by
  induction m generalizing begun with
  | nil =>
    rw [List.nil_append, List.append_nil]
    exact readWords_double_dquote (some begun) rest
  | cons c m ih =>
    obtain ⟨⟨-, other, quiet⟩, escape, inert⟩ := (dquoteInert_cons c m).mp inert
    have grown : begun ++ c :: m = begun ++ [c] ++ m := by simp
    rw [grown, ← ih inert]
    by_cases escaped : c = backslash
    · subst escaped
      obtain ⟨d, first, shown, plain⟩ := escape rfl
      obtain ⟨m, rfl⟩ : ∃ left, m = d :: left := ⟨m.tail, (List.eq_cons_of_mem_head? first)⟩
      obtain ⟨notDollar, notTick, notDquote, notBackslash⟩ := not_dquoteEscaped.mp plain
      rw [List.cons_append, List.cons_append, readWords_double_backslash shown plain,
        readWords_double_other notDquote notBackslash ⟨notDollar, notTick⟩]
      simp
    · exact readWords_double_other other escaped quiet begun _

theorem readWords_bare_dquote (begun : Option Bytes) (rest : Bytes) :
    readWords commandBlank .bare begun (dquote :: rest) =
      readWords commandBlank .double (some (begun.getD [])) rest := by
  have unblank : commandBlank dquote = false := by decide
  cases rest <;> simp [readWords, unblank]

theorem readWords_bare_joined (begun : Option Bytes) (rest : Bytes) :
    readWords commandBlank .bare begun (backslash :: newline :: rest) = readWords commandBlank .bare begun rest := by
  have differs : backslash ≠ dquote := by decide
  simp [readWords, commandBlank_backslash, differs]

theorem special_at_start :
    ∀ c, c ∈ str "#~" → c ≠ squote ∧ c ≠ dquote ∧ c ≠ backslash ∧ active true c = true := by
  have starts : str "#~" = [ch '#', ch '~'] := by decide
  simp only [starts, List.mem_cons, List.not_mem_nil, or_false]
  rintro c (rfl | rfl) <;> decide

/-- A word that starts with a byte which is no blank and no newline taken away is a word begun. -/
theorem readWords_started {c : UInt8} {rest : Bytes} {words : List Bytes} (unblank : commandBlank c = false)
    (joined : c = backslash → rest.head? ≠ some newline)
    (read : readWords commandBlank .bare none (c :: rest) = some words) :
    c ∉ str "#~" ∧ readWords commandBlank .bare (some []) (c :: rest) = some words := by
  by_cases start : c ∈ str "#~"
  · have refused : readWords commandBlank .bare none (c :: rest) = none := by
      have special := special_at_start c start
      cases rest <;> simp [readWords, unblank, special]
    rw [refused] at read
    cases read
  · refine ⟨start, ?_⟩
    have same : active false c = active true c := by simp [active, start]
    cases rest with
    | nil => simpa [readWords, unblank, same] using read
    | cons d rest =>
      by_cases escaped : c = backslash
      · have shown : d ≠ newline := by simpa using joined escaped
        rw [escaped, readWords_bare_escaped _ commandBlank_backslash shown] at read ⊢
        exact read
      · simpa [readWords, unblank, same, escaped] using read

end Shell
