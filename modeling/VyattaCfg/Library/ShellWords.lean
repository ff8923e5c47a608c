import VyattaCfg.Library.Bytes

namespace Shell

open ByteString

inductive Quoting where
  | bare
  | single
  | double
  deriving DecidableEq, Repr

abbrev squote : UInt8 := ch '\''
abbrev dquote : UInt8 := ch '"'
abbrev backslash : UInt8 := ch '\\'
abbrev newline : UInt8 := ch '\n'
abbrev space : UInt8 := ch ' '

/-- An unquoted byte that can make the shell do more than copy it: an operator, an
    expansion, a pattern, the end of a command. `#` and `~` have that power at the start of a
    word only. -/
def active (wordStart : Bool) (c : UInt8) : Bool :=
  c ∈ str "$`;&|()<>*?[\x7b\n" || (wordStart && c ∈ str "#~")

def dquoteEscaped (c : UInt8) : Bool := c ∈ str "$`\"\\"

/-- The words a shell makes of a text by quote removal and splitting at `blank` alone.
    `word` is the word being read, `none` between two words. There is no answer for a
    text that ends inside quotes and for one that asks for anything beyond its words:
    an expansion, a command, a redirection, a comment. -/
def readWords (blank : UInt8 → Bool) : Quoting → Option Bytes → Bytes → Option (List Bytes)
  | .bare, word, [] => some word.toList
  | .single, _, [] => none
  | .double, _, [] => none
  | .bare, word, c :: rest =>
    if blank c then (readWords blank .bare none rest).map (word.toList ++ ·)
    else if c = squote then readWords blank .single (some (word.getD [])) rest
    else if c = dquote then readWords blank .double (some (word.getD [])) rest
    else if c = backslash then
      match rest with
      | [] => none
      | d :: tail =>
        if d = newline then readWords blank .bare word tail
        else readWords blank .bare (some (word.getD [] ++ [d])) tail
    else if active word.isNone c then none
    else readWords blank .bare (some (word.getD [] ++ [c])) rest
  | .single, word, c :: rest =>
    if c = squote then readWords blank .bare word rest
    else readWords blank .single (some (word.getD [] ++ [c])) rest
  | .double, word, c :: rest =>
    if c = dquote then readWords blank .bare word rest
    else if c = backslash then
      match rest with
      | [] => none
      | d :: tail =>
        if d = newline then readWords blank .double word tail
        else if dquoteEscaped d then readWords blank .double (some (word.getD [] ++ [d])) tail
        else readWords blank .double (some (word.getD [] ++ [c, d])) tail
    else if c = ch '$' ∨ c = ch '`' then none
    else readWords blank .double (some (word.getD [] ++ [c])) rest

def squoted (w : Bytes) : Bytes := squote :: (w ++ [squote])

def squotedTail (words : List Bytes) : Bytes := words.flatMap (fun w => space :: squoted w)

/-- The words between single quotes, with one space between two of them. -/
def squotedList : List Bytes → Bytes
  | [] => []
  | w :: rest => squoted w ++ squotedTail rest

def arrayBlank (c : UInt8) : Bool := c ∈ str " \t\n"

/-- The elements that `eval "name=(text)"` gives the array when it does nothing else. -/
def evalArray (text : Bytes) : Option (List Bytes) := readWords arrayBlank .bare none text

@[simp] theorem newline_ne_squote : newline ≠ squote := by decide

@[simp] theorem dquote_ne_squote : dquote ≠ squote := by decide

@[simp] theorem backslash_ne_squote : backslash ≠ squote := by decide

@[simp] theorem space_ne_squote : space ≠ squote := by decide

theorem squotedTail_cons (w : Bytes) (rest : List Bytes) :
    squotedTail (w :: rest) = space :: (squoted w ++ squotedTail rest) := by
  simp [squotedTail]

theorem squotedTail_size (words : List Bytes) :
    (squotedTail words).length = words.flatten.length + 3 * words.length ∧
      (squotedTail words).count squote = words.flatten.count squote + 2 * words.length := by
  induction words with
  | nil => simp [squotedTail]
  | cons w rest ih =>
    rw [squotedTail_cons]
    simp only [squoted, List.length_cons, List.length_append, List.flatten_cons,
      List.count_cons_of_ne space_ne_squote, List.count_append, List.count_cons_self,
      List.cons_append, List.append_assoc, List.nil_append]
    omega

theorem squotedList_size (words : List Bytes) (nonempty : words ≠ []) :
    (squotedList words).length + 1 = words.flatten.length + 3 * words.length ∧
      (squotedList words).count squote = words.flatten.count squote + 2 * words.length := by
  obtain ⟨w, rest, rfl⟩ := List.exists_cons_of_ne_nil nonempty
  have sizes := squotedTail_size rest
  simp only [squotedList, squoted, List.length_cons, List.length_append, List.flatten_cons,
    List.count_append, List.count_cons_self, List.cons_append, List.append_assoc, List.nil_append]
  omega

section Reading

variable (blank : UInt8 → Bool)

theorem readWords_bare_blank {c : UInt8} (isBlank : blank c = true) (word : Option Bytes)
    (rest : Bytes) :
    readWords blank .bare word (c :: rest) =
      (readWords blank .bare none rest).map (word.toList ++ ·) := by
  cases rest <;> simp [readWords, isBlank]

theorem readWords_bare_squote (separator : blank squote = false) (word : Option Bytes)
    (rest : Bytes) :
    readWords blank .bare word (squote :: rest) =
      readWords blank .single (some (word.getD [])) rest := by
  cases rest <;> simp [readWords, separator]

theorem readWords_single_run (s rest word : Bytes) (plain : squote ∉ s) :
    readWords blank .single (some word) (s ++ squote :: rest) =
      readWords blank .bare (some (word ++ s)) rest := by
  induction s generalizing word with
  | nil => simp [readWords]
  | cons c s ih =>
    have differs : c ≠ squote := fun h => plain (by simp [h])
    have tail : squote ∉ s := fun h => plain (by simp [h])
    rw [List.cons_append, readWords, if_neg differs, Option.getD_some, ih _ tail]
    simp

/-- Every byte of the text is accounted for: it ends up in a word, or it is a removed
    single quote, or it is one of the other bytes that quoting and splitting remove.
    Of these there is one between any two words, and one more when a single quote
    survives, since only a backslash or double quotes can keep it. -/
theorem readWords_budget (separator : blank squote = false) (quoting : Quoting)
    (word : Option Bytes) (text : Bytes) (words : List Bytes)
    (read : readWords blank quoting word text = some words) :
    words.length + words.flatten.length + text.count squote + (word.getD []).count squote ≤
        text.length + (word.getD []).length + words.flatten.count squote + 1 ∧
      (quoting = .double ∨ (word.getD []).count squote < words.flatten.count squote →
        words.length + words.flatten.length + text.count squote + (word.getD []).count squote ≤
          text.length + (word.getD []).length + words.flatten.count squote) := by
  fun_induction readWords blank quoting word text generalizing words with
  | case1 word =>
    obtain rfl := Option.some.inj read
    cases word
    · simp
    · simp
      omega
  | case4 word c rest isBlank ih =>
    obtain ⟨later, found, rfl⟩ := Option.map_eq_some_iff.mp read
    have bound := ih later found
    have differs : c ≠ squote := by rintro rfl; simp [separator] at isBlank
    cases word <;>
      simp only [Option.toList, Option.getD, List.flatten_cons, List.nil_append, List.cons_append,
        List.length_append, List.count_append, List.length_cons, List.length_nil, List.count_nil,
        reduceCtorEq, false_or, List.count_cons_of_ne differs] at bound ⊢ <;>
      omega
  | case2 | case3 | case7 | case10 | case15 | case19 => cases read
  -- every other byte is removed or copied, and the word grows by what is copied
  | _ =>
    rename_i ih
    have bound := ih words read
    simp only [Option.getD_some, List.count_append, List.count_cons, List.count_nil,
      List.length_append, List.length_cons, List.length_nil, newline_ne_squote, dquote_ne_squote,
      backslash_ne_squote, beq_iff_eq, reduceCtorEq, false_or, true_or, forall_const,
      if_true, if_false] at bound ⊢
    first
    | omega
    | (split_ifs at bound ⊢; omega)

theorem readWords_squoted (separator : blank squote = false) (w rest : Bytes)
    (plain : squote ∉ w) :
    readWords blank .bare none (squoted w ++ rest) = readWords blank .bare (some w) rest := by
  have text : squoted w ++ rest = squote :: (w ++ squote :: rest) := by simp [squoted]
  rw [text, readWords_bare_squote blank separator, Option.getD_none,
    readWords_single_run blank w rest [] plain, List.nil_append]

theorem readWords_squoted_tail (separator : blank squote = false) (spaced : blank space = true)
    (w : Bytes) (rest : List Bytes) (plain : ∀ v ∈ rest, squote ∉ v) :
    readWords blank .bare (some w) (squotedTail rest) = some (w :: rest) := by
  induction rest generalizing w with
  | nil => simp [squotedTail, readWords]
  | cons v rest ih =>
    have here := plain v (by simp)
    have later := ih v (fun u member => plain u (by simp [member]))
    rw [squotedTail_cons, readWords_bare_blank blank spaced,
      readWords_squoted blank separator v _ here, later]
    rfl

theorem readWords_squotedList (separator : blank squote = false) (spaced : blank space = true)
    (words : List Bytes) (plain : ∀ w ∈ words, squote ∉ w) :
    readWords blank .bare none (squotedList words) = some words := by
  cases words with
  | nil => rfl
  | cons w rest =>
    rw [squotedList, readWords_squoted blank separator w _ (plain w (by simp))]
    exact readWords_squoted_tail blank separator spaced w rest
      (fun v member => plain v (by simp [member]))

/-- Wrapping each word in single quotes survives the shell exactly when no word holds
    a single quote: with one inside, the text has too few bytes to keep it. -/
theorem readWords_squotedList_iff (separator : blank squote = false)
    (spaced : blank space = true) (words : List Bytes) :
    readWords blank .bare none (squotedList words) = some words ↔ ∀ w ∈ words, squote ∉ w := by
  refine ⟨fun read w member inside => ?_, readWords_squotedList blank separator spaced words⟩
  have bound := (readWords_budget blank separator .bare none _ _ read).2
  have kept : 0 < words.flatten.count squote :=
    List.count_pos_iff.mpr (List.mem_flatten.mpr ⟨w, member, inside⟩)
  have sizes := squotedList_size words (List.ne_nil_of_mem member)
  simp only [Option.getD_none, List.count_nil, List.length_nil, kept, or_true,
    forall_const] at bound
  omega

end Reading

end Shell
