import VyattaCfg.Library.ShellWords

namespace Shell

open ByteString

def commandBlank (c : UInt8) : Bool := c ∈ str " \t"

/-- The words of a simple command that is only words: no redirection, expansion or second
    command. -/
def commandWords (text : Bytes) : Option (List Bytes) := readWords commandBlank .bare none text

def dquoted (w : Bytes) : Bytes := dquote :: (w ++ [dquote])

/-- Each single quote becomes `'\''`: the quotes are closed, one is escaped, they open again. -/
def escape (s : Bytes) : Bytes := s.flatMap fun c => if c = squote then str "'\\''" else [c]

theorem commandBlank_squote : commandBlank squote = false := by decide

theorem commandBlank_dquote : commandBlank dquote = false := by decide

theorem commandBlank_backslash : commandBlank backslash = false := by decide

@[simp] theorem escape_nil : escape [] = [] := rfl

theorem escape_cons (c : UInt8) (s : Bytes) :
    escape (c :: s) = (if c = squote then [squote, backslash, squote, squote] else [c]) ++ escape s := rfl

theorem escape_append (s t : Bytes) : escape (s ++ t) = escape s ++ escape t := List.flatMap_append

theorem mem_escape {c : UInt8} (s : Bytes) (inert : c ≠ backslash) : c ∈ escape s ↔ c ∈ s := by
  induction s with
  | nil => simp
  | cons d s ih =>
    rw [escape_cons, List.mem_append, ih, List.mem_cons]
    split
    · rename_i quote
      simp [quote, inert]
    · simp

theorem escape_of_not_mem {s : Bytes} (free : squote ∉ s) : escape s = s := by
  induction s with
  | nil => rfl
  | cons c s ih =>
    obtain ⟨other, rest⟩ := List.ne_and_not_mem_of_not_mem_cons free
    rw [escape_cons, if_neg (Ne.symm other), ih rest]
    rfl

theorem count_escape (s : Bytes) : (escape s).count squote = 3 * s.count squote := by
  have inert : backslash ≠ squote := by decide
  induction s with
  | nil => rfl
  | cons c s ih =>
    rw [escape_cons, List.count_append, ih]
    by_cases quote : c = squote
    · simp [quote, inert]
      omega
    · simp [quote]

theorem length_escape (s : Bytes) : (escape s).length = s.length + 3 * s.count squote := by
  induction s with
  | nil => rfl
  | cons c s ih =>
    rw [escape_cons, List.length_append, ih]
    by_cases quote : c = squote
    · simp [quote]
      omega
    · simp [quote]
      omega

theorem getLast?_escape (s : Bytes) : (escape s).getLast? = s.getLast? := by
  rcases List.eq_nil_or_concat s with rfl | ⟨t, c, rfl⟩
  · rfl
  · rw [List.concat_eq_append, escape_append, escape_cons, escape_nil, List.append_nil]
    split
    · rename_i quote
      simp [quote]
    · simp

theorem dropLast_escape {s : Bytes} (last : s.getLast? ≠ some squote) :
    (escape s).dropLast = escape s.dropLast := by
  rcases List.eq_nil_or_concat s with rfl | ⟨t, c, rfl⟩
  · rfl
  · have other : c ≠ squote := by simpa using last
    rw [List.concat_eq_append, escape_append, escape_cons, if_neg other]
    simp

/-- The steps by which a reader of words takes single quotes and backslashes. -/
structure ReadsQuotes {β : Type} (read : Quoting → Option Bytes → Bytes → Option β) : Prop where
  opened : ∀ word rest, read .bare word (squote :: rest) = read .single (some (word.getD [])) rest
  escaped : ∀ d, d ≠ newline → ∀ word rest,
    read .bare word (backslash :: d :: rest) = read .bare (some (word.getD [] ++ [d])) rest
  closed : ∀ word rest, read .single word (squote :: rest) = read .bare word rest
  inside : ∀ c, c ≠ squote → ∀ word rest,
    read .single word (c :: rest) = read .single (some (word.getD [] ++ [c])) rest

namespace ReadsQuotes

variable {β : Type} {read : Quoting → Option Bytes → Bytes → Option β}

/-- Inside single quotes an escaped text is read as the text. -/
theorem single_escape (reads : ReadsQuotes read) (s rest word : Bytes) :
    read .single (some word) (escape s ++ rest) = read .single (some (word ++ s)) rest := by
  induction s generalizing word with
  | nil => simp
  | cons c s ih =>
    have grown : word ++ c :: s = (word ++ [c]) ++ s := by simp
    rw [escape_cons, List.append_assoc, grown, ← ih]
    by_cases quote : c = squote
    · subst quote
      have differs : squote ≠ newline := Ne.symm newline_ne_squote
      rw [if_pos rfl]
      show read .single (some word) (squote :: backslash :: squote :: squote :: _) = _
      rw [reads.closed, reads.escaped squote differs, reads.opened]
      rfl
    · rw [if_neg quote]
      exact reads.inside c quote _ _

theorem squoted_escape (reads : ReadsQuotes read) (word : Option Bytes) (s rest : Bytes) :
    read .bare word (squoted (escape s) ++ rest) = read .bare (some (word.getD [] ++ s)) rest := by
  have text : squoted (escape s) ++ rest = squote :: (escape s ++ squote :: rest) := by simp [squoted]
  rw [text, reads.opened, reads.single_escape, reads.closed]

end ReadsQuotes

section Reading

variable (blank : UInt8 → Bool)

theorem readWords_single_squote (word : Option Bytes) (rest : Bytes) :
    readWords blank .single word (squote :: rest) = readWords blank .bare word rest := by
  rw [readWords, if_pos rfl]

theorem readWords_single_other {c : UInt8} (other : c ≠ squote) (word : Option Bytes) (rest : Bytes) :
    readWords blank .single word (c :: rest) = readWords blank .single (some (word.getD [] ++ [c])) rest := by
  rw [readWords, if_neg other]

theorem readWords_bare_escaped (kept : blank backslash = false) {d : UInt8} (shown : d ≠ newline)
    (word : Option Bytes) (rest : Bytes) :
    readWords blank .bare word (backslash :: d :: rest) =
      readWords blank .bare (some (word.getD [] ++ [d])) rest := by
  have differs : backslash ≠ dquote := by decide
  simp [readWords, kept, shown, differs]

theorem readsQuotes_words (separator : blank squote = false) (kept : blank backslash = false) :
    ReadsQuotes (readWords blank) where
  opened := readWords_bare_squote blank separator
  escaped _ shown := readWords_bare_escaped blank kept shown
  closed := readWords_single_squote blank
  inside _ other := readWords_single_other blank other

/-- Inside single quotes an escaped text leaves them open, so nothing is read. -/
theorem readWords_single_escape_end (separator : blank squote = false) (kept : blank backslash = false)
    (s word : Bytes) : readWords blank .single (some word) (escape s) = none := by
  have read := (readsQuotes_words blank separator kept).single_escape s [] word
  rw [List.append_nil] at read
  exact read

end Reading

end Shell
