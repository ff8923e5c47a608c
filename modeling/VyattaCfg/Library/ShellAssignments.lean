import VyattaCfg.Library.ShellQuotes

namespace Shell

open ByteString

/-- The words up to the first unquoted `stop`, and the text behind it. There is no answer for a
    text that asks for anything beyond its words, nor for an unquoted `#` or `~` anywhere. -/
def readUntil (blank : UInt8 → Bool) (stop : UInt8) :
    Quoting → Option Bytes → Bytes → Option (List Bytes × Bytes)
  | _, _, [] => none
  | .bare, word, c :: rest =>
    if c = stop then some (word.toList, rest)
    else if blank c then
      (readUntil blank stop .bare none rest).map fun found => (word.toList ++ found.1, found.2)
    else if c = squote then readUntil blank stop .single (some (word.getD [])) rest
    else if c = dquote then readUntil blank stop .double (some (word.getD [])) rest
    else if c = backslash then
      match rest with
      | [] => none
      | d :: tail =>
        if d = newline then readUntil blank stop .bare word tail
        else readUntil blank stop .bare (some (word.getD [] ++ [d])) tail
    else if active true c then none
    else readUntil blank stop .bare (some (word.getD [] ++ [c])) rest
  | .single, word, c :: rest =>
    if c = squote then readUntil blank stop .bare word rest
    else readUntil blank stop .single (some (word.getD [] ++ [c])) rest
  | .double, word, c :: rest =>
    if c = dquote then readUntil blank stop .bare word rest
    else if c = backslash then
      match rest with
      | [] => none
      | d :: tail =>
        if d = newline then readUntil blank stop .double word tail
        else if dquoteEscaped d then readUntil blank stop .double (some (word.getD [] ++ [d])) tail
        else readUntil blank stop .double (some (word.getD [] ++ [c, d])) tail
    else if c = ch '$' ∨ c = ch '`' then none
    else readUntil blank stop .double (some (word.getD [] ++ [c])) rest

inductive Value where
  | scalar (word : Bytes)
  | array (words : List Bytes)
  deriving DecidableEq, Repr

structure Assignment where
  name : Bytes
  value : Value
  deriving DecidableEq, Repr

def nameByte (c : UInt8) : Bool :=
  (ch 'a' ≤ c && c ≤ ch 'z') || (ch 'A' ≤ c && c ≤ ch 'Z') || (ch '0' ≤ c && c ≤ ch '9') || c = ch '_'

def isName (name : Bytes) : Bool :=
  name.all nameByte && name.head?.any fun c => !(ch '0' ≤ c && c ≤ ch '9')

/-- The name in front of the first byte that cannot be in one, which must be `=`. -/
def readName (text : Bytes) : Option (Bytes × Bytes) :=
  let name := text.takeWhile nameByte
  match text.dropWhile nameByte with
  | [] => none
  | c :: rest => if c = ch '=' && isName name then some (name, rest) else none

/-- An array in parentheses or one word, up to the `;` that ends the command. -/
def readValue (text : Bytes) : Option (Value × Bytes) :=
  if text.head? = some (ch '(') then do
    let (words, rest) ← readUntil arrayBlank (ch ')') .bare none text.tail
    let (more, rest) ← readUntil commandBlank (ch ';') .bare none rest
    if more = [] then some (.array words, rest) else none
  else do
    let (words, rest) ← readUntil commandBlank (ch ';') .bare (some []) text
    match words with
    | [word] => some (.scalar word, rest)
    | _ => none

def readAssignments : Nat → Bytes → Option (List Assignment)
  | 0, _ => none
  | fuel + 1, text =>
    match text.dropWhile commandBlank with
    | [] => some []
    | c :: rest => do
      let (name, rest) ← readName (c :: rest)
      let (value, rest) ← readValue rest
      let later ← readAssignments fuel rest
      some (⟨name, value⟩ :: later)

/-- The assignments that `eval "$text"` makes when it does nothing else. -/
def evalAssignments (text : Bytes) : Option (List Assignment) := readAssignments (text.length + 1) text

example : evalAssignments (str "a=true; b=('x y' z\\  ); ") =
    some [⟨str "a", .scalar (str "true")⟩, ⟨str "b", .array [str "x y", str "z "]⟩] := by decide +kernel

example : evalAssignments (str "a=true reboot; ") = none ∧ evalAssignments (str "a=(x); reboot; ") = none ∧
    evalAssignments (str "a=$(reboot); ") = none := by decide +kernel

section Reading

variable {blank : UInt8 → Bool} {stop : UInt8}

theorem readUntil_stop (word : Option Bytes) (rest : Bytes) :
    readUntil blank stop .bare word (stop :: rest) = some (word.toList, rest) := by
  cases rest <;> simp [readUntil]

theorem readUntil_blank {c : UInt8} (other : c ≠ stop) (isBlank : blank c = true) (word : Option Bytes)
    (rest : Bytes) :
    readUntil blank stop .bare word (c :: rest) =
      (readUntil blank stop .bare none rest).map fun found => (word.toList ++ found.1, found.2) := by
  cases rest <;> simp [readUntil, other, isBlank]

/-- The quotes and the backslash have their meaning for the reader. -/
structure Quotes (blank : UInt8 → Bool) (stop : UInt8) : Prop where
  squote : blank squote = false ∧ squote ≠ stop
  backslash : blank backslash = false ∧ backslash ≠ stop

theorem readUntil_bare_squote (quotes : Quotes blank stop) (word : Option Bytes) (rest : Bytes) :
    readUntil blank stop .bare word (squote :: rest) =
      readUntil blank stop .single (some (word.getD [])) rest := by
  cases rest <;> simp [readUntil, quotes.squote]

theorem readUntil_bare_escaped (quotes : Quotes blank stop) {d : UInt8} (shown : d ≠ newline)
    (word : Option Bytes) (rest : Bytes) :
    readUntil blank stop .bare word (backslash :: d :: rest) =
      readUntil blank stop .bare (some (word.getD [] ++ [d])) rest := by
  have differs : backslash ≠ dquote := by decide
  simp [readUntil, quotes.backslash, shown, differs]

theorem readUntil_single_squote (word : Option Bytes) (rest : Bytes) :
    readUntil blank stop .single word (squote :: rest) = readUntil blank stop .bare word rest := by
  rw [readUntil, if_pos rfl]

theorem readUntil_single_other {c : UInt8} (other : c ≠ squote) (word : Option Bytes) (rest : Bytes) :
    readUntil blank stop .single word (c :: rest) =
      readUntil blank stop .single (some (word.getD [] ++ [c])) rest := by
  rw [readUntil, if_neg other]

theorem readsQuotes_until (quotes : Quotes blank stop) : ReadsQuotes (readUntil blank stop) where
  opened := readUntil_bare_squote quotes
  escaped _ shown := readUntil_bare_escaped quotes shown
  closed := readUntil_single_squote
  inside _ other := readUntil_single_other other

/-- Escaped words in single quotes with a space behind each. -/
theorem readUntil_squoted_words (quotes : Quotes blank stop) (spaced : blank space = true) (other : space ≠ stop)
    (words : List Bytes) (rest : Bytes) :
    readUntil blank stop .bare none ((words.flatMap fun w => squoted (escape w) ++ [space]) ++ stop :: rest) =
      some (words, rest) := by
  induction words with
  | nil => exact readUntil_stop none rest
  | cons w words ih =>
    rw [List.flatMap_cons, List.append_assoc, List.append_assoc, (readsQuotes_until quotes).squoted_escape,
      List.singleton_append, readUntil_blank other spaced, ih]
    rfl

theorem readAssignments_space (fuel : Nat) (text : Bytes) :
    readAssignments (fuel + 1) (space :: text) = readAssignments (fuel + 1) text := by
  have isBlank : commandBlank space = true := by decide
  rw [readAssignments, List.dropWhile_cons_of_pos isBlank, readAssignments]

theorem special_not_name : ∀ c ∈ str " \t'\"\\$`;&|()<>*?[\x7b\n#~", nameByte c = false := by
  have unnamed : (str " \t'\"\\$`;&|()<>*?[\x7b\n#~").all (fun c => !nameByte c) = true := by decide
  intro c member
  simpa using List.all_eq_true.mp unnamed c member

theorem nameByte_plain {c : UInt8} (named : nameByte c = true) :
    commandBlank c = false ∧ c ≠ ch ';' ∧ c ≠ ch '(' ∧ c ≠ squote ∧ c ≠ dquote ∧ c ≠ backslash ∧
      active true c = false := by
  have special : ∀ d ∈ str " \t'\"\\$`;&|()<>*?[\x7b\n#~", c ≠ d := by
    rintro d member rfl
    rw [special_not_name c member] at named
    cases named
  have outside : ∀ bytes : Bytes, bytes ⊆ str " \t'\"\\$`;&|()<>*?[\x7b\n#~" → c ∉ bytes := by
    intro bytes within member
    exact special c (within member) rfl
  refine ⟨?_, special _ (by decide), special _ (by decide), special _ (by decide), special _ (by decide),
    special _ (by decide), ?_⟩
  · simpa [commandBlank] using outside (str " \t") (by decide)
  · have operators := outside (str "$`;&|()<>*?[\x7b\n") (by decide)
    have marks := outside (str "#~") (by decide)
    simp [active, operators, marks]

theorem readName_eq {name : Bytes} (named : isName name = true) (text : Bytes) :
    readName (name ++ ch '=' :: text) = some (name, text) := by
  have bytes : ∀ c ∈ name, nameByte c = true := List.all_eq_true.mp (Bool.and_eq_true_iff.mp named).1
  have ends : nameByte (ch '=') = false := by decide
  have front : (name ++ ch '=' :: text).takeWhile nameByte = name := by
    rw [List.takeWhile_append_of_pos bytes, List.takeWhile_cons_of_neg (by simp [ends]), List.append_nil]
  have back : (name ++ ch '=' :: text).dropWhile nameByte = ch '=' :: text := by
    rw [List.dropWhile_append_of_pos bytes, List.dropWhile_cons_of_neg (by simp [ends])]
  simp [readName, front, back, named]

theorem readAssignments_cons {fuel : Nat} {name text rest : Bytes} {value : Value} (named : isName name = true)
    (read : readValue text = some (value, rest)) :
    readAssignments (fuel + 1) (name ++ ch '=' :: text) =
      (readAssignments fuel rest).map (⟨name, value⟩ :: ·) := by
  cases name with
  | nil => cases named
  | cons c name =>
    have bytes := (Bool.and_eq_true_iff.mp named).1
    rw [List.all_cons, Bool.and_eq_true] at bytes
    have first := (nameByte_plain bytes.1).1
    have same : (c :: name ++ ch '=' :: text).dropWhile commandBlank = c :: (name ++ ch '=' :: text) := by
      rw [List.cons_append, List.dropWhile_cons_of_neg (by simp [first])]
    have found := readName_eq named text
    rw [List.cons_append] at found
    rw [readAssignments, same]
    simp only [found, read, Option.bind_eq_bind, Option.bind_some]
    cases readAssignments fuel rest <;> rfl

theorem readAssignments_statements {statements : List (Assignment × Bytes)}
    (reads : ∀ statement ∈ statements, isName statement.1.name = true ∧
      ∀ rest, readValue (statement.2 ++ rest) = some (statement.1.value, rest)) {fuel : Nat}
    (enough : statements.length ≤ fuel) :
    readAssignments (fuel + 1)
        (statements.flatMap fun statement => statement.1.name ++ ch '=' :: (statement.2 ++ [space])) =
      some (statements.map Prod.fst) := by
  induction statements generalizing fuel with
  | nil => rfl
  | cons statement statements ih =>
    rw [List.forall_mem_cons] at reads
    obtain ⟨⟨named, read⟩, later⟩ := reads
    cases fuel with
    | zero => cases enough
    | succ fuel =>
      have text : statement.1.name ++ ch '=' :: (statement.2 ++ [space]) ++
          (statements.flatMap fun statement => statement.1.name ++ ch '=' :: (statement.2 ++ [space])) =
            statement.1.name ++ ch '=' :: (statement.2 ++ space ::
              statements.flatMap fun statement => statement.1.name ++ ch '=' :: (statement.2 ++ [space])) := by
        simp
      rw [List.flatMap_cons, text, readAssignments_cons named (read _), readAssignments_space,
        ih later (Nat.le_of_succ_le_succ enough)]
      rfl

/-- Assignments one after the other, each with a text that reads as its value. -/
theorem evalAssignments_statements {statements : List (Assignment × Bytes)}
    (reads : ∀ statement ∈ statements, isName statement.1.name = true ∧
      ∀ rest, readValue (statement.2 ++ rest) = some (statement.1.value, rest)) :
    evalAssignments (statements.flatMap fun statement => statement.1.name ++ ch '=' :: (statement.2 ++ [space])) =
      some (statements.map Prod.fst) := by
  apply readAssignments_statements reads
  clear reads
  induction statements with
  | nil => exact Nat.le_refl _
  | cons statement statements ih =>
    simp only [List.flatMap_cons, List.length_append, List.length_cons] at ih ⊢
    omega

def arrayText (words : List Bytes) : Bytes :=
  ch '(' :: ((words.flatMap fun w => squoted (escape w) ++ [space]) ++ [ch ')', ch ';'])

theorem quotes_array : Quotes arrayBlank (ch ')') := ⟨by decide, by decide⟩

theorem quotes_command : Quotes commandBlank (ch ';') := ⟨by decide, by decide⟩

theorem readValue_arrayText (words : List Bytes) (rest : Bytes) :
    readValue (arrayText words ++ rest) = some (.array words, rest) := by
  have read := readUntil_squoted_words quotes_array (by decide) (by decide) words (ch ';' :: rest)
  have text : arrayText words ++ rest =
      ch '(' :: ((words.flatMap fun w => squoted (escape w) ++ [space]) ++ ch ')' :: ch ';' :: rest) := by
    simp [arrayText]
  rw [text]
  simp only [readValue, List.head?_cons, if_true, List.tail_cons, read, Option.bind_eq_bind, Option.bind_some,
    readUntil_stop]
  rfl

theorem readValue_squoted (word rest : Bytes) :
    readValue (squoted (escape word) ++ [ch ';'] ++ rest) = some (.scalar word, rest) := by
  have other : squote ≠ ch '(' := by decide
  have first : (squoted (escape word) ++ ch ';' :: rest).head? ≠ some (ch '(') := by simpa [squoted] using other
  rw [List.append_assoc, List.singleton_append, readValue, if_neg first, (readsQuotes_until quotes_command).squoted_escape,
    readUntil_stop]
  rfl

theorem readUntil_letters {word : Bytes} (letters : ∀ c ∈ word, nameByte c = true) (begun rest : Bytes) :
    readUntil commandBlank (ch ';') .bare (some begun) (word ++ rest) =
      readUntil commandBlank (ch ';') .bare (some (begun ++ word)) rest := by
  induction word generalizing begun with
  | nil => simp
  | cons c word ih =>
    rw [List.forall_mem_cons] at letters
    obtain ⟨unblank, other, -, notSquote, notDquote, notBackslash, inactive⟩ := nameByte_plain letters.1
    have grown : begun ++ c :: word = begun ++ [c] ++ word := by simp
    rw [grown, ← ih letters.2, List.cons_append]
    generalize word ++ rest = text
    cases text <;> simp [readUntil, unblank, other, notSquote, notDquote, notBackslash, inactive]

theorem readValue_word {word : Bytes} (named : isName word = true) (rest : Bytes) :
    readValue (word ++ [ch ';'] ++ rest) = some (.scalar word, rest) := by
  have letters : ∀ c ∈ word, nameByte c = true := List.all_eq_true.mp (Bool.and_eq_true_iff.mp named).1
  have first : (word ++ ch ';' :: rest).head? ≠ some (ch '(') := by
    cases word with
    | nil => cases named
    | cons c word => simpa using (nameByte_plain (letters c List.mem_cons_self)).2.2.1
  rw [List.append_assoc, List.singleton_append, readValue, if_neg first, readUntil_letters letters, readUntil_stop]
  rfl

end Reading

end Shell
