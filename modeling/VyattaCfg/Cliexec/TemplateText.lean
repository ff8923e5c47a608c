import VyattaCfg.Cliexec.LineTexts
import VyattaCfg.Cliexec.TemplateLanguage

namespace VyattaCfg.Cliexec

open ByteString Regex Grammar VyattaCfg.Client

section Definition

/-- What `parse_def` makes of a file, where its status is zero. -/
def readDef (ismulti : Nat → Bool) (content : Bytes) : Option TemplateFile :=
  (valuedTokens ismulti content).bind readTemplate

end Definition

section Texts

/-- How a token is written. -/
inductive TokenText (condition : Condition) : DefToken → Bytes → Prop
  | name {entry : String × DefToken} : entry ∈ tableOf condition → TokenText condition entry.2 (str entry.1)
  | value (value : ValueToken) : TokenText condition (.exp (.value value)) value.text
  | var (token : VarToken) : condition = .expression → TokenText condition (.exp (.var token)) token.text
  | literal {delim : UInt8} {raw text : Bytes} : isQuote delim → Literal delim raw text →
    TokenText condition (stringOf delim text) (delim :: (raw ++ [delim]))

/-- Tokens with blanks between them. An expression can go on in the next line, behind a backslash or indented. -/
inductive Spaced (condition : Condition) : List DefToken → Bytes → Prop
  | nil : Spaced condition [] []
  | token {token : DefToken} {tokens : List DefToken} {w text : Bytes} : TokenText condition token w →
    (∀ b ∈ text.head?, token.allows b) → Spaced condition tokens text → Spaced condition (token :: tokens) (w ++ text)
  | blanks {tokens : List DefToken} {run text : Bytes} : run ≠ [] → (∀ b ∈ run, isBlank b) →
    (∀ b ∈ text.head?, isBlank b = false) → Spaced condition tokens text → Spaced condition tokens (run ++ text)
  | continuation {tokens : List DefToken} {text : Bytes} : condition = .expression → Spaced condition tokens text →
    Spaced condition tokens (ch '\\' :: ch '\n' :: text)
  | indent {tokens : List DefToken} {text : Bytes} : condition = .expression →
    (∀ b ∈ text.head?, (isBlank b || b == ch '\n') = true) → Spaced condition tokens text →
    Spaced condition tokens (ch '\n' :: text)

/-- How the tokens of a line are written, and the condition at its end. -/
inductive LineText : Condition → List DefToken → Bytes → Prop
  | bare {tokens : List DefToken} {text : Bytes} : Spaced .initial tokens text → LineText .initial tokens text
  | simple {entry : String × DefToken} {blanks text : Bytes} {tokens : List DefToken} : entry ∈ regTokens →
    (∀ b ∈ blanks, isBlank b) → (∀ b ∈ text.head?, isBlank b = false) → Spaced .initial tokens text →
    LineText .initial (entry.2 :: tokens) (opening entry.1 ++ (blanks ++ text))
  | expression {entry : String × DefToken} {blanks blanks' text : Bytes} {tokens : List DefToken} :
    entry ∈ actTokens → (∀ b ∈ blanks, isBlank b) → (∀ b ∈ blanks', isBlank b) →
    (∀ b ∈ text.head?, isBlank b = false) → Spaced .expression tokens text →
    LineText .expression (entry.2 :: tokens) (opening entry.1 ++ (blanks ++ (str "expression:" ++ blanks') ++ text))
  | action {entry : String × DefToken} {blanks text : Bytes} : entry ∈ actTokens → (∀ b ∈ blanks, isBlank b) →
    (∀ b ∈ text.head?, isBlank b = false) → ¬ str "expression:" <+: text → ActionLines text →
    LineText .action [entry.2, .exp (.string (stringToken text))] (opening entry.1 ++ (blanks ++ text))

/-- How the lines of a file are written. A line break ends what is not an action or an expression; these end where
    the next line starts a field or a comment. -/
inductive FileText : List (List DefToken) → Bytes → Prop
  | last {ends : Condition} {line : List DefToken} {text : Bytes} : LineText ends line text → FileText [line] text
  | line {ends : Condition} {line : List DefToken} {lines : List (List DefToken)} {text rest : Bytes} :
    LineText ends line text → (ends = .initial ∨ opensLine rest = true) → FileText lines rest →
    FileText (line :: lines) (text ++ ch '\n' :: rest)
  | comment {line : List DefToken} {lines : List (List DefToken)} {text comment rest : Bytes} :
    LineText .initial line text → ch '\n' ∉ comment → FileText lines rest →
    FileText (line :: lines) (text ++ ch '#' :: (comment ++ ch '\n' :: rest))

end Texts

section Scanned

variable {condition : Condition} {tokens : List DefToken} {rest : Bytes}

theorem token_reads (holds : condition.holdsTokens) {token : DefToken} {w : Bytes} (text : TokenText condition token w)
    (next : ∀ b ∈ rest.head?, token.allows b) (later : ReadsIn condition rest tokens) :
    ReadsIn condition (w ++ rest) (token :: tokens) := by
  intro pre delim
  cases text with
  | @name entry known =>
    have flag : ∀ condition, ∀ entry ∈ tableOf condition, entry.2.flag = none := by
      intro condition
      cases condition <;> decide
    obtain ⟨rule, found, acts⟩ := name_found known
    have once : valuedOnce (between condition pre delim tokens) (str entry.1 ++ rest) =
        some (⟨.deliver entry.2, between condition pre delim tokens, false⟩, rest) :=
      valuedOnce_taken (name_nonempty condition entry known) found
        (fun b first => name_stops known (next b first)) (acts _) rfl
    rw [between, flagsOf_other (flag condition entry known)]
    exact .deliver once (later pre delim)
  | value value =>
    have taken : valueAction value.type value.text (between condition pre delim (.exp (.value value) :: tokens)) =
        some ⟨.deliver (.exp (.value value)), between condition pre delim tokens, false⟩ := by
      rw [valueAction, dif_pos value.known]
      rfl
    have stops : ∀ b ∈ rest.head?, ∀ rule ∈ valuedRulesOf condition, Stops rule.pattern value.text b :=
      fun b first => value_stops holds value.known (next b first)
    exact .deliver (valuedOnce_taken (value_nonempty value.known) (value_found holds value.known) stops taken rfl)
      (later pre delim)
  | var token expression =>
    subst expression
    have once : valuedOnce (between .expression pre delim tokens) (token.text ++ rest) =
        some (⟨.deliver (.exp (.var token)), between .expression pre delim tokens, false⟩, rest) :=
      valuedOnce_taken (List.cons_ne_nil _ _) (var_found token) (fun b _ => var_stops token b) (var_delivers token _) rfl
    rw [between, flagsOf_other rfl]
    exact .deliver once (later pre delim)
  | @literal own raw text quote literal =>
    have flag : (stringOf own text).flag = none := by
      unfold stringOf
      split <;> rfl
    obtain ⟨rule, found, acts⟩ := quote_found holds quote
    have begun : rule.action [own] (between condition pre delim tokens) =
        some ⟨.goOn, within condition own [] tokens, false⟩ := by
      rw [acts]
      rfl
    have once : valuedOnce (between condition pre delim tokens) ([own] ++ (raw ++ own :: rest)) =
        some (⟨.goOn, within condition own [] tokens, false⟩, raw ++ own :: rest) :=
      valuedOnce_taken (List.cons_ne_nil _ _) found (fun b _ => quote_stops holds quote b) begun rfl
    rw [between, flagsOf_other flag, List.cons_append, List.append_assoc]
    exact .goOn once (literal_reads quote literal later)

theorem blanks_reads (holds : condition.holdsTokens) {run : Bytes} (nonempty : run ≠ []) (blank : ∀ b ∈ run, isBlank b)
    (next : ∀ b ∈ rest.head?, isBlank b = false) (later : ReadsIn condition rest tokens) :
    ReadsIn condition (run ++ rest) tokens := by
  intro pre delim
  have once : valuedOnce (between condition pre delim tokens) (run ++ rest) =
      some (⟨.goOn, between condition pre delim tokens, false⟩, rest) :=
    valuedOnce_taken nonempty (blank_found holds nonempty blank)
      (fun b first => blank_stops holds nonempty blank (next b first)) rfl rfl
  exact .goOn once (later pre delim)

theorem spaced_reads (holds : condition.holdsTokens) {own : List DefToken} {text : Bytes}
    (spaced : Spaced condition own text) (ends : ∀ b ∈ rest.head?, b = ch '\n' ∨ (condition = .initial ∧ b = ch '#'))
    (later : ReadsIn condition rest tokens) : ReadsIn condition (text ++ rest) (own ++ tokens) := by
  have through : ∀ {text : Bytes} {p : UInt8 → Prop}, (∀ b ∈ text.head?, p b) → (∀ b ∈ rest.head?, p b) →
      ∀ b ∈ (text ++ rest).head?, p b := by
    intro text p inner outer
    cases text with
    | nil => exact outer
    | cons => exact inner
  induction spaced with
  | nil => exact later
  | token text next _ ih =>
    rw [List.append_assoc]
    apply token_reads holds text (through next _) ih
    intro b first
    apply Bool.or_eq_true_iff.mpr
    right
    rcases ends b first with rfl | ⟨-, rfl⟩ <;> rfl
  | blanks nonempty blank next _ ih =>
    rw [List.append_assoc]
    apply blanks_reads holds nonempty blank (through next _) ih
    intro b first
    rcases ends b first with rfl | ⟨-, rfl⟩ <;> rfl
  | continuation expression _ ih =>
    subst expression
    exact continuation_reads ih
  | indent expression next _ ih =>
    subst expression
    apply indent_reads (through next _) ih
    intro b first
    rcases ends b first with rfl | ⟨other, -⟩
    · rfl
    · cases other

theorem line_reads {ends : Condition} {line : List DefToken} {text : Bytes} (written : LineText ends line text)
    (later : ReadsIn .initial rest tokens)
    (ending : (ends = .initial ∧ ∀ b ∈ rest.head?, b = ch '\n' ∨ b = ch '#') ∨ (rest = [] ∧ tokens = [.eol]) ∨
      ∃ next, rest = ch '\n' :: next ∧ opensLine next = true) :
    ReadsIn .initial (text ++ rest) (line ++ tokens) := by
  have broken : ∀ b ∈ rest.head?, b = ch '\n' ∨ (ends = .initial ∧ b = ch '#') := by
    intro b first
    rcases ending with ⟨initial, all⟩ | ⟨rfl, -⟩ | ⟨next, rfl, -⟩
    · exact (all b first).imp id fun sharp => ⟨initial, sharp⟩
    · cases first
    · exact .inl (Option.some.inj first).symm
  have behind : ∀ {text : Bytes}, (∀ b ∈ text.head?, isBlank b = false) →
      ∀ b ∈ (text ++ rest).head?, isBlank b = false := by
    intro text inner
    cases text with
    | nil =>
      intro b first
      rcases broken b first with rfl | ⟨-, rfl⟩ <;> rfl
    | cons => exact inner
  cases written with
  | bare spaced =>
    exact spaced_reads rfl spaced (fun b first => (broken b first).imp id fun sharp => ⟨rfl, sharp.2⟩) later
  | simple known blank next spaced =>
    rw [List.append_assoc, List.append_assoc, List.cons_append]
    apply regField_reads known blank (behind next)
    exact spaced_reads rfl spaced (fun b first => (broken b first).imp id fun sharp => ⟨rfl, sharp.2⟩) later
  | expression known blank blank' next spaced =>
    rw [List.append_assoc, List.append_assoc, List.cons_append]
    apply expressionField_reads known (mem_reExpression.mpr ⟨_, _, blank, blank', rfl⟩) (behind next)
    apply spaced_reads rfl spaced
    · intro b first
      rcases broken b first with newline | ⟨other, -⟩
      · exact .inl newline
      · cases other
    · rcases ending with ⟨other, -⟩ | ⟨rfl, rfl⟩ | ⟨next, rfl, opens⟩
      · cases other
      · exact eof_reads.2
      · exact nextField_reads opens later
  | action known blank next plain lines =>
    have newline : ∀ b ∈ rest.head?, b = ch '\n' := by
      intro b first
      rcases broken b first with newline | ⟨other, -⟩
      · exact newline
      · cases other
    rw [List.append_assoc, List.append_assoc]
    apply actionField_reads known blank (behind next) _ lines later
    · rcases ending with ⟨other, -⟩ | ⟨rfl, -⟩ | next
      · cases other
      · exact .inl rfl
      · exact .inr next
    · exact fun front => plain (prefix_of_line (by decide) newline front)

theorem file_reads {lines : List (List DefToken)} {content : Bytes} (file : FileText lines content) :
    ReadsIn .initial content (Lines.written .eol lines) := by
  induction file with
  | @last ends line text written =>
    have reads := line_reads written eof_reads.1 (.inr (.inl ⟨rfl, rfl⟩))
    rw [List.append_nil] at reads
    rw [Lines.written_cons]
    exact reads
  | line written ends _ ih =>
    rw [Lines.written_cons]
    apply line_reads written (newline_reads ih)
    rcases ends with initial | opens
    · exact .inl ⟨initial, fun b first => .inl (Option.some.inj first).symm⟩
    · exact .inr (.inr ⟨_, rfl, opens⟩)
  | comment written free _ ih =>
    rw [Lines.written_cons]
    apply line_reads written (comment_reads free ih)
    exact .inl ⟨rfl, fun b first => .inr (Option.some.inj first).symm⟩

/-- The scanner finds the tokens that the file was written with, line by line. -/
theorem valuedTokens_text {lines : List (List DefToken)} {content : Bytes} (file : FileText lines content) :
    valuedTokens (flagsOf (Lines.written .eol lines)) content = some (Lines.written .eol lines) :=
  (file_reads file .initial 0).valuedFrom (Nat.lt_succ_self _)

end Scanned

/-- A file whose lines are written for what they say is read as that, and accepted. -/
theorem readDef_text (parser : Parser cliParse.language) {file : TemplateFile} {lines : List (List DefToken)}
    {content : Bytes} (text : FileText lines content) (written : file.Written (Lines.written .eol lines))
    (fits : ¬ parser.exhausted (defTokens content)) :
    readDef (flagsOf (Lines.written .eol lines)) content = some file ∧ parseDef parser (some content) = 0 := by
  have scanned := valuedTokens_text text
  have read := readTemplate_eq_some_iff.mpr written
  constructor
  · rw [readDef, scanned]
    exact read
  · rw [parseDef, Parser.yyparse_zero_iff, and_iff_left fits, valuedTokens_tokens scanned, derives_iff_read]
    exact ⟨file, read⟩

theorem readDef_text_continued :
    ∃ lines, readDef (flagsOf (Lines.written .eol lines)) (str "type: txt; \"a\\tb\"\n# c\ndelete: rm x\n -f\n") =
      some ⟨none, false, [.typeHelp .text (stringToken (str "a\tb")),
        .cause (.action .deleteAct (.exec (stringToken (str "rm x\n -f\n"))))]⟩ ∧
    parseDef (.roomy cliParse.language) (some (str "type: txt; \"a\\tb\"\n# c\ndelete: rm x\n -f\n")) = 0 := by
  have inner : ActionLines (str "rm x\n -f\n") := by
    constructor
    · decide
    · intro front line same
      have tails : ∀ tail ∈ (str "rm x\n -f\n").tails, tail.head? = some (ch '\n') → opensLine tail.tail = false := by
        decide
      exact tails (ch '\n' :: line) (List.mem_tails _ _ |>.mpr ⟨front, same.symm⟩) rfl
  have help : Literal (ch '"') (str "a\\tb") (str "a\tb") :=
    .plain (by decide) (by decide) (.escape (by decide) rfl (by decide) (.plain (by decide) (by decide) .nil))
  have typed : LineText .initial
      [.type, .typeDef .text, .exp .semi, .exp (.string (stringToken (str "a\tb")))]
      (opening "type" ++ (str " " ++ (str "txt" ++ (str ";" ++ (str " " ++ (ch '"' :: (str "a\\tb" ++ [ch '"']) ++ [])))))) := by
    apply LineText.simple (show ("type", DefToken.type) ∈ regTokens by decide) (by decide) (by decide)
    apply Spaced.token (.name (show ("txt", DefToken.typeDef .text) ∈ tableOf .initial by decide)) (by decide)
    apply Spaced.token (.name (show (";", DefToken.exp .semi) ∈ tableOf .initial by decide)) (by decide)
    apply Spaced.blanks (by decide) (by decide) (by decide)
    exact .token (.literal (by decide) help) nofun .nil
  have deleted : LineText .action [.action .deleteAct, .exp (.string (stringToken (str "rm x\n -f\n")))]
      (opening "delete" ++ (str " " ++ str "rm x\n -f\n")) :=
    .action (show ("delete", DefToken.action .deleteAct) ∈ actTokens by decide) (by decide) (by decide) (by decide) inner
  have text := FileText.line typed (.inl rfl) <|
    .comment (.bare .nil) (show ch '\n' ∉ str " c" by decide) (.last deleted)
  refine ⟨_, readDef_text (.roomy cliParse.language) text ?_ not_false⟩
  exact ⟨0, _, .line rfl (.blank (.line ⟨_, rfl, rfl⟩ .nil)), rfl⟩

end VyattaCfg.Cliexec
