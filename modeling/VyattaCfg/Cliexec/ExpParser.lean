import VyattaCfg.Cliexec.CliDef
import VyattaCfg.Library.Precedence

namespace VyattaCfg.Cliexec

open Precedence

section Tokens

/-- The tokens of an expression, with the values that they carry. -/
inductive ExpToken where
  | value (value : ValueToken)
  | string (string : StringToken)
  | var (var : VarToken)
  | exString (string : StringToken)
  | cond (cond : VtwCond)
  | pattern | exec | not | and | or | assign | semi | comma | lp | rp

def ExpToken.token : ExpToken → Token
  | .value _ => .value
  | .string _ => .string
  | .var _ => .var
  | .exString _ => .exString
  | .cond _ => .cond
  | .pattern => .pattern
  | .exec => .exec
  | .not => .not
  | .and => .and
  | .or => .or
  | .assign => .assign
  | .semi => .semi
  | .comma => .comma
  | .lp => .lp
  | .rp => .rp

/-- The order of the `%left`, `%right` and `%nonassoc` lines. -/
def precedence : Token → Nat
  | .semi => 1
  | .assign => 2
  | .or => 3
  | .and => 4
  | .not => 5
  | .comma => 6
  | .cond => 7
  | _ => 0

end Tokens

section Trees

inductive Connective where
  | and
  | or

def Connective.token : Connective → ExpToken
  | .and => .and
  | .or => .or

/-- An expression without operators on expressions. -/
inductive Atom where
  | cond (left : Val) (cond : VtwCond) (right : Val)
  | pattern (var : VarToken) (pattern : StringToken)
  | exec (command : StringToken)
  | assign (var : VarToken) (val : Val)

abbrev ExpTree := Tree Atom Unit Connective StringToken Unit

abbrev ExpLexeme := Lexeme Atom Unit Connective StringToken Unit

/-- The one prefix operator is NOT, and what stands behind an expression is its help. -/
def expTable : Table Unit Connective StringToken where
  unary _ := precedence .not
  binary op := precedence op.token.token
  suffix _ := precedence .semi

def Item.tokens : Item → List ExpToken
  | .value token => [.value token]
  | .string token => [.string token]

def Val0.tokens : Val0 → List ExpToken
  | .item first => first.tokens
  | .comma first second => first.tokens ++ .comma :: second.tokens

def Val.tokens : Val → List ExpToken
  | .var token => [.var token]
  | .val0 values => values.tokens
  | .exString token => [.exString token]

def Atom.tokens : Atom → List ExpToken
  | .cond left op right => left.tokens ++ .cond op :: right.tokens
  | .pattern var regex => [.pattern, .var var, .string regex]
  | .exec command => [.exec, .string command]
  | .assign var val => .var var :: .assign :: val.tokens

def lexemeTokens : ExpLexeme → List ExpToken
  | .atom atom => atom.tokens
  | .unary _ => [.not]
  | .binary op => [op.token]
  | .suffix help => [.semi, .string help]
  | .opening _ => [.lp]
  | .closing _ => [.rp]

def expTokens (tree : ExpTree) : List ExpToken := tree.yield.flatMap lexemeTokens

def Atom.exp : Atom → Exp
  | .cond left op right => .cond left op right
  | .pattern var regex => .pattern var regex
  | .exec command => .exec command
  | .assign var val => .assign var val

/-- What the semantic actions make of a tree. -/
def expOf : ExpTree → Exp
  | .atom atom => atom.exp
  | .unary _ operand => .not (expOf operand)
  | .binary left .and right => .and (expOf left) (expOf right)
  | .binary left .or right => .or (expOf left) (expOf right)
  | .suffix operand help => .help (expOf operand) help
  | .group _ inside => expOf inside

/-- The tree of an `assign_exp`: its operators are those of an `exp`, less NOT and parentheses. -/
def assignOf : ExpTree → Option AssignExp
  | .atom (.assign var val) => some (.assign var val)
  | .binary left .and right => do some (.and (← assignOf left) (← assignOf right))
  | .binary left .or right => do some (.or (← assignOf left) (← assignOf right))
  | .suffix operand help => do some (.help (← assignOf operand) help)
  | _ => none

end Trees

section Parser

def readVal0 (first : Val0) : List ExpToken → Option (Val0 × List ExpToken)
  | .comma :: .value token :: rest => readVal0 (.comma first (.value token)) rest
  | .comma :: .string token :: rest => readVal0 (.comma first (.string token)) rest
  | .comma :: _ => none
  | rest => some (first, rest)

def readVal : List ExpToken → Option (Val × List ExpToken)
  | .var token :: rest => some (.var token, rest)
  | .exString token :: rest => some (.exString token, rest)
  | .value token :: rest => (readVal0 (.item (.value token)) rest).map fun (values, rest) => (.val0 values, rest)
  | .string token :: rest => (readVal0 (.item (.string token)) rest).map fun (values, rest) => (.val0 values, rest)
  | _ => none

/-- A comparison is told from an assignment by the token behind the variable. -/
def readAtom : List ExpToken → Option (Atom × List ExpToken)
  | .pattern :: .var var :: .string regex :: rest => some (.pattern var regex, rest)
  | .exec :: .string command :: rest => some (.exec command, rest)
  | .var var :: .assign :: rest => (readVal rest).map fun (val, rest) => (.assign var val, rest)
  | tokens =>
    match readVal tokens with
    | some (left, .cond op :: rest) => (readVal rest).map fun (right, rest) => (.cond left op right, rest)
    | _ => none

def scan : Nat → List ExpToken → Option (List ExpLexeme)
  | _, [] => some []
  | 0, _ => none
  | fuel + 1, .not :: rest => (scan fuel rest).map (.unary () :: ·)
  | fuel + 1, .and :: rest => (scan fuel rest).map (.binary .and :: ·)
  | fuel + 1, .or :: rest => (scan fuel rest).map (.binary .or :: ·)
  | fuel + 1, .semi :: .string help :: rest => (scan fuel rest).map (.suffix help :: ·)
  | fuel + 1, .lp :: rest => (scan fuel rest).map (.opening () :: ·)
  | fuel + 1, .rp :: rest => (scan fuel rest).map (.closing () :: ·)
  | fuel + 1, tokens =>
    match readAtom tokens with
    | some (atom, rest) => (scan fuel rest).map (.atom atom :: ·)
    | none => none

/-- The parser for `exp`: what is ambiguous is decided by the precedences. -/
def parseExp (tokens : List ExpToken) : Option ExpTree := (scan tokens.length tokens).bind (parse expTable)

def parseAssignExp (tokens : List ExpToken) : Option AssignExp := (parseExp tokens).bind assignOf

/-- A string alone, or with its help, is an `action0`. -/
def parseAction : List ExpToken → Option Action
  | [.string command] => some (.exec command)
  | [.string command, .semi, .string help] => some (.execHelp command help)
  | tokens => (parseExp tokens).map fun tree => .exp (expOf tree)

end Parser

section Scanned

/-- What ends a list of values. -/
def Ended (tokens : List ExpToken) : Prop := tokens.head? ≠ some .comma

theorem readVal0_ended {tokens : List ExpToken} (ended : Ended tokens) (first : Val0) :
    readVal0 first tokens = some (first, tokens) := by
  cases tokens with
  | nil => rfl
  | cons token rest =>
    cases token with
    | comma => exact absurd rfl ended
    | _ => rfl

theorem readVal_val0 (values : Val0) (rest : List ExpToken) :
    readVal (values.tokens ++ rest) = (readVal0 values rest).map fun (values, rest) => (.val0 values, rest) := by
  induction values generalizing rest with
  | item first => cases first <;> rfl
  | comma first second ih =>
    rw [Val0.tokens, List.append_assoc, List.cons_append, ih]
    cases second <;> rfl

theorem readVal_tokens {rest : List ExpToken} (ended : Ended rest) (val : Val) :
    readVal (val.tokens ++ rest) = some (val, rest) := by
  cases val with
  | var token => rfl
  | exString token => rfl
  | val0 values =>
    rw [Val.tokens, readVal_val0, readVal0_ended ended]
    rfl

theorem tokens_item (values : Val0) : ∃ item more, values.tokens = Item.tokens item ++ more := by
  induction values with
  | item first => exact ⟨first, [], (List.append_nil _).symm⟩
  | comma first second ih =>
    obtain ⟨item, more, starts⟩ := ih
    exact ⟨item, more ++ .comma :: second.tokens, by rw [Val0.tokens, starts, List.append_assoc]⟩

theorem readAtom_tokens {rest : List ExpToken} (ended : Ended rest) (atom : Atom) :
    readAtom (atom.tokens ++ rest) = some (atom, rest) := by
  cases atom with
  | pattern var regex => rfl
  | exec command => rfl
  | assign var val =>
    show (readVal (val.tokens ++ rest)).map _ = _
    rw [readVal_tokens ended]
    rfl
  | cond left op right =>
    have compared : ∀ tokens : List ExpToken, readVal tokens = some (left, .cond op :: (right.tokens ++ rest)) →
        (match readVal tokens with
          | some (left, .cond op :: rest) => (readVal rest).map fun (right, rest) => (Atom.cond left op right, rest)
          | _ => none) = some (.cond left op right, rest) := by
      intro tokens read
      rw [read]
      simp only [readVal_tokens ended, Option.map_some]
    have read := readVal_tokens (show Ended (.cond op :: (right.tokens ++ rest)) from nofun) left
    rw [Atom.tokens, List.append_assoc, List.cons_append]
    cases left with
    | var token => exact compared _ read
    | exString token => exact compared _ read
    | val0 values =>
      obtain ⟨item, more, starts⟩ := tokens_item values
      rw [Val.tokens, starts] at read ⊢
      cases item <;> exact compared _ read

def ExpToken.startsAtom : ExpToken → Bool
  | .value _ | .string _ | .var _ | .exString _ | .pattern | .exec => true
  | _ => false

theorem val_first (val : Val) : ∃ token more, val.tokens = token :: more ∧ token.startsAtom = true := by
  cases val with
  | var token => exact ⟨_, [], rfl, rfl⟩
  | exString token => exact ⟨_, [], rfl, rfl⟩
  | val0 values =>
    obtain ⟨item, more, starts⟩ := tokens_item values
    cases item <;> exact ⟨_, more, starts, rfl⟩

theorem atom_first (atom : Atom) : ∃ token more, atom.tokens = token :: more ∧ token.startsAtom = true := by
  cases atom with
  | cond left op right =>
    obtain ⟨token, more, starts, here⟩ := val_first left
    exact ⟨token, more ++ .cond op :: right.tokens, by rw [Atom.tokens, starts]; rfl, here⟩
  | pattern var regex => exact ⟨_, _, rfl, rfl⟩
  | exec command => exact ⟨_, _, rfl, rfl⟩
  | assign var val => exact ⟨_, _, rfl, rfl⟩

theorem ended_lexemes (lexemes : List ExpLexeme) : Ended (lexemes.flatMap lexemeTokens) := by
  cases lexemes with
  | nil => exact nofun
  | cons lexeme lexemes =>
    rw [List.flatMap_cons]
    cases lexeme with
    | atom atom =>
      obtain ⟨token, more, starts, here⟩ := atom_first atom
      rw [lexemeTokens, starts, Ended, List.cons_append, List.head?_cons, ne_eq, Option.some.injEq]
      rintro rfl
      cases here
    | binary op => cases op <;> exact nofun
    | unary op => exact nofun
    | suffix help => exact nofun
    | opening bracket => exact nofun
    | closing bracket => exact nofun

theorem scan_first {token : ExpToken} (starts : token.startsAtom = true) (fuel : Nat) (more : List ExpToken) :
    scan (fuel + 1) (token :: more) =
      (readAtom (token :: more)).bind fun (atom, rest) => (scan fuel rest).map (.atom atom :: ·) := by
  cases token
  case value | string | var | exString | pattern | exec =>
    simp only [scan]
    split <;> rename_i read <;> rw [read] <;> rfl
  all_goals cases starts

theorem scan_lexeme (fuel : Nat) (lexeme : ExpLexeme) {rest : List ExpToken} (ended : Ended rest) :
    scan (fuel + 1) (lexemeTokens lexeme ++ rest) = (scan fuel rest).map (lexeme :: ·) := by
  cases lexeme with
  | atom atom =>
    obtain ⟨token, more, first, starts⟩ := atom_first atom
    have read := readAtom_tokens ended atom
    rw [first, List.cons_append] at read
    rw [lexemeTokens, first, List.cons_append, scan_first starts, read]
    rfl
  | binary op => cases op <;> rfl
  | unary op => rfl
  | suffix help => rfl
  | opening bracket => rfl
  | closing bracket => rfl

theorem lexemeTokens_ne_nil (lexeme : ExpLexeme) : lexemeTokens lexeme ≠ [] := by
  cases lexeme with
  | atom atom =>
    obtain ⟨token, more, first, -⟩ := atom_first atom
    rw [lexemeTokens, first]
    exact List.cons_ne_nil _ _
  | _ => exact List.cons_ne_nil _ _

/-- The lexemes are found again in their tokens. -/
theorem scan_lexemes {fuel : Nat} (lexemes : List ExpLexeme)
    (enough : (lexemes.flatMap lexemeTokens).length ≤ fuel) :
    scan fuel (lexemes.flatMap lexemeTokens) = some lexemes := by
  induction lexemes generalizing fuel with
  | nil => cases fuel <;> rfl
  | cons lexeme lexemes ih =>
    have filled := List.length_pos_iff.mpr (lexemeTokens_ne_nil lexeme)
    rw [List.flatMap_cons, List.length_append] at enough
    obtain ⟨less, rfl⟩ : ∃ less, fuel = less + 1 := ⟨fuel - 1, by omega⟩
    rw [List.flatMap_cons, scan_lexeme less lexeme (ended_lexemes lexemes), ih (by omega)]
    rfl

theorem readVal0_sound {tokens rest : List ExpToken} {first values : Val0}
    (read : readVal0 first tokens = some (values, rest)) : first.tokens ++ tokens = values.tokens ++ rest := by
  fun_induction readVal0 first tokens with
  | case1 first token behind ih =>
    rw [← ih read, Val0.tokens, List.append_assoc]
    rfl
  | case2 first token behind ih =>
    rw [← ih read, Val0.tokens, List.append_assoc]
    rfl
  | case3 => cases read
  | case4 first tokens =>
    cases read
    rfl

theorem readVal_sound {tokens rest : List ExpToken} {val : Val} (read : readVal tokens = some (val, rest)) :
    tokens = val.tokens ++ rest := by
  have listed : ∀ (item : Item) (behind : List ExpToken),
      (readVal0 (.item item) behind).map (fun (values, rest) => (Val.val0 values, rest)) = some (val, rest) →
        item.tokens ++ behind = val.tokens ++ rest := by
    intro item behind read
    obtain ⟨⟨values, left⟩, found, same⟩ := Option.map_eq_some_iff.mp read
    cases same
    exact readVal0_sound found
  unfold readVal at read
  split at read
  · cases read
    rfl
  · cases read
    rfl
  · exact listed _ _ read
  · exact listed _ _ read
  · cases read

theorem readAtom_sound {tokens rest : List ExpToken} {atom : Atom} (read : readAtom tokens = some (atom, rest)) :
    tokens = atom.tokens ++ rest := by
  unfold readAtom at read
  split at read
  · cases read
    rfl
  · cases read
    rfl
  · obtain ⟨⟨val, left⟩, found, same⟩ := Option.map_eq_some_iff.mp read
    cases same
    rw [readVal_sound found]
    rfl
  · split at read
    · rename_i left op behind compared
      obtain ⟨⟨right, after⟩, found, same⟩ := Option.map_eq_some_iff.mp read
      cases same
      rw [readVal_sound compared, readVal_sound found, Atom.tokens, List.append_assoc]
      rfl
    · cases read

theorem scan_sound {fuel : Nat} {tokens : List ExpToken} {lexemes : List ExpLexeme}
    (scanned : scan fuel tokens = some lexemes) : lexemes.flatMap lexemeTokens = tokens := by
  have one : ∀ {fuel : Nat} {rest : List ExpToken} {lexeme : ExpLexeme} {lexemes : List ExpLexeme},
      (∀ {later : List ExpLexeme}, scan fuel rest = some later → later.flatMap lexemeTokens = rest) →
        (scan fuel rest).map (lexeme :: ·) = some lexemes →
          lexemes.flatMap lexemeTokens = lexemeTokens lexeme ++ rest := by
    intro fuel rest lexeme lexemes ih scanned
    obtain ⟨later, found, same⟩ := Option.map_eq_some_iff.mp scanned
    rw [← same, List.flatMap_cons, ih found]
  fun_induction scan fuel tokens generalizing lexemes with
  | case1 =>
    cases scanned
    rfl
  | case2 => cases scanned
  | case3 fuel rest ih => exact one ih scanned
  | case4 fuel rest ih => exact one ih scanned
  | case5 fuel rest ih => exact one ih scanned
  | case6 fuel help rest ih => exact one ih scanned
  | case7 fuel rest ih => exact one ih scanned
  | case8 fuel rest ih => exact one ih scanned
  | case9 =>
    rename_i read ih
    rw [readAtom_sound read]
    exact one ih scanned
  | case10 => cases scanned

end Scanned

end VyattaCfg.Cliexec
