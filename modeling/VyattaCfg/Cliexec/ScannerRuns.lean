import VyattaCfg.Cliexec.TokenTexts

namespace VyattaCfg.Cliexec

open ByteString Regex VyattaCfg.Client

section Reading

/-- The tokens from a state of the scanner to the end of the input. -/
inductive Reads : DefState → Bytes → List DefToken → Prop
  | eof {state next : DefState} {input rest : Bytes} {unput : Bool} :
    valuedOnce state input = some (⟨.eof, next, unput⟩, rest) → Reads state input []
  | goOn {state next : DefState} {input rest : Bytes} {unput : Bool} {tokens : List DefToken} :
    valuedOnce state input = some (⟨.goOn, next, unput⟩, rest) → Reads next rest tokens → Reads state input tokens
  | deliver {state next : DefState} {input rest : Bytes} {unput : Bool} {token : DefToken} {tokens : List DefToken} :
    valuedOnce state input = some (⟨.deliver token, next, unput⟩, rest) → Reads next rest tokens →
      Reads state input (token :: tokens)

theorem remaining_valuedOnce {state next : DefState} {input rest : Bytes} {delivery : Delivery} {unput : Bool}
    (once : valuedOnce state input = some (⟨delivery, next, unput⟩, rest)) (goes : delivery.token ≠ some .eof) :
    remaining next.lex rest < remaining state.lex input := by
  have less := @remaining_lexOnce state.lex input
  rw [valuedOnce_reaction once] at less
  exact less goes

theorem Reads.valuedFrom {state : DefState} {input : Bytes} {tokens : List DefToken} (reads : Reads state input tokens)
    {fuel : Nat} (enough : remaining state.lex input < fuel) : valuedFrom fuel state input = some tokens := by
  induction reads generalizing fuel with
  | eof once =>
    obtain ⟨fuel, rfl⟩ := Nat.exists_eq_add_one_of_ne_zero (Nat.ne_zero_of_lt enough)
    rw [Cliexec.valuedFrom, once]
    rfl
  | goOn once _ ih =>
    obtain ⟨fuel, rfl⟩ := Nat.exists_eq_add_one_of_ne_zero (Nat.ne_zero_of_lt enough)
    have less := remaining_valuedOnce once (Option.some_ne_none _).symm
    rw [Cliexec.valuedFrom, once]
    exact ih (by omega)
  | @deliver _ _ _ _ _ token _ once _ ih =>
    obtain ⟨fuel, rfl⟩ := Nat.exists_eq_add_one_of_ne_zero (Nat.ne_zero_of_lt enough)
    have less := remaining_valuedOnce once fun eof => token_ne_eof token (Option.some.inj eof)
    rw [Cliexec.valuedFrom, once]
    show (Cliexec.valuedFrom fuel _ _).bind _ = _
    rw [ih (by omega)]
    rfl

/-- One action on a text that no rule goes beyond. -/
theorem valuedOnce_found {state : DefState} {w rest : Bytes} {rule : ValuedRule} {reaction : ValuedReaction}
    (nonempty : w ≠ [])
    (found : (valuedRulesOf state.lex.condition).find? (fun rule => rule.pattern.rmatch w) = some rule)
    (ends : ∀ rule ∈ valuedRulesOf state.lex.condition, Ends rule.pattern w rest)
    (acted : rule.action w state = some reaction) :
    valuedOnce state (w ++ rest) = some (reaction, if reaction.unput then w ++ rest else rest) := by
  have chosen : Flex.choose false (w ++ rest) (valuedRulesOf state.lex.condition) = some (w.length, rule) :=
    Flex.choose_ahead valuedRules_bol nonempty found ends
  obtain ⟨b, w, rfl⟩ := List.exists_cons_of_ne_nil nonempty
  rw [List.cons_append] at chosen ⊢
  rw [valuedOnce, chosen]
  simp only [← List.cons_append, List.take_left, List.drop_left, acted, Option.bind_eq_bind, Option.bind_some]

theorem valuedOnce_taken {state : DefState} {w rest : Bytes} {rule : ValuedRule} {reaction : ValuedReaction}
    (nonempty : w ≠ [])
    (found : (valuedRulesOf state.lex.condition).find? (fun rule => rule.pattern.rmatch w) = some rule)
    (stops : ∀ c ∈ rest.head?, ∀ rule ∈ valuedRulesOf state.lex.condition, Stops rule.pattern w c)
    (acted : rule.action w state = some reaction) (taken : reaction.unput = false) :
    valuedOnce state (w ++ rest) = some (reaction, rest) := by
  have once := valuedOnce_found nonempty found
    (fun rule inside => ends_of_stops fun c next => stops c next rule inside) acted
  rw [once, taken]
  rfl

end Reading

section Flags

/-- What a VALUE token has in the place that is not set. -/
def DefToken.flag : DefToken → Option Bool
  | .exp (.value value) => some value.ismulti
  | _ => none

/-- The contents of that place, token by token. -/
def flagsOf (tokens : List DefToken) (n : Nat) : Bool := (tokens.filterMap DefToken.flag).getD n false

theorem flagsOf_other {token : DefToken} (other : token.flag = none) (tokens : List DefToken) :
    flagsOf (token :: tokens) = flagsOf tokens := by
  funext n
  rw [flagsOf, List.filterMap_cons_none other]
  rfl

/-- Between two tokens, with nothing collected. -/
def between (condition preStrState : Condition) (strDelim : UInt8) (tokens : List DefToken) : DefState :=
  ⟨⟨condition, preStrState, strDelim, false⟩, [], [], flagsOf tokens⟩

/-- The rest of the input is read as the tokens, whatever string was read before. -/
def ReadsIn (condition : Condition) (rest : Bytes) (tokens : List DefToken) : Prop :=
  ∀ preStrState strDelim, Reads (between condition preStrState strDelim tokens) rest tokens

end Flags

end VyattaCfg.Cliexec
