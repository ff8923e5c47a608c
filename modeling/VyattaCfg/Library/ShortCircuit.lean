import Mathlib.Logic.Relation
import VyattaCfg.Library.Outcome

namespace ShortCircuit

open Outcome

variable {ε δ α σ ι : Type}

/-- A check that changes a state, and answers or fails. -/
abbrev Test (ε σ : Type) := σ → Except ε (Bool × σ)

section Operators

def answer (ret : Bool) : Test ε σ := fun state => .ok (ret, state)

def both (first second : Test ε σ) : Test ε σ := fun state => do
  let (ret, state) ← first state
  if ret then second state else .ok (false, state)

def either (first second : Test ε σ) : Test ε σ := fun state => do
  let (ret, state) ← first state
  if ret then .ok (true, state) else second state

def negated (test : Test ε σ) : Test ε σ := fun state => do
  let (ret, state) ← test state
  .ok (!ret, state)

/-- The answer is the one of the test. Where that is no, something is told before it is given. -/
def told (test : Test ε σ) (tell : σ → Except ε σ) : Test ε σ := fun state => do
  let (ret, state) ← test state
  if ret then .ok (true, state) else .ok (false, ← tell state)

/-- What stands behind an operand that may have none: then the answer is no. -/
def given (operand : σ → Except ε (Except δ α × σ)) (test : α → Test ε σ) : Test ε σ := fun state => do
  let (found, state) ← operand state
  match found with
  | .error _ => .ok (false, state)
  | .ok found => test found state

/-- One test after the other, up to the first that says no. -/
def inOrder : List (Test ε σ) → Test ε σ
  | [] => answer true
  | test :: tests => both test (inOrder tests)

end Operators

section Laws

theorem given_eq {operand : σ → Except ε (Except δ α × σ)} {next : Except δ α × σ → Except ε (Bool × σ)}
    {test : α → Test ε σ} (none : ∀ status after, next (.error status, after) = .ok (false, after))
    (some : ∀ found after, next (.ok found, after) = test found after) (state : σ) :
    operand state >>= next = given operand test state := by
  rw [given]
  cases operand state with
  | error failure => rfl
  | ok result =>
    rcases result with ⟨found, after⟩
    cases found with
    | error status => exact none status after
    | ok found => exact some found after

/-- Every test says yes, one after the other. -/
inductive AllPass : List (Test ε σ) → σ → σ → Prop where
  | nil (state : σ) : AllPass [] state state
  | cons {test : Test ε σ} {tests : List (Test ε σ)} {state middle after : σ} : test state = .ok (true, middle) →
    AllPass tests middle after → AllPass (test :: tests) state after

theorem inOrder_true_iff {tests : List (Test ε σ)} {state after : σ} :
    inOrder tests state = .ok (true, after) ↔ AllPass tests state after := by
  induction tests generalizing state with
  | nil =>
    constructor
    · intro ran
      cases ran
      exact .nil _
    · intro passes
      cases passes
      rfl
  | cons test tests ih =>
    constructor
    · intro ran
      obtain ⟨⟨ret, middle⟩, first, rest⟩ := bind_ok.mp ran
      cases ret with
      | false => cases rest
      | true => exact .cons first (ih.mp rest)
    · intro passes
      cases passes with
      | cons first rest => exact bind_ok.mpr ⟨_, first, ih.mpr rest⟩

end Laws

section Footprint

variable (Free : σ → σ → Prop) (Step : ι → σ → σ → Prop)

/-- A way through a list of steps: each is made once or left out, in the order of the list, and free
    steps are made anywhere between. -/
inductive Performs : List ι → σ → σ → Prop where
  | done (state : σ) : Performs [] state state
  | free {steps : List ι} {state middle after : σ} : Free state middle → Performs steps middle after →
    Performs steps state after
  | skip {step : ι} {steps : List ι} {state after : σ} : Performs steps state after →
    Performs (step :: steps) state after
  | step {step : ι} {steps : List ι} {state middle after : σ} : Step step state middle →
    Performs steps middle after → Performs (step :: steps) state after

variable {Free Step}

theorem Performs.skipped (steps : List ι) (state : σ) : Performs Free Step steps state state := by
  induction steps with
  | nil => exact .done state
  | cons step steps ih => exact .skip ih

theorem Performs.append {first second : List ι} {state middle after : σ} (way : Performs Free Step first state middle)
    (rest : Performs Free Step second middle after) : Performs Free Step (first ++ second) state after := by
  induction way with
  | done state => exact rest
  | free made _ ih => exact .free made (ih rest)
  | skip _ ih => exact .skip (ih rest)
  | step made _ ih => exact .step made (ih rest)

theorem Performs.keeps {steps : List ι} {state after : σ} {inv : σ → Prop} (way : Performs Free Step steps state after)
    (freeKeeps : ∀ before next, Free before next → inv before → inv next)
    (stepKeeps : ∀ step ∈ steps, ∀ before next, Step step before next → inv before → inv next) (start : inv state) :
    inv after := by
  induction way with
  | done state => exact start
  | free made _ ih => exact ih stepKeeps (freeKeeps _ _ made start)
  | skip _ ih => exact ih (fun step inside => stepKeeps step (List.mem_cons_of_mem _ inside)) start
  | step made _ ih =>
    exact ih (fun step inside => stepKeeps step (List.mem_cons_of_mem _ inside))
      (stepKeeps _ List.mem_cons_self _ _ made start)

theorem Performs.frees {steps : List ι} {state middle after : σ} (made : Relation.ReflTransGen Free state middle)
    (way : Performs Free Step steps middle after) : Performs Free Step steps state after := by
  induction made using Relation.ReflTransGen.head_induction_on with
  | refl => exact way
  | head one _ ih => exact .free one ih

variable (Free Step)

/-- Wherever the test answers, it has gone its way through the steps. -/
def Within (steps : List ι) (test : Test ε σ) : Prop :=
  ∀ state ret after, test state = .ok (ret, after) → Performs Free Step steps state after

variable {Free Step}

theorem within_answer (ret : Bool) : Within Free Step [] (answer ret : Test ε σ) := by
  intro state ret after ran
  cases ran
  exact .done state

theorem Within.both {first second : Test ε σ} {steps rest : List ι} (within : Within Free Step steps first)
    (next : Within Free Step rest second) : Within Free Step (steps ++ rest) (both first second) := by
  intro state ret after ran
  obtain ⟨⟨answered, middle⟩, ranFirst, ranRest⟩ := bind_ok.mp ran
  apply (within state answered middle ranFirst).append
  cases answered with
  | true => exact next middle ret after ranRest
  | false =>
    cases ranRest
    exact .skipped rest _

theorem Within.either {first second : Test ε σ} {steps rest : List ι} (within : Within Free Step steps first)
    (next : Within Free Step rest second) : Within Free Step (steps ++ rest) (either first second) := by
  intro state ret after ran
  obtain ⟨⟨answered, middle⟩, ranFirst, ranRest⟩ := bind_ok.mp ran
  apply (within state answered middle ranFirst).append
  cases answered with
  | true =>
    cases ranRest
    exact .skipped rest _
  | false => exact next middle ret after ranRest

theorem Within.negated {test : Test ε σ} {steps : List ι} (within : Within Free Step steps test) :
    Within Free Step steps (negated test) := by
  intro state ret after ran
  obtain ⟨⟨answered, middle⟩, ranTest, same⟩ := bind_ok.mp ran
  cases same
  exact within state answered _ ranTest

theorem Within.told {test : Test ε σ} {tell : σ → Except ε σ} {steps rest : List ι}
    (within : Within Free Step steps test)
    (telling : ∀ state after, tell state = .ok after → Performs Free Step rest state after) :
    Within Free Step (steps ++ rest) (told test tell) := by
  intro state ret after ran
  obtain ⟨⟨answered, middle⟩, ranTest, ranTell⟩ := bind_ok.mp ran
  apply (within state answered middle ranTest).append
  cases answered with
  | true =>
    cases ranTell
    exact .skipped rest _
  | false =>
    obtain ⟨last, tells, same⟩ := bind_ok.mp ranTell
    cases same
    exact telling middle _ tells

theorem Within.given {operand : σ → Except ε (Except δ α × σ)} {test : α → Test ε σ} {steps rest : List ι}
    (finding : ∀ state found after, operand state = .ok (found, after) → Performs Free Step steps state after)
    (next : ∀ found, Within Free Step rest (test found)) : Within Free Step (steps ++ rest) (given operand test) := by
  intro state ret after ran
  obtain ⟨⟨found, middle⟩, ranOperand, ranTest⟩ := bind_ok.mp ran
  apply (finding state found middle ranOperand).append
  cases found with
  | error status =>
    cases ranTest
    exact .skipped rest _
  | ok found => exact next found middle ret after ranTest

theorem within_inOrder {κ : Type} {steps : κ → List ι} {test : κ → Test ε σ} {parts : List κ}
    (within : ∀ part ∈ parts, Within Free Step (steps part) (test part)) :
    Within Free Step (parts.flatMap steps) (inOrder (parts.map test)) := by
  induction parts with
  | nil => exact within_answer true
  | cons part parts ih =>
    apply Within.both (within part List.mem_cons_self)
    exact ih fun part inside => within part (List.mem_cons_of_mem _ inside)

end Footprint

section Projection

variable {τ : Type}

/-- What runs on the finer state does on its projection what the other does. -/
def Along (f : τ → σ) (fine : τ → Except ε (α × τ)) (coarse : σ → Except ε (α × σ)) : Prop :=
  ∀ state, (fine state).map (Prod.map id f) = coarse (f state)

variable {f : τ → σ}

theorem along_answer (ret : Bool) : Along f (answer ret : Test ε τ) (answer ret) := fun _ => rfl

theorem Along.both {first second : Test ε τ} {first' second' : Test ε σ} (along : Along f first first')
    (next : Along f second second') : Along f (both first second) (both first' second') := by
  intro state
  rw [ShortCircuit.both, ShortCircuit.both, ← along state]
  cases first state with
  | error failure => rfl
  | ok result =>
    rcases result with ⟨ret, after⟩
    cases ret with
    | true => exact next after
    | false => rfl

theorem Along.either {first second : Test ε τ} {first' second' : Test ε σ} (along : Along f first first')
    (next : Along f second second') : Along f (either first second) (either first' second') := by
  intro state
  rw [ShortCircuit.either, ShortCircuit.either, ← along state]
  cases first state with
  | error failure => rfl
  | ok result =>
    rcases result with ⟨ret, after⟩
    cases ret with
    | true => rfl
    | false => exact next after

theorem Along.negated {test : Test ε τ} {test' : Test ε σ} (along : Along f test test') :
    Along f (negated test) (negated test') := by
  intro state
  rw [ShortCircuit.negated, ShortCircuit.negated, ← along state]
  cases test state <;> rfl

theorem Along.told {test : Test ε τ} {test' : Test ε σ} {tell : τ → Except ε τ} {tell' : σ → Except ε σ}
    (along : Along f test test') (telling : ∀ state, (tell state).map f = tell' (f state)) :
    Along f (told test tell) (told test' tell') := by
  intro state
  rw [ShortCircuit.told, ShortCircuit.told, ← along state]
  cases test state with
  | error failure => rfl
  | ok result =>
    rcases result with ⟨ret, after⟩
    cases ret with
    | true => rfl
    | false =>
      show (tell after >>= _).map _ = (tell' (f after) >>= _)
      rw [← telling after]
      cases tell after <;> rfl

theorem Along.given {operand : τ → Except ε (Except δ α × τ)} {operand' : σ → Except ε (Except δ α × σ)}
    {test : α → Test ε τ} {test' : α → Test ε σ} (along : Along f operand operand')
    (next : ∀ found, Along f (test found) (test' found)) : Along f (given operand test) (given operand' test') := by
  intro state
  rw [ShortCircuit.given, ShortCircuit.given, ← along state]
  cases operand state with
  | error failure => rfl
  | ok result =>
    rcases result with ⟨found, after⟩
    cases found with
    | error status => rfl
    | ok found => exact next found after

theorem along_inOrder {κ : Type} {test : κ → Test ε τ} {test' : κ → Test ε σ}
    (along : ∀ part, Along f (test part) (test' part)) (parts : List κ) :
    Along f (inOrder (parts.map test)) (inOrder (parts.map test')) := by
  induction parts with
  | nil => exact along_answer true
  | cons part parts ih => exact (along part).both ih

end Projection

end ShortCircuit
