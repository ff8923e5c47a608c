import Mathlib.Logic.Relation

namespace Runs

open Relation

variable {σ : Type*} {Step : σ → σ → Prop}

theorem invariant_of_step {Inv : σ → Prop} (preserved : ∀ s t, Inv s → Step s t → Inv t)
    {s t : σ} (run : ReflTransGen Step s t) (start : Inv s) : Inv t := by
  induction run with
  | refl => exact start
  | tail _ step ih => exact preserved _ _ ih step

/-- Where what holds of a state is what is safe there and what holds behind each of its steps, it is
    that every state it leads to is safe. -/
theorem holds_iff_safe {Typed Safe Holds : σ → Prop} (terminates : WellFounded (flip Step))
    (preserved : ∀ s t, Typed s → Step s t → Typed t)
    (step : ∀ s, Typed s → (Holds s ↔ Safe s ∧ ∀ t, Step s t → Holds t)) {s : σ} (typed : Typed s) :
    Holds s ↔ ∀ t, ReflTransGen Step s t → Safe t := by
  induction s using terminates.induction with
  | _ s ih =>
    rw [step s typed]
    constructor
    · intro holds t run
      rcases run.cases_head with rfl | ⟨next, first, rest⟩
      · exact holds.1
      · exact (ih next first (preserved s next typed first)).mp (holds.2 next first) t rest
    · intro safe
      refine ⟨safe s .refl, ?_⟩
      intro next first
      exact (ih next first (preserved s next typed first)).mpr fun t rest => safe t (.head first rest)

/-- Where an action keeps the invariant exactly when its condition holds, a sequence of actions keeps
    it throughout exactly when each condition holds in its turn. -/
theorem throughout_iff {α : Type*} {act : σ → α → σ} {Inv : σ → Prop} {Cond : σ → α → Prop}
    (exact : ∀ s a, Inv s → (Inv (act s a) ↔ Cond s a)) {s : σ} (start : Inv s) (actions : List α) :
    (∀ done rest, actions = done ++ rest → Inv (done.foldl act s)) ↔
      ∀ done a rest, actions = done ++ a :: rest → Cond (done.foldl act s) a := by
  induction actions generalizing s with
  | nil =>
    constructor
    · intro _ done a rest split
      simp at split
    · intro _ done rest split
      obtain ⟨rfl, -⟩ := List.append_eq_nil_iff.mp split.symm
      exact start
  | cons a actions ih =>
    constructor
    · intro always done b rest split
      have next : Inv (act s a) := always [a] actions rfl
      cases done with
      | nil =>
        obtain ⟨rfl, rfl⟩ := List.cons.inj split
        exact (exact s a start).mp next
      | cons c done =>
        obtain ⟨rfl, later⟩ := List.cons.inj split
        apply (ih next).mp _ done b rest later
        intro done rest split
        exact always (a :: done) rest (congrArg (a :: ·) split)
    · intro conditions done rest split
      have next : Inv (act s a) := (exact s a start).mpr (conditions [] a actions rfl)
      cases done with
      | nil => exact start
      | cons c done =>
        obtain ⟨rfl, later⟩ := List.cons.inj split
        apply (ih next).mpr _ done rest later
        intro done b rest split
        exact conditions (a :: done) b rest (congrArg (a :: ·) split)

end Runs
