import Mathlib.Tactic.Common

namespace Outcome

variable {ε α β : Type} {allowed : ε → Prop} {post : α → Prop}

/-- The computation ends with a result for which `post` holds, or in a failure that is allowed. -/
def Holds (allowed : ε → Prop) (post : α → Prop) : Except ε α → Prop
  | .ok a => post a
  | .error e => allowed e

theorem holds_bind {x : Except ε α} {f : α → Except ε β} {post : β → Prop} :
    Holds allowed post (x >>= f) ↔ Holds allowed (fun a => Holds allowed post (f a)) x := by
  cases x <;> rfl

theorem bind_ok {x : Except ε α} {f : α → Except ε β} {b : β} : x >>= f = .ok b ↔ ∃ a, x = .ok a ∧ f a = .ok b := by
  cases x with
  | error e => exact iff_of_false nofun nofun
  | ok a =>
    constructor
    · exact fun same => ⟨a, rfl, same⟩
    · rintro ⟨a', same, rest⟩
      rw [← Except.ok.inj same] at rest
      exact rest

theorem Holds.mono {post' : α → Prop} {x : Except ε α} (holds : Holds allowed post x)
    (weaker : ∀ a, x = .ok a → post a → post' a) : Holds allowed post' x := by
  cases x with
  | error e => exact holds
  | ok a => exact weaker a rfl holds

theorem holds_iff {x : Except ε α} :
    Holds allowed post x ↔ Holds allowed (fun _ => True) x ∧ ∀ a, x = .ok a → post a := by
  cases x with
  | error e => exact ⟨fun fails => ⟨fails, nofun⟩, And.left⟩
  | ok a =>
    constructor
    · intro holds
      refine ⟨trivial, ?_⟩
      intro b same
      rw [← Except.ok.inj same]
      exact holds
    · exact fun both => both.2 a rfl

end Outcome
