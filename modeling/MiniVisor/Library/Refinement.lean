import MiniVisor.Library.Effects

/-!
# Refinement up to a panic

Two computations with the same results, on two views of one state. A panic ends a run, so that
nothing is asked of the states behind it. The rules build the refinement of a run from the
refinements of its steps.
-/
namespace Effects

namespace Effect

universe u v

variable {S T : Type u} {α β : Type v}

/-- From related states `x` and `y` have the same result, and related states unless they panic. -/
def Refines (R : S → T → Prop) (x : Effect S α) (y : Effect T α) : Prop :=
  ∀ s t, R s t → (x s).1 = (y t).1 ∧ ((x s).1 ≠ .error .panic → R (x s).2 (y t).2)

namespace Refines

variable {R : S → T → Prop} {x : Effect S α} {y : Effect T α} {f : α → Effect S β}
  {g : α → Effect T β}

theorem pure (a : α) : Refines R (Pure.pure a) (Pure.pure a) := fun _ _ h => ⟨rfl, fun _ => h⟩

theorem change {p : S → S} {q : T → T} (h : ∀ s t, R s t → R (p s) (q t)) :
    Refines R (Effect.change p) (Effect.change q) :=
  fun s t hR => ⟨rfl, fun _ => h s t hR⟩

theorem bind (hx : Refines R x y) (hf : ∀ a, Refines R (f a) (g a)) :
    Refines R (x >>= f) (y >>= g) := by
  intro s t hR
  obtain ⟨hvalue, hstate⟩ := hx s t hR
  rw [bind_apply, bind_apply]
  revert hvalue hstate
  rcases x s with ⟨r, s'⟩
  rcases y t with ⟨r', t'⟩
  rintro rfl hstate
  cases r with
  | error e => exact ⟨rfl, fun h => hstate fun hr => h (congrArg _ (Except.error.inj hr))⟩
  | ok a => exact hf a s' t' (hstate (by simp))

theorem attempt (hx : Refines R x y) : Refines R (Effect.attempt x) (Effect.attempt y) := by
  intro s t hR
  obtain ⟨hvalue, hstate⟩ := hx s t hR
  rw [Effect.attempt, Effect.attempt]
  revert hvalue hstate
  rcases x s with ⟨r, s'⟩
  rcases y t with ⟨r', t'⟩
  rintro rfl hstate
  cases r with
  | ok a => exact ⟨rfl, fun _ => hstate (by simp)⟩
  | error e =>
    cases e with
    | err => exact ⟨rfl, fun _ => hstate (by simp)⟩
    | panic => exact ⟨rfl, fun h => absurd rfl h⟩
    | stuck => exact ⟨rfl, fun _ => hstate (by simp)⟩

end Refines

end Effect

end Effects
