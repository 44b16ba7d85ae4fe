import Mathlib.Data.Nat.Notation

/-!
# Loops with enough fuel

A loop of unknown length is modelled by a function of its fuel. It settles on a
result when every large enough amount of fuel gives this result. Results settle
step by step along the program, so that no proof has to count the fuel. Where the fuel is
counted, `Finishes` says that it was enough.
-/
namespace Fuel

universe u v

variable {α β : Type u} {ε : Type v} {f g : ℕ → α} {r s : α}

/-- From some amount of fuel on, `f` gives `r`. -/
def Settles (f : ℕ → α) (r : α) : Prop := ∃ n, ∀ m, n ≤ m → f m = r

namespace Settles

theorem const (r : α) : Settles (fun _ => r) r := ⟨0, fun _ _ => rfl⟩

/-- The fuel of one iteration does not matter. -/
theorem succ (h : Settles (fun n => f (n + 1)) r) : Settles f r := by
  obtain ⟨n, hn⟩ := h
  refine ⟨n + 1, fun m hm => ?_⟩
  obtain ⟨k, rfl⟩ : ∃ k, m = k + 1 := ⟨m - 1, by omega⟩
  exact hn k (by omega)

theorem of_add (k : ℕ) (h : ∀ n, f (n + k) = r) : Settles f r :=
  ⟨k, fun m hm => by obtain ⟨n, rfl⟩ := Nat.exists_eq_add_of_le' hm; exact h n⟩

theorem congr (h : Settles f r) (hfg : ∀ n, g n = f n) : Settles g r := by
  obtain ⟨n, hn⟩ := h
  exact ⟨n, fun m hm => (hfg m).trans (hn m hm)⟩

/-- A function settles on one result only. -/
theorem unique (h : Settles f r) (h' : Settles f s) : r = s := by
  obtain ⟨n, hn⟩ := h
  obtain ⟨m, hm⟩ := h'
  exact (hn (max n m) (Nat.le_max_left n m)).symm.trans (hm (max n m) (Nat.le_max_right n m))

theorem map (h : Settles f r) (k : α → β) : Settles (fun n => k (f n)) (k r) := by
  obtain ⟨n, hn⟩ := h
  exact ⟨n, fun m hm => congrArg k (hn m hm)⟩

/-- What runs after `f` may use its result. -/
theorem andThen {k : ℕ → α → β} {b : β} (h : Settles f r) (hk : Settles (fun n => k n r) b) :
    Settles (fun n => k n (f n)) b := by
  obtain ⟨n, hn⟩ := h
  obtain ⟨m, hm⟩ := hk
  refine ⟨max n m, fun l hl => ?_⟩
  dsimp only
  rw [hn l (Nat.le_trans (Nat.le_max_left n m) hl)]
  exact hm l (Nat.le_trans (Nat.le_max_right n m) hl)

theorem bind {f : ℕ → Except ε α} {k : ℕ → α → Except ε β} {b : Except ε β}
    (h : Settles f (.ok r)) (hk : Settles (fun n => k n r) b) : Settles (fun n => f n >>= k n) b :=
  h.andThen (k := fun n x => x >>= k n) hk

theorem bind_error {f : ℕ → Except ε α} {k : ℕ → α → Except ε β} {e : ε}
    (h : Settles f (.error e)) : Settles (fun n => f n >>= k n) (.error e) :=
  h.andThen (k := fun n x => x >>= k n) (const _)

end Settles

/-- `x` has not run out of fuel, which the error `out` stands for, and its result has
`post`. -/
def Finishes (out : ε) (post : α → Prop) (x : Except ε α) : Prop :=
  x ≠ .error out ∧ ∀ a, x = .ok a → post a

namespace Finishes

variable {out e : ε} {post post' : α → Prop} {x : Except ε α} {a : α}

theorem ok (h : post a) : Finishes out post (.ok a) := by
  refine ⟨nofun, fun b hb => ?_⟩
  cases hb
  exact h

theorem error (h : e ≠ out) : Finishes out post (.error e) :=
  ⟨fun heq => h (Except.error.inj heq), nofun⟩

theorem mono (h : Finishes out post x) (himp : ∀ a, post a → post' a) : Finishes out post' x :=
  ⟨h.1, fun a ha => himp a (h.2 a ha)⟩

theorem bind {k : α → Except ε β} {post' : β → Prop} (h : Finishes out post x)
    (hk : ∀ a, post a → Finishes out post' (k a)) : Finishes out post' (x >>= k) := by
  cases x with
  | error e => exact error fun heq => h.1 (congrArg _ heq)
  | ok a => exact hk a (h.2 a rfl)

end Finishes

end Fuel
