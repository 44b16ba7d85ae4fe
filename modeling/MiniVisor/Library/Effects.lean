import MiniVisor.Library.Checked

/-!
# Computations that keep their state on failure

A computation reads and changes a state and may fail on the way. A failure keeps the
state that was reached, so that a property of the state can be followed through runs
that fail as well. `Triple` carries properties of the state and the result along a
computation, `Keeps` says what it leaves alone, `Calm` that it does not panic, `Ends`
that its fuel is enough, `Firm` that it raises no error, and `Simulates` carries a relation between the states of two
computations.
-/
namespace Effects

/-- `err` is a failure that a caller may catch, `stuck` a loop whose fuel ran out. -/
inductive Fault where
  | err
  | panic
  | stuck
  deriving DecidableEq

/-- A computation on the state `S`. -/
def Effect (S : Type*) (α : Type*) := S → Except Fault α × S

namespace Effect

universe u v

variable {S T : Type u} {α β γ δ : Type v}

/-- Go on with the result, if there is one. -/
def andThen (x : Effect S α) (f : α → Effect S β) : Effect S β := fun s =>
  match x s with
  | (.ok a, t) => f a t
  | (.error e, t) => (.error e, t)

instance : Monad (Effect S) where
  pure a := fun s => (.ok a, s)
  bind x f := andThen x f

def fail (e : Fault) : Effect S α := fun s => (.error e, s)

/-- Look at the state. -/
def look (f : S → α) : Effect S α := fun s => (.ok (f s), s)

def change (f : S → S) : Effect S PUnit := fun s => (.ok ⟨⟩, f s)

/-- A missing value is a panic. -/
def checked (o : Option α) : Effect S α :=
  match o with
  | some a => pure a
  | none => fail .panic

/-- Catch the failure `err`. -/
def attempt (x : Effect S α) : Effect S (Option α) := fun s =>
  match x s with
  | (.ok a, t) => (.ok (some a), t)
  | (.error .err, t) => (.ok none, t)
  | (.error e, t) => (.error e, t)

/-- Change the state behind a computation, whether it failed or not. -/
def afterwards (x : Effect S α) (f : S → S) : Effect S α := fun s => ((x s).1, f (x s).2)

theorem bind_apply (x : Effect S α) (f : α → Effect S β) (s : S) :
    (x >>= f) s = match x s with
      | (.ok a, t) => f a t
      | (.error e, t) => (.error e, t) := rfl

theorem bind_ok {x : Effect S α} {f : α → Effect S β} {s t : S} {a : α} (h : x s = (.ok a, t)) :
    (x >>= f) s = f a t := by
  rw [bind_apply, h]

theorem bind_error {x : Effect S α} {f : α → Effect S β} {s t : S} {e : Fault}
    (h : x s = (.error e, t)) : (x >>= f) s = (.error e, t) := by
  rw [bind_apply, h]

theorem bind_error_fst {x : Effect S α} {f : α → Effect S β} {s : S} {e : Fault}
    (h : (x s).1 = .error e) : ((x >>= f) s).1 = .error e := by
  rw [bind_error (Prod.ext h rfl)]

theorem change_bind (g : S → S) (f : PUnit → Effect S β) (s : S) :
    (change g >>= f) s = f ⟨⟩ (g s) := rfl

theorem look_bind (g : S → α) (f : α → Effect S β) (s : S) : (look g >>= f) s = f (g s) s := rfl

theorem checked_bind (a : α) (f : α → Effect S β) (s : S) : (checked (some a) >>= f) s = f a s := rfl

theorem bind_assoc (x : Effect S α) (f : α → Effect S β) (g : β → Effect S γ) :
    x >>= f >>= g = x >>= fun a => f a >>= g := by
  funext s
  simp only [bind_apply]
  rcases x s with ⟨r, t⟩
  cases r with
  | error e => rfl
  | ok a => rfl

theorem bind_eq_ok {x : Effect S α} {f : α → Effect S β} {s t : S} {b : β} :
    (x >>= f) s = (.ok b, t) ↔ ∃ a u, x s = (.ok a, u) ∧ f a u = (.ok b, t) := by
  rw [bind_apply]
  rcases x s with ⟨r, u⟩
  cases r with
  | error e => simp
  | ok a => simp

theorem bind_eq_error {x : Effect S α} {f : α → Effect S β} {s t : S} {e : Fault} :
    (x >>= f) s = (.error e, t) ↔
      x s = (.error e, t) ∨ ∃ a u, x s = (.ok a, u) ∧ f a u = (.error e, t) := by
  rw [bind_apply]
  rcases x s with ⟨r, u⟩
  cases r with
  | error e => simp
  | ok a => simp

theorem checked_eq_ok {o : Option α} {s t : S} {a : α} :
    checked o s = (.ok a, t) ↔ o = some a ∧ t = s := by
  cases o with
  | none => simp [checked, fail]
  | some b => simp [checked, pure, eq_comm]

theorem checked_bind_eq_ok {o : Option α} {f : α → Effect S β} {s t : S} {b : β} :
    (checked o >>= f) s = (.ok b, t) ↔ ∃ a, o = some a ∧ f a s = (.ok b, t) := by
  cases o with
  | none => simp [checked, bind_apply, fail]
  | some a => simp [checked_bind]

theorem attempt_eq_some {x : Effect S α} {s t : S} {a : α} :
    attempt x s = (.ok (some a), t) ↔ x s = (.ok a, t) := by
  rw [attempt]
  rcases x s with ⟨r, u⟩
  cases r with
  | error e => cases e <;> simp
  | ok b => simp

/-! ## Triples -/

/-- What a run leaves behind: `Q` after a result, `E` after a failure. -/
def Leaves (Q : α → S → Prop) (E : S → Prop) : Except Fault α × S → Prop
  | (.ok a, t) => Q a t
  | (.error _, t) => E t

/-- From `P` the computation leads to `Q`, or to `E` if it fails. -/
def Triple (P : S → Prop) (x : Effect S α) (Q : α → S → Prop) (E : S → Prop) : Prop :=
  ∀ s, P s → Leaves Q E (x s)

variable {P P' E : S → Prop} {x : Effect S α} {f : α → Effect S β} {Q : α → S → Prop}
  {Q' : α → S → Prop} {K : β → S → Prop}

namespace Triple

theorem pure {a : α} (h : ∀ s, P s → Q a s) : Triple P (Pure.pure a) Q E := h

theorem fail {e : Fault} (h : ∀ s, P s → E s) : Triple P (Effect.fail e) Q E := h

theorem look {g : S → α} (h : ∀ s, P s → Q (g s) s) : Triple P (Effect.look g) Q E := h

theorem change {g : S → S} {Q : PUnit → S → Prop} (h : ∀ s, P s → Q ⟨⟩ (g s)) :
    Triple P (Effect.change g) Q E := h

theorem checked {o : Option α} (hsome : ∀ a, o = some a → ∀ s, P s → Q a s)
    (hnone : ∀ s, P s → E s) : Triple P (Effect.checked o) Q E := by
  cases o with
  | none => exact hnone
  | some a => exact hsome a rfl

theorem bind (hx : Triple P x Q E) (hf : ∀ a, Triple (Q a) (f a) K E) :
    Triple P (x >>= f) K E := by
  intro s hs
  have hleaves := hx s hs
  rw [bind_apply]
  revert hleaves
  rcases x s with ⟨r, t⟩
  intro hleaves
  cases r with
  | error e => exact hleaves
  | ok a => exact hf a t hleaves

/-- A fact that does not depend on the state may be used. -/
theorem assuming {φ : Prop} (hx : φ → Triple P x Q E) : Triple (fun s => P s ∧ φ) x Q E :=
  fun s hs => hx hs.2 s hs.1

theorem checked_bind {o : Option α} (hsome : ∀ a, o = some a → Triple P (f a) K E)
    (hnone : ∀ s, P s → E s) : Triple P (Effect.checked o >>= f) K E := by
  cases o with
  | none => exact hnone
  | some a => exact hsome a rfl

theorem attempt {R : Option α → S → Prop} (hx : Triple P x (fun a => R (some a)) E)
    (hnone : ∀ s, E s → R none s) : Triple P (Effect.attempt x) R E := by
  intro s hs
  have hleaves := hx s hs
  rw [Effect.attempt]
  revert hleaves
  rcases x s with ⟨r, t⟩
  intro hleaves
  cases r with
  | error e =>
    cases e with
    | err => exact hnone t hleaves
    | panic => exact hleaves
    | stuck => exact hleaves
  | ok a => exact hleaves

theorem mono {E' : S → Prop} (hx : Triple P x Q E) (hP : ∀ s, P' s → P s)
    (hQ : ∀ a s, Q a s → Q' a s) (hE : ∀ s, E s → E' s) : Triple P' x Q' E' := by
  intro s hs
  have hleaves := hx s (hP s hs)
  revert hleaves
  rcases x s with ⟨r, t⟩
  intro hleaves
  cases r with
  | error e => exact hE t hleaves
  | ok a => exact hQ a t hleaves

/-- It is enough to look at each state on its own. -/
theorem of_states (h : ∀ t, P t → Triple (fun s => s = t) x Q E) : Triple P x Q E :=
  fun s hs => h s hs s rfl

theorem afterwards {E' : S → Prop} {g : S → S} (hx : Triple P x Q E)
    (hQ : ∀ a s, Q a s → Q' a (g s)) (hE : ∀ s, E s → E' (g s)) :
    Triple P (Effect.afterwards x g) Q' E' := by
  intro s hs
  have hleaves := hx s hs
  rw [Effect.afterwards]
  revert hleaves
  rcases x s with ⟨r, t⟩
  intro hleaves
  cases r with
  | error e => exact hE t hleaves
  | ok a => exact hQ a t hleaves

/-- What a run that gives a result leaves behind. -/
theorem ok (hx : Triple P x Q E) {s t : S} {a : α} (hs : P s) (h : x s = (.ok a, t)) : Q a t := by
  have hleaves := hx s hs
  rw [h] at hleaves
  exact hleaves

/-- What a run leaves behind when the result does not matter. -/
theorem state (hx : Triple P x (fun _ => E) E) {s : S} (hs : P s) : E (x s).2 := by
  have hleaves := hx s hs
  revert hleaves
  rcases x s with ⟨r, t⟩
  intro hleaves
  cases r with
  | error e => exact hleaves
  | ok a => exact hleaves

end Triple

/-- The computation does not change what `view` shows of the state. -/
def Keeps {V : Type*} (view : S → V) (x : Effect S α) : Prop := ∀ s, view (x s).2 = view s

namespace Keeps

variable {V : Type*} {view : S → V}

theorem pure (a : α) : Keeps view (Pure.pure a : Effect S α) := fun _ => rfl

theorem fail (e : Fault) : Keeps view (Effect.fail e : Effect S α) := fun _ => rfl

theorem look (g : S → α) : Keeps view (Effect.look g) := fun _ => rfl

theorem change {g : S → S} (h : ∀ s, view (g s) = view s) : Keeps view (Effect.change g) := h

theorem checked (o : Option α) : Keeps view (Effect.checked o) := by
  cases o with
  | none => exact fail _
  | some a => exact pure a

theorem bind (hx : Keeps view x) (hf : ∀ a, Keeps view (f a)) : Keeps view (x >>= f) := by
  intro s
  have hstate := hx s
  rw [bind_apply]
  revert hstate
  rcases x s with ⟨r, t⟩
  intro hstate
  cases r with
  | error e => exact hstate
  | ok a => exact (hf a t).trans hstate

theorem attempt (hx : Keeps view x) : Keeps view (Effect.attempt x) := by
  intro s
  have hstate := hx s
  rw [Effect.attempt]
  revert hstate
  rcases x s with ⟨r, t⟩
  intro hstate
  cases r with
  | error e => cases e <;> exact hstate
  | ok a => exact hstate

theorem afterwards (hx : Keeps view x) {g : S → S} (h : ∀ s, view (g s) = view s) :
    Keeps view (Effect.afterwards x g) :=
  fun s => (h _).trans (hx s)

theorem eq (hx : Keeps view x) {r : Except Fault α} {s t : S} (h : x s = (r, t)) :
    view t = view s := by
  have hstate := hx s
  rw [h] at hstate
  exact hstate

/-- A property of what is kept holds afterwards. -/
theorem triple (hx : Keeps view x) (hP : ∀ s t, view t = view s → P s → P t)
    (hE : ∀ s, P s → E s) : Triple P x (fun _ => P) E := by
  intro s hs
  have hstate := hP s _ (hx s) hs
  revert hstate
  rcases x s with ⟨r, t⟩
  intro hstate
  cases r with
  | error e => exact hE t hstate
  | ok a => exact hstate

end Keeps

/-! ## Panics -/

/-- From `s` the computation does not panic. -/
def Calm (x : Effect S α) (s : S) : Prop := (x s).1 ≠ .error .panic

namespace Calm

variable {s : S}

theorem pure (a : α) : Calm (Pure.pure a) s := by simp [Calm, Pure.pure]

theorem fail {e : Fault} (h : e ≠ .panic) : Calm (Effect.fail e : Effect S α) s := by
  simpa [Calm, Effect.fail] using h

theorem of_ok {t : S} {a : α} (h : x s = (.ok a, t)) : Calm x s := by simp [Calm, h]

theorem checked_iff {o : Option α} : Calm (Effect.checked o) s ↔ o ≠ none := by
  cases o with
  | none => simp [Calm, Effect.checked, Effect.fail]
  | some a => exact iff_of_true (pure a) (by simp)

theorem bind_iff : Calm (x >>= f) s ↔ Calm x s ∧ ∀ a t, x s = (.ok a, t) → Calm (f a) t := by
  rw [Calm, Calm, bind_apply]
  rcases x s with ⟨r, t⟩
  cases r with
  | error e => simp
  | ok a =>
    constructor
    · intro h
      refine ⟨by simp, fun b u hb => ?_⟩
      cases hb
      exact h
    · intro h
      exact h.2 a t rfl

theorem checked_bind_iff {o : Option α} {f : α → Effect S β} :
    Calm (Effect.checked o >>= f) s ↔ ∃ a, o = some a ∧ Calm (f a) s := by
  cases o with
  | none => simp [Calm, Effect.checked, bind_apply, Effect.fail]
  | some a => simp [Calm, Effect.checked_bind]

theorem bind_of_ok {t : S} {a : α} (h : x s = (.ok a, t)) : Calm (x >>= f) s ↔ Calm (f a) t := by
  rw [Calm, Calm, bind_ok h]

theorem change_bind_iff {g : S → S} {f : PUnit → Effect S β} :
    Calm (Effect.change g >>= f) s ↔ Calm (f ⟨⟩) (g s) := Iff.rfl

theorem look_bind_iff {g : S → α} : Calm (Effect.look g >>= f) s ↔ Calm (f (g s)) s := Iff.rfl

theorem bind_pure_iff {g : α → β} : Calm (x >>= fun a => Pure.pure (g a)) s ↔ Calm x s := by
  rw [bind_iff]
  exact and_iff_left fun _ _ _ => pure _

theorem attempt_iff : Calm (Effect.attempt x) s ↔ Calm x s := by
  rw [Calm, Calm, Effect.attempt]
  rcases x s with ⟨r, t⟩
  cases r with
  | error e => cases e <;> simp
  | ok a => simp

end Calm

/-- Unless it panics, the computation leaves what `view` shows as it was. -/
def Restores {V : Type*} (view : S → V) (x : Effect S α) : Prop :=
  ∀ s, Calm x s → view (x s).2 = view s

namespace Restores

variable {V : Type*} {view : S → V}

theorem of_keeps (hx : Keeps view x) : Restores view x := fun s _ => hx s

theorem bind (hx : Restores view x) (hf : ∀ a, Restores view (f a)) : Restores view (x >>= f) := by
  intro s hcalm
  obtain ⟨hcalm_x, hcalm_f⟩ := Calm.bind_iff.1 hcalm
  have hstate := hx s hcalm_x
  rw [bind_apply]
  revert hstate hcalm_f
  rcases x s with ⟨r, t⟩
  intro hcalm_f hstate
  cases r with
  | error e => exact hstate
  | ok a => exact (hf a t (hcalm_f a t rfl)).trans hstate

end Restores

/-! ## Fuel -/

/-- From `s` the computation does not run out of fuel. -/
def Ends (x : Effect S α) (s : S) : Prop := (x s).1 ≠ .error .stuck

namespace Ends

variable {s : S}

theorem pure (a : α) : Ends (Pure.pure a) s := by simp [Ends, Pure.pure]

theorem fail {e : Fault} (h : e ≠ .stuck) : Ends (Effect.fail e : Effect S α) s := by
  simpa [Ends, Effect.fail] using h

theorem look (g : S → α) : Ends (Effect.look g) s := by simp [Ends, Effect.look]

theorem change (g : S → S) : Ends (Effect.change g) s := by simp [Ends, Effect.change]

theorem checked (o : Option α) : Ends (Effect.checked o) s := by
  cases o with
  | none => exact fail (by decide)
  | some a => exact pure a

theorem bind (hx : Ends x s) (hf : ∀ a t, x s = (.ok a, t) → Ends (f a) t) :
    Ends (x >>= f) s := by
  rw [Ends, bind_apply]
  revert hx hf
  rw [Ends]
  rcases x s with ⟨r, t⟩
  intro hx hf
  cases r with
  | error e => simpa using hx
  | ok a => exact hf a t rfl

theorem attempt (hx : Ends x s) : Ends (Effect.attempt x) s := by
  rw [Ends, Effect.attempt]
  revert hx
  rw [Ends]
  rcases x s with ⟨r, t⟩
  intro hx
  cases r with
  | error e =>
    cases e with
    | err => simp
    | panic => simp
    | stuck => exact absurd rfl hx
  | ok a => simp

/-- Only a panic gets past `attempt`. -/
theorem attempt_ok (hx : Ends x s) (hcalm : Calm x s) : ∃ a t, Effect.attempt x s = (.ok a, t) := by
  rw [Ends] at hx
  rw [Calm] at hcalm
  rw [Effect.attempt]
  rcases h : x s with ⟨r, t⟩
  rw [h] at hx hcalm
  cases r with
  | ok a => exact ⟨some a, t, rfl⟩
  | error e =>
    cases e with
    | err => exact ⟨none, t, rfl⟩
    | panic => exact absurd rfl hcalm
    | stuck => exact absurd rfl hx

theorem afterwards (hx : Ends x s) (g : S → S) : Ends (Effect.afterwards x g) s := hx

end Ends

/-- The computation never fails in a way that a caller may catch. -/
def Firm (x : Effect S α) : Prop := ∀ s, (x s).1 ≠ .error .err

namespace Firm

theorem pure (a : α) : Firm (Pure.pure a : Effect S α) := fun _ => by simp [Pure.pure]

theorem fail {e : Fault} (h : e ≠ .err) : Firm (Effect.fail e : Effect S α) :=
  fun _ => by simpa [Effect.fail] using h

theorem look (g : S → α) : Firm (Effect.look g) := fun _ => by simp [Effect.look]

theorem change (g : S → S) : Firm (Effect.change g) := fun _ => by simp [Effect.change]

theorem checked (o : Option α) : Firm (Effect.checked o : Effect S α) := by
  cases o with
  | none => exact fail (by decide)
  | some a => exact pure a

theorem attempt : Firm (Effect.attempt x) := by
  intro s
  rw [Effect.attempt]
  rcases x s with ⟨r, t⟩
  cases r with
  | error e => cases e <;> simp
  | ok a => simp

theorem bind (hx : Firm x) (hf : ∀ a, Firm (f a)) : Firm (x >>= f) := by
  intro s
  have hs := hx s
  rw [bind_apply]
  revert hs
  rcases x s with ⟨r, t⟩
  intro hs
  cases r with
  | error e => simpa using hs
  | ok a => exact hf a t

end Firm

/-! ## Two computations -/

/-- Two results agree: both are related values, or the same failure. -/
def Agree (V : α → β → Prop) : Except Fault α → Except Fault β → Prop
  | .ok a, .ok b => V a b
  | .error e, .error e' => e = e'
  | _, _ => False

/-- From related states the two computations give related results and states. -/
def Simulates (R : S → T → Prop) (x : Effect S α) (y : Effect T β) (V : α → β → Prop) : Prop :=
  ∀ s t, R s t → R (x s).2 (y t).2 ∧ Agree V (x s).1 (y t).1

variable {R : S → T → Prop} {y : Effect T γ} {g : γ → Effect T δ} {V₂ : α → γ → Prop}
  {W₂ : β → δ → Prop}

namespace Simulates

theorem pure {a : α} {c : γ} (h : V₂ a c) : Simulates R (Pure.pure a) (Pure.pure c) V₂ :=
  fun _ _ hR => ⟨hR, h⟩

theorem fail (e : Fault) : Simulates R (Effect.fail e : Effect S α) (Effect.fail e : Effect T γ) V₂ :=
  fun _ _ hR => ⟨hR, rfl⟩

theorem look {p : S → α} {q : T → γ} (h : ∀ s t, R s t → V₂ (p s) (q t)) :
    Simulates R (Effect.look p) (Effect.look q) V₂ :=
  fun s t hR => ⟨hR, h s t hR⟩

theorem change {p : S → S} {q : T → T} (h : ∀ s t, R s t → R (p s) (q t)) :
    Simulates R (Effect.change p) (Effect.change q) fun _ _ => True :=
  fun s t hR => ⟨h s t hR, trivial⟩

theorem bind (hx : Simulates R x y V₂) (hf : ∀ a c, V₂ a c → Simulates R (f a) (g c) W₂) :
    Simulates R (x >>= f) (y >>= g) W₂ := by
  intro s t hR
  obtain ⟨hstate, hvalue⟩ := hx s t hR
  rw [bind_apply, bind_apply]
  revert hstate hvalue
  rcases x s with ⟨r, s'⟩
  rcases y t with ⟨r', t'⟩
  intro hstate hvalue
  cases r with
  | error e =>
    cases r' with
    | error e' => exact ⟨hstate, hvalue⟩
    | ok c => exact hvalue.elim
  | ok a =>
    cases r' with
    | error e' => exact hvalue.elim
    | ok c => exact hf a c hvalue s' t' hstate

end Simulates

end Effect

end Effects
