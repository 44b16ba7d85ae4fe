import Mathlib.Logic.Relation
import Mathlib.Data.List.Induction

/-!
# Guarded runs of a transition system

A system is a step relation labelled by its inputs. `GuardedRun` is a run in
which every step is taken from a state that passes a guard for that input; the
guard is the condition under which a step is allowed, and the trivial guard
gives the unrestricted runs.
-/
namespace Runs

variable {σ ι : Type*} {step : σ → ι → σ → Prop} {guard : σ → ι → Prop} {s t : σ}

/-- One step on some input that the guard admits. -/
def GuardedStep (step : σ → ι → σ → Prop) (guard : σ → ι → Prop) (s t : σ) : Prop :=
  ∃ i, guard s i ∧ step s i t

/-- Any number of guarded steps. -/
def GuardedRun (step : σ → ι → σ → Prop) (guard : σ → ι → Prop) : σ → σ → Prop :=
  Relation.ReflTransGen (GuardedStep step guard)

/-- A run without a guard. -/
def Run (step : σ → ι → σ → Prop) : σ → σ → Prop :=
  GuardedRun step fun _ _ => True

theorem GuardedRun.refl (s : σ) : GuardedRun step guard s s := Relation.ReflTransGen.refl

theorem GuardedRun.snoc {u : σ} {i : ι} (h : GuardedRun step guard s t)
    (hg : guard t i) (hs : step t i u) : GuardedRun step guard s u :=
  Relation.ReflTransGen.tail h ⟨i, hg, hs⟩

theorem GuardedRun.cons {u : σ} {i : ι} (hg : guard s i) (hs : step s i t)
    (h : GuardedRun step guard t u) : GuardedRun step guard s u :=
  Relation.ReflTransGen.head ⟨i, hg, hs⟩ h

/-- What every guarded step preserves holds in every state of a guarded run. -/
theorem GuardedRun.invariant {I : σ → Prop}
    (hstep : ∀ s i t, I s → guard s i → step s i t → I t)
    (h : GuardedRun step guard s t) (hs : I s) : I t := by
  induction h with
  | refl => exact hs
  | tail _ hst ih =>
    obtain ⟨i, hg, hi⟩ := hst
    exact hstep _ i _ ih hg hi

/-- Folding a step function over a list of admitted inputs is a guarded run. -/
theorem GuardedRun.of_foldlM {f : σ → ι → Option σ} {guard : σ → ι → Prop} {is : List ι}
    (hguard : ∀ i ∈ is, ∀ s, guard s i) (h : is.foldlM f s = some t) :
    GuardedRun (fun s i t => f s i = some t) guard s t := by
  induction is generalizing s with
  | nil =>
    obtain rfl : s = t := by simpa using h
    exact GuardedRun.refl s
  | cons i is ih =>
    rw [List.foldlM_cons] at h
    obtain ⟨u, hu, hrest⟩ := Option.bind_eq_some_iff.1 h
    exact GuardedRun.cons (hguard i (by simp) s) hu
      (ih (fun j hj => hguard j (by simp [hj])) hrest)

theorem Run.of_foldlM {f : σ → ι → Option σ} {is : List ι} (h : is.foldlM f s = some t) :
    Run (fun s i t => f s i = some t) s t :=
  GuardedRun.of_foldlM (fun _ _ _ => trivial) h

/-- A fold fails exactly where some step fails in the state that the steps before it reach. -/
theorem foldlM_eq_none_iff {f : σ → ι → Option σ} {is : List ι} :
    is.foldlM f s = none ↔
      ∃ pre i post t, is = pre ++ i :: post ∧ pre.foldlM f s = some t ∧ f t i = none := by
  induction is generalizing s with
  | nil => simp
  | cons i is ih =>
    rw [List.foldlM_cons]
    cases hi : f s i with
    | none => exact iff_of_true rfl ⟨[], i, is, s, rfl, rfl, hi⟩
    | some u =>
      change is.foldlM f u = none ↔ _
      rw [ih]
      constructor
      · rintro ⟨pre, j, post, t, rfl, hpre, hj⟩
        refine ⟨i :: pre, j, post, t, rfl, ?_, hj⟩
        rw [List.foldlM_cons, hi]
        exact hpre
      · rintro ⟨pre, j, post, t, heq, hpre, hj⟩
        cases pre with
        | nil =>
          obtain ⟨rfl, rfl⟩ := List.cons.inj heq
          obtain rfl : s = t := by simpa using hpre
          exact absurd (hi.symm.trans hj) (by simp)
        | cons k pre =>
          obtain ⟨rfl, rfl⟩ := List.cons.inj heq
          rw [List.foldlM_cons, hi] at hpre
          exact ⟨pre, j, post, t, rfl, hpre, hj⟩

theorem foldlM_concat {f : σ → ι → Option σ} {is : List ι} {i : ι}
    (h : (is ++ [i]).foldlM f s = some t) : ∃ u, is.foldlM f s = some u ∧ f u i = some t := by
  rw [List.foldlM_append] at h
  obtain ⟨u, hu, hlast⟩ := Option.bind_eq_some_iff.1 h
  exact ⟨u, hu, by simpa using hlast⟩

/-- Where a step outside of the guard always breaks `P`, the states of a run all have `P`
exactly if its steps are all guarded. -/
theorem foldlM_all_iff {f : σ → ι → Option σ} {I P : σ → Prop} {is : List ι}
    (hP : ∀ s, I s → P s) (hkeep : ∀ s, ∀ i ∈ is, ∀ t, I s → guard s i → f s i = some t → I t)
    (hbreak : ∀ s i, I s → ¬ guard s i → ∃ t, f s i = some t ∧ ¬ P t) (hs : I s) :
    (∀ pre t, pre <+: is → pre.foldlM f s = some t → P t) ↔
      ∀ pre i t, pre ++ [i] <+: is → pre.foldlM f s = some t → guard t i := by
  -- a prefix whose steps are guarded keeps the invariant
  have hreach : ∀ pre, pre <+: is →
      (∀ first i u, first ++ [i] <+: pre → first.foldlM f s = some u → I u → guard u i) →
      ∀ t, pre.foldlM f s = some t → I t := by
    intro pre
    induction pre using List.reverseRecOn with
    | nil =>
      intro _ _ t ht
      obtain rfl : s = t := by simpa using ht
      exact hs
    | append_singleton pre i ih =>
      intro hpre hguard t ht
      obtain ⟨u, hu, hlast⟩ := foldlM_concat ht
      have hinv : I u := ih ((List.prefix_append pre [i]).trans hpre)
        (fun first j v hfirst => hguard first j v (hfirst.trans (List.prefix_append pre [i]))) u hu
      have hmem : i ∈ is := hpre.subset (by simp)
      exact hkeep u i hmem t hinv (hguard pre i u (List.prefix_refl _) hu hinv) hlast
  constructor
  · intro hall
    -- an unguarded step would end in a state without `P`
    have hguarded : ∀ pre i u, pre ++ [i] <+: is → pre.foldlM f s = some u → I u → guard u i := by
      intro pre i u hpre hu hinv
      by_contra hcon
      obtain ⟨t, ht, hbad⟩ := hbreak u i hinv hcon
      have hfold : (pre ++ [i]).foldlM f s = some t := by
        rw [List.foldlM_append, hu]
        simpa using ht
      exact hbad (hall (pre ++ [i]) t hpre hfold)
    intro pre i u hpre hu
    exact hguarded pre i u hpre hu (hreach pre ((List.prefix_append pre [i]).trans hpre)
      (fun first j v hfirst =>
        hguarded first j v (hfirst.trans ((List.prefix_append pre [i]).trans hpre))) u hu)
  · intro hguard pre t hpre ht
    exact hP t (hreach pre hpre
      (fun first i u hfirst hu _ => hguard first i u (hfirst.trans hpre) hu) t ht)

end Runs
