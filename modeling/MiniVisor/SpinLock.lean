import MiniVisor.Library.Runs
import MiniVisor.Library.Masks
import Mathlib.Logic.Function.Basic
import Mathlib.Tactic

/-!
# Spin locks

CPUs take mutexes with `lock()` and give them back when the guard is dropped. Each
atomic access to the lock word and each access to DAIF is one step, and the steps of
the CPUs interleave in any way. A CPU drops its guards in the reverse order of
taking them. An interrupt is taken whenever IRQ or FIQ is not masked; its handler
takes and drops mutexes like any other code, and returns with none of them held.
-/
namespace MiniVisor

namespace SpinLock

/-- `( 1 << 7 /* IRQ */ ) | ( 1 << 6 /* FIQ */ )`. -/
def irqFiq : BitVec 64 := (1#64 <<< 7) ||| (1#64 <<< 6)

/-- All exceptions that DAIF masks. -/
def allMasked : BitVec 64 := 0b1111#64 <<< 6

def Masked (daif : BitVec 64) : Prop := daif &&& irqFiq = irqFiq

instance (daif : BitVec 64) : Decidable (Masked daif) := inferInstanceAs (Decidable (_ = _))

variable {P M : Type*}

structure MutexGuard (M : Type*) where
  lock : M
  daif : BitVec 64

/-- The next step of the code that a CPU executes. -/
inductive Phase (M : Type*) where
  /-- Outside `lock()` and `drop`. -/
  | idle
  /-- `self.lock.load(Ordering::Relaxed)`. -/
  | load (mutex : M)
  /-- `get_daif_and_disable_irq_fiq()`. -/
  | disable (mutex : M)
  /-- `self.lock.compare_exchange(false, true, ..)`. -/
  | exchange (mutex : M) (daif : BitVec 64)
  /-- `set_daif(daif)` after a failed exchange. -/
  | restore (mutex : M) (daif : BitVec 64)
  /-- `set_daif(self.daif)` at the end of `drop`. -/
  | unmask (daif : BitVec 64)

/-- What an interrupt saves and its return restores. `before` is not read by the
code: it is DAIF as it was before the outermost `lock()` call. -/
structure Context (M : Type*) where
  daif : BitVec 64
  phase : Phase M
  before : BitVec 64

structure Cpu (M : Type*) extends Context M where
  /-- The guards that the CPU owns, the latest first. -/
  guards : List (MutexGuard M)
  interrupted : List (Context M)

inductive Action (M : Type*) where
  /-- `lock()` is called. -/
  | call (mutex : M)
  /-- The step of `lock()` or `drop` that comes next. -/
  | run
  /-- The latest guard is dropped; its first step is `self.lock.store(false, ..)`. -/
  | drop
  /-- Code outside all guards sets DAIF. -/
  | setDaif (daif : BitVec 64)
  | interrupt
  | eret

/-- One step of a CPU on the lock words and its own state. -/
def Cpu.step [DecidableEq M] (locks : M → Bool) (c : Cpu M) : Action M → Option ((M → Bool) × Cpu M)
  | .call mutex =>
    match c.phase with
    | .idle =>
      let before := if c.guards = [] then c.daif else c.before
      some (locks, { c with phase := .load mutex, before := before })
    | _ => none
  | .run =>
    match c.phase with
    | .idle => none
    | .load mutex =>
      some (locks, { c with phase := if locks mutex then .load mutex else .disable mutex })
    | .disable mutex =>
      some (locks, { c with phase := .exchange mutex c.daif, daif := c.daif ||| irqFiq })
    | .exchange mutex daif =>
      if locks mutex = false then
        some (Function.update locks mutex true,
          { c with phase := .idle, guards := ⟨mutex, daif⟩ :: c.guards })
      else some (locks, { c with phase := .restore mutex daif })
    | .restore mutex daif => some (locks, { c with phase := .load mutex, daif := daif })
    | .unmask daif => some (locks, { c with phase := .idle, daif := daif })
  | .drop =>
    match c.phase, c.guards with
    | .idle, guard :: guards =>
      some (Function.update locks guard.lock false,
        { c with phase := .unmask guard.daif, guards := guards })
    | _, _ => none
  | .setDaif daif =>
    match c.phase, c.guards with
    | .idle, [] => some (locks, { c with daif := daif, before := daif })
    | _, _ => none
  | .interrupt =>
    if Masked c.daif then none
    else
      let daif := c.daif ||| allMasked
      some (locks, { c with
        daif := daif
        phase := .idle
        before := daif
        interrupted := c.toContext :: c.interrupted })
  | .eret =>
    match c.phase, c.guards, c.interrupted with
    | .idle, [], context :: interrupted =>
      some (locks, { toContext := context, guards := [], interrupted := interrupted })
    | _, _, _ => none

/-- The lock words and the CPUs. -/
structure System (P M : Type*) where
  locks : M → Bool
  cpus : P → Cpu M

/-- CPU `p` takes a step. -/
def System.step [DecidableEq P] [DecidableEq M] (s : System P M) (e : P × Action M) : Option (System P M) :=
  ((s.cpus e.1).step s.locks e.2).map fun (locks, cpu) =>
    { locks := locks, cpus := Function.update s.cpus e.1 cpu }

def System.Step [DecidableEq P] [DecidableEq M] (s : System P M) (e : P × Action M)
    (t : System P M) : Prop := s.step e = some t

/-- No mutex is taken and every CPU has its own DAIF value. -/
def System.init (daif : P → BitVec 64) : System P M where
  locks _ := false
  cpus p := { daif := daif p, phase := .idle, before := daif p, guards := [], interrupted := [] }

/-! ## One CPU -/

theorem masked_or (daif : BitVec 64) : Masked (daif ||| irqFiq) := by
  rw [Masked, Masks.or_and, BitVec.and_self]
  ext i hi
  rw [BitVec.getElem_or, BitVec.getElem_and]
  cases daif[i] <;> simp

/-- DAIF outside `lock()` and `drop` while the CPU owns `guards`. -/
def outer (before : BitVec 64) (guards : List (MutexGuard M)) : BitVec 64 :=
  if guards = [] then before else before ||| irqFiq

/-- A guard saved what DAIF was under the guards before it. -/
def Nested (before : BitVec 64) : List (MutexGuard M) → Prop
  | [] => True
  | guard :: guards => guard.daif = outer before guards ∧ Nested before guards

/-- DAIF and the values saved by `lock()` and `drop` at each step of the code. -/
def Phase.Consistent (phase : Phase M) (daif outer : BitVec 64) : Prop :=
  match phase with
  | .idle | .load _ | .disable _ => daif = outer
  | .exchange _ saved | .restore _ saved => saved = outer ∧ daif = outer ||| irqFiq
  | .unmask saved => saved = outer ∧ Masked daif

structure Cpu.Consistent (c : Cpu M) : Prop where
  phase : c.phase.Consistent c.daif (outer c.before c.guards)
  nested : Nested c.before c.guards
  interrupted : ∀ f ∈ c.interrupted, f.phase.Consistent f.daif f.before

variable {c c' : Cpu M} {locks locks' : M → Bool} {a : Action M}

theorem outer_cons (before : BitVec 64) (guard : MutexGuard M) (guards : List (MutexGuard M)) :
    outer before (guard :: guards) = before ||| irqFiq := if_neg (List.cons_ne_nil _ _)

theorem outer_or (before : BitVec 64) (guards : List (MutexGuard M)) :
    outer before guards ||| irqFiq = before ||| irqFiq := by
  unfold outer
  split_ifs
  · rfl
  · rw [BitVec.or_assoc, BitVec.or_self]

/-- A CPU that owns a guard takes no interrupt. -/
theorem Cpu.Consistent.masked (h : c.Consistent) (howns : c.guards ≠ []) : Masked c.daif := by
  have hphase := h.phase
  have hmasked : Masked (outer c.before c.guards) := by
    rw [outer, if_neg howns]
    exact masked_or _
  unfold Phase.Consistent at hphase
  split at hphase
  · rwa [hphase]
  · rwa [hphase]
  · rwa [hphase]
  · rw [hphase.2]
    exact masked_or _
  · rw [hphase.2]
    exact masked_or _
  · exact hphase.2

/-- What a step does to the lock words and the guards. -/
inductive Effect [DecidableEq M] (locks : M → Bool) (guards : List (MutexGuard M)) :
    (M → Bool) → List (MutexGuard M) → Prop
  | none : Effect locks guards locks guards
  | taken {g : MutexGuard M} (hfree : locks g.lock = false) :
      Effect locks guards (Function.update locks g.lock true) (g :: guards)
  | dropped {g : MutexGuard M} {rest : List (MutexGuard M)} (hguards : guards = g :: rest) :
      Effect locks guards (Function.update locks g.lock false) rest

theorem Cpu.Consistent.step [DecidableEq M] (h : c.Consistent) (hstep : c.step locks a = some (locks', c')) :
    c'.Consistent ∧ Effect locks c.guards locks' c'.guards := by
  obtain ⟨hphase, hnested, hframes⟩ := id h
  cases a with
  | call mutex =>
    simp only [Cpu.step] at hstep
    split at hstep
    · rename_i hidle
      obtain ⟨rfl, rfl⟩ := Prod.mk.injEq .. ▸ Option.some.inj hstep
      rw [hidle] at hphase
      -- with no guard DAIF is `before` already
      have hsame : (if c.guards = [] then c.daif else c.before) = c.before := by
        split_ifs with hnil
        · rw [hphase, outer, if_pos hnil]
        · rfl
      refine ⟨⟨?_, ?_, hframes⟩, .none⟩
      · dsimp only
        rw [hsame]
        exact hphase
      · dsimp only
        rw [hsame]
        exact hnested
    · exact absurd hstep (by simp)
  | run =>
    simp only [Cpu.step] at hstep
    split at hstep
    · exact absurd hstep (by simp)
    · rename_i mutex hload
      obtain ⟨rfl, rfl⟩ := Prod.mk.injEq .. ▸ Option.some.inj hstep
      rw [hload] at hphase
      refine ⟨⟨?_, hnested, hframes⟩, .none⟩
      dsimp only
      split_ifs <;> exact hphase
    · rename_i mutex hdisable
      obtain ⟨rfl, rfl⟩ := Prod.mk.injEq .. ▸ Option.some.inj hstep
      rw [hdisable] at hphase
      exact ⟨⟨⟨hphase, congrArg (· ||| irqFiq) hphase⟩, hnested, hframes⟩, .none⟩
    · rename_i mutex saved hexchange
      rw [hexchange] at hphase
      split_ifs at hstep with hfree
      · obtain ⟨rfl, rfl⟩ := Prod.mk.injEq .. ▸ Option.some.inj hstep
        refine ⟨⟨?_, ⟨hphase.1, hnested⟩, hframes⟩, .taken (g := ⟨mutex, saved⟩) hfree⟩
        change c.daif = outer c.before (_ :: c.guards)
        rw [hphase.2, outer_or, outer_cons]
      · obtain ⟨rfl, rfl⟩ := Prod.mk.injEq .. ▸ Option.some.inj hstep
        exact ⟨⟨hphase, hnested, hframes⟩, .none⟩
    · rename_i mutex saved hrestore
      obtain ⟨rfl, rfl⟩ := Prod.mk.injEq .. ▸ Option.some.inj hstep
      rw [hrestore] at hphase
      exact ⟨⟨hphase.1, hnested, hframes⟩, .none⟩
    · rename_i saved hunmask
      obtain ⟨rfl, rfl⟩ := Prod.mk.injEq .. ▸ Option.some.inj hstep
      rw [hunmask] at hphase
      exact ⟨⟨hphase.1, hnested, hframes⟩, .none⟩
  | drop =>
    simp only [Cpu.step] at hstep
    split at hstep
    · rename_i guard guards hidle hguards
      obtain ⟨rfl, rfl⟩ := Prod.mk.injEq .. ▸ Option.some.inj hstep
      have hmasked := h.masked (by simp [hguards])
      rw [hguards] at hnested
      exact ⟨⟨⟨hnested.1, hmasked⟩, hnested.2, hframes⟩, .dropped hguards⟩
    · exact absurd hstep (by simp)
  | setDaif daif =>
    simp only [Cpu.step] at hstep
    split at hstep
    · rename_i hidle hguards
      obtain ⟨rfl, rfl⟩ := Prod.mk.injEq .. ▸ Option.some.inj hstep
      refine ⟨⟨?_, ?_, hframes⟩, .none⟩
      · dsimp only
        rw [hidle, outer, if_pos hguards]
        exact rfl
      · dsimp only
        rw [hguards]
        exact trivial
    · exact absurd hstep (by simp)
  | interrupt =>
    simp only [Cpu.step] at hstep
    split_ifs at hstep with hmask
    obtain ⟨rfl, rfl⟩ := Prod.mk.injEq .. ▸ Option.some.inj hstep
    have hguards : c.guards = [] := by
      by_contra howns
      exact hmask (h.masked howns)
    rw [outer, if_pos hguards] at hphase
    refine ⟨⟨?_, ?_, fun f hf => ?_⟩, .none⟩
    · dsimp only
      rw [outer, if_pos hguards]
      exact rfl
    · dsimp only
      rw [hguards]
      exact trivial
    · obtain rfl | hf := List.mem_cons.1 hf
      · exact hphase
      · exact hframes f hf
  | eret =>
    simp only [Cpu.step] at hstep
    split at hstep
    · rename_i context interrupted hidle hguards hcontext
      obtain ⟨rfl, rfl⟩ := Prod.mk.injEq .. ▸ Option.some.inj hstep
      rw [hcontext] at hframes
      rw [hguards]
      exact ⟨⟨hframes context (by simp), trivial, fun f hf => hframes f (by simp [hf])⟩, .none⟩
    · exact absurd hstep (by simp)

/-! ## All CPUs -/

structure System.Consistent (s : System P M) : Prop where
  cpu : ∀ p, (s.cpus p).Consistent
  held : ∀ p, ∀ g ∈ (s.cpus p).guards, s.locks g.lock = true
  once : ∀ p, ((s.cpus p).guards.map MutexGuard.lock).Nodup
  exclusive : ∀ p q, ∀ g ∈ (s.cpus p).guards, ∀ h ∈ (s.cpus q).guards, g.lock = h.lock → p = q

variable {s t : System P M}

theorem System.consistent_init (daif : P → BitVec 64) :
    (System.init daif : System P M).Consistent where
  cpu _ := ⟨rfl, trivial, fun _ hf => absurd hf (by simp [System.init])⟩
  held _ _ hg := absurd hg (by simp [System.init])
  once _ := List.nodup_nil
  exclusive _ _ _ hg := absurd hg (by simp [System.init])

/-- A step of CPU `p` that keeps its own state consistent keeps all owners apart. -/
theorem System.Consistent.effect [DecidableEq P] [DecidableEq M] (h : s.Consistent) {p : P}
    {locks : M → Bool} {cpu : Cpu M} (hcpu : cpu.Consistent)
    (heffect : Effect s.locks (s.cpus p).guards locks cpu.guards) :
    (⟨locks, Function.update s.cpus p cpu⟩ : System P M).Consistent := by
  have hconsistent : ∀ q, (Function.update s.cpus p cpu q).Consistent := by
    intro q
    by_cases hq : q = p
    · rw [hq, Function.update_self]
      exact hcpu
    · rw [Function.update_of_ne hq]
      exact h.cpu q
  -- the guards of each CPU, by what the step did
  have hguards : ∀ q, (Function.update s.cpus p cpu q).guards =
      if q = p then cpu.guards else (s.cpus q).guards := by
    intro q
    by_cases hq : q = p
    · rw [hq, Function.update_self, if_pos rfl]
    · rw [Function.update_of_ne hq, if_neg hq]
  generalize cpu.guards = guards at heffect hguards
  cases heffect with
  | none =>
    have hsame : ∀ q, (Function.update s.cpus p cpu q).guards = (s.cpus q).guards := by
      intro q
      rw [hguards]
      split_ifs with hq
      · rw [hq]
      · rfl
    refine ⟨hconsistent, fun q g hg => ?_, fun q => ?_, fun q q' g hg g' hg' => ?_⟩
    · exact h.held q g (hsame q ▸ hg)
    · dsimp only
      rw [hsame]
      exact h.once q
    · exact h.exclusive q q' g (hsame q ▸ hg) g' (hsame q' ▸ hg')
  | @taken g hfree =>
    -- nobody owns a mutex whose lock word is clear
    have hnew : ∀ q, ∀ g' ∈ (s.cpus q).guards, g'.lock ≠ g.lock := by
      intro q g' hg' heq
      have hheld := h.held q g' hg'
      rw [heq, hfree] at hheld
      exact absurd hheld (by simp)
    have hcases : ∀ q, ∀ g' ∈ (Function.update s.cpus p cpu q).guards,
        q = p ∧ g' = g ∨ g' ∈ (s.cpus q).guards := by
      intro q g' hg'
      rw [hguards] at hg'
      split_ifs at hg' with hq
      · obtain rfl | hg' := List.mem_cons.1 hg'
        · exact .inl ⟨hq, rfl⟩
        · exact .inr (hq ▸ hg')
      · exact .inr hg'
    refine ⟨hconsistent, fun q g' hg' => ?_, fun q => ?_, fun q q' g₁ hg₁ g₂ hg₂ heq => ?_⟩
    · obtain ⟨-, rfl⟩ | hg' := hcases q g' hg'
      · exact Function.update_self ..
      · dsimp only
        rw [Function.update_of_ne (hnew q g' hg')]
        exact h.held q g' hg'
    · dsimp only
      rw [hguards]
      split_ifs with hq
      · rw [List.map_cons, List.nodup_cons]
        refine ⟨fun hmem => ?_, h.once p⟩
        obtain ⟨g', hg', heq⟩ := List.mem_map.1 hmem
        exact hnew p g' hg' heq
      · exact h.once q
    · obtain ⟨rfl, rfl⟩ | hold₁ := hcases q g₁ hg₁
      · obtain ⟨rfl, -⟩ | hold₂ := hcases q' g₂ hg₂
        · rfl
        · exact absurd heq.symm (hnew q' g₂ hold₂)
      · obtain ⟨rfl, rfl⟩ | hold₂ := hcases q' g₂ hg₂
        · exact absurd heq (hnew q g₁ hold₁)
        · exact h.exclusive q q' g₁ hold₁ g₂ hold₂ heq
  | @dropped g _ hdropped =>
    have hsub : ∀ q, ∀ g' ∈ (Function.update s.cpus p cpu q).guards, g' ∈ (s.cpus q).guards := by
      intro q g' hg'
      rw [hguards] at hg'
      split_ifs at hg' with hq
      · rw [hq, hdropped]
        exact List.mem_cons_of_mem g hg'
      · exact hg'
    have honce := h.once p
    rw [hdropped, List.map_cons, List.nodup_cons] at honce
    -- no other guard is for the mutex that is given back
    have hother : ∀ q, ∀ g' ∈ (Function.update s.cpus p cpu q).guards, g'.lock ≠ g.lock := by
      intro q g' hg' heq
      have hq := h.exclusive q p g' (hsub q g' hg') g (by simp [hdropped]) heq
      rw [hguards, if_pos hq] at hg'
      exact honce.1 (heq ▸ List.mem_map_of_mem hg')
    refine ⟨hconsistent, fun q g' hg' => ?_, fun q => ?_, fun q q' g₁ hg₁ g₂ hg₂ heq =>
      h.exclusive q q' g₁ (hsub q g₁ hg₁) g₂ (hsub q' g₂ hg₂) heq⟩
    · dsimp only
      rw [Function.update_of_ne (hother q g' hg')]
      exact h.held q g' (hsub q g' hg')
    · dsimp only
      rw [hguards]
      split_ifs
      · exact honce.2
      · exact h.once q

theorem System.Consistent.step [DecidableEq P] [DecidableEq M] (h : s.Consistent)
    {e : P × Action M} (hstep : s.Step e t) : t.Consistent := by
  obtain ⟨⟨locks, cpu⟩, hcpu, rfl⟩ := Option.map_eq_some_iff.1 hstep
  obtain ⟨hconsistent, heffect⟩ := (h.cpu e.1).step hcpu
  exact h.effect hconsistent heffect

/-- In every state: a mutex has at most one owner; a CPU that owns a guard has IRQ and
FIQ masked and takes no interrupt; a CPU that owns none has DAIF as before its
outermost `lock()`. -/
theorem System.discipline_of_run [DecidableEq P] [DecidableEq M] {daif : P → BitVec 64}
    (hrun : Runs.Run System.Step (System.init daif) s) :
    (∀ p q, ∀ g ∈ (s.cpus p).guards, ∀ h ∈ (s.cpus q).guards, g.lock = h.lock → p = q) ∧
      (∀ p, (s.cpus p).guards ≠ [] →
        Masked (s.cpus p).daif ∧ ∀ t, ¬s.Step (p, .interrupt) t) ∧
      ∀ p, (s.cpus p).guards = [] → (s.cpus p).phase = .idle →
        (s.cpus p).daif = (s.cpus p).before := by
  have hinv := hrun.invariant (I := System.Consistent)
    (fun _ _ _ h _ hstep => h.step hstep) (System.consistent_init daif)
  refine ⟨hinv.exclusive, fun p howns => ?_, fun p hguards hidle => ?_⟩
  · have hmasked := (hinv.cpu p).masked howns
    refine ⟨hmasked, fun t hstep => ?_⟩
    obtain ⟨_, hcpu, -⟩ := Option.map_eq_some_iff.1 hstep
    simp only [Cpu.step, if_pos hmasked] at hcpu
    exact absurd hcpu (by simp)
  · have hphase := (hinv.cpu p).phase
    rw [hidle, outer, if_pos hguards] at hphase
    exact hphase

/-- CPU 0 takes the mutex between the load and the exchange of CPU 1. -/
def sampleSteps : List (Fin 2 × Action Unit) :=
  [(1, .call ()), (1, .run), (0, .call ()), (0, .run), (0, .run), (0, .run), (1, .run), (1, .run),
    (1, .run)]

/-- The failed attempt leaves CPU 1 as it was; CPU 0 is masked. -/
theorem System.sample_discipline : ∃ s : System (Fin 2) Unit,
    Runs.Run System.Step (System.init fun _ => 0) s ∧ (s.cpus 1).daif = 0 ∧
      Masked (s.cpus 0).daif ∧ ∀ t, ¬s.Step (0, .interrupt) t := by
  have heval : (sampleSteps.foldlM System.step (System.init fun _ => 0)).map (fun s =>
      ((s.cpus 1).daif, (s.cpus 0).guards.length)) = some (0, 1) := by
    decide +kernel
  obtain ⟨s, hrun, heval⟩ := Option.map_eq_some_iff.1 heval
  obtain ⟨hdaif, hlength⟩ := Prod.mk.injEq .. ▸ heval
  have howns : (s.cpus 0).guards ≠ [] := by
    intro hnil
    rw [hnil] at hlength
    exact absurd hlength (by simp)
  have hrun : Runs.Run System.Step (System.init fun _ => 0) s := Runs.Run.of_foldlM hrun
  exact ⟨s, hrun, hdaif, (System.discipline_of_run hrun).2.1 0 howns⟩

end SpinLock

end MiniVisor
