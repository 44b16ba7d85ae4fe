import MiniVisor.InterruptSystem
import MiniVisor.ControllerView

/-!
# Runs of the list registers of one CPU

The list registers of one CPU under calls of `add_virtual_interrupt`, guest
acknowledge and deactivate steps, and maintenance interrupts. The single pass of
`add_virtual_interrupt` loads the first inactive register it meets, also when a
later register still holds the same interrupt; `TakesFirstCopy` rules that case
out, and without it two registers end up with one vINTID.
-/
namespace MiniVisor

namespace Vgic

theorem inactive_acknowledge (lr : BitVec 64) : Inactive (acknowledge lr) ↔ Inactive lr := by
  unfold acknowledge
  split_ifs with hp
  · constructor
    · intro h
      have hstatus : status ((lr &&& ~~~ ichLrnEl2Status) ||| ichLrnEl2StatusActive) =
          ichLrnEl2StatusActive := Masks.write_and_self (by decide)
      rw [Inactive, hstatus] at h
      exact absurd h (by decide)
    · intro h
      rw [Inactive, hp] at h
      exact absurd h (by decide)
  · rfl

theorem inactive_deactivate {lr : BitVec 64} (h : Inactive lr) : Inactive (deactivate lr) := by
  rw [inactive_iff] at h ⊢
  rw [deactivate, BitVec.getLsbD_and, BitVec.getLsbD_and, h.1, h.2]
  exact ⟨Bool.false_and _, Bool.false_and _⟩

theorem inactive_zero : Inactive 0 := rfl

end Vgic

open Vgic

/-- The maintenance loop writes zero to the reported registers and leaves the
others alone. -/
theorem Vm.maintenanceLoop_listRegisters {eoiBits : ℕ → Bool} {n i : ℕ} {vm vm' : Vm}
    {lr lr' : ListRegisters} (h : maintenanceLoop eoiBits n i vm lr = some (vm', lr')) (j : ℕ) :
    lr' j = if i ≤ j ∧ j < i + n ∧ eoiBits j then 0 else lr j := by
  induction n generalizing i vm lr with
  | zero =>
    obtain ⟨rfl, rfl⟩ : vm = vm' ∧ lr = lr' := by simpa [maintenanceLoop] using h
    rw [if_neg (by omega)]
  | succ n ih =>
    have hrange : j ≠ i → ((i + 1 ≤ j ∧ j < i + 1 + n ∧ eoiBits j = true) ↔
        i ≤ j ∧ j < i + (n + 1) ∧ eoiBits j = true) := by
      intro hji
      constructor <;> rintro ⟨h₁, h₂, h₃⟩ <;> exact ⟨by omega, by omega, h₃⟩
    unfold maintenanceLoop at h
    by_cases hi : eoiBits i = true
    · rw [if_pos hi] at h
      obtain ⟨vm₁, -, hrest⟩ := Option.bind_eq_some_iff.1 h
      rw [ih hrest]
      by_cases hji : j = i
      · subst hji
        rw [if_neg (by omega), if_pos ⟨le_rfl, by omega, hi⟩, Function.update_self]
      · rw [Function.update_of_ne hji]
        exact if_congr (hrange hji) rfl rfl
    · rw [if_neg hi] at h
      rw [ih h]
      refine if_congr ?_ rfl rfl
      by_cases hji : j = i
      · subst hji
        simp [hi]
      · exact hrange hji

namespace ListRegisterRuns

/-- What happens to the list registers of one CPU. -/
inductive Event where
  | add (intId group priority : BitVec 32) (physicalIntId : Option (BitVec 32))
  | acknowledge (i : ℕ)
  | deactivate (i : ℕ)
  | maintenance

/-- The CPU and the VM that runs on it. -/
structure State where
  cpu : Pcpu
  vm : Vm

namespace State

def onListRegister (s : State) (i : ℕ) (f : BitVec 64 → BitVec 64) : State :=
  { s with cpu := { s.cpu with ichLr := Function.update s.cpu.ichLr i (f (s.cpu.ichLr i)) } }

def step (s : State) : Event → Option State
  | .add intId group priority physicalIntId =>
    let entry := createListRegisterEntry intId group priority physicalIntId
    some { s with
      cpu := { s.cpu with ichLr := addVirtualInterrupt s.cpu.ichVtrEl2 s.cpu.ichLr entry } }
  | .acknowledge i => some (s.onListRegister i Vgic.acknowledge)
  | .deactivate i => some (s.onListRegister i Vgic.deactivate)
  | .maintenance => (s.vm.maintenanceInterruptHandler s.cpu).map fun (vm, cpu) => ⟨cpu, vm⟩

def Step (s : State) (e : Event) (t : State) : Prop := s.step e = some t

/-- Distinct registers that are in use hold different interrupts. -/
def NoDuplicates (s : State) : Prop :=
  ∀ i j, i ≠ j → ¬ Inactive (s.cpu.ichLr i) → ¬ Inactive (s.cpu.ichLr j) →
    vintid (s.cpu.ichLr i) ≠ vintid (s.cpu.ichLr j)

/-- The inactive register that the pass reaches first is not followed by a
register that still holds the interrupt. -/
def TakesFirstCopy (s : State) : Event → Prop
  | .add intId group priority physicalIntId =>
    let entry := createListRegisterEntry intId group priority physicalIntId
    ∀ i j, i < j → j < supportedLrn s.cpu.ichVtrEl2 → Inactive (s.cpu.ichLr i) →
      (∀ k < i, Busy s.cpu.ichLr entry k) →
      Inactive (s.cpu.ichLr j) ∨ vintid (s.cpu.ichLr j) ≠ vintid entry
  | _ => True

/-- The invariant: no duplicates, and the registers past the accessor tables are
never in use. -/
structure Distinct (s : State) : Prop where
  noDuplicates : s.NoDuplicates
  unused : ∀ i, supportedLrn s.cpu.ichVtrEl2 ≤ i → Inactive (s.cpu.ichLr i)

/-- Changing one register keeps the invariant when the register keeps its
interrupt and does not come into use. -/
theorem Distinct.update {s : State} (hs : s.Distinct) (i : ℕ) {x : BitVec 64}
    (hin : Inactive (s.cpu.ichLr i) → Inactive x)
    (hid : ¬ Inactive x → vintid x = vintid (s.cpu.ichLr i)) :
    ({ s with cpu := { s.cpu with ichLr := Function.update s.cpu.ichLr i x } } : State).Distinct := by
  have hold : ∀ j, ¬ Inactive (Function.update s.cpu.ichLr i x j) →
      ¬ Inactive (s.cpu.ichLr j) ∧
        vintid (Function.update s.cpu.ichLr i x j) = vintid (s.cpu.ichLr j) := by
    intro j hj
    by_cases hji : j = i
    · subst hji
      rw [Function.update_self] at hj ⊢
      exact ⟨fun h => hj (hin h), hid hj⟩
    · rw [Function.update_of_ne hji] at hj ⊢
      exact ⟨hj, rfl⟩
  refine ⟨fun a b hab ha hb => ?_, fun j hj => ?_⟩
  · obtain ⟨ha', hva⟩ := hold a ha
    obtain ⟨hb', hvb⟩ := hold b hb
    change vintid (Function.update s.cpu.ichLr i x a) ≠ vintid (Function.update s.cpu.ichLr i x b)
    rw [hva, hvb]
    exact hs.noDuplicates a b hab ha' hb'
  · by_contra hj'
    exact (hold j hj').1 (hs.unused j hj)

/-- Loading an interrupt that no register in use holds keeps the invariant. -/
theorem Distinct.load {s : State} (hs : s.Distinct) {i : ℕ} {entry : BitVec 64}
    (hi : i < supportedLrn s.cpu.ichVtrEl2)
    (hfresh : ∀ j, j ≠ i → ¬ Inactive (s.cpu.ichLr j) → vintid (s.cpu.ichLr j) ≠ vintid entry) :
    ({ s with cpu := { s.cpu with ichLr := Function.update s.cpu.ichLr i entry } } :
      State).Distinct := by
  refine ⟨fun a b hab ha hb => ?_, fun j hj => ?_⟩
  · change vintid (Function.update s.cpu.ichLr i entry a) ≠
      vintid (Function.update s.cpu.ichLr i entry b)
    by_cases hai : a = i
    · subst hai
      have hb' : ¬ Inactive (s.cpu.ichLr b) := by simpa [Ne.symm hab] using hb
      rw [Function.update_self, Function.update_of_ne (Ne.symm hab)]
      exact (hfresh b (Ne.symm hab) hb').symm
    by_cases hbi : b = i
    · subst hbi
      have ha' : ¬ Inactive (s.cpu.ichLr a) := by simpa [hai] using ha
      rw [Function.update_self, Function.update_of_ne hai]
      exact hfresh a hai ha'
    · rw [Function.update_of_ne hai, Function.update_of_ne hbi]
      exact hs.noDuplicates a b hab (by simpa [hai] using ha) (by simpa [hbi] using hb)
  · have hji : j ≠ i := by
      rintro rfl
      exact absurd hi (not_lt.2 hj)
    simpa [hji] using hs.unused j hj

theorem Distinct.add {s : State} (hs : s.Distinct) {intId group priority : BitVec 32}
    {physicalIntId : Option (BitVec 32)}
    (hguard : s.TakesFirstCopy (.add intId group priority physicalIntId)) :
    ({ s with
      cpu := { s.cpu with
        ichLr := addVirtualInterrupt s.cpu.ichVtrEl2 s.cpu.ichLr
          (createListRegisterEntry intId group priority physicalIntId) } } : State).Distinct := by
  set entry := createListRegisterEntry intId group priority physicalIntId with hentry
  obtain ⟨-, heq⟩ | ⟨i, hi, hbusy, ⟨hin, heq⟩ | ⟨hin, -, heq⟩⟩ :=
    addVirtualInterrupt_cases s.cpu.ichVtrEl2 s.cpu.ichLr entry
  · rw [heq]
    exact hs
  · rw [heq]
    refine hs.load hi fun j hji hj => ?_
    -- before `i` every register is busy with another interrupt, after `i` the guard decides
    obtain hlt | hgt := Nat.lt_or_gt_of_ne hji
    · exact (hbusy j hlt).2
    · have hj' : j < supportedLrn s.cpu.ichVtrEl2 := by
        by_contra hge
        exact hj (hs.unused j (not_lt.1 hge))
      exact (hguard i j hgt hj' hin hbusy).resolve_left hj
  · rw [heq]
    exact hs.update i (fun h => absurd h hin) fun _ => vintid_or_pending _

theorem distinct_step (s : State) (e : Event) (t : State) (hs : s.Distinct)
    (hguard : s.TakesFirstCopy e) (hstep : s.Step e t) : t.Distinct := by
  cases e with
  | add intId group priority physicalIntId =>
    obtain rfl := Option.some.inj hstep
    exact hs.add hguard
  | acknowledge i =>
    obtain rfl := Option.some.inj hstep
    exact hs.update i (inactive_acknowledge _).2 fun _ => vintid_acknowledge _
  | deactivate i =>
    obtain rfl := Option.some.inj hstep
    exact hs.update i inactive_deactivate fun _ => vintid_deactivate _
  | maintenance =>
    obtain ⟨⟨vm', cpu'⟩, hm, rfl⟩ := Option.map_eq_some_iff.1 hstep
    obtain ⟨⟨vm₁, lr⟩, hloop, heq⟩ := Option.map_eq_some_iff.1 hm
    obtain ⟨rfl, rfl⟩ := Prod.mk.injEq .. ▸ heq
    have hlr := Vm.maintenanceLoop_listRegisters hloop
    have hold : ∀ j, ¬ Inactive (lr j) → lr j = s.cpu.ichLr j := by
      intro j hj
      rw [hlr j] at hj ⊢
      split_ifs at hj ⊢
      · exact absurd inactive_zero hj
      · rfl
    refine ⟨fun a b hab ha hb => ?_, fun j hj => ?_⟩
    · change vintid (lr a) ≠ vintid (lr b)
      have ha' := hold a ha
      have hb' := hold b hb
      rw [ha', hb']
      exact hs.noDuplicates a b hab (ha' ▸ ha) (hb' ▸ hb)
    · change Inactive (lr j)
      by_contra hj'
      exact hj' (hold j hj' ▸ hs.unused j hj)

/-- In every run in which no call takes an inactive register ahead of one that
still holds the interrupt, no two list registers hold the same interrupt. -/
theorem no_duplicates_of_takes_first_copy {s t : State}
    (hstart : ∀ i, Inactive (s.cpu.ichLr i))
    (hrun : Runs.GuardedRun Step TakesFirstCopy s t) : t.NoDuplicates :=
  (hrun.invariant distinct_step
    ⟨fun i _ _ hi _ => absurd (hstart i) hi, fun i _ => hstart i⟩).noDuplicates

/-- A call that breaks the condition leaves two registers with one interrupt. -/
theorem duplicate_of_not_takesFirstCopy {s t : State} {e : Event}
    (hguard : ¬ s.TakesFirstCopy e) (hstep : s.Step e t) : ¬ t.NoDuplicates := by
  cases e with
  | acknowledge | deactivate | maintenance => exact absurd trivial hguard
  | add intId group priority physicalIntId =>
    simp only [TakesFirstCopy, not_forall, not_or, not_not] at hguard
    obtain ⟨i, j, hij, hj, hin, hbusy, hjin, hjid⟩ := hguard
    obtain rfl := Option.some.inj hstep
    set entry := createListRegisterEntry intId group priority physicalIntId with hentry
    have heq : addVirtualInterrupt s.cpu.ichVtrEl2 s.cpu.ichLr entry =
        Function.update s.cpu.ichLr i entry := by
      obtain ⟨hall, -⟩ | ⟨i', -, hbusy', hput⟩ :=
        addVirtualInterrupt_cases s.cpu.ichVtrEl2 s.cpu.ichLr entry
      · exact absurd hin (hall i (hij.trans hj)).1
      · have hge : ¬ i < i' := fun h => (hbusy' i h).1 hin
        have hle : ¬ i' < i := by
          intro h
          obtain ⟨hin', -⟩ | ⟨-, hid', -⟩ := hput
          · exact (hbusy i' h).1 hin'
          · exact (hbusy i' h).2 hid'
        obtain rfl : i = i' := by omega
        obtain ⟨-, heq⟩ | ⟨hin', -⟩ := hput
        · exact heq
        · exact absurd hin hin'
    intro hno
    have hne := hno i j (by omega)
    simp only [heq, Function.update_self, Function.update_of_ne (by omega : j ≠ i)] at hne
    exact hne (createListRegisterEntry_not_inactive _ _ _ _) hjin hjid.symm

/-- A CPU with three list registers, all free, and a freshly created VM. -/
def idle : State where
  cpu := ⟨0x80000000, 0, 2, fun _ => 0, [], []⟩
  vm := ⟨0x40000000, 0x50000000, 0x10000000, GicDistributorMmio.new 0,
    GicRedistributorMmio.new 0 0x80000000, Pl011Mmio.new⟩

/-- Interrupts 40 and 33 are taken; 40 completes; 33 is raised again. -/
def retrigger : List Event :=
  [.add 40 0 0 none, .add 33 0 0 none, .acknowledge 0, .deactivate 0, .add 33 0 0 none]

/-- The second 33 goes into the register that 40 left and the first 33 stays. -/
theorem retrigger_duplicates :
    (∀ i, Inactive (idle.cpu.ichLr i)) ∧ ∃ t, Runs.Run Step idle t ∧ ¬ t.NoDuplicates ∧
      vintid (t.cpu.ichLr 0) = 33 ∧ vintid (t.cpu.ichLr 1) = 33 := by
  have hsome : (retrigger.foldlM step idle).isSome = true := rfl
  obtain ⟨t, ht⟩ := Option.isSome_iff_exists.1 hsome
  have hview : (retrigger.foldlM step idle).map (fun t => (status (t.cpu.ichLr 0),
      vintid (t.cpu.ichLr 0), status (t.cpu.ichLr 1), vintid (t.cpu.ichLr 1))) =
      some (ichLrnEl2StatusPending, 33, ichLrnEl2StatusPending, 33) := rfl
  rw [ht] at hview
  simp only [Option.map_some, Option.some.injEq, Prod.mk.injEq] at hview
  obtain ⟨hs₀, hv₀, hs₁, hv₁⟩ := hview
  refine ⟨fun i => inactive_zero, t, Runs.Run.of_foldlM ht, fun hno => ?_, hv₀, hv₁⟩
  refine hno 0 1 (by decide) ?_ ?_ (hv₀.trans hv₁.symm)
  · rw [Inactive, hs₀]
    decide
  · rw [Inactive, hs₁]
    decide

/-- `idle` with one register in use, and with two. -/
def loaded40 : State :=
  idle.onListRegister 0 fun _ => createListRegisterEntry 40 0 0 none

def loaded40And33 : State :=
  loaded40.onListRegister 1 fun _ => createListRegisterEntry 33 0 0 none

/-- Raising a second interrupt while the first register is still in use is safe. -/
theorem two_adds_no_duplicates :
    ∃ t, Runs.GuardedRun Step TakesFirstCopy idle t ∧ t.NoDuplicates ∧
      vintid (t.cpu.ichLr 0) = 40 ∧ vintid (t.cpu.ichLr 1) = 33 := by
  have hfirst : Step idle (.add 40 0 0 none) loaded40 := rfl
  have hguard : loaded40.TakesFirstCopy (.add 33 0 0 none) := by
    intro i j hij _ _ _
    left
    have hj : loaded40.cpu.ichLr j = 0 := Function.update_of_ne (by omega) ..
    rw [hj]
    exact inactive_zero
  have hsecond : Step loaded40 (.add 33 0 0 none) loaded40And33 := rfl
  have hrun : Runs.GuardedRun Step TakesFirstCopy idle loaded40And33 :=
    ((Runs.GuardedRun.refl idle).snoc (fun _ _ _ _ _ _ => .inl inactive_zero) hfirst).snoc
      hguard hsecond
  exact ⟨_, hrun, no_duplicates_of_takes_first_copy (fun _ => inactive_zero) hrun, rfl, rfl⟩

end State

end ListRegisterRuns

end MiniVisor
