import MiniVisor.InterruptDelivery
import MiniVisor.TriggerOutcomes

/-!
# Completed interrupts

The guest completes an interrupt in a list register. The controllers learn of it from
the maintenance interrupt, which names the interrupt by what the register still holds.
A register that is backed by a physical interrupt reports nothing, and an inactive
register is free for the next interrupt, reported or not. The condition on a step asks
for just that, and the invariant is that every completion that is not yet in the
controllers is still in a register.
-/
namespace MiniVisor

open Vgic Machine

/-- The pending or the active bit of the interrupt is set in its controller. -/
def Vm.Marked (vm : Vm) (n : ℕ) : Prop :=
  if 32 ≤ n then
    bankTest vm.gicDistributorMmio.pending n = true ∨ bankTest vm.gicDistributorMmio.active n = true
  else
    vm.gicRedistributorMmio.pending.getLsbD n = true ∨
      vm.gicRedistributorMmio.active.getLsbD n = true

/-- A VM on its CPU. -/
structure Station where
  vm : Vm
  cpu : Pcpu
  /-- Ghost: the guest has completed the interrupt, and it was not triggered since. -/
  done : ℕ → Bool

/-- The handlers and the guest's side of the list registers. A trigger runs on the VM's CPU
or on another one. -/
inductive StationEvent where
  | triggerDistributor (other : Option Pcpu) (intId : BitVec 32) (physicalIntId : Option (BitVec 32))
  | triggerRedistributor (other : Option Pcpu) (intId : BitVec 32)
      (physicalIntId : Option (BitVec 32))
  | addVirtualInterrupt (entry : ListEntry)
  | acknowledge (i : ℕ)
  | deactivate (i : ℕ)
  | maintenance

namespace Station

def onListRegister (s : Station) (i : ℕ) (f : BitVec 64 → BitVec 64) : Station :=
  { s with cpu.ichLr := Function.update s.cpu.ichLr i (f (s.cpu.ichLr i)) }

def step (s : Station) : StationEvent → Option Station
  | .triggerDistributor other intId physicalIntId =>
    (s.vm.gicDistributorMmio.triggerInterrupt (other.getD s.cpu) intId physicalIntId).map
      fun (d, cpu) =>
        { vm := { s.vm with gicDistributorMmio := d }
          cpu := if other.isNone then cpu else s.cpu
          done := Function.update s.done intId.toNat false }
  | .triggerRedistributor other intId physicalIntId =>
    (s.vm.gicRedistributorMmio.triggerInterrupt (other.getD s.cpu) intId physicalIntId).map
      fun (r, cpu) =>
        { vm := { s.vm with gicRedistributorMmio := r }
          cpu := if other.isNone then cpu else s.cpu
          done := Function.update s.done intId.toNat false }
  | .addVirtualInterrupt entry => some { s with cpu := s.cpu.addVirtualInterrupt entry }
  | .acknowledge i => some (s.onListRegister i acknowledge)
  | .deactivate i =>
    some { s.onListRegister i deactivate with
      done :=
        if status (s.cpu.ichLr i) = ichLrnEl2StatusActive then
          Function.update s.done (completedId (s.cpu.ichLr i)) true
        else s.done }
  | .maintenance =>
    (s.vm.maintenanceInterruptHandler s.cpu).map fun (vm, cpu) => { s with vm := vm, cpu := cpu }

/-- The step relation: the handler returns. -/
def Step (s : Station) (e : StationEvent) (t : Station) : Prop := s.step e = some t

/-- The list registers are free, and nothing was completed yet. -/
structure Fresh (s : Station) : Prop where
  inactive : ∀ i, Inactive (s.cpu.ichLr i)
  done : ∀ n, s.done n = false

/-- Register `i` reports the completion of the interrupt. -/
def Awaits (cpu : Pcpu) (i n : ℕ) : Prop :=
  i < supportedLrn cpu.ichVtrEl2 ∧ eoiStatus (cpu.ichLr i) = true ∧ completedId (cpu.ichLr i) = n

/-- `add_virtual_interrupt` writes the entry to the free register `j`. -/
def Takes (cpu : Pcpu) (entry : ListEntry) (j : ℕ) : Prop :=
  j < supportedLrn cpu.ichVtrEl2 ∧ Inactive (cpu.ichLr j) ∧
    ∀ k < j, Busy cpu.ichLr entry.value k

/-- The register that takes the entry was the only one to report the completion. -/
def Overwrites (cpu : Pcpu) (entry : ListEntry) (n : ℕ) : Prop :=
  ∃ j, Takes cpu entry j ∧ Awaits cpu j n ∧ ∀ i, i ≠ j → ¬Awaits cpu i n

end Station

/-- The trigger hands the entry to `add_virtual_interrupt`. -/
def GicDistributorMmio.Loads (d : GicDistributorMmio) (cpu : Pcpu) (intId : BitVec 32)
    (physicalIntId : Option (BitVec 32)) (entry : ListEntry) : Prop :=
  d.Passes intId.toNat ∧ d.ctlr &&& gicdCtlrAreS ≠ 0 ∧
    (∃ router, d.getRouter intId = some router ∧ RoutedTo router cpu.mpidrEl1) ∧
    ∃ priority, d.getPriority intId = some priority ∧
      entry = d.entryOf intId physicalIntId priority

def GicRedistributorMmio.Loads (r : GicRedistributorMmio) (cpu : Pcpu) (intId : BitVec 32)
    (physicalIntId : Option (BitVec 32)) (entry : ListEntry) : Prop :=
  r.Passes intId.toNat ∧ r.affinity = mpidrToAffinity cpu.mpidrEl1 ∧
    ∃ priority, r.getPriority intId = some priority ∧
      entry = r.entryOf intId physicalIntId priority

namespace Station

/-- The condition on a step: an entry goes to no register that has to report a completion
which nothing else reports, and a completed register is not backed by a physical
interrupt, unless there is nothing to report. -/
def Collects (s : Station) : StationEvent → Prop
  | .triggerDistributor none intId physicalIntId =>
    ∀ entry, s.vm.gicDistributorMmio.Loads s.cpu intId physicalIntId entry →
      ∀ n ≠ intId.toNat, s.done n = true → s.vm.Marked n → ¬Overwrites s.cpu entry n
  | .triggerRedistributor none intId physicalIntId =>
    ∀ entry, s.vm.gicRedistributorMmio.Loads s.cpu intId physicalIntId entry →
      ∀ n ≠ intId.toNat, s.done n = true → s.vm.Marked n → ¬Overwrites s.cpu entry n
  | .addVirtualInterrupt entry =>
    ∀ n, s.done n = true → s.vm.Marked n → ¬Overwrites s.cpu entry n
  | .deactivate i =>
    i < supportedLrn s.cpu.ichVtrEl2 → status (s.cpu.ichLr i) = ichLrnEl2StatusActive →
      s.vm.Marked (completedId (s.cpu.ichLr i)) →
        Reports (s.cpu.ichLr i) ∨ ∃ j, Awaits s.cpu j (completedId (s.cpu.ichLr i))
  | _ => True

/-- Every completion is in the controllers or is still reported. -/
structure Collecting (s : Station) : Prop where
  awaited : ∀ n, s.done n = true → s.vm.Marked n → ∃ i, Awaits s.cpu i n
  beyond : ∀ i, supportedLrn s.cpu.ichVtrEl2 ≤ i → Inactive (s.cpu.ichLr i)

/-! ## List registers -/

variable {cpu cpu' : Pcpu} {entry : ListEntry} {i j n : ℕ}

theorem Awaits.inactive (h : Awaits cpu i n) : Inactive (cpu.ichLr i) :=
  (eoiStatus_eq_true.1 h.2.1).1

theorem Awaits.of_lr (h : Awaits cpu i n) (hvtr : cpu'.ichVtrEl2 = cpu.ichVtrEl2)
    (hlr : cpu'.ichLr i = cpu.ichLr i) : Awaits cpu' i n := by
  rw [Awaits, hvtr, hlr]
  exact h

theorem Takes.unique (hi : Takes cpu entry i) (hj : Takes cpu entry j) : i = j := by
  rcases lt_trichotomy i j with hlt | heq | hgt
  · exact absurd hi.2.1 (hj.2.2 i hlt).1
  · exact heq
  · exact absurd hj.2.1 (hi.2.2 j hgt).1

/-- A report is lost only in the register that takes the entry. -/
theorem Awaits.add (h : Awaits cpu i n) (hi : ¬Takes cpu entry i) :
    Awaits (cpu.addVirtualInterrupt entry) i n := by
  refine h.of_lr (by rfl) ?_
  obtain ⟨-, hsame⟩ | ⟨j, hj, hbusy, ⟨hin, hload⟩ | ⟨hin, -, hmark⟩⟩ :=
    addVirtualInterrupt_cases cpu.ichVtrEl2 cpu.ichLr entry.value
  · exact congrFun hsame i
  · have hij : i ≠ j := fun hij => hi (hij ▸ ⟨hj, hin, hbusy⟩)
    exact (congrFun hload i).trans (Function.update_of_ne hij _ _)
  · have hij : i ≠ j := fun hij => hin (hij ▸ h.inactive)
    exact (congrFun hmark i).trans (Function.update_of_ne hij _ _)

theorem exists_awaits_add (h : ∃ i, Awaits cpu i n) (hn : ¬Overwrites cpu entry n) :
    ∃ i, Awaits (cpu.addVirtualInterrupt entry) i n := by
  obtain ⟨i, hi⟩ := h
  by_cases htake : Takes cpu entry i
  · have hother : ∃ k, k ≠ i ∧ Awaits cpu k n := by
      by_contra hnone
      exact hn ⟨i, htake, hi, fun k hki hk => hnone ⟨k, hki, hk⟩⟩
    obtain ⟨k, hki, hk⟩ := hother
    exact ⟨k, hk.add fun hk' => hki (hk'.unique htake)⟩
  · exact ⟨i, hi.add htake⟩

theorem inactive_add (hi : supportedLrn cpu.ichVtrEl2 ≤ i) (h : Inactive (cpu.ichLr i)) :
    Inactive ((cpu.addVirtualInterrupt entry).ichLr i) := by
  have hsame : (cpu.addVirtualInterrupt entry).ichLr i = cpu.ichLr i := by
    obtain ⟨-, hsame⟩ | ⟨j, hj, -, ⟨-, hload⟩ | ⟨-, -, hmark⟩⟩ :=
      addVirtualInterrupt_cases cpu.ichVtrEl2 cpu.ichLr entry.value
    · exact congrFun hsame i
    · exact (congrFun hload i).trans (Function.update_of_ne (by omega) _ _)
    · exact (congrFun hmark i).trans (Function.update_of_ne (by omega) _ _)
  rwa [hsame]

variable {s t : Station}

theorem Collecting.add {done : ℕ → Bool} {vm : Vm} (h : s.Collecting)
    (hdone : ∀ n, done n = true → vm.Marked n → s.done n = true ∧ s.vm.Marked n ∧
      ¬Overwrites s.cpu entry n) :
    Collecting ⟨vm, s.cpu.addVirtualInterrupt entry, done⟩ where
  awaited n hn hmark := by
    obtain ⟨hn, hmark, hkept⟩ := hdone n hn hmark
    exact exists_awaits_add (h.awaited n hn hmark) hkept
  beyond i hi := inactive_add hi (h.beyond i hi)

/-- Only the controllers changed, and they mark no further completed interrupt. -/
theorem Collecting.of_cpu {done : ℕ → Bool} {vm : Vm} (h : s.Collecting)
    (hvtr : cpu'.ichVtrEl2 = s.cpu.ichVtrEl2) (hlr : cpu'.ichLr = s.cpu.ichLr)
    (hdone : ∀ n, done n = true → vm.Marked n → s.done n = true ∧ s.vm.Marked n) :
    Collecting ⟨vm, cpu', done⟩ where
  awaited n hn hmark := by
    obtain ⟨hn, hmark⟩ := hdone n hn hmark
    obtain ⟨i, hi⟩ := h.awaited n hn hmark
    exact ⟨i, hi.of_lr hvtr (congrFun hlr i)⟩
  beyond i hi := by
    dsimp only at hi ⊢
    rw [hvtr] at hi
    rw [hlr]
    exact h.beyond i hi

/-! ## Triggers -/

theorem distributor_trigger {d d' : GicDistributorMmio} {intId : BitVec 32}
    {physicalIntId : Option (BitVec 32)}
    (h : d.triggerInterrupt cpu intId physicalIntId = some (d', cpu')) :
    (d'.active = d.active ∧ ∀ n ≠ intId.toNat, bankTest d'.pending n = bankTest d.pending n) ∧
      (cpu'.ichVtrEl2 = cpu.ichVtrEl2 ∧ cpu'.ichLr = cpu.ichLr ∨
        ∃ entry, d.Loads cpu intId physicalIntId entry ∧ cpu' = cpu.addVirtualInterrupt entry) := by
  have hbits : ∀ {p : Vector (BitVec 32) 32}, changeBankBit d.pending intId true = some p →
      ∀ n ≠ intId.toNat, bankTest p n = bankTest d.pending n := by
    intro p hp n hn
    rw [changeBankBit_eq hp, Function.update_of_ne hn]
  by_cases hid : intId.toNat < 1024
  · have hout := d.triggerInterrupt_outcome cpu physicalIntId hid
    rw [h] at hout
    cases hout with
    | off _ => exact ⟨⟨rfl, fun _ _ => rfl⟩, Or.inl ⟨rfl, rfl⟩⟩
    | masked p _ _ hp => exact ⟨⟨rfl, hbits hp⟩, Or.inl ⟨rfl, rfl⟩⟩
    | unrouted p _ _ _ hp => exact ⟨⟨rfl, hbits hp⟩, Or.inl ⟨rfl, rfl⟩⟩
    | loaded p router priority hpass _ hare hrouter hlocal hp hpriority =>
      exact ⟨⟨rfl, hbits hp⟩,
        Or.inr ⟨_, ⟨hpass, hare, ⟨router, hrouter, hlocal⟩, priority, hpriority, rfl⟩, rfl⟩⟩
    | sent p router priority _ _ _ _ _ _ hp _ => exact ⟨⟨rfl, hbits hp⟩, Or.inl ⟨rfl, rfl⟩⟩
  · rw [d.triggerInterrupt_of_ge cpu physicalIntId (by omega)] at h
    split_ifs at h
    cases h
    exact ⟨⟨rfl, fun _ _ => rfl⟩, Or.inl ⟨rfl, rfl⟩⟩

theorem redistributor_trigger {r r' : GicRedistributorMmio} {intId : BitVec 32}
    {physicalIntId : Option (BitVec 32)}
    (h : r.triggerInterrupt cpu intId physicalIntId = some (r', cpu')) :
    (r'.active = r.active ∧ ∀ n ≠ intId.toNat, r'.pending.getLsbD n = r.pending.getLsbD n) ∧
      (cpu'.ichVtrEl2 = cpu.ichVtrEl2 ∧ cpu'.ichLr = cpu.ichLr ∨
        ∃ entry, r.Loads cpu intId physicalIntId entry ∧ cpu' = cpu.addVirtualInterrupt entry) := by
  have hbits : ∀ n ≠ intId.toNat, (r.pend intId).pending.getLsbD n = r.pending.getLsbD n := by
    intro n hn
    by_cases hlt : n < 32
    · exact (getLsbD_or_bit r.pending hlt).trans (if_neg hn)
    · rw [BitVec.getLsbD_of_ge _ n (by omega), BitVec.getLsbD_of_ge _ n (by omega)]
  by_cases hid : intId.toNat < 32
  · have hout := r.triggerInterrupt_outcome cpu physicalIntId hid
    rw [h] at hout
    cases hout with
    | asleep _ => exact ⟨⟨rfl, fun _ _ => rfl⟩, Or.inl ⟨rfl, rfl⟩⟩
    | masked _ _ => exact ⟨⟨rfl, hbits⟩, Or.inl ⟨rfl, rfl⟩⟩
    | loaded priority hpass hlocal hpriority =>
      exact ⟨⟨rfl, hbits⟩, Or.inr ⟨_, ⟨hpass, hlocal, priority, hpriority, rfl⟩, rfl⟩⟩
    | sent priority _ _ _ _ => exact ⟨⟨rfl, hbits⟩, Or.inl ⟨rfl, rfl⟩⟩
  · rw [r.triggerInterrupt_of_ge cpu physicalIntId (by omega)] at h
    split_ifs at h
    cases h
    exact ⟨⟨rfl, fun _ _ => rfl⟩, Or.inl ⟨rfl, rfl⟩⟩

/-! ## The maintenance handler -/

theorem completeInterrupt_marked {vm vm' : Vm} {intId : BitVec 32}
    (h : vm.completeInterrupt intId = some vm') (hn : vm'.Marked n) :
    vm.Marked n ∧ n ≠ intId.toNat := by
  unfold Vm.completeInterrupt at h
  by_cases hspi : 32 ≤ intId.toNat
  · simp only [if_pos hspi, bind, Option.bind_eq_some_iff, pure, Option.some.injEq] at h
    obtain ⟨d₁, hd₁, d₂, hd₂, rfl⟩ := h
    obtain ⟨q, rfl, hq⟩ := GicDistributorMmio.changePendingStatus_eq hd₁
    obtain ⟨a, ha, rfl⟩ := Option.map_eq_some_iff.1 hd₂
    have ha := changeBankBit_eq ha
    unfold Vm.Marked at hn ⊢
    by_cases hge : 32 ≤ n
    · rw [if_pos hge] at hn ⊢
      dsimp only at hn ha
      rw [hq, ha] at hn
      by_cases hne : n = intId.toNat
      · simp [hne] at hn
      · rw [Function.update_of_ne hne, Function.update_of_ne hne] at hn
        exact ⟨hn, hne⟩
    · rw [if_neg hge] at hn ⊢
      exact ⟨hn, by omega⟩
  · simp only [if_neg hspi, bind, Option.bind_eq_some_iff, pure, Option.some.injEq] at h
    obtain ⟨r₁, hr₁, r₂, hr₂, rfl⟩ := h
    obtain ⟨q, rfl, hq⟩ := GicRedistributorMmio.changePendingStatus_eq hr₁
    obtain ⟨a, ha, rfl⟩ := Option.map_eq_some_iff.1 hr₂
    have ha := GicRedistributorMmio.changeRegisterBit_eq ha
    unfold Vm.Marked at hn ⊢
    by_cases hge : 32 ≤ n
    · rw [if_pos hge] at hn ⊢
      exact ⟨hn, by omega⟩
    · rw [if_neg hge] at hn ⊢
      dsimp only at hn ha
      rw [hq, ha] at hn
      by_cases hne : n = intId.toNat
      · simp [hne] at hn
      · rw [Function.update_of_ne hne, Function.update_of_ne hne] at hn
        exact ⟨hn, hne⟩

/-- The loop clears what the reported registers name, and empties them. -/
theorem maintenanceLoop_marked {eoiBits : ℕ → Bool} {k : ℕ} {vm vm' : Vm}
    {lr lr' : ListRegisters} (h : Vm.maintenanceLoop eoiBits k i vm lr = some (vm', lr')) :
    (∀ n, vm'.Marked n → vm.Marked n ∧
      ∀ j, i ≤ j → j < i + k → eoiBits j = true → n ≠ completedId (lr j)) ∧
      ∀ j, lr' j = lr j ∨ lr' j = 0 := by
  induction k generalizing i vm lr with
  | zero =>
    obtain ⟨rfl, rfl⟩ : vm = vm' ∧ lr = lr' := by simpa [Vm.maintenanceLoop] using h
    exact ⟨fun n hn => ⟨hn, fun j _ _ => by omega⟩, fun j => Or.inl rfl⟩
  | succ k ih =>
    unfold Vm.maintenanceLoop at h
    by_cases hi : eoiBits i = true
    · rw [if_pos hi] at h
      obtain ⟨vm₁, hvm₁, hrest⟩ := Option.bind_eq_some_iff.1 h
      obtain ⟨hmark, hlr⟩ := ih hrest
      refine ⟨fun n hn => ?_, fun j => ?_⟩
      · obtain ⟨hn₁, hlater⟩ := hmark n hn
        obtain ⟨hn₀, hfirst⟩ := completeInterrupt_marked hvm₁ hn₁
        refine ⟨hn₀, fun j hij hj hbit => ?_⟩
        by_cases hji : j = i
        · exact hji ▸ hfirst
        · simpa [hji] using hlater j (by omega) (by omega) hbit
      · by_cases hji : j = i
        · subst hji
          rcases hlr j with h | h
          · exact Or.inr (h.trans (Function.update_self ..))
          · exact Or.inr h
        · rw [← Function.update_of_ne hji 0 lr]
          exact hlr j
    · rw [if_neg hi] at h
      obtain ⟨hmark, hlr⟩ := ih h
      refine ⟨fun n hn => ⟨(hmark n hn).1, fun j hij hj hbit => ?_⟩, hlr⟩
      have hji : j ≠ i := fun hji => hi (hji ▸ hbit)
      exact (hmark n hn).2 j (by omega) (by omega) hbit

theorem Collecting.maintenance (h : s.Collecting) (hstep : s.Step .maintenance t) :
    t.Collecting := by
  simp only [Step, step, Vm.maintenanceInterruptHandler, Option.map_eq_some_iff] at hstep
  obtain ⟨_, ⟨⟨vm, lr⟩, hloop, rfl⟩, rfl⟩ := hstep
  obtain ⟨hmark, hlr⟩ := maintenanceLoop_marked hloop
  constructor
  · intro n hn hm
    obtain ⟨hm, hcleared⟩ := hmark n hm
    obtain ⟨i, hi, heoi, hid⟩ := h.awaited n hn hm
    exact absurd hid.symm (hcleared i (Nat.zero_le i) (by omega) heoi)
  · intro i hi
    rcases hlr i with hsame | hzero
    · exact (congrArg Inactive hsame).mpr (h.beyond i hi)
    · exact (congrArg Inactive hzero).mpr inactive_zero

/-! ## The guest -/

theorem onListRegister_self {f : BitVec 64 → BitVec 64} :
    (s.onListRegister i f).cpu.ichLr i = f (s.cpu.ichLr i) :=
  Function.update_self ..

theorem onListRegister_of_ne {f : BitVec 64 → BitVec 64} (h : j ≠ i) :
    (s.onListRegister i f).cpu.ichLr j = s.cpu.ichLr j :=
  Function.update_of_ne h ..

section Guest

variable {f : BitVec 64 → BitVec 64} (hid : ∀ x, vintid (f x) = vintid x)
  (hin : ∀ x, Inactive x → Inactive (f x)) (hrep : ∀ x, Reports (f x) ↔ Reports x)

include hid hin hrep

/-- The guest does not withdraw a report. -/
theorem Awaits.onListRegister (h : Awaits s.cpu j n) : Awaits (s.onListRegister i f).cpu j n := by
  by_cases hji : j = i
  · subst hji
    obtain ⟨hlt, heoi, hcompleted⟩ := h
    obtain ⟨hinactive, hreports⟩ := eoiStatus_eq_true.1 heoi
    refine ⟨hlt, ?_, ?_⟩
    · rw [eoiStatus_eq_true, onListRegister_self]
      exact ⟨hin _ hinactive, (hrep _).2 hreports⟩
    · rw [onListRegister_self, completedId, hid]
      exact hcompleted
  · exact h.of_lr (by rfl) (onListRegister_of_ne hji)

theorem Collecting.onListRegister (h : s.Collecting) : (s.onListRegister i f).Collecting where
  awaited n hn hmark := by
    obtain ⟨j, hj⟩ := h.awaited n hn hmark
    exact ⟨j, hj.onListRegister hid hin hrep⟩
  beyond j hj := by
    have hinactive := h.beyond j hj
    by_cases hji : j = i
    · subst hji
      rw [onListRegister_self]
      exact hin _ hinactive
    · rw [onListRegister_of_ne hji]
      exact hinactive

end Guest

theorem Collecting.acknowledge (h : s.Collecting) :
    (s.onListRegister i Vgic.acknowledge).Collecting :=
  h.onListRegister vintid_acknowledge (fun x hx => (inactive_acknowledge x).2 hx)
    reports_acknowledge

theorem inactive_deactivate_of_active {x : BitVec 64} (h : status x = ichLrnEl2StatusActive) :
    Inactive (Vgic.deactivate x) := by
  have hstatus : status (Vgic.deactivate x) = status x &&& ~~~ ichLrnEl2StatusActive := by
    rw [status, status, Vgic.deactivate, BitVec.and_assoc, BitVec.and_assoc,
      BitVec.and_comm (~~~ ichLrnEl2StatusActive)]
  rw [Inactive, hstatus, h]
  decide

/-- A register that is completed and reports. -/
theorem awaits_deactivate (hi : i < supportedLrn s.cpu.ichVtrEl2)
    (hactive : status (s.cpu.ichLr i) = ichLrnEl2StatusActive) (hrep : Reports (s.cpu.ichLr i)) :
    Awaits (s.onListRegister i Vgic.deactivate).cpu i (completedId (s.cpu.ichLr i)) := by
  refine ⟨hi, ?_, ?_⟩
  · rw [eoiStatus_eq_true, onListRegister_self]
    exact ⟨inactive_deactivate_of_active hactive, (reports_deactivate _).2 hrep⟩
  · rw [onListRegister_self, completedId, vintid_deactivate]
    rfl

theorem Collecting.deactivate (h : s.Collecting) (hguard : s.Collects (.deactivate i))
    (hstep : s.Step (.deactivate i) t) : t.Collecting := by
  obtain rfl := (Option.some.inj hstep).symm
  have hkept : (s.onListRegister i Vgic.deactivate).Collecting :=
    h.onListRegister vintid_deactivate (fun x hx => inactive_deactivate hx) reports_deactivate
  refine ⟨fun n hn hmark => ?_, hkept.beyond⟩
  by_cases hactive : status (s.cpu.ichLr i) = ichLrnEl2StatusActive
  · by_cases hsame : n = completedId (s.cpu.ichLr i)
    · subst hsame
      by_cases hlt : i < supportedLrn s.cpu.ichVtrEl2
      · obtain hrep | ⟨j, hj⟩ := hguard hlt hactive hmark
        · exact ⟨i, awaits_deactivate hlt hactive hrep⟩
        · exact ⟨j, hj.onListRegister vintid_deactivate (fun x hx => inactive_deactivate hx)
            reports_deactivate⟩
      · have hinactive : status (s.cpu.ichLr i) = ichLrnEl2StatusInactive :=
          h.beyond i (by omega)
        exact absurd (hactive.symm.trans hinactive) (by decide)
    · dsimp only at hn
      rw [if_pos hactive, Function.update_of_ne hsame] at hn
      exact hkept.awaited n hn hmark
  · dsimp only at hn
    rw [if_neg hactive] at hn
    exact hkept.awaited n hn hmark

/-! ## Runs -/

theorem marked_distributor {vm : Vm} {d : GicDistributorMmio} {m : ℕ}
    (hactive : d.active = vm.gicDistributorMmio.active)
    (hbits : ∀ n ≠ m, bankTest d.pending n = bankTest vm.gicDistributorMmio.pending n) (hn : n ≠ m)
    (h : Vm.Marked { vm with gicDistributorMmio := d } n) : vm.Marked n := by
  unfold Vm.Marked at h ⊢
  dsimp only at h
  rwa [hactive, hbits n hn] at h

theorem marked_redistributor {vm : Vm} {r : GicRedistributorMmio} {m : ℕ}
    (hactive : r.active = vm.gicRedistributorMmio.active)
    (hbits : ∀ n ≠ m, r.pending.getLsbD n = vm.gicRedistributorMmio.pending.getLsbD n)
    (hn : n ≠ m) (h : Vm.Marked { vm with gicRedistributorMmio := r } n) : vm.Marked n := by
  unfold Vm.Marked at h ⊢
  dsimp only at h
  rwa [hactive, hbits n hn] at h

/-- A completed interrupt that was not just triggered. -/
theorem done_of_update {done : ℕ → Bool} {m : ℕ} (h : Function.update done m false n = true) :
    n ≠ m ∧ done n = true := by
  have hne : n ≠ m := by
    rintro rfl
    rw [Function.update_self] at h
    exact absurd h (by decide)
  rw [Function.update_of_ne hne] at h
  exact ⟨hne, h⟩

theorem Collecting.triggerDistributor {other : Option Pcpu} {intId : BitVec 32}
    {physicalIntId : Option (BitVec 32)} (h : s.Collecting)
    (hguard : s.Collects (.triggerDistributor other intId physicalIntId))
    (hstep : s.Step (.triggerDistributor other intId physicalIntId) t) : t.Collecting := by
  obtain ⟨⟨d, cpu'⟩, htrigger, rfl⟩ := Option.map_eq_some_iff.1 hstep
  obtain ⟨⟨hactive, hbits⟩, hcpu⟩ := distributor_trigger htrigger
  have hdone : ∀ n, Function.update s.done intId.toNat false n = true →
      Vm.Marked { s.vm with gicDistributorMmio := d } n →
        n ≠ intId.toNat ∧ s.done n = true ∧ s.vm.Marked n := by
    intro n hn hmark
    obtain ⟨hne, hn⟩ := done_of_update hn
    exact ⟨hne, hn, marked_distributor hactive hbits hne hmark⟩
  cases other with
  | some q => exact h.of_cpu rfl rfl fun n hn hmark => (hdone n hn hmark).2
  | none =>
    obtain ⟨hvtr, hlr⟩ | ⟨entry, hloads, hadd⟩ := hcpu
    · exact h.of_cpu hvtr hlr fun n hn hmark => (hdone n hn hmark).2
    · obtain rfl : cpu' = s.cpu.addVirtualInterrupt entry := hadd
      refine h.add fun n hn hmark => ?_
      obtain ⟨hne, hn, hmark⟩ := hdone n hn hmark
      exact ⟨hn, hmark, hguard entry hloads n hne hn hmark⟩

theorem Collecting.triggerRedistributor {other : Option Pcpu} {intId : BitVec 32}
    {physicalIntId : Option (BitVec 32)} (h : s.Collecting)
    (hguard : s.Collects (.triggerRedistributor other intId physicalIntId))
    (hstep : s.Step (.triggerRedistributor other intId physicalIntId) t) : t.Collecting := by
  obtain ⟨⟨r, cpu'⟩, htrigger, rfl⟩ := Option.map_eq_some_iff.1 hstep
  obtain ⟨⟨hactive, hbits⟩, hcpu⟩ := redistributor_trigger htrigger
  have hdone : ∀ n, Function.update s.done intId.toNat false n = true →
      Vm.Marked { s.vm with gicRedistributorMmio := r } n →
        n ≠ intId.toNat ∧ s.done n = true ∧ s.vm.Marked n := by
    intro n hn hmark
    obtain ⟨hne, hn⟩ := done_of_update hn
    exact ⟨hne, hn, marked_redistributor hactive hbits hne hmark⟩
  cases other with
  | some q => exact h.of_cpu rfl rfl fun n hn hmark => (hdone n hn hmark).2
  | none =>
    obtain ⟨hvtr, hlr⟩ | ⟨entry, hloads, hadd⟩ := hcpu
    · exact h.of_cpu hvtr hlr fun n hn hmark => (hdone n hn hmark).2
    · obtain rfl : cpu' = s.cpu.addVirtualInterrupt entry := hadd
      refine h.add fun n hn hmark => ?_
      obtain ⟨hne, hn, hmark⟩ := hdone n hn hmark
      exact ⟨hn, hmark, hguard entry hloads n hne hn hmark⟩

theorem collecting_step (s : Station) (e : StationEvent) (t : Station) (h : s.Collecting)
    (hguard : s.Collects e) (hstep : s.Step e t) : t.Collecting := by
  cases e with
  | triggerDistributor other intId physicalIntId => exact h.triggerDistributor hguard hstep
  | triggerRedistributor other intId physicalIntId => exact h.triggerRedistributor hguard hstep
  | addVirtualInterrupt entry =>
    obtain rfl := (Option.some.inj hstep).symm
    exact h.add fun n hn hmark => ⟨hn, hmark, hguard n hn hmark⟩
  | acknowledge i =>
    obtain rfl := (Option.some.inj hstep).symm
    exact h.acknowledge
  | deactivate i => exact h.deactivate hguard hstep
  | maintenance => exact h.maintenance hstep

theorem Fresh.collecting (h : s.Fresh) : s.Collecting where
  awaited n hn _ := absurd hn (by rw [h.done]; decide)
  beyond i _ := h.inactive i

/-- From free list registers, as long as every step leaves the reports in place: once no
maintenance interrupt is outstanding, the pending and the active bit of every interrupt
that was completed and not triggered since are clear. -/
theorem completed_clear_of_run {s₀ t : Station} (hfresh : s₀.Fresh)
    (hrun : Runs.GuardedRun Step Collects s₀ t)
    (hquiet : ∀ i < supportedLrn t.cpu.ichVtrEl2, eoiStatus (t.cpu.ichLr i) = false) (n : ℕ)
    (hdone : t.done n = true) : ¬t.vm.Marked n := by
  intro hmark
  have hcollecting : t.Collecting := hrun.invariant collecting_step hfresh.collecting
  obtain ⟨i, hi, heoi, -⟩ := hcollecting.awaited n hdone hmark
  exact absurd heoi (by rw [hquiet i hi]; decide)

/-- A VM whose block device, UART and timer interrupts are enabled. -/
def sampleStation : Station where
  vm := ⟨0x40000000, 0x50000000, 0x10000000,
    { GicDistributorMmio.new 0 with
      ctlr := 0x12
      enable := (Vector.replicate 32 0).set 1 0x102 },
    { GicRedistributorMmio.new 0 0x80000000 with
      waker := 0
      enable := 0x08000000 },
    Pl011Mmio.new⟩
  cpu := ⟨0x80000000, 0, 3, fun _ => 0, [], []⟩
  done _ := false

theorem sampleStation_fresh : sampleStation.Fresh where
  inactive _ := inactive_zero
  done _ := rfl

/-! The block device's interrupt is taken, completed and collected. -/

def blockTriggered : Station :=
  (sampleStation.step (.triggerDistributor none 40 none)).get (by decide +kernel)

def blockTaken : Station := blockTriggered.onListRegister 0 Vgic.acknowledge

def blockCompleted : Station := (blockTaken.step (.deactivate 0)).get rfl

def blockCollected : Station := (blockCompleted.step .maintenance).get (by decide +kernel)

theorem blockCollected_clear :
    Runs.GuardedRun Step Collects sampleStation blockCollected ∧ blockCollected.done 40 = true ∧
      ¬blockCollected.vm.Marked 40 := by
  have htrigger : sampleStation.Collects (.triggerDistributor none 40 none) := by
    intro entry _ n _ hdone
    exact absurd hdone Bool.false_ne_true
  have hdeactivate : blockTaken.Collects (.deactivate 0) := by
    intro _ _ _
    exact Or.inl ⟨by decide +kernel, by decide +kernel⟩
  have hrun : Runs.GuardedRun Step Collects sampleStation blockCollected :=
    Runs.GuardedRun.cons htrigger (Option.some_get _).symm <|
      Runs.GuardedRun.cons (show blockTriggered.Collects (.acknowledge 0) from trivial) rfl <|
      Runs.GuardedRun.cons hdeactivate rfl <|
      Runs.GuardedRun.cons (show blockCompleted.Collects .maintenance from trivial)
        (Option.some_get _).symm (Runs.GuardedRun.refl _)
  have hquiet : ∀ i < supportedLrn blockCollected.cpu.ichVtrEl2,
      eoiStatus (blockCollected.cpu.ichLr i) = false := by
    decide +kernel
  have hdone : blockCollected.done 40 = true := by decide +kernel
  exact ⟨hrun, hdone, completed_clear_of_run sampleStation_fresh hrun hquiet 40 hdone⟩

/-- The timer's interrupt is backed by a physical one. It is taken and completed, and no
maintenance interrupt reports it. -/
def timerEvents : List StationEvent :=
  [.triggerRedistributor none 27 (some 27), .acknowledge 0, .deactivate 0, .maintenance]

/-- The block device's interrupt is completed, and the UART's takes its register before the
maintenance handler runs. -/
def reuseEvents : List StationEvent :=
  [.triggerDistributor none 40 none, .acknowledge 0, .deactivate 0,
    .triggerDistributor none 33 none, .maintenance]

def timerCompleted : Station := (timerEvents.foldlM step sampleStation).get (by decide +kernel)

def registerReused : Station := (reuseEvents.foldlM step sampleStation).get (by decide +kernel)

theorem completed_still_marked :
    sampleStation.Fresh ∧
      (Runs.Run Step sampleStation timerCompleted ∧
        (∀ i < supportedLrn timerCompleted.cpu.ichVtrEl2,
          eoiStatus (timerCompleted.cpu.ichLr i) = false) ∧
        timerCompleted.done 27 = true ∧ timerCompleted.vm.Marked 27) ∧
      Runs.Run Step sampleStation registerReused ∧
        (∀ i < supportedLrn registerReused.cpu.ichVtrEl2,
          eoiStatus (registerReused.cpu.ichLr i) = false) ∧
        registerReused.done 40 = true ∧ registerReused.vm.Marked 40 := by
  refine ⟨sampleStation_fresh, ⟨Runs.Run.of_foldlM (Option.some_get _).symm, by decide +kernel,
    by decide +kernel, Or.inl (by decide +kernel)⟩, Runs.Run.of_foldlM (Option.some_get _).symm,
    by decide +kernel, by decide +kernel, Or.inl (by decide +kernel)⟩

end Station

end MiniVisor
