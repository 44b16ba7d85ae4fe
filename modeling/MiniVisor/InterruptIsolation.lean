import MiniVisor.ControllerWrites
import MiniVisor.InterruptSystem

/-!
# Interrupts and the VM they belong to

A controller only ever makes entries that carry its own VM, and its queue is
drained only on CPUs that run that VM. The one way an entry reaches a foreign
CPU is the local path of `trigger_interrupt` when the handler itself runs on a
foreign CPU, which happens for console input.
-/
namespace MiniVisor

/-- A handler of a controller on some CPU: the queue and the load log only grow
by entries that the controller made. -/
structure Confined (c : ControllerView) (cpu : Pcpu) (c' : ControllerView) (cpu' : Pcpu) :
    Prop where
  owner : c'.owner = c.owner
  queue : ∀ e ∈ c'.queue, e ∈ c.queue ∨ e.creator = c.owner
  loads : ∀ e ∈ cpu'.loads, e ∈ cpu.loads ∨ e.creator = c.owner
  tpidr : cpu'.tpidrEl2 = cpu.tpidrEl2

namespace Confined

theorem refl (c : ControllerView) (cpu : Pcpu) : Confined c cpu c cpu :=
  ⟨rfl, fun _ he => .inl he, fun _ he => .inl he, rfl⟩

theorem trans {c c₁ c' : ControllerView} {cpu cpu₁ cpu' : Pcpu}
    (h : Confined c cpu c₁ cpu₁) (h' : Confined c₁ cpu₁ c' cpu') : Confined c cpu c' cpu' where
  owner := h'.owner.trans h.owner
  queue e he := (h'.queue e he).elim (h.queue e) fun ho => .inr (ho.trans h.owner)
  loads e he := (h'.loads e he).elim (h.loads e) fun ho => .inr (ho.trans h.owner)
  tpidr := h'.tpidr.trans h.tpidr

theorem of_triggered {c c' : ControllerView} {cpu cpu' : Pcpu} {n : ℕ} {isLocal : Prop}
    (h : c.Triggered cpu n isLocal c' cpu') : Confined c cpu c' cpu' := by
  cases h with
  | disabled => exact refl _ _
  | masked => exact ⟨rfl, fun _ he => .inl he, fun _ he => .inl he, rfl⟩
  | loaded e _ _ hmakes =>
    refine ⟨rfl, fun _ he => .inl he, fun e' he' => ?_, rfl⟩
    obtain he' | he' := List.mem_append.1 he'
    · exact .inl he'
    · rw [List.mem_singleton.1 he']
      exact .inr hmakes.2.2
  | queued e sgi _ _ hmakes =>
    refine ⟨rfl, fun e' he' => ?_, fun _ he => .inl he, rfl⟩
    obtain he' | he' := List.mem_append.1 he'
    · exact .inl he'
    · rw [List.mem_singleton.1 he']
      exact .inr hmakes.2.2

theorem of_triggerRun {c c' : ControllerView} {cpu cpu' : Pcpu} {ns : List ℕ}
    (h : ControllerView.TriggerRun c cpu ns c' cpu') : Confined c cpu c' cpu' := by
  induction h with
  | nil => exact refl _ _
  | cons htr _ ih => exact (of_triggered htr).trans ih

theorem of_written {c c' : ControllerView} {cpu cpu' : Pcpu} {uncovers : ℕ → Prop}
    (h : c.Written cpu uncovers c' cpu') : Confined c cpu c' cpu' := by
  cases h with
  | quiet _ hq ho _ => exact ⟨ho, fun _ he => .inl (hq ▸ he), fun _ he => .inl he, rfl⟩
  | raised c₁ _ _ ns hq ho _ hrun =>
    have hraise : Confined c cpu c₁ cpu :=
      ⟨ho, fun _ he => .inl (hq ▸ he), fun _ he => .inl he, rfl⟩
    exact hraise.trans (of_triggerRun hrun)

end Confined

/-- Only the local path of a deliverable interrupt loads a list register. -/
theorem loads_eq_of_not_local {c c' : ControllerView} {cpu cpu' : Pcpu} {n : ℕ} {isLocal : Prop}
    (h : c.Triggered cpu n isLocal c' cpu') (hno : isLocal → ¬ (c.setPending n).Due n) :
    cpu'.loads = cpu.loads := by
  cases h with
  | disabled => rfl
  | masked => rfl
  | loaded _ hlocal hdue _ => exact absurd hdue (hno hlocal)
  | queued => rfl

namespace Machine

/-- Both controllers of the VM carry its id and queue only their own entries. -/
structure OwnedBy (vmId : ℕ) (vm : Vm) : Prop where
  distributor : vm.gicDistributorMmio.owner = vmId
  redistributor : vm.gicRedistributorMmio.owner = vmId
  distributorQueue : ∀ e ∈ vm.gicDistributorMmio.toInjectInterrupt, e.creator = vmId
  redistributorQueue : ∀ e ∈ vm.gicRedistributorMmio.toInjectInterrupt, e.creator = vmId

/-- Every entry handed to a list register of a CPU was created by the
distributor or redistributor of the VM that runs there. -/
def LoadsStayHome (s : Machine) : Prop :=
  ∀ p, ∀ e ∈ (s.cpus p).loads, e.creator = (s.cpus p).tpidrEl2

/-- The invariant behind `LoadsStayHome`. -/
structure Isolated (s : Machine) : Prop where
  owned : ∀ vmId vm, s.vmList vmId = some vm → OwnedBy vmId vm
  loads : s.LoadsStayHome

/-- Console input taken on CPU `p` would be loaded there although the active VM
runs elsewhere: its receive interrupt is unmasked and deliverable, and the guest
routed it to `p`. -/
def Misdirected (s : Machine) (p : ℕ) : Prop :=
  ∃ vmId vm, s.activeVm = some vmId ∧ s.vmList vmId = some vm ∧
    vmId ≠ (s.cpus p).tpidrEl2 ∧ vm.pl011Mmio.interruptMask &&& uartImscRxim ≠ 0 ∧
    (vm.gicDistributorMmio.view.setPending pl011IntId.toNat).Due pl011IntId.toNat ∧
    vm.gicDistributorMmio.IsLocal (s.cpus p) pl011IntId

/-- No step of the run takes console input on a CPU that it is misdirected to. -/
def InputWellRouted (s : Machine) : Event → Prop
  | .inputUart p _ => ¬ s.Misdirected p
  | _ => True

/-- A handler of VM `vmId` on CPU `p` keeps the invariant when its controllers
stay confined and it loads nothing on a foreign CPU. -/
theorem Isolated.put {s : Machine} (hs : s.Isolated) {p vmId : ℕ} {vm' : Vm} {cpu' : Pcpu}
    (howned : OwnedBy vmId vm') (htpidr : cpu'.tpidrEl2 = (s.cpus p).tpidrEl2)
    (hloads : ∀ e ∈ cpu'.loads, e ∈ (s.cpus p).loads ∨ e.creator = (s.cpus p).tpidrEl2) :
    (s.put p cpu' vmId vm').Isolated := by
  refine ⟨fun id vm₁ hvm₁ => ?_, fun q e he => ?_⟩
  · by_cases hid : id = vmId
    · subst hid
      rw [put_vmList_self] at hvm₁
      exact Option.some.inj hvm₁ ▸ howned
    · rw [put_vmList_of_ne _ _ _ _ _ hid] at hvm₁
      exact hs.owned id vm₁ hvm₁
  · by_cases hq : q = p
    · subst hq
      rw [put_cpus_self] at he ⊢
      rw [htpidr]
      exact (hloads e he).elim (hs.loads q e) id
    · rw [put_cpus_of_ne _ _ _ _ _ hq] at he ⊢
      exact hs.loads q e he

theorem OwnedBy.withDistributor {vmId : ℕ} {vm : Vm} {d : GicDistributorMmio} {cpu cpu' : Pcpu}
    (h : OwnedBy vmId vm) (hc : Confined vm.gicDistributorMmio.view cpu d.view cpu')
    (u : Pl011Mmio) : OwnedBy vmId { vm with gicDistributorMmio := d, pl011Mmio := u } where
  distributor := hc.owner.trans h.distributor
  redistributor := h.redistributor
  distributorQueue e he :=
    (hc.queue e he).elim (h.distributorQueue e) fun ho => ho.trans h.distributor
  redistributorQueue := h.redistributorQueue

theorem OwnedBy.withRedistributor {vmId : ℕ} {vm : Vm} {r : GicRedistributorMmio}
    {cpu cpu' : Pcpu} (h : OwnedBy vmId vm)
    (hc : Confined vm.gicRedistributorMmio.view cpu r.view cpu') :
    OwnedBy vmId { vm with gicRedistributorMmio := r } where
  distributor := h.distributor
  redistributor := hc.owner.trans h.redistributor
  distributorQueue := h.distributorQueue
  redistributorQueue e he :=
    (hc.queue e he).elim (h.redistributorQueue e) fun ho => ho.trans h.redistributor

theorem foldl_addVirtualInterrupt (l : List ListEntry) (cpu : Pcpu) :
    (l.foldl Pcpu.addVirtualInterrupt cpu).tpidrEl2 = cpu.tpidrEl2 ∧
      (l.foldl Pcpu.addVirtualInterrupt cpu).loads = cpu.loads ++ l := by
  induction l generalizing cpu with
  | nil => simp
  | cons e l ih =>
    obtain ⟨ht, hl⟩ := ih (cpu.addVirtualInterrupt e)
    refine ⟨ht, ?_⟩
    rw [List.foldl_cons, hl]
    simp [Pcpu.addVirtualInterrupt]

theorem OwnedBy.completeInterrupt {vmId : ℕ} {vm vm' : Vm} {intId : BitVec 32}
    (h : OwnedBy vmId vm) (hc : vm.completeInterrupt intId = some vm') : OwnedBy vmId vm' := by
  unfold Vm.completeInterrupt at hc
  split_ifs at hc
  · simp only [bind, Option.bind_eq_some_iff, pure, Option.some.injEq] at hc
    obtain ⟨d₁, hd₁, d₂, hd₂, rfl⟩ := hc
    obtain ⟨_, _, rfl⟩ := Option.map_eq_some_iff.1 hd₁
    obtain ⟨_, _, rfl⟩ := Option.map_eq_some_iff.1 hd₂
    exact ⟨h.distributor, h.redistributor, h.distributorQueue, h.redistributorQueue⟩
  · simp only [bind, Option.bind_eq_some_iff, pure, Option.some.injEq] at hc
    obtain ⟨r₁, hr₁, r₂, hr₂, rfl⟩ := hc
    obtain ⟨_, _, rfl⟩ := Option.map_eq_some_iff.1 hr₁
    obtain ⟨_, _, rfl⟩ := Option.map_eq_some_iff.1 hr₂
    exact ⟨h.distributor, h.redistributor, h.distributorQueue, h.redistributorQueue⟩

theorem OwnedBy.maintenanceLoop {vmId : ℕ} {eoiBits : ℕ → Bool} {n i : ℕ} {vm vm' : Vm}
    {lr lr' : ListRegisters} (h : OwnedBy vmId vm)
    (hl : Vm.maintenanceLoop eoiBits n i vm lr = some (vm', lr')) : OwnedBy vmId vm' := by
  induction n generalizing i vm lr with
  | zero =>
    obtain ⟨rfl, rfl⟩ : vm = vm' ∧ lr = lr' := by simpa [Vm.maintenanceLoop] using hl
    exact h
  | succ n ih =>
    unfold Vm.maintenanceLoop at hl
    split_ifs at hl
    · obtain ⟨vm₁, hvm₁, hrest⟩ := Option.bind_eq_some_iff.1 hl
      exact ih (h.completeInterrupt hvm₁) hrest
    · exact ih h hl

/-- Console input keeps the invariant as long as it is not misdirected. -/
theorem Isolated.inputUart {s : Machine} (hs : s.Isolated) {p vmId : ℕ} {c : BitVec 8}
    {vm vm' : Vm} {cpu' : Pcpu} (hactive : s.activeVm = some vmId)
    (hvm : s.vmList vmId = some vm) (hin : vm.inputUart (s.cpus p) c = some (vm', cpu'))
    (hroute : ¬ s.Misdirected p) : (s.put p cpu' vmId vm').Isolated := by
  have hown := hs.owned vmId vm hvm
  obtain ⟨⟨u, d, cpu₁⟩, hpush, heq⟩ := Option.map_eq_some_iff.1 hin
  obtain ⟨rfl, rfl⟩ := Prod.mk.injEq .. ▸ heq
  unfold Pl011Mmio.push at hpush
  dsimp only at hpush
  by_cases hmask : vm.pl011Mmio.interruptMask &&& uartImscRxim ≠ 0
  · rw [if_pos hmask] at hpush
    obtain ⟨⟨d₁, cpu₂⟩, htrig, hret⟩ := Option.bind_eq_some_iff.1 hpush
    obtain ⟨rfl, rfl, rfl⟩ : _ = u ∧ d₁ = d ∧ cpu₂ = cpu₁ := by simpa using hret
    have htr := GicDistributorMmio.triggerInterrupt_triggered htrig
    have hconf := Confined.of_triggered htr
    refine hs.put (hown.withDistributor hconf _) hconf.tpidr fun e he => ?_
    by_cases hhome : vmId = (s.cpus p).tpidrEl2
    · exact (hconf.loads e he).imp id fun ho => ho.trans (hown.distributor.trans hhome)
    · -- on a foreign CPU the guard leaves no outcome that loads a register
      rw [loads_eq_of_not_local htr fun hlocal hdue =>
        hroute ⟨vmId, vm, hactive, hvm, hhome, hmask, hdue, hlocal⟩] at he
      exact .inl he
  · rw [if_neg hmask] at hpush
    obtain ⟨rfl, rfl, rfl⟩ : _ = u ∧ vm.gicDistributorMmio = d ∧ s.cpus p = cpu₁ := by
      simpa using hpush
    exact hs.put ⟨hown.distributor, hown.redistributor, hown.distributorQueue,
      hown.redistributorQueue⟩ rfl fun e he => .inl he

theorem Isolated.onListRegister {s : Machine} (hs : s.Isolated) (p i : ℕ)
    (f : BitVec 64 → BitVec 64) : (s.onListRegister p i f).Isolated := by
  refine ⟨hs.owned, fun q e he => ?_⟩
  by_cases hq : q = p
  · subst hq
    simp only [Machine.onListRegister, Function.update_self] at he ⊢
    exact hs.loads q e he
  · simp only [Machine.onListRegister, Function.update_of_ne hq] at he ⊢
    exact hs.loads q e he

theorem isolated_step (s : Machine) (e : Event) (t : Machine) (hs : s.Isolated)
    (hguard : s.InputWellRouted e) (hstep : s.Step e t) : t.Isolated := by
  cases e with
  | writeDistributor p offset width value =>
    rw [Step, step, onCurrentVm, onVm_eq_some] at hstep
    obtain ⟨vm, vm', cpu', hvm, hw, rfl⟩ := hstep
    have hown := hs.owned _ vm hvm
    obtain ⟨⟨d, cpu₁⟩, hd, heq⟩ := Option.map_eq_some_iff.1 hw
    obtain ⟨rfl, rfl⟩ := Prod.mk.injEq .. ▸ heq
    have hconf := Confined.of_written (GicDistributorMmio.write_written hd)
    exact hs.put (hown.withDistributor hconf _) hconf.tpidr fun e he =>
      (hconf.loads e he).imp id fun ho => ho.trans hown.distributor
  | writeRedistributor p offset width value =>
    rw [Step, step, onCurrentVm, onVm_eq_some] at hstep
    obtain ⟨vm, vm', cpu', hvm, hw, rfl⟩ := hstep
    have hown := hs.owned _ vm hvm
    obtain ⟨⟨r, cpu₁⟩, hr, heq⟩ := Option.map_eq_some_iff.1 hw
    obtain ⟨rfl, rfl⟩ := Prod.mk.injEq .. ▸ heq
    have hconf := Confined.of_written (GicRedistributorMmio.write_written hr)
    exact hs.put (hown.withRedistributor hconf) hconf.tpidr fun e he =>
      (hconf.loads e he).imp id fun ho => ho.trans hown.redistributor
  | readPl011 p offset =>
    rw [Step, step, onCurrentVm, onVm_eq_some] at hstep
    obtain ⟨vm, vm', cpu', hvm, hr, rfl⟩ := hstep
    have hown := hs.owned _ vm hvm
    obtain ⟨rfl, rfl⟩ : _ = vm' ∧ s.cpus p = cpu' := by simpa using hr
    exact hs.put ⟨hown.distributor, hown.redistributor, hown.distributorQueue,
      hown.redistributorQueue⟩ rfl fun e he => .inl he
  | writePl011 p offset value =>
    rw [Step, step, onCurrentVm, onVm_eq_some] at hstep
    obtain ⟨vm, vm', cpu', hvm, hr, rfl⟩ := hstep
    have hown := hs.owned _ vm hvm
    obtain ⟨rfl, rfl⟩ : _ = vm' ∧ s.cpus p = cpu' := by simpa using hr
    exact hs.put ⟨hown.distributor, hown.redistributor, hown.distributorQueue,
      hown.redistributorQueue⟩ rfl fun e he => .inl he
  | inputUart p c =>
    obtain ⟨vmId, hactive, hrun⟩ := Option.bind_eq_some_iff.1 hstep
    obtain ⟨vm, vm', cpu', hvm, hin, rfl⟩ := onVm_eq_some.1 hrun
    exact hs.inputUart hactive hvm hin hguard
  | switchActiveVm vmId =>
    simp only [Step, step] at hstep
    split at hstep <;> obtain rfl := Option.some.inj hstep
    · exact ⟨hs.owned, hs.loads⟩
    · exact hs
  | blockCompletion p =>
    rw [Step, step, onCurrentVm, onVm_eq_some] at hstep
    obtain ⟨vm, vm', cpu', hvm, hw, rfl⟩ := hstep
    have hown := hs.owned _ vm hvm
    obtain ⟨⟨d, cpu₁⟩, hd, heq⟩ := Option.map_eq_some_iff.1 hw
    obtain ⟨rfl, rfl⟩ := Prod.mk.injEq .. ▸ heq
    have hconf := Confined.of_triggered (GicDistributorMmio.triggerInterrupt_triggered hd)
    exact hs.put (hown.withDistributor hconf _) hconf.tpidr fun e he =>
      (hconf.loads e he).imp id fun ho => ho.trans hown.distributor
  | genericTimer p physicalIntId =>
    rw [Step, step, onCurrentVm, onVm_eq_some] at hstep
    obtain ⟨vm, vm', cpu', hvm, hw, rfl⟩ := hstep
    have hown := hs.owned _ vm hvm
    obtain ⟨⟨r, cpu₁⟩, hr, heq⟩ := Option.map_eq_some_iff.1 hw
    obtain ⟨rfl, rfl⟩ := Prod.mk.injEq .. ▸ heq
    have hconf := Confined.of_triggered (GicRedistributorMmio.triggerInterrupt_triggered hr)
    exact hs.put (hown.withRedistributor hconf) hconf.tpidr fun e he =>
      (hconf.loads e he).imp id fun ho => ho.trans hown.redistributor
  | injectInterrupt p =>
    rw [Step, step, onCurrentVm, onVm_eq_some] at hstep
    obtain ⟨vm, vm', cpu', hvm, hin, rfl⟩ := hstep
    have hown := hs.owned _ vm hvm
    obtain ⟨rfl, rfl⟩ := Prod.mk.injEq .. ▸ Option.some.inj hin
    obtain ⟨ht₁, hl₁⟩ :=
      foldl_addVirtualInterrupt vm.gicDistributorMmio.toInjectInterrupt (s.cpus p)
    obtain ⟨ht₂, hl₂⟩ := foldl_addVirtualInterrupt vm.gicRedistributorMmio.toInjectInterrupt
      (vm.gicDistributorMmio.toInjectInterrupt.foldl Pcpu.addVirtualInterrupt (s.cpus p))
    refine hs.put ⟨hown.distributor, hown.redistributor, by simp, by simp⟩
      (ht₂.trans ht₁) fun e he => ?_
    rw [hl₂, hl₁, List.mem_append, List.mem_append] at he
    obtain (he | he) | he := he
    · exact .inl he
    · exact .inr (hown.distributorQueue e he)
    · exact .inr (hown.redistributorQueue e he)
  | maintenance p =>
    rw [Step, step, onCurrentVm, onVm_eq_some] at hstep
    obtain ⟨vm, vm', cpu', hvm, hm, rfl⟩ := hstep
    have hown := hs.owned _ vm hvm
    obtain ⟨⟨vm₁, lr⟩, hloop, heq⟩ := Option.map_eq_some_iff.1 hm
    obtain ⟨rfl, rfl⟩ := Prod.mk.injEq .. ▸ heq
    exact hs.put (hown.maintenanceLoop hloop) rfl fun e he => .inl he
  | acknowledge p i =>
    obtain rfl := Option.some.inj hstep
    exact hs.onListRegister p i _
  | deactivate p i =>
    obtain rfl := Option.some.inj hstep
    exact hs.onListRegister p i _

theorem Booted.isolated {s : Machine} (h : s.Booted) : s.Isolated := by
  refine ⟨fun vmId vm hvm => ?_, fun p e he => ?_⟩
  · have hd := h.distributor vmId vm hvm
    obtain ⟨mpidr, hr⟩ := h.redistributor vmId vm hvm
    constructor <;> simp [hd, hr, GicDistributorMmio.new, GicRedistributorMmio.new]
  · rw [h.loads p] at he
    exact absurd he (by simp)

/-- In every run in which console input is never taken on a CPU that it is
misdirected to, no list register is ever loaded with another VM's entry. -/
theorem loads_stay_home_of_well_routed {s t : Machine} (hboot : s.Booted)
    (hrun : Runs.GuardedRun Step InputWellRouted s t) : t.LoadsStayHome :=
  (hrun.invariant isolated_step hboot.isolated).loads

/-- Two CPUs, each running the VM of its own number; the console belongs to VM 1. -/
def twoVms : Machine where
  cpus p := ⟨0x80000000 + BitVec.ofNat 64 p, p, 3, fun _ => 0, [], []⟩
  vmList vmId :=
    if vmId < 2 then
      some ⟨0x40000000, 0x50000000 + vmId * 0x10000000, 0x10000000, GicDistributorMmio.new vmId,
        GicRedistributorMmio.new vmId (0x80000000 + BitVec.ofNat 64 vmId), Pl011Mmio.new⟩
    else none
  activeVm := some 1

/-- The guest of VM 1 enables its distributor, its UART interrupt and the
receive mask. It never writes `IROUTER`, so the route stays at affinity 0. -/
def enableUart : List Event :=
  [.writeDistributor 1 gicdCtlr 32 0x12, .writeDistributor 1 (gicdIsenabler0 + 4) 32 0b10,
    .writePl011 1 uartImsc 0x10]

theorem booted_twoVms : twoVms.Booted where
  distributor vmId vm h := by
    simp only [twoVms] at h
    split_ifs at h
    rw [← Option.some.inj h]
  redistributor vmId vm h := by
    simp only [twoVms] at h
    split_ifs at h
    exact ⟨_, by rw [← Option.some.inj h]⟩
  loads _ := rfl
  inactive _ _ := by
    rw [Vgic.inactive_iff]
    simp [twoVms]

/-- A byte typed at the console is taken on CPU 0 and the interrupt of VM 1 ends
up in a list register of the CPU that runs VM 0. -/
theorem console_input_loads_foreign_cpu :
    twoVms.Booted ∧ ∃ t, Runs.Run Step twoVms t ∧ ¬ t.LoadsStayHome ∧
      (t.cpus 0).tpidrEl2 = 0 ∧ (t.cpus 0).loads.map ListEntry.creator = [1] ∧
      ¬ Vgic.Inactive ((t.cpus 0).ichLr 0) ∧
      Vgic.vintid ((t.cpus 0).ichLr 0) = pl011IntId.setWidth 64 := by
  have hsome : ((enableUart ++ [Event.inputUart 0 0x61]).foldlM step twoVms).isSome = true := rfl
  obtain ⟨t, ht⟩ := Option.isSome_iff_exists.1 hsome
  have hview : ((enableUart ++ [Event.inputUart 0 0x61]).foldlM step twoVms).map
      (fun t => ((t.cpus 0).tpidrEl2, (t.cpus 0).loads.map ListEntry.creator,
        Vgic.status ((t.cpus 0).ichLr 0), Vgic.vintid ((t.cpus 0).ichLr 0))) =
      some (0, [1], ichLrnEl2StatusPending, pl011IntId.setWidth 64) := rfl
  rw [ht] at hview
  simp only [Option.map_some, Option.some.injEq, Prod.mk.injEq] at hview
  obtain ⟨htpidr, hcreator, hstatus, hid⟩ := hview
  refine ⟨booted_twoVms, t, Runs.Run.of_foldlM ht, fun hhome => ?_, htpidr, hcreator, ?_, hid⟩
  · obtain ⟨e, he, hone⟩ : ∃ e ∈ (t.cpus 0).loads, e.creator = 1 := by
      have hmem : 1 ∈ (t.cpus 0).loads.map ListEntry.creator := by rw [hcreator]; simp
      exact List.mem_map.1 hmem
    have hzero := hhome 0 e he
    rw [hone, htpidr] at hzero
    exact absurd hzero (by decide)
  · rw [Vgic.Inactive, hstatus]
    decide

/-- Interrupt 33 routed to CPU 1 by the guest of VM 1. -/
def enableUartOnHomeCpu : List Event :=
  enableUart ++ [.writeDistributor 1 (gicdIrouter0 + 8 * 33) 64 1]

/-- The same input taken on the CPU of VM 1 is loaded there. -/
theorem console_input_loads_home_cpu :
    ∃ t, Runs.GuardedRun Step InputWellRouted twoVms t ∧ t.LoadsStayHome ∧
      (t.cpus 1).loads.map ListEntry.creator = [1] := by
  have hsome : (enableUartOnHomeCpu.foldlM step twoVms).isSome = true := rfl
  obtain ⟨s, hs⟩ := Option.isSome_iff_exists.1 hsome
  have hview : (enableUartOnHomeCpu.foldlM step twoVms).map (fun s => (s.activeVm,
      (s.cpus 1).tpidrEl2,
      (s.step (.inputUart 1 0x61)).map fun t => (t.cpus 1).loads.map ListEntry.creator)) =
      some (some 1, 1, some [1]) := rfl
  rw [hs] at hview
  simp only [Option.map_some, Option.some.injEq, Prod.mk.injEq] at hview
  obtain ⟨hactive, htpidr, hlast⟩ := hview
  obtain ⟨t, ht, hloads⟩ := Option.map_eq_some_iff.1 hlast
  have hquiet : ∀ e ∈ enableUartOnHomeCpu, ∀ s, InputWellRouted s e := by
    intro e he s
    simp only [enableUartOnHomeCpu, enableUart, List.cons_append, List.nil_append, List.mem_cons,
      List.not_mem_nil, or_false] at he
    obtain rfl | rfl | rfl | rfl := he <;> trivial
  have hguard : s.InputWellRouted (.inputUart 1 0x61) := by
    rintro ⟨vmId, vm, hid, -, hne, -⟩
    rw [hactive] at hid
    exact hne (by rw [htpidr, ← Option.some.inj hid])
  have hrun : Runs.GuardedRun Step InputWellRouted twoVms t :=
    (Runs.GuardedRun.of_foldlM hquiet hs).snoc hguard ht
  exact ⟨t, hrun, loads_stay_home_of_well_routed booted_twoVms hrun, hloads⟩

end Machine

end MiniVisor
