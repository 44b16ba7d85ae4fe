import MiniVisor.ControllerDelivery
import MiniVisor.InterruptIsolation

/-!
# No virtual interrupt is lost

An interrupt that is due must be in a list register of the VM's CPU or in the
queue of its controller; between a guest's EOI and the maintenance interrupt it
is only reported in `ICH_EISR_EL2`. The invariant `Delivered` says that a due
interrupt is always held or reported. It does not survive every step: a call of
`add_virtual_interrupt` may find no register, or take one whose completion was
not collected yet, a write may let a blocked interrupt through, and a completion
may go unreported. `HandsOn` is the condition that none of this happens.
-/
namespace MiniVisor

open Vgic

/-- The interrupts of the VM that are due and whose completion the maintenance
handler clears in the controller they are due in. -/
def Vm.DueId (vm : Vm) (m : BitVec 64) : Prop :=
  ∃ n, m = BitVec.ofNat 64 n ∧
    (32 ≤ n ∧ vm.gicDistributorMmio.view.Due n ∨ vm.gicRedistributorMmio.view.Due n)

namespace Machine

/-- A list register of a CPU of the VM holds the interrupt, or the controller's queue does. -/
def Held (cpus : ℕ → Pcpu) (vmId : ℕ) (c : ControllerView) (n : ℕ) : Prop :=
  (∃ p, (cpus p).tpidrEl2 = vmId ∧
      InUse (cpus p).ichVtrEl2 (cpus p).ichLr (BitVec.ofNat 64 n)) ∨ c.Queued n

/-- A CPU of the VM reports the completion of the interrupt. -/
def Awaited (cpus : ℕ → Pcpu) (vmId n : ℕ) : Prop :=
  ∃ p, (cpus p).tpidrEl2 = vmId ∧
    Reported (cpus p).ichVtrEl2 (cpus p).ichLr (BitVec.ofNat 64 n)

/-- Every due interrupt of the VM is held, or its completion waits to be collected. -/
structure VmDelivered (cpus : ℕ → Pcpu) (vmId : ℕ) (vm : Vm) : Prop where
  distributor : ∀ n, vm.gicDistributorMmio.view.Due n →
    Held cpus vmId vm.gicDistributorMmio.view n ∨ 32 ≤ n ∧ Awaited cpus vmId n
  redistributor : ∀ n, vm.gicRedistributorMmio.view.Due n →
    Held cpus vmId vm.gicRedistributorMmio.view n ∨ Awaited cpus vmId n
  distributorQueue : ∀ e ∈ vm.gicDistributorMmio.view.queue, ¬ Inactive e.value
  redistributorQueue : ∀ e ∈ vm.gicRedistributorMmio.view.queue, ¬ Inactive e.value

def Delivered (s : Machine) : Prop :=
  ∀ vmId vm, s.vmList vmId = some vm → VmDelivered s.cpus vmId vm

/-- The entries that a step hands to `add_virtual_interrupt` on CPU `p`, in order. -/
def entriesLoaded (s : Machine) (e : Event) (p : ℕ) : List ListEntry :=
  match s.step e with
  | some t => (t.cpus p).loads.drop (s.cpus p).loads.length
  | none => []

/-- Every `add_virtual_interrupt` call of the step finds a register on CPU `p`. -/
def Accepting (s : Machine) (e : Event) (p : ℕ) : Prop :=
  ∀ vm, s.vmList (s.cpus p).tpidrEl2 = some vm →
    Accepts vm.DueId (s.cpus p).ichVtrEl2 (s.cpus p).ichLr (s.entriesLoaded e p)

/-- Another register of the CPU or the queue holds the interrupt. -/
def HeldBesides (s : Machine) (p i : ℕ) (c : ControllerView) (n : ℕ) : Prop :=
  (∃ j < supportedLrn (s.cpus p).ichVtrEl2, j ≠ i ∧ ¬ Inactive ((s.cpus p).ichLr j) ∧
      vintid ((s.cpus p).ichLr j) = BitVec.ofNat 64 n) ∨ c.Queued n

/-- The register asks for a maintenance interrupt on EOI and is not backed by a
physical interrupt. -/
def Reports (lr : BitVec 64) : Prop := lr &&& ichLrnEl2Hw = 0 ∧ lr &&& ichLrnEl2Eoi ≠ 0

/-- The completion of the interrupt in register `i` reaches the controller it is due in. -/
def CompletionReported (s : Machine) (p i : ℕ) : Prop :=
  i < supportedLrn (s.cpus p).ichVtrEl2 → status ((s.cpus p).ichLr i) = ichLrnEl2StatusActive →
    ∀ vm, s.vmList (s.cpus p).tpidrEl2 = some vm →
      ∀ n, vintid ((s.cpus p).ichLr i) = BitVec.ofNat 64 n →
        (vm.gicDistributorMmio.view.Due n → 32 ≤ n ∧ Reports ((s.cpus p).ichLr i) ∨
          s.HeldBesides p i vm.gicDistributorMmio.view n) ∧
        (vm.gicRedistributorMmio.view.Due n → Reports ((s.cpus p).ichLr i) ∨
          s.HeldBesides p i vm.gicRedistributorMmio.view n)

/-- The condition on a step under which no due interrupt is dropped. -/
def HandsOn (s : Machine) (e : Event) : Prop :=
  match e with
  | .writeDistributor p offset accessWidth value => s.Accepting e p ∧
      ∀ vm, s.vmList (s.cpus p).tpidrEl2 = some vm → ∀ n,
        vm.gicDistributorMmio.Uncovers offset accessWidth value n →
          Held s.cpus (s.cpus p).tpidrEl2 vm.gicDistributorMmio.view n
  | .writeRedistributor p offset accessWidth value => s.Accepting e p ∧
      ∀ vm, s.vmList (s.cpus p).tpidrEl2 = some vm → ∀ n,
        vm.gicRedistributorMmio.Uncovers offset accessWidth value n →
          Held s.cpus (s.cpus p).tpidrEl2 vm.gicRedistributorMmio.view n
  | .inputUart p _ => s.Accepting e p ∧ ¬ s.Misdirected p
  | .blockCompletion p => s.Accepting e p
  | .genericTimer p _ => s.Accepting e p
  | .injectInterrupt p => s.Accepting e p
  | .deactivate p i => s.CompletionReported p i
  | _ => True

theorem entriesLoaded_eq {s t : Machine} {e : Event} {p : ℕ} {es : List ListEntry}
    (hstep : s.Step e t) (hloads : (t.cpus p).loads = (s.cpus p).loads ++ es) :
    s.entriesLoaded e p = es := by
  unfold entriesLoaded
  rw [show s.step e = some t from hstep]
  simp [hloads]

/-- What a handler on CPU `p` does to one controller of the VM. `inUse` are the
interrupts that are in the list registers afterwards. -/
structure ControllerStep (cpus : ℕ → Pcpu) (vmId : ℕ) (c c' : ControllerView)
    (inUse : BitVec 64 → Prop) : Prop where
  due : ∀ n, c'.Due n →
    (inUse (BitVec.ofNat 64 n) ∨ c'.Queued n) ∨ c.Due n ∨ Held cpus vmId c n
  queue : ∀ n, c.Queued n → inUse (BitVec.ofNat 64 n) ∨ c'.Queued n
  entries : ∀ e ∈ c'.queue, e ∈ c.queue ∨ ¬ Inactive e.value

theorem ControllerStep.refl (cpus : ℕ → Pcpu) (vmId : ℕ) (c : ControllerView)
    (inUse : BitVec 64 → Prop) : ControllerStep cpus vmId c c inUse :=
  ⟨fun _ hn => .inr (.inl hn), fun _ hq => .inr hq, fun _ he => .inl he⟩

theorem ControllerStep.of_served {cpus : ℕ → Pcpu} {vmId : ℕ} {c c' : ControllerView}
    {ns : List ℕ} {inUse : BitVec 64 → Prop} (h : c.Served ns c' inUse) :
    ControllerStep cpus vmId c c' inUse :=
  ⟨fun n hn => (h.due n hn).imp id fun hd => .inl hd.1, fun _ hq => .inr (h.queued hq), h.entries⟩

section Transfer

variable {cpus : ℕ → Pcpu} {p vmId n : ℕ} {cpu' : Pcpu} {due inUse : BitVec 64 → Prop}
  {c c' : ControllerView}

/-- A VM that does not run on `p` sees no change there. -/
theorem VmDelivered.update_of_ne {vm : Vm} (h : VmDelivered cpus vmId vm)
    (hne : (cpus p).tpidrEl2 ≠ vmId) : VmDelivered (Function.update cpus p cpu') vmId vm := by
  have hsame : ∀ q, (cpus q).tpidrEl2 = vmId → Function.update cpus p cpu' q = cpus q := by
    intro q hq
    refine Function.update_of_ne ?_ ..
    rintro rfl
    exact hne hq
  have hheld : ∀ {c : ControllerView} {n : ℕ}, Held cpus vmId c n →
      Held (Function.update cpus p cpu') vmId c n := by
    rintro c n (⟨q, hq, hin⟩ | hqueued)
    · exact .inl ⟨q, by rw [hsame q hq, hq], by rwa [hsame q hq]⟩
    · exact .inr hqueued
  have hawaited : ∀ {n : ℕ}, Awaited cpus vmId n →
      Awaited (Function.update cpus p cpu') vmId n := by
    rintro n ⟨q, hq, hr⟩
    exact ⟨q, by rw [hsame q hq, hq], by rwa [hsame q hq]⟩
  exact ⟨fun n hn => (h.distributor n hn).imp hheld (And.imp_right hawaited),
    fun n hn => (h.redistributor n hn).imp hheld hawaited, h.distributorQueue,
    h.redistributorQueue⟩

variable (htpidr : cpu'.tpidrEl2 = (cpus p).tpidrEl2)
  (hvtr : cpu'.ichVtrEl2 = (cpus p).ichVtrEl2)
  (hkeep : Keeps due (cpus p).ichVtrEl2 (cpus p).ichLr cpu'.ichLr)
  (hin : ∀ m, inUse m → (cpus p).tpidrEl2 = vmId ∧ InUse (cpus p).ichVtrEl2 cpu'.ichLr m)

include htpidr hvtr hin

theorem held_of_inUse (h : inUse (BitVec.ofNat 64 n)) :
    Held (Function.update cpus p cpu') vmId c' n := by
  obtain ⟨hhome, hreg⟩ := hin _ h
  exact .inl ⟨p, by simpa [htpidr] using hhome, by simpa [hvtr] using hreg⟩

include hkeep

theorem Held.update (h : Held cpus vmId c n)
    (hqueue : c.Queued n → inUse (BitVec.ofNat 64 n) ∨ c'.Queued n) :
    Held (Function.update cpus p cpu') vmId c' n := by
  obtain ⟨q, hq, hreg⟩ | hqueued := h
  · by_cases hqp : q = p
    · subst hqp
      exact .inl ⟨q, by simpa [htpidr] using hq, by simpa [hvtr] using hkeep.inUse _ hreg⟩
    · exact .inl ⟨q, by simpa [hqp] using hq, by simpa [hqp] using hreg⟩
  · obtain hreg | hqueued := hqueue hqueued
    · exact held_of_inUse htpidr hvtr hin hreg
    · exact .inr hqueued

omit hin in
theorem Awaited.update (h : Awaited cpus vmId n) (hdue : due (BitVec.ofNat 64 n)) :
    Held (Function.update cpus p cpu') vmId c' n ∨
      Awaited (Function.update cpus p cpu') vmId n := by
  obtain ⟨q, hq, hrep⟩ := h
  by_cases hqp : q = p
  · subst hqp
    obtain hrep | hreg := hkeep.reported _ hdue hrep
    · exact .inr ⟨q, by simpa [htpidr] using hq, by simpa [hvtr] using hrep⟩
    · exact .inl (.inl ⟨q, by simpa [htpidr] using hq, by simpa [hvtr] using hreg⟩)
  · exact .inr ⟨q, by simpa [hqp] using hq, by simpa [hqp] using hrep⟩

/-- A handler on CPU `p` keeps the VM's interrupts delivered when the registers
keep what they know about `due` interrupts. -/
theorem VmDelivered.handled {vm vm' : Vm} (h : VmDelivered cpus vmId vm)
    (hd : ControllerStep cpus vmId vm.gicDistributorMmio.view vm'.gicDistributorMmio.view inUse)
    (hr : ControllerStep cpus vmId vm.gicRedistributorMmio.view vm'.gicRedistributorMmio.view
      inUse)
    (hdueD : ∀ n, 32 ≤ n → vm.gicDistributorMmio.view.Due n →
      vm'.gicDistributorMmio.view.Due n → due (BitVec.ofNat 64 n))
    (hdueR : ∀ n, vm.gicRedistributorMmio.view.Due n →
      vm'.gicRedistributorMmio.view.Due n → due (BitVec.ofNat 64 n)) :
    VmDelivered (Function.update cpus p cpu') vmId vm' where
  distributor n hn := by
    obtain (hreg | hq) | hdue | hheld := hd.due n hn
    · exact .inl (held_of_inUse htpidr hvtr hin hreg)
    · exact .inl (.inr hq)
    · obtain hheld | ⟨hspi, hwait⟩ := h.distributor n hdue
      · exact .inl (hheld.update htpidr hvtr hkeep hin (hd.queue n))
      · exact (hwait.update htpidr hvtr hkeep (hdueD n hspi hdue hn)).imp id fun hw => ⟨hspi, hw⟩
    · exact .inl (hheld.update htpidr hvtr hkeep hin (hd.queue n))
  redistributor n hn := by
    obtain (hreg | hq) | hdue | hheld := hr.due n hn
    · exact .inl (held_of_inUse htpidr hvtr hin hreg)
    · exact .inl (.inr hq)
    · obtain hheld | hwait := h.redistributor n hdue
      · exact .inl (hheld.update htpidr hvtr hkeep hin (hr.queue n))
      · exact hwait.update htpidr hvtr hkeep (hdueR n hdue hn)
    · exact .inl (hheld.update htpidr hvtr hkeep hin (hr.queue n))
  distributorQueue e he := (hd.entries e he).elim (h.distributorQueue e) id
  redistributorQueue e he := (hr.entries e he).elim (h.redistributorQueue e) id

end Transfer

/-- A handler of VM `vmId` on CPU `p`: only that VM has to be looked at, as long
as a foreign VM's handler leaves the list registers of `p` alone. -/
theorem Delivered.put {s : Machine} (hs : s.Delivered) {p vmId : ℕ} {cpu' : Pcpu} {vm' : Vm}
    (htpidr : cpu'.tpidrEl2 = (s.cpus p).tpidrEl2)
    (hvtr : cpu'.ichVtrEl2 = (s.cpus p).ichVtrEl2)
    (hlr : (s.cpus p).tpidrEl2 = vmId ∨ cpu'.ichLr = (s.cpus p).ichLr)
    (hvm' : VmDelivered (Function.update s.cpus p cpu') vmId vm') :
    (s.put p cpu' vmId vm').Delivered := by
  intro id vm hvm
  by_cases hid : id = vmId
  · subst hid
    rw [put_vmList_self] at hvm
    exact Option.some.inj hvm ▸ hvm'
  · rw [put_vmList_of_ne _ _ _ _ _ hid] at hvm
    obtain hhome | hsame := hlr
    · exact (hs id vm hvm).update_of_ne fun h => hid (h.symm.trans hhome)
    · refine (hs id vm hvm).handled htpidr hvtr
        (?_ : Keeps (fun _ => True) _ _ _) (fun _ (h : False) => h.elim) (.refl _ _ _ _) (.refl _ _ _ _) (fun _ _ _ _ => trivial)
        fun _ _ _ => trivial
      rw [hsame]
      exact Keeps.refl _ _ _

/-! ### Steps -/

section Steps

variable {s : Machine} {p : ℕ} {vm : Vm} {cpu' : Pcpu}

theorem DueId.distributor {vm : Vm} {n : ℕ} (hspi : 32 ≤ n)
    (h : vm.gicDistributorMmio.view.Due n) : vm.DueId (BitVec.ofNat 64 n) :=
  ⟨n, rfl, .inl ⟨hspi, h⟩⟩

theorem DueId.redistributor {vm : Vm} {n : ℕ} (h : vm.gicRedistributorMmio.view.Due n) :
    vm.DueId (BitVec.ofNat 64 n) :=
  ⟨n, rfl, .inr h⟩

/-- A distributor handler of the VM that runs on `p`. -/
theorem Delivered.putDistributor (hs : s.Delivered)
    (hvm : s.vmList (s.cpus p).tpidrEl2 = some vm) {d : GicDistributorMmio} (u : Pl011Mmio)
    (htpidr : cpu'.tpidrEl2 = (s.cpus p).tpidrEl2)
    (hvtr : cpu'.ichVtrEl2 = (s.cpus p).ichVtrEl2)
    (hkeep : Keeps vm.DueId (s.cpus p).ichVtrEl2 (s.cpus p).ichLr cpu'.ichLr)
    (hd : ControllerStep s.cpus (s.cpus p).tpidrEl2 vm.gicDistributorMmio.view d.view
      (InUse (s.cpus p).ichVtrEl2 cpu'.ichLr)) :
    (s.put p cpu' (s.cpus p).tpidrEl2
      { vm with gicDistributorMmio := d, pl011Mmio := u }).Delivered :=
  hs.put htpidr hvtr (.inl rfl) <|
    (hs _ vm hvm).handled htpidr hvtr hkeep (fun _ hm => ⟨rfl, hm⟩) hd (.refl _ _ _ _)
      (fun _ hspi hdue _ => DueId.distributor hspi hdue) fun _ hdue _ => DueId.redistributor hdue

/-- A redistributor handler of the VM that runs on `p`. -/
theorem Delivered.putRedistributor (hs : s.Delivered)
    (hvm : s.vmList (s.cpus p).tpidrEl2 = some vm) {r : GicRedistributorMmio}
    (htpidr : cpu'.tpidrEl2 = (s.cpus p).tpidrEl2)
    (hvtr : cpu'.ichVtrEl2 = (s.cpus p).ichVtrEl2)
    (hkeep : Keeps vm.DueId (s.cpus p).ichVtrEl2 (s.cpus p).ichLr cpu'.ichLr)
    (hr : ControllerStep s.cpus (s.cpus p).tpidrEl2 vm.gicRedistributorMmio.view r.view
      (InUse (s.cpus p).ichVtrEl2 cpu'.ichLr)) :
    (s.put p cpu' (s.cpus p).tpidrEl2 { vm with gicRedistributorMmio := r }).Delivered :=
  hs.put htpidr hvtr (.inl rfl) <|
    (hs _ vm hvm).handled htpidr hvtr hkeep (fun _ hm => ⟨rfl, hm⟩) (.refl _ _ _ _) hr
      (fun _ hspi hdue _ => DueId.distributor hspi hdue) fun _ hdue _ => DueId.redistributor hdue

/-- The guard, read at the entries that the step loads on `p`. -/
theorem Accepting.accepts {e : Event} {t : Machine} {es : List ListEntry} (h : s.Accepting e p)
    (hvm : s.vmList (s.cpus p).tpidrEl2 = some vm) (hstep : s.Step e t)
    (hloads : (t.cpus p).loads = (s.cpus p).loads ++ es) :
    Accepts vm.DueId (s.cpus p).ichVtrEl2 (s.cpus p).ichLr es := by
  rw [← entriesLoaded_eq hstep hloads]
  exact h vm hvm

theorem Delivered.writeDistributor (hs : s.Delivered) {t : Machine} {offset accessWidth : ℕ}
    {value : BitVec 64} (hguard : s.HandsOn (.writeDistributor p offset accessWidth value))
    (hstep : s.Step (.writeDistributor p offset accessWidth value) t) : t.Delivered := by
  have hstep' := hstep
  rw [Step, step, onCurrentVm, onVm_eq_some] at hstep'
  obtain ⟨vm, vm', cpu', hvm, hw, rfl⟩ := hstep'
  obtain ⟨⟨d, cpu₁⟩, hd, heq⟩ := Option.map_eq_some_iff.1 hw
  obtain ⟨rfl, rfl⟩ := Prod.mk.injEq .. ▸ heq
  have hwritten := GicDistributorMmio.write_written hd
  obtain ⟨es, hloads, hvtr, hserved⟩ := hwritten.served vm.DueId
  obtain ⟨hkeep, hdue, hqueue, hentries⟩ :=
    hserved (hguard.1.accepts hvm hstep (by simpa using hloads))
  refine hs.putDistributor hvm _ (Confined.of_written hwritten).tpidr hvtr hkeep
    ⟨fun n hn => (hdue n hn).imp id (Or.imp id (hguard.2 vm hvm n)), ?_, hentries⟩
  rintro n ⟨e, he, hid⟩
  exact .inr ⟨e, hqueue e he, hid⟩

theorem Delivered.writeRedistributor (hs : s.Delivered) {t : Machine} {offset accessWidth : ℕ}
    {value : BitVec 64} (hguard : s.HandsOn (.writeRedistributor p offset accessWidth value))
    (hstep : s.Step (.writeRedistributor p offset accessWidth value) t) : t.Delivered := by
  have hstep' := hstep
  rw [Step, step, onCurrentVm, onVm_eq_some] at hstep'
  obtain ⟨vm, vm', cpu', hvm, hw, rfl⟩ := hstep'
  obtain ⟨⟨r, cpu₁⟩, hr, heq⟩ := Option.map_eq_some_iff.1 hw
  obtain ⟨rfl, rfl⟩ := Prod.mk.injEq .. ▸ heq
  have hwritten := GicRedistributorMmio.write_written hr
  obtain ⟨es, hloads, hvtr, hserved⟩ := hwritten.served vm.DueId
  obtain ⟨hkeep, hdue, hqueue, hentries⟩ :=
    hserved (hguard.1.accepts hvm hstep (by simpa using hloads))
  refine hs.putRedistributor hvm (Confined.of_written hwritten).tpidr hvtr hkeep
    ⟨fun n hn => (hdue n hn).imp id (Or.imp id (hguard.2 vm hvm n)), ?_, hentries⟩
  rintro n ⟨e, he, hid⟩
  exact .inr ⟨e, hqueue e he, hid⟩

/-- A distributor interrupt triggered on the VM's own CPU. -/
theorem Delivered.triggerDistributor (hs : s.Delivered) {e : Event} {d : GicDistributorMmio}
    {u : Pl011Mmio} {n : ℕ} {isLocal : Prop}
    (hvm : s.vmList (s.cpus p).tpidrEl2 = some vm) (hguard : s.Accepting e p)
    (htr : vm.gicDistributorMmio.view.Triggered (s.cpus p) n isLocal d.view cpu')
    (hstep : s.Step e (s.put p cpu' (s.cpus p).tpidrEl2
      { vm with gicDistributorMmio := d, pl011Mmio := u })) :
    (s.put p cpu' (s.cpus p).tpidrEl2
      { vm with gicDistributorMmio := d, pl011Mmio := u }).Delivered := by
  obtain ⟨es, hloads, hvtr, -, hserved⟩ := htr.served vm.DueId
  obtain ⟨hkeep, hsv⟩ := hserved (hguard.accepts hvm hstep (by simpa using hloads))
  exact hs.putDistributor hvm u (Confined.of_triggered htr).tpidr hvtr hkeep (.of_served hsv)

/-- The UART registers have no part in the invariant. -/
theorem Delivered.putPl011 (hs : s.Delivered) {vmId : ℕ} (hvm : s.vmList vmId = some vm)
    (u : Pl011Mmio) : (s.put p (s.cpus p) vmId { vm with pl011Mmio := u }).Delivered := by
  refine hs.put rfl rfl (.inr rfl) ?_
  rw [Function.update_eq_self]
  obtain ⟨hd, hr, hdq, hrq⟩ := hs _ vm hvm
  exact ⟨hd, hr, hdq, hrq⟩

theorem Delivered.inputUart (hs : s.Delivered) {t : Machine} {c : BitVec 8}
    (hguard : s.HandsOn (.inputUart p c)) (hstep : s.Step (.inputUart p c) t) : t.Delivered := by
  obtain ⟨vmId, hactive, hrun⟩ := Option.bind_eq_some_iff.1 hstep
  obtain ⟨vm, vm', cpu', hvm, hinput, rfl⟩ := onVm_eq_some.1 hrun
  obtain ⟨⟨u, d, cpu₁⟩, hpush, heq⟩ := Option.map_eq_some_iff.1 hinput
  obtain ⟨rfl, rfl⟩ := Prod.mk.injEq .. ▸ heq
  unfold Pl011Mmio.push at hpush
  dsimp only at hpush
  by_cases hmask : vm.pl011Mmio.interruptMask &&& uartImscRxim ≠ 0
  · rw [if_pos hmask] at hpush
    obtain ⟨⟨d₁, cpu₂⟩, htrig, hret⟩ := Option.bind_eq_some_iff.1 hpush
    obtain ⟨rfl, rfl, rfl⟩ : _ = u ∧ d₁ = d ∧ cpu₂ = cpu₁ := by simpa using hret
    have htr := GicDistributorMmio.triggerInterrupt_triggered htrig
    by_cases hhome : vmId = (s.cpus p).tpidrEl2
    · subst hhome
      exact hs.triggerDistributor hvm hguard.1 htr hstep
    · -- on a foreign CPU the guard leaves only the queue
      have hloads := loads_eq_of_not_local htr fun hlocal hdue =>
        hguard.2 ⟨vmId, vm, hactive, hvm, hhome, hmask, hdue, hlocal⟩
      obtain ⟨hlr, hvtr, hserved⟩ := htr.served_of_loads_eq hloads
      have htpidr := (Confined.of_triggered htr).tpidr
      refine hs.put htpidr hvtr (.inr hlr) <| (hs _ vm hvm).handled
        htpidr hvtr (?_ : Keeps (fun _ => True) _ _ _) (fun _ h => h.elim) (.of_served hserved) (.refl _ _ _ _)
        (fun _ _ _ _ => trivial) fun _ _ _ => trivial
      rw [hlr]
      exact Keeps.refl _ _ _
  · rw [if_neg hmask] at hpush
    obtain ⟨rfl, rfl, rfl⟩ : _ = u ∧ vm.gicDistributorMmio = d ∧ s.cpus p = cpu₁ := by
      simpa using hpush
    exact hs.putPl011 hvm _

theorem Delivered.injectInterrupt (hs : s.Delivered) {t : Machine}
    (hguard : s.HandsOn (.injectInterrupt p)) (hstep : s.Step (.injectInterrupt p) t) :
    t.Delivered := by
  have hstep' := hstep
  rw [Step, step, onCurrentVm, onVm_eq_some] at hstep'
  obtain ⟨vm, vm', cpu', hvm, hinject, rfl⟩ := hstep'
  obtain ⟨rfl, rfl⟩ := Prod.mk.injEq .. ▸ Option.some.inj hinject
  have hold := hs _ vm hvm
  set es := vm.gicDistributorMmio.toInjectInterrupt ++ vm.gicRedistributorMmio.toInjectInterrupt
    with hes
  have hfold : (vm.injectInterruptHandler (s.cpus p)).2 =
      es.foldl Pcpu.addVirtualInterrupt (s.cpus p) := by
    rw [hes, List.foldl_append]
    rfl
  obtain ⟨htpidr, hloads⟩ := foldl_addVirtualInterrupt es (s.cpus p)
  have hacc : Accepts vm.DueId (s.cpus p).ichVtrEl2 (s.cpus p).ichLr es :=
    Accepting.accepts hguard hvm hstep (by rw [put_cpus_self, ← hloads, ← hfold]; rfl)
  obtain ⟨hkeep, hvtr, hin⟩ := hacc.foldl fun e he => by
    obtain he | he := List.mem_append.1 he
    · exact hold.distributorQueue e he
    · exact hold.redistributorQueue e he
  rw [← hfold] at htpidr hkeep hvtr hin
  refine hs.put htpidr hvtr (.inl rfl) <| hold.handled
    htpidr hvtr hkeep (fun _ (hm : InUse (s.cpus p).ichVtrEl2
      (vm.injectInterruptHandler (s.cpus p)).2.ichLr _) => ⟨rfl, hm⟩) ⟨fun n hn => .inr (.inl hn), ?_, fun e he => ?_⟩
    ⟨fun n hn => .inr (.inl hn), ?_, fun e he => ?_⟩
    (fun _ hspi hdue _ => DueId.distributor hspi hdue) fun _ hdue _ => DueId.redistributor hdue
  · rintro n ⟨e, he, hid⟩
    exact .inl (hid ▸ hin e (List.mem_append_left _ he))
  · exact absurd he (List.not_mem_nil)
  · rintro n ⟨e, he, hid⟩
    exact .inl (hid ▸ hin e (List.mem_append_right _ he))
  · exact absurd he (List.not_mem_nil)

/-! ### Completion -/

theorem eoiStatus_eq_true {x : BitVec 64} : eoiStatus x = true ↔ Inactive x ∧ Reports x :=
  decide_eq_true_iff

theorem eoiStatus_zero : eoiStatus 0 = false := by decide

theorem reports_acknowledge (x : BitVec 64) : Reports (acknowledge x) ↔ Reports x := by
  unfold acknowledge
  split_ifs
  · rw [Reports, Reports, Masks.write_and_of_disjoint (by decide) (by decide),
      Masks.write_and_of_disjoint (by decide) (by decide)]
  · rfl

theorem reports_deactivate (x : BitVec 64) : Reports (deactivate x) ↔ Reports x := by
  rw [Reports, Reports, deactivate, Masks.and_not_and_of_disjoint (by decide),
    Masks.and_not_and_of_disjoint (by decide)]

theorem status_eq_active {x : BitVec 64} (h : ¬ Inactive x) (h' : Inactive (deactivate x)) :
    status x = ichLrnEl2StatusActive := by
  rw [inactive_iff] at h h'
  have hbit : ∀ i < 64, ichLrnEl2StatusActive.getLsbD i = decide (i = 63) := by decide
  have h62 : x.getLsbD 62 = false := by
    have := h'.1
    rw [deactivate, BitVec.getLsbD_and, BitVec.getLsbD_not, hbit 62 (by decide)] at this
    simpa using this
  have h63 : x.getLsbD 63 = true := by
    by_contra hne
    exact h ⟨h62, by simpa using hne⟩
  apply BitVec.eq_of_getLsbD_eq
  intro i hi
  rw [status, BitVec.getLsbD_and, getLsbD_status i hi, hbit i hi]
  have hcases : i = 62 ∨ i = 63 ∨ i < 62 := by omega
  obtain rfl | rfl | hlt := hcases
  · rw [h62, Bool.false_and]
    rfl
  · rw [h63]
    rfl
  · have h₁ : ¬ 62 ≤ i := by omega
    have h₂ : i ≠ 63 := by omega
    simp [h₁, h₂]

/-- A register change that keeps the interrupt number, the state and the
maintenance request of every register. -/
theorem keeps_update {vtr : BitVec 64} {lr : ListRegisters} {i : ℕ} {x : BitVec 64}
    (hid : vintid x = vintid (lr i)) (hin : Inactive x ↔ Inactive (lr i))
    (hrep : Reports x ↔ Reports (lr i)) (due : BitVec 64 → Prop) :
    Keeps due vtr lr (Function.update lr i x) := by
  constructor
  · rintro m ⟨k, hk, hkin, hkid⟩
    refine ⟨k, hk, ?_⟩
    by_cases hki : k = i
    · subst hki
      rw [Function.update_self, hin, hid]
      exact ⟨hkin, hkid⟩
    · rw [Function.update_of_ne hki]
      exact ⟨hkin, hkid⟩
  · rintro m - ⟨k, hk, hkrep, hkid⟩
    refine .inl ⟨k, hk, ?_⟩
    by_cases hki : k = i
    · subst hki
      rw [Function.update_self, eoiStatus_eq_true, hin, hrep, ← eoiStatus_eq_true, hid]
      exact ⟨hkrep, hkid⟩
    · rw [Function.update_of_ne hki]
      exact ⟨hkrep, hkid⟩

theorem Delivered.acknowledge (hs : s.Delivered) (p i : ℕ) :
    (s.onListRegister p i Vgic.acknowledge).Delivered := by
  intro vmId vm hvm
  have hkeep : Keeps (fun _ => True) (s.cpus p).ichVtrEl2 (s.cpus p).ichLr
      (Function.update (s.cpus p).ichLr i (Vgic.acknowledge ((s.cpus p).ichLr i))) :=
    keeps_update (vintid_acknowledge _) (inactive_acknowledge _) (reports_acknowledge _) _
  have htpidr : ({ s.cpus p with
      ichLr := Function.update (s.cpus p).ichLr i (Vgic.acknowledge ((s.cpus p).ichLr i)) } :
        Pcpu).tpidrEl2 = (s.cpus p).tpidrEl2 := rfl
  exact (hs vmId vm hvm).handled htpidr rfl hkeep (fun _ (h : False) => h.elim) (.refl _ _ _ _)
    (.refl _ _ _ _) (fun _ _ _ _ => trivial) fun _ _ _ => trivial

section Deactivate

variable {i : ℕ}

/-- A due interrupt is still held after a completion, or it was the completed one. -/
theorem Held.deactivate {vmId n : ℕ} {c : ControllerView} (h : Held s.cpus vmId c n) :
    Held (s.onListRegister p i Vgic.deactivate).cpus vmId c n ∨
      (s.cpus p).tpidrEl2 = vmId ∧ i < supportedLrn (s.cpus p).ichVtrEl2 ∧
        ¬ Inactive ((s.cpus p).ichLr i) ∧ vintid ((s.cpus p).ichLr i) = BitVec.ofNat 64 n := by
  obtain ⟨q, hq, k, hk, hkin, hkid⟩ | hqueued := h
  · by_cases hqp : q = p
    · subst hqp
      by_cases hki : k = i
      · subst hki
        exact .inr ⟨hq, hk, hkin, hkid⟩
      · exact .inl (.inl ⟨q, by simpa [onListRegister] using hq, k,
          by simpa [onListRegister] using hk, by simpa [onListRegister, hki] using hkin,
          by simpa [onListRegister, hki] using hkid⟩)
    · refine .inl (.inl ⟨q, ?_⟩)
      rw [onListRegister]
      dsimp only
      rw [Function.update_of_ne hqp]
      exact ⟨hq, k, hk, hkin, hkid⟩
  · exact .inl (.inr hqueued)

theorem HeldBesides.deactivate {c : ControllerView} {n : ℕ} (h : s.HeldBesides p i c n) :
    Held (s.onListRegister p i Vgic.deactivate).cpus (s.cpus p).tpidrEl2 c n := by
  obtain ⟨j, hj, hji, hjin, hjid⟩ | hqueued := h
  · exact .inl ⟨p, by simp [onListRegister], j, by simpa [onListRegister] using hj,
      by simpa [onListRegister, hji] using hjin, by simpa [onListRegister, hji] using hjid⟩
  · exact .inr hqueued

theorem awaited_deactivate {n : ℕ} (hi : i < supportedLrn (s.cpus p).ichVtrEl2)
    (hid : vintid ((s.cpus p).ichLr i) = BitVec.ofNat 64 n)
    (hdone : Inactive (Vgic.deactivate ((s.cpus p).ichLr i)))
    (hrep : Reports ((s.cpus p).ichLr i)) :
    Awaited (s.onListRegister p i Vgic.deactivate).cpus (s.cpus p).tpidrEl2 n := by
  refine ⟨p, by simp [onListRegister], i, by simpa [onListRegister] using hi, ?_, ?_⟩
  · simpa [onListRegister, eoiStatus_eq_true, hdone] using (reports_deactivate _).2 hrep
  · simpa [onListRegister, vintid_deactivate] using hid

theorem Awaited.deactivate {vmId n : ℕ} (h : Awaited s.cpus vmId n) :
    Awaited (s.onListRegister p i Vgic.deactivate).cpus vmId n := by
  obtain ⟨q, hq, k, hk, hkrep, hkid⟩ := h
  by_cases hqp : q = p
  · subst hqp
    by_cases hki : k = i
    · subst hki
      rw [eoiStatus_eq_true] at hkrep
      exact hq ▸ awaited_deactivate hk hkid (inactive_deactivate hkrep.1) hkrep.2
    · exact ⟨q, by simpa [onListRegister] using hq, k, by simpa [onListRegister] using hk,
        by simpa [onListRegister, hki] using hkrep, by simpa [onListRegister, hki] using hkid⟩
  · refine ⟨q, ?_⟩
    rw [onListRegister]
    dsimp only
    rw [Function.update_of_ne hqp]
    exact ⟨hq, k, hk, hkrep, hkid⟩

theorem Delivered.deactivate (hs : s.Delivered) (hguard : s.CompletionReported p i) :
    (s.onListRegister p i Vgic.deactivate).Delivered := by
  intro vmId vm hvm
  have hold := hs vmId vm hvm
  -- a register that still holds the interrupt after the step
  have hstill : ∀ {c : ControllerView} {n : ℕ}, i < supportedLrn (s.cpus p).ichVtrEl2 →
      vintid ((s.cpus p).ichLr i) = BitVec.ofNat 64 n →
      ¬ Inactive (Vgic.deactivate ((s.cpus p).ichLr i)) →
      Held (s.onListRegister p i Vgic.deactivate).cpus (s.cpus p).tpidrEl2 c n := by
    intro c n hi hid hin
    exact .inl ⟨p, by simp [onListRegister], i, by simpa [onListRegister] using hi,
      by simpa [onListRegister] using hin, by simpa [onListRegister, vintid_deactivate] using hid⟩
  refine ⟨fun n hn => ?_, fun n hn => ?_, hold.distributorQueue, hold.redistributorQueue⟩
  · obtain hheld | ⟨hspi, hwait⟩ := hold.distributor n hn
    · obtain hheld | ⟨rfl, hi, hin, hid⟩ := hheld.deactivate (p := p) (i := i)
      · exact .inl hheld
      by_cases hdone : Inactive (Vgic.deactivate ((s.cpus p).ichLr i))
      · obtain ⟨hspi, hrep⟩ | hbesides :=
          (hguard hi (status_eq_active hin hdone) vm hvm n hid).1 hn
        · exact .inr ⟨hspi, awaited_deactivate hi hid hdone hrep⟩
        · exact .inl hbesides.deactivate
      · exact .inl (hstill hi hid hdone)
    · exact .inr ⟨hspi, hwait.deactivate⟩
  · obtain hheld | hwait := hold.redistributor n hn
    · obtain hheld | ⟨rfl, hi, hin, hid⟩ := hheld.deactivate (p := p) (i := i)
      · exact .inl hheld
      by_cases hdone : Inactive (Vgic.deactivate ((s.cpus p).ichLr i))
      · obtain hrep | hbesides := (hguard hi (status_eq_active hin hdone) vm hvm n hid).2 hn
        · exact .inr (awaited_deactivate hi hid hdone hrep)
        · exact .inl hbesides.deactivate
      · exact .inl (hstill hi hid hdone)
    · exact .inr hwait.deactivate

end Deactivate

/-! ### Maintenance -/

/-- The number that the maintenance handler reads from a register. -/
def completedId (lr : BitVec 64) : ℕ := ((vintid lr).setWidth 32).toNat

theorem completeInterrupt_due {vm vm' : Vm} {intId : BitVec 32}
    (h : vm.completeInterrupt intId = some vm') :
    (vm'.gicDistributorMmio.view.queue = vm.gicDistributorMmio.view.queue ∧
      ∀ n, vm'.gicDistributorMmio.view.Due n → vm.gicDistributorMmio.view.Due n ∧
        (32 ≤ n → n ≠ intId.toNat)) ∧
    vm'.gicRedistributorMmio.view.queue = vm.gicRedistributorMmio.view.queue ∧
      ∀ n, vm'.gicRedistributorMmio.view.Due n → vm.gicRedistributorMmio.view.Due n ∧
        (n < 32 → n ≠ intId.toNat) := by
  unfold Vm.completeInterrupt at h
  by_cases hspi : 32 ≤ intId.toNat
  · simp only [if_pos hspi, bind, Option.bind_eq_some_iff, pure, Option.some.injEq] at h
    obtain ⟨d₁, hd₁, d₂, hd₂, rfl⟩ := h
    obtain ⟨q, rfl, hq⟩ := GicDistributorMmio.changePendingStatus_eq hd₁
    obtain ⟨a, -, rfl⟩ := Option.map_eq_some_iff.1 hd₂
    refine ⟨⟨rfl, fun n hn => ?_⟩, rfl, fun n hn => ⟨hn, by omega⟩⟩
    obtain ⟨hon, hpend, hen, hsec⟩ := hn
    change bankTest q n = true at hpend
    rw [hq] at hpend
    by_cases hni : n = intId.toNat
    · simp [hni] at hpend
    · rw [Function.update_of_ne hni] at hpend
      exact ⟨⟨hon, hpend, hen, hsec⟩, fun _ => hni⟩
  · simp only [if_neg hspi, bind, Option.bind_eq_some_iff, pure, Option.some.injEq] at h
    obtain ⟨r₁, hr₁, r₂, hr₂, rfl⟩ := h
    obtain ⟨q, rfl, hq⟩ := GicRedistributorMmio.changePendingStatus_eq hr₁
    obtain ⟨a, -, rfl⟩ := Option.map_eq_some_iff.1 hr₂
    refine ⟨⟨rfl, fun n hn => ⟨hn, by omega⟩⟩, rfl, fun n hn => ?_⟩
    obtain ⟨hon, hpend, hen, hsec⟩ := hn
    change q.getLsbD n = true at hpend
    rw [hq] at hpend
    by_cases hni : n = intId.toNat
    · simp [hni] at hpend
    · rw [Function.update_of_ne hni] at hpend
      exact ⟨⟨hon, hpend, hen, hsec⟩, fun _ => hni⟩

/-- After the maintenance loop no interrupt is due that one of the reported
registers named. -/
theorem maintenanceLoop_due {eoiBits : ℕ → Bool} {k i : ℕ} {vm vm' : Vm}
    {lr lr' : ListRegisters} (h : Vm.maintenanceLoop eoiBits k i vm lr = some (vm', lr')) :
    (vm'.gicDistributorMmio.view.queue = vm.gicDistributorMmio.view.queue ∧
      ∀ n, vm'.gicDistributorMmio.view.Due n → vm.gicDistributorMmio.view.Due n ∧
        (32 ≤ n → ∀ j, i ≤ j → j < i + k → eoiBits j = true → n ≠ completedId (lr j))) ∧
    vm'.gicRedistributorMmio.view.queue = vm.gicRedistributorMmio.view.queue ∧
      ∀ n, vm'.gicRedistributorMmio.view.Due n → vm.gicRedistributorMmio.view.Due n ∧
        (n < 32 → ∀ j, i ≤ j → j < i + k → eoiBits j = true → n ≠ completedId (lr j)) := by
  induction k generalizing i vm lr with
  | zero =>
    obtain ⟨rfl, rfl⟩ : vm = vm' ∧ lr = lr' := by simpa [Vm.maintenanceLoop] using h
    exact ⟨⟨rfl, fun n hn => ⟨hn, fun _ j _ _ => by omega⟩⟩, rfl,
      fun n hn => ⟨hn, fun _ j _ _ => by omega⟩⟩
  | succ k ih =>
    unfold Vm.maintenanceLoop at h
    by_cases hi : eoiBits i = true
    · rw [if_pos hi] at h
      obtain ⟨vm₁, hvm₁, hrest⟩ := Option.bind_eq_some_iff.1 h
      obtain ⟨⟨hdq, hd⟩, hrq, hr⟩ := completeInterrupt_due hvm₁
      obtain ⟨⟨hdq', hd'⟩, hrq', hr'⟩ := ih hrest
      refine ⟨⟨hdq'.trans hdq, fun n hn => ?_⟩, hrq'.trans hrq, fun n hn => ?_⟩
      · obtain ⟨hn₁, hlater⟩ := hd' n hn
        obtain ⟨hn₀, hfirst⟩ := hd n hn₁
        refine ⟨hn₀, fun hspi j hij hj hbit => ?_⟩
        by_cases hji : j = i
        · exact hji ▸ hfirst hspi
        · simpa [hji] using hlater hspi j (by omega) (by omega) hbit
      · obtain ⟨hn₁, hlater⟩ := hr' n hn
        obtain ⟨hn₀, hfirst⟩ := hr n hn₁
        refine ⟨hn₀, fun hppi j hij hj hbit => ?_⟩
        by_cases hji : j = i
        · exact hji ▸ hfirst hppi
        · simpa [hji] using hlater hppi j (by omega) (by omega) hbit
    · rw [if_neg hi] at h
      obtain ⟨⟨hdq, hd⟩, hrq, hr⟩ := ih h
      refine ⟨⟨hdq, fun n hn => ⟨(hd n hn).1, fun hspi j hij hj hbit => ?_⟩⟩, hrq,
        fun n hn => ⟨(hr n hn).1, fun hppi j hij hj hbit => ?_⟩⟩
      · have hji : j ≠ i := fun hji => hi (hji ▸ hbit)
        exact (hd n hn).2 hspi j (by omega) (by omega) hbit
      · have hji : j ≠ i := fun hji => hi (hji ▸ hbit)
        exact (hr n hn).2 hppi j (by omega) (by omega) hbit

theorem completedId_eq {x : BitVec 64} {n : ℕ} (hn : n < 2 ^ 32)
    (h : vintid x = BitVec.ofNat 64 n) : completedId x = n := by
  rw [completedId, h, BitVec.toNat_setWidth, BitVec.toNat_ofNat,
    Nat.mod_eq_of_lt (by omega : n < 2 ^ 64), Nat.mod_eq_of_lt hn]

theorem Delivered.maintenance (hs : s.Delivered) {t : Machine}
    (hstep : s.Step (.maintenance p) t) : t.Delivered := by
  rw [Step, step, onCurrentVm, onVm_eq_some] at hstep
  obtain ⟨vm, vm', cpu', hvm, hm, rfl⟩ := hstep
  obtain ⟨⟨vm₁, lr⟩, hloop, heq⟩ := Option.map_eq_some_iff.1 hm
  obtain ⟨rfl, rfl⟩ := Prod.mk.injEq .. ▸ heq
  obtain ⟨⟨hdq, hd⟩, hrq, hr⟩ := maintenanceLoop_due hloop
  have hlr := Vm.maintenanceLoop_listRegisters hloop
  -- the reported registers are the only ones that change, and what they reported is not due now
  have hkeep : Keeps vm₁.DueId (s.cpus p).ichVtrEl2 (s.cpus p).ichLr lr := by
    constructor
    · rintro m ⟨k, hk, hkin, hkid⟩
      have hsame : lr k = (s.cpus p).ichLr k := by
        rw [hlr k, if_neg]
        rintro ⟨-, -, hbit⟩
        exact hkin (inactive_of_eoiStatus hbit)
      exact ⟨k, hk, by rwa [hsame], by rwa [hsame]⟩
    · rintro m ⟨n, rfl, hdue⟩ ⟨k, hk, hkrep, hkid⟩
      exfalso
      obtain ⟨hspi, hdue⟩ | hdue := hdue
      · have hlt : n < 1024 := by
          by_contra hge
          have hpend : bankTest vm₁.gicDistributorMmio.pending n = true := hdue.2.1
          rw [bankTest, dif_neg (by omega)] at hpend
          exact Bool.false_ne_true hpend
        exact (hd n hdue).2 hspi k (Nat.zero_le k) (by omega) hkrep
          (completedId_eq (by omega) hkid).symm
      · have hlt := GicRedistributorMmio.lt_of_getLsbD hdue.2.1
        exact (hr n hdue).2 hlt k (Nat.zero_le k) (by omega) hkrep
          (completedId_eq (by omega) hkid).symm
  have htpidr : ({ s.cpus p with ichLr := lr } : Pcpu).tpidrEl2 = (s.cpus p).tpidrEl2 := rfl
  refine hs.put rfl rfl (.inl rfl) <| (hs _ vm hvm).handled htpidr rfl hkeep
    (fun _ (h : False) => h.elim)
    ⟨fun n hn => .inr (.inl (hd n hn).1), ?_, fun e he => .inl (hdq ▸ he)⟩
    ⟨fun n hn => .inr (.inl (hr n hn).1), ?_, fun e he => .inl (hrq ▸ he)⟩
    (fun _ hspi _ hdue => DueId.distributor hspi hdue) fun _ _ hdue => DueId.redistributor hdue
  · rintro n ⟨e, he, hid⟩
    exact .inr ⟨e, hdq ▸ he, hid⟩
  · rintro n ⟨e, he, hid⟩
    exact .inr ⟨e, hrq ▸ he, hid⟩

end Steps

/-- No step that hands everything on loses a due interrupt. -/
theorem delivered_step (s : Machine) (e : Event) (t : Machine) (hs : s.Delivered)
    (hguard : s.HandsOn e) (hstep : s.Step e t) : t.Delivered := by
  cases e with
  | writeDistributor p offset width value => exact hs.writeDistributor hguard hstep
  | writeRedistributor p offset width value => exact hs.writeRedistributor hguard hstep
  | readPl011 p offset =>
    rw [Step, step, onCurrentVm, onVm_eq_some] at hstep
    obtain ⟨vm, vm', cpu', hvm, hr, rfl⟩ := hstep
    obtain ⟨rfl, rfl⟩ : _ = vm' ∧ s.cpus p = cpu' := by simpa using hr
    exact hs.putPl011 hvm _
  | writePl011 p offset value =>
    rw [Step, step, onCurrentVm, onVm_eq_some] at hstep
    obtain ⟨vm, vm', cpu', hvm, hr, rfl⟩ := hstep
    obtain ⟨rfl, rfl⟩ : _ = vm' ∧ s.cpus p = cpu' := by simpa using hr
    exact hs.putPl011 hvm _
  | inputUart p c => exact hs.inputUart hguard hstep
  | switchActiveVm vmId =>
    simp only [Step, step] at hstep
    split at hstep <;> obtain rfl := Option.some.inj hstep <;> exact hs
  | blockCompletion p =>
    have hstep' := hstep
    rw [Step, step, onCurrentVm, onVm_eq_some] at hstep'
    obtain ⟨vm, vm', cpu', hvm, hw, rfl⟩ := hstep'
    obtain ⟨⟨d, cpu₁⟩, hd, heq⟩ := Option.map_eq_some_iff.1 hw
    obtain ⟨rfl, rfl⟩ := Prod.mk.injEq .. ▸ heq
    exact hs.triggerDistributor hvm hguard (GicDistributorMmio.triggerInterrupt_triggered hd) hstep
  | genericTimer p physicalIntId =>
    have hstep' := hstep
    rw [Step, step, onCurrentVm, onVm_eq_some] at hstep'
    obtain ⟨vm, vm', cpu', hvm, hw, rfl⟩ := hstep'
    obtain ⟨⟨r, cpu₁⟩, hr, heq⟩ := Option.map_eq_some_iff.1 hw
    obtain ⟨rfl, rfl⟩ := Prod.mk.injEq .. ▸ heq
    have htr := GicRedistributorMmio.triggerInterrupt_triggered hr
    obtain ⟨es, hloads, hvtr, -, hserved⟩ := htr.served vm.DueId
    obtain ⟨hkeep, hsv⟩ :=
      hserved (Accepting.accepts hguard hvm hstep (by simpa using hloads))
    exact hs.putRedistributor hvm (Confined.of_triggered htr).tpidr hvtr hkeep (.of_served hsv)
  | injectInterrupt p => exact hs.injectInterrupt hguard hstep
  | maintenance p => exact hs.maintenance hstep
  | acknowledge p i =>
    obtain rfl := Option.some.inj hstep
    exact hs.acknowledge p i
  | deactivate p i =>
    obtain rfl := Option.some.inj hstep
    exact hs.deactivate hguard

theorem Booted.delivered {s : Machine} (h : s.Booted) : s.Delivered := by
  intro vmId vm hvm
  have hd := h.distributor vmId vm hvm
  obtain ⟨mpidr, hr⟩ := h.redistributor vmId vm hvm
  refine ⟨fun n hn => ?_, fun n hn => ?_, by simp [hd, GicDistributorMmio.new,
    GicDistributorMmio.view], by simp [hr, GicRedistributorMmio.new, GicRedistributorMmio.view]⟩
  · rw [hd] at hn
    have hoff : (0 : BitVec 32) &&& gicdCtlrEnableGrp1ns = 0 := by decide
    exact absurd hoff (of_decide_eq_true hn.1).1
  · rw [hr] at hn
    have hasleep : gicrWakerChildrenAsleep &&& gicrWakerChildrenAsleep ≠ 0 := by decide
    exact absurd (of_decide_eq_true hn.1) hasleep

/-- `ICH_EISR_EL2` reads zero on every CPU. -/
def NoMaintenanceOutstanding (s : Machine) : Prop :=
  ∀ p, ∀ i < supportedLrn (s.cpus p).ichVtrEl2, eoiStatus ((s.cpus p).ichLr i) = false

/-- Every due interrupt of every VM is in a list register of the VM's CPU or in
the queue of its controller. -/
def DueInterruptsHeld (s : Machine) : Prop :=
  ∀ vmId vm, s.vmList vmId = some vm →
    (∀ n, vm.gicDistributorMmio.view.Due n → Held s.cpus vmId vm.gicDistributorMmio.view n) ∧
    ∀ n, vm.gicRedistributorMmio.view.Due n → Held s.cpus vmId vm.gicRedistributorMmio.view n

/-- In every run whose steps hand everything on, a state without an outstanding
maintenance interrupt holds every due interrupt. -/
theorem due_interrupts_held_of_handsOn {s t : Machine} (hboot : s.Booted)
    (hrun : Runs.GuardedRun Step HandsOn s t) (hquiet : t.NoMaintenanceOutstanding) :
    t.DueInterruptsHeld := by
  have hnot : ∀ vmId n, ¬ Awaited t.cpus vmId n := by
    rintro vmId n ⟨p, -, i, hi, hrep, -⟩
    rw [hquiet p i hi] at hrep
    exact Bool.false_ne_true hrep
  intro vmId vm hvm
  have hdel := hrun.invariant delivered_step hboot.delivered vmId vm hvm
  exact ⟨fun n hn => (hdel.distributor n hn).resolve_right fun h => hnot vmId n h.2,
    fun n hn => (hdel.redistributor n hn).resolve_right (hnot vmId n)⟩

/-- The guest of VM 1 enables its UART interrupt, sets it pending and only then
enables the distributor. -/
def pendThenEnable : List Event :=
  [.writeDistributor 1 (gicdIsenabler0 + 4) 32 0b10, .writeDistributor 1 (gicdIspendr0 + 4) 32 0b10,
    .writeDistributor 1 gicdCtlr 32 0x12]

/-- The last write makes interrupt 33 due, and nothing holds it. No SGI was ever
sent and no completion is outstanding. -/
theorem pend_then_enable_loses_interrupt :
    twoVms.Booted ∧ ∃ t, Runs.Run Step twoVms t ∧ t.NoMaintenanceOutstanding ∧
      (∀ p, (t.cpus p).sgis = []) ∧ ¬ t.DueInterruptsHeld := by
  have hsome : (pendThenEnable.foldlM step twoVms).isSome = true := rfl
  obtain ⟨t, ht⟩ := Option.isSome_iff_exists.1 hsome
  have hcpus : (pendThenEnable.foldlM step twoVms).map Machine.cpus =
      some (Function.update (Function.update (Function.update twoVms.cpus 1 (twoVms.cpus 1)) 1
        (twoVms.cpus 1)) 1 (twoVms.cpus 1)) := rfl
  rw [ht, Function.update_eq_self, Function.update_eq_self, Function.update_eq_self] at hcpus
  have hcpus : t.cpus = twoVms.cpus := Option.some.inj hcpus
  have hview : (pendThenEnable.foldlM step twoVms).map (fun t => (t.vmList 1).map fun vm =>
      (vm.gicDistributorMmio.view.on, vm.gicDistributorMmio.view.pending 33,
        vm.gicDistributorMmio.view.enable 33, vm.gicDistributorMmio.view.secure 33,
        vm.gicDistributorMmio.view.queue)) =
      some (some (true, true, true, false, [])) := rfl
  rw [ht] at hview
  obtain ⟨vm, hvm, hvals⟩ := Option.map_eq_some_iff.1 (Option.some.inj hview)
  simp only [Prod.mk.injEq] at hvals
  obtain ⟨hon, hpend, hen, hsec, hqueue⟩ := hvals
  refine ⟨booted_twoVms, t, Runs.Run.of_foldlM ht, ?_, ?_, fun hheld => ?_⟩
  · intro p i _
    rw [hcpus]
    exact eoiStatus_zero
  · intro p
    rw [hcpus]
    rfl
  · obtain ⟨p, -, i, -, hin, -⟩ | ⟨e, he, -⟩ := (hheld 1 vm hvm).1 33 ⟨hon, hpend, hen, hsec⟩
    · rw [hcpus] at hin
      exact hin inactive_zero
    · rw [hqueue] at he
      exact absurd he List.not_mem_nil

/-! VM 0 enables its distributor, enables interrupt 40 and completes a block request. -/

def distributorOn : Machine := (twoVms.step (.writeDistributor 0 gicdCtlr 32 0x12)).get rfl

def block40On : Machine :=
  (distributorOn.step (.writeDistributor 0 (gicdIsenabler0 + 4) 32 0x100)).get rfl

def block40Raised : Machine := (block40On.step (.blockCompletion 0)).get rfl

/-- The interrupt of the block request is in the first list register of CPU 0. -/
theorem block_completion_is_held :
    Runs.GuardedRun Step HandsOn twoVms block40Raised ∧ block40Raised.NoMaintenanceOutstanding ∧
      block40Raised.DueInterruptsHeld ∧ ¬ Inactive ((block40Raised.cpus 0).ichLr 0) ∧
      vintid ((block40Raised.cpus 0).ichLr 0) = 40 := by
  have hguard₁ : twoVms.HandsOn (.writeDistributor 0 gicdCtlr 32 0x12) := by
    refine ⟨fun vm _ => trivial, fun vm hvm n hn => ?_⟩
    have hpend := hn.1.1
    rw [booted_twoVms.distributor _ vm hvm] at hpend
    simp [GicDistributorMmio.new, GicDistributorMmio.view, bankTest] at hpend
  have hguard₂ : distributorOn.HandsOn (.writeDistributor 0 (gicdIsenabler0 + 4) 32 0x100) := by
    refine ⟨fun vm _ => trivial, fun vm hvm n hn => ?_⟩
    obtain ⟨-, ⟨hoff, -⟩ | ⟨hoff, -⟩⟩ := hn
    · exact absurd hoff (by decide)
    · exact absurd hoff (by decide)
  have hguard₃ : block40On.HandsOn (.blockCompletion 0) := by
    intro vm hvm
    have hfree : (block40On.cpus 0).ichLr = fun _ => 0 := rfl
    have hone : (block40On.entriesLoaded (.blockCompletion 0) 0).length = 1 := rfl
    obtain ⟨e, he⟩ := List.length_eq_one_iff.1 hone
    rw [he, hfree]
    refine ⟨⟨0, by decide, fun k hk => absurd hk (by omega), fun hbusy => hbusy.1 inactive_zero,
      fun hrep => ?_⟩, trivial⟩
    exact absurd hrep (by decide)
  have hrun : Runs.GuardedRun Step HandsOn twoVms block40Raised :=
    (((Runs.GuardedRun.refl twoVms).snoc hguard₁ (t := twoVms) (u := distributorOn) rfl).snoc
      hguard₂ (u := block40On) rfl).snoc hguard₃ rfl
  have hquiet : block40Raised.NoMaintenanceOutstanding := by
    intro p i _
    by_cases hp : p = 0
    · subst hp
      have hlr : (block40Raised.cpus 0).ichLr =
          Function.update (fun _ => 0) 0 ((block40Raised.cpus 0).ichLr 0) := rfl
      by_cases hi : i = 0
      · subst hi
        decide
      · rw [hlr, Function.update_of_ne hi]
        exact eoiStatus_zero
    · have hcpus : block40Raised.cpus = Function.update (Function.update (Function.update
          twoVms.cpus 0 (twoVms.cpus 0)) 0 (twoVms.cpus 0)) 0 (block40Raised.cpus 0) := rfl
      rw [hcpus, Function.update_of_ne hp, Function.update_of_ne hp, Function.update_of_ne hp]
      exact eoiStatus_zero
  refine ⟨hrun, hquiet, due_interrupts_held_of_handsOn booted_twoVms hrun hquiet, ?_, rfl⟩
  decide

end Machine

end MiniVisor
