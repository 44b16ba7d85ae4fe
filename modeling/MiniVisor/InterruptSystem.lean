import MiniVisor.Library.Runs
import MiniVisor.Pl011Mmio

/-!
# The interrupt system of all CPUs and VMs

Each physical CPU runs the VM named by its `TPIDR_EL2`. Handlers run one at a
time on a CPU, under the locks of the controllers they touch, so a run is a
sequence of whole handler calls in any order. `none` is a panic and ends the run.
-/
namespace MiniVisor

/-- A virtual machine: its RAM window and its emulated devices. -/
structure Vm where
  ramVirtualBaseAddress : ℕ
  ramPhysicalBaseAddress : ℕ
  ramSize : ℕ
  gicDistributorMmio : GicDistributorMmio
  gicRedistributorMmio : GicRedistributorMmio
  pl011Mmio : Pl011Mmio

def virtioBlkIntId : BitVec 32 := 40
def genericTimerVirtualIntId : BitVec 32 := 27

namespace Vm

def writeDistributor (vm : Vm) (cpu : Pcpu) (offset accessWidth : ℕ) (value : BitVec 64) :
    Option (Vm × Pcpu) :=
  (vm.gicDistributorMmio.write cpu offset accessWidth value).map fun (d, cpu) =>
    ({ vm with gicDistributorMmio := d }, cpu)

def writeRedistributor (vm : Vm) (cpu : Pcpu) (offset accessWidth : ℕ) (value : BitVec 64) :
    Option (Vm × Pcpu) :=
  (vm.gicRedistributorMmio.write cpu offset accessWidth value).map fun (r, cpu) =>
    ({ vm with gicRedistributorMmio := r }, cpu)

def inputUart (vm : Vm) (cpu : Pcpu) (c : BitVec 8) : Option (Vm × Pcpu) :=
  (vm.pl011Mmio.push vm.gicDistributorMmio cpu c).map fun (u, d, cpu) =>
    ({ vm with pl011Mmio := u, gicDistributorMmio := d }, cpu)

/-- The interrupt at the end of the block device's `operation`. -/
def blockCompletion (vm : Vm) (cpu : Pcpu) : Option (Vm × Pcpu) :=
  (vm.gicDistributorMmio.triggerInterrupt cpu virtioBlkIntId none).map fun (d, cpu) =>
    ({ vm with gicDistributorMmio := d }, cpu)

def genericTimerInterruptHandler (vm : Vm) (cpu : Pcpu) (physicalIntId : BitVec 32) :
    Option (Vm × Pcpu) :=
  (vm.gicRedistributorMmio.triggerInterrupt cpu genericTimerVirtualIntId
    (some physicalIntId)).map fun (r, cpu) => ({ vm with gicRedistributorMmio := r }, cpu)

/-- Both queues are drained in order into the list registers of the running CPU. -/
def injectInterruptHandler (vm : Vm) (cpu : Pcpu) : Vm × Pcpu :=
  let cpu := vm.gicDistributorMmio.toInjectInterrupt.foldl Pcpu.addVirtualInterrupt cpu
  let cpu := vm.gicRedistributorMmio.toInjectInterrupt.foldl Pcpu.addVirtualInterrupt cpu
  ({ vm with
      gicDistributorMmio := { vm.gicDistributorMmio with toInjectInterrupt := [] }
      gicRedistributorMmio := { vm.gicRedistributorMmio with toInjectInterrupt := [] } }, cpu)

/-- What the maintenance handler does to the controllers for one completed interrupt. -/
def completeInterrupt (vm : Vm) (intId : BitVec 32) : Option Vm :=
  if 32 ≤ intId.toNat then do
    let d ← vm.gicDistributorMmio.changePendingStatus intId false
    let d ← d.changeActiveStatus intId false
    return { vm with gicDistributorMmio := d }
  else do
    let r ← vm.gicRedistributorMmio.changePendingStatus intId false
    let r ← r.changeActiveStatus intId false
    return { vm with gicRedistributorMmio := r }

/-- The loop of `maintenance_interrupt_handler` from register `i` on. `eoiBits`
is `ICH_EISR_EL2` as it was read once at the start. -/
def maintenanceLoop (eoiBits : ℕ → Bool) : ℕ → ℕ → Vm → ListRegisters → Option (Vm × ListRegisters)
  | 0, _, vm, lr => some (vm, lr)
  | remaining + 1, i, vm, lr =>
    if eoiBits i then
      (vm.completeInterrupt ((Vgic.vintid (lr i)).setWidth 32)).bind fun vm' =>
        maintenanceLoop eoiBits remaining (i + 1) vm' (Function.update lr i 0)
    else maintenanceLoop eoiBits remaining (i + 1) vm lr

def maintenanceInterruptHandler (vm : Vm) (cpu : Pcpu) : Option (Vm × Pcpu) :=
  (maintenanceLoop (fun i => Vgic.eoiStatus (cpu.ichLr i)) (Vgic.supportedLrn cpu.ichVtrEl2) 0
    vm cpu.ichLr).map fun (vm, lr) => (vm, { cpu with ichLr := lr })

end Vm

/-- Machine state: the CPUs by number, `VM_LIST` by VM id, and `ACTIVE_VM`. -/
structure Machine where
  cpus : ℕ → Pcpu
  vmList : ℕ → Option Vm
  activeVm : Option ℕ

inductive Event where
  | writeDistributor (p offset accessWidth : ℕ) (value : BitVec 64)
  | writeRedistributor (p offset accessWidth : ℕ) (value : BitVec 64)
  | readPl011 (p offset : ℕ)
  | writePl011 (p offset : ℕ) (value : BitVec 64)
  | inputUart (p : ℕ) (c : BitVec 8)
  | switchActiveVm (vmId : ℕ)
  | blockCompletion (p : ℕ)
  | genericTimer (p : ℕ) (physicalIntId : BitVec 32)
  | injectInterrupt (p : ℕ)
  | maintenance (p : ℕ)
  | acknowledge (p i : ℕ)
  | deactivate (p i : ℕ)

namespace Machine

def put (s : Machine) (p : ℕ) (cpu : Pcpu) (vmId : ℕ) (vm : Vm) : Machine :=
  { s with
    cpus := Function.update s.cpus p cpu
    vmList := Function.update s.vmList vmId (some vm) }

/-- Run a handler of VM `vmId` on CPU `p`. -/
def onVm (s : Machine) (p vmId : ℕ) (handler : Vm → Pcpu → Option (Vm × Pcpu)) : Option Machine := do
  let vm ← s.vmList vmId
  let (vm', cpu') ← handler vm (s.cpus p)
  return s.put p cpu' vmId vm'

/-- Run a handler on the VM that `get_current_vm` finds on CPU `p`. -/
def onCurrentVm (s : Machine) (p : ℕ) (handler : Vm → Pcpu → Option (Vm × Pcpu)) :
    Option Machine :=
  s.onVm p (s.cpus p).tpidrEl2 handler

/-- The CPU interface changes list register `i` of CPU `p`. -/
def onListRegister (s : Machine) (p i : ℕ) (f : BitVec 64 → BitVec 64) : Machine :=
  { s with
    cpus := Function.update s.cpus p
      { s.cpus p with ichLr := Function.update (s.cpus p).ichLr i (f ((s.cpus p).ichLr i)) } }

def step (s : Machine) : Event → Option Machine
  | .writeDistributor p offset accessWidth value =>
    s.onCurrentVm p fun vm cpu => vm.writeDistributor cpu offset accessWidth value
  | .writeRedistributor p offset accessWidth value =>
    s.onCurrentVm p fun vm cpu => vm.writeRedistributor cpu offset accessWidth value
  | .readPl011 p offset =>
    s.onCurrentVm p fun vm cpu => some ({ vm with pl011Mmio := (vm.pl011Mmio.read offset).1 }, cpu)
  | .writePl011 p offset value =>
    s.onCurrentVm p fun vm cpu =>
      some ({ vm with pl011Mmio := vm.pl011Mmio.write offset value }, cpu)
  | .inputUart p c => do
    let vmId ← s.activeVm
    s.onVm p vmId fun vm cpu => vm.inputUart cpu c
  | .switchActiveVm vmId =>
    match s.vmList vmId with
    | some _ => some { s with activeVm := some vmId }
    | none => some s
  | .blockCompletion p => s.onCurrentVm p fun vm cpu => vm.blockCompletion cpu
  | .genericTimer p physicalIntId =>
    s.onCurrentVm p fun vm cpu => vm.genericTimerInterruptHandler cpu physicalIntId
  | .injectInterrupt p => s.onCurrentVm p fun vm cpu => some (vm.injectInterruptHandler cpu)
  | .maintenance p => s.onCurrentVm p fun vm cpu => vm.maintenanceInterruptHandler cpu
  | .acknowledge p i => some (s.onListRegister p i Vgic.acknowledge)
  | .deactivate p i => some (s.onListRegister p i Vgic.deactivate)

/-- The step relation: the handler returns. -/
def Step (s : Machine) (e : Event) (t : Machine) : Prop := s.step e = some t

/-- Freshly created VMs on CPUs whose list registers are all free. -/
structure Booted (s : Machine) : Prop where
  distributor : ∀ vmId vm, s.vmList vmId = some vm →
    vm.gicDistributorMmio = GicDistributorMmio.new vmId
  redistributor : ∀ vmId vm, s.vmList vmId = some vm →
    ∃ mpidr, vm.gicRedistributorMmio = GicRedistributorMmio.new vmId mpidr
  loads : ∀ p, (s.cpus p).loads = []
  inactive : ∀ p i, Vgic.Inactive ((s.cpus p).ichLr i)

section Put

variable (s : Machine) (p vmId : ℕ) (cpu : Pcpu) (vm : Vm)

@[simp] theorem put_cpus_self : (s.put p cpu vmId vm).cpus p = cpu := Function.update_self ..

theorem put_cpus_of_ne {q : ℕ} (h : q ≠ p) : (s.put p cpu vmId vm).cpus q = s.cpus q :=
  Function.update_of_ne h ..

@[simp] theorem put_vmList_self : (s.put p cpu vmId vm).vmList vmId = some vm :=
  Function.update_self ..

theorem put_vmList_of_ne {id : ℕ} (h : id ≠ vmId) :
    (s.put p cpu vmId vm).vmList id = s.vmList id :=
  Function.update_of_ne h ..

end Put

theorem onVm_eq_some {s t : Machine} {p vmId : ℕ} {handler : Vm → Pcpu → Option (Vm × Pcpu)} :
    s.onVm p vmId handler = some t ↔ ∃ vm vm' cpu', s.vmList vmId = some vm ∧
      handler vm (s.cpus p) = some (vm', cpu') ∧ t = s.put p cpu' vmId vm' := by
  simp only [onVm, bind, Option.bind_eq_some_iff, pure, Option.some.injEq, Prod.exists]
  constructor
  · rintro ⟨vm, hvm, vm', cpu', hh, rfl⟩
    exact ⟨vm, vm', cpu', hvm, hh, rfl⟩
  · rintro ⟨vm, vm', cpu', hvm, hh, rfl⟩
    exact ⟨vm, hvm, vm', cpu', hh, rfl⟩

end Machine

end MiniVisor
