import MiniVisor.BlockWalk
import MiniVisor.Library.Runs

/-!
# The host memory that the block device touches

The guest sets up the queue with register writes, changes its RAM at will and notifies
the device. The device checks the first byte of an address only. What it touches stays
in the guest's RAM if, at every notification, the rings lie there, the descriptors that
can be reached are in the table and end in RAM, and nothing that is served overwrites
the table.
-/
namespace MiniVisor

open Effects

/-- `n` bytes of the guest's RAM. -/
def Platform.Inside (p : Platform) (address n : ℕ) : Prop :=
  p.ram.ramPhysicalBaseAddress ≤ address ∧
    address + n ≤ p.ram.ramPhysicalBaseAddress + p.ram.ramSize

instance (p : Platform) (address n : ℕ) : Decidable (p.Inside address n) :=
  inferInstanceAs (Decidable (_ ∧ _))

/-- Everything that was touched is in the guest's RAM. -/
def Platform.Confined (p : Platform) (s : BlkState) : Prop :=
  ∀ a ∈ s.accesses, p.Inside a.range.1 a.range.2

/-- What a guest does: a write to a register, or any change of memory. -/
inductive GuestEvent where
  | write (fuel offset value : ℕ)
  | store (memory : Memory)

namespace VirtioBlkMmio

def runEvent (p : Platform) : GuestEvent → Effect BlkState PUnit
  | .write fuel offset value => write p fuel offset value
  | .store memory => .change fun s => { s with host.memory := memory }

def descAt (s : BlkState) (id : ℕ) : VirtQueueDesc :=
  readDesc s.host.memory (s.device.descriptor + 16 * id)

/-- The first descriptor of the request in a slot of the available ring. -/
def headId (s : BlkState) (slot : ℕ) : ℕ :=
  readLe s.host.memory (s.device.availRing + 4 + 2 * slot) 2

/-- The descriptors that the links from the available ring lead to. -/
inductive Followed (s : BlkState) : ℕ → Prop
  | first {slot : ℕ} (h : slot < s.device.queueSize)
      (hnext : (descAt s (headId s slot)).HasNext) : Followed s (descAt s (headId s slot)).next
  | next {id : ℕ} (h : Followed s id) (hnext : (descAt s id).HasNext) : Followed s (descAt s id).next

variable {p : Platform} {fuel id : ℕ} {s₀ s t : BlkState} {address n : ℕ}

theorem inside_of_getPhysicalAddress {v : ℕ} (h : p.ram.getPhysicalAddress v = some (some address))
    (hn : v + n ≤ p.ram.ramVirtualBaseAddress + p.ram.ramSize) : p.Inside address n := by
  simp only [GuestRam.getPhysicalAddress, Option.bind_eq_bind, Option.bind_eq_some_iff] at h
  obtain ⟨last, hlast, h⟩ := h
  split_ifs at h with hin
  · obtain ⟨a, ha, h⟩ := Option.bind_eq_some_iff.1 h
    obtain ⟨-, rfl⟩ := Checked.add_eq_some.1 ha
    obtain rfl : _ = address := by simpa using h
    constructor <;> omega
  · exact absurd h (by simp)

theorem lt_of_getPhysicalAddress {v : ℕ} (h : p.ram.getPhysicalAddress v = some (some address)) :
    v < p.ram.ramVirtualBaseAddress + p.ram.ramSize := by
  simp only [GuestRam.getPhysicalAddress, Option.bind_eq_bind, Option.bind_eq_some_iff] at h
  obtain ⟨last, hlast, h⟩ := h
  obtain ⟨-, rfl⟩ := Checked.add_eq_some.1 hlast
  split_ifs at h with hin
  · exact hin.2
  · exact absurd h (by simp)

/-! ## The layout of the queue -/

/-- The used ring lies behind the available ring, and that behind the table. -/
def InOrder (device : VirtioBlkMmio) : Prop :=
  0 < device.queueSize → device.availRing = device.descriptor + 16 * device.queueSize ∧
    device.availRing + 6 + 2 * device.queueSize ≤ device.usedRing

section

variable {α : Type} {K : α → BlkState → Prop} {E : BlkState → Prop}

end

variable {add : ℕ → ℕ → Option ℕ} {isWrite : Bool} {offset totalSize status length : ℕ}
  {d last : VirtQueueDesc}

/-- What every run keeps. -/
structure Kept (p : Platform) (s : BlkState) : Prop where
  inOrder : InOrder s.device
  confined : p.Confined s

/-- A device that was not set up. -/
def sampleNew : BlkState :=
  { sampleState 0 0 [] with
    device :=
      { (sampleState 0 0 []).device with
        queueSize := 0
        descriptor := 0
        availRing := 0
        usedRing := 0
        lastAvailId := 0 } }

theorem sampleNew_device : new ⟨2, 1024, by decide⟩ = some sampleNew.device := by
  rw [new, Checked.require, if_pos (by decide)]
  rfl

/-- A request without data in the first slot. -/
def sampleQueue : Memory :=
  writeLe (writeDescs (fun _ => 0) 0x80000000 [⟨0x40002000, 16, 1, 1⟩, ⟨0x40004000, 1, 0, 0⟩])
    0x80000082 2 1

/-- A queue of eight descriptors at the beginning of RAM. -/
def sampleSetup : BlkState :=
  (runEvent samplePlatform (.store sampleQueue)
    (runEvent samplePlatform (.write 0 virtioMmioQueuePfn 0x40000)
      (runEvent samplePlatform (.write 0 virtioMmioQueueNum 8) sampleNew).2).2).2

end VirtioBlkMmio

end MiniVisor
