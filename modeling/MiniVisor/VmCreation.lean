import MiniVisor.PagingFrame
import MiniVisor.AllocatorRuns
import MiniVisor.VirtioBlkMmio

/-!
# Creating virtual machines on all CPUs

Every CPU runs `create_vm` once and enters its guest. Its calls to the memory allocator, to
`VM_LIST` and to `ACTIVE_VM` are steps of their own, under the locks that the source takes, so
that they interleave with what the other CPUs do. A mapping call takes its pages one by one and
is put at its last page: up to there it writes to its own tables only.

What the guests store goes through the stage-2 tables. The other callers of the allocator are
one holder, which writes to what it holds. A failed `expect` halts the CPU with its blocks taken.
-/
namespace MiniVisor

namespace Creation

open Paging MemoryAllocator

def ramVirtualBase : ℕ := 0x40000000
def ramSize : ℕ := 0x10000000
def alignSize : ℕ := 0x200000

/-- `allocate_pages` -/
def allocatePages (a : MemoryAllocator) (numberOfPages align : ℕ) :
    Option (CallResult × MemoryAllocator) :=
  a.call (.allocate (numberOfPages <<< pageShift) align)

/-- The number of root tables that `init_stage2_translation_table` allocates. -/
def numberOfRootTables (idAa64mmfr0El1 : BitVec 64) : ℕ :=
  let (t0sz, level) := initialLookup (idAa64mmfr0El1 &&& idAa64mmfr0El1Parange)
  numberOfConcatenatedPageTables t0sz level

/-- Where the kernel is put: behind the device tree. -/
def kernelVirtualAddress (dtbSize : ℕ) : Option ℕ := do
  let s ← Checked.add 64 ramVirtualBase dtbSize
  let s ← Checked.sub s 1
  Checked.add 64 (s - s % alignSize) alignSize

/-- What a CPU has of its VM once the tables are there. -/
structure Guest where
  vmId : ℕ
  /-- `ram_physical_base_address` -/
  ram : ℕ
  vtcrEl2 : BitVec 64
  vttbrEl2 : BitVec 64
  /-- Ghost: the pages of the tables. -/
  tables : List ℕ

def Guest.stage2 (g : Guest) (m : Paging.Memory) : Stage2 :=
  ⟨g.vtcrEl2, g.vttbrEl2, m, g.tables⟩

/-- The fields of a `VM` in the list that are used here. -/
structure VmEntry where
  vmId : ℕ
  ram : GuestRam

def Guest.entry (g : Guest) : VmEntry := ⟨g.vmId, ⟨ramVirtualBase, g.ram, ramSize⟩⟩

/-- The call that maps the RAM, with the pages that it takes. -/
def Guest.mapCall (g : Guest) (pages : List ℕ) : MapCall :=
  ⟨pages, g.ram, ramVirtualBase, ramSize, true, true⟩

/-- The end of `create_vm`, from the mapped RAM on. -/
inductive Progress where
  | mapped
  | loaded
  | listed
  | switched
  | running
  deriving DecidableEq

/-- How far a CPU has come. -/
inductive Stage where
  | idle
  | allocated (ram : ℕ)
  | numbered (ram vmId : ℕ)
  | mapping (g : Guest) (pages : List ℕ)
  | created (g : Guest) (progress : Progress)
  | halted

structure System where
  allocator : MemoryAllocator
  /-- The words of the memory, by the address of their first byte. -/
  memory : Paging.Memory
  nextVmId : ℕ
  vmList : List VmEntry
  activeVm : Option VmEntry
  tpidrEl2 : ℕ → ℕ
  cpus : ℕ → Stage
  /-- Ghost: the bytes of the other callers of the allocator. -/
  others : Set ℕ

namespace System

def put (s : System) (p : ℕ) (stage : Stage) : System :=
  { s with cpus := Function.update s.cpus p stage }

/-- `switch_active_vm` -/
def switchActiveVm (s : System) (vmId : ℕ) : System × Bool :=
  match s.vmList.find? fun vm => vm.vmId = vmId with
  | some vm => ({ s with activeVm := some vm }, true)
  | none => (s, false)

/-- `get_current_vm` on CPU `p`. -/
def getCurrentVm (s : System) (p : ℕ) : Option VmEntry :=
  s.vmList.find? fun vm => vm.vmId = s.tpidrEl2 p

end System

/-- The address of the word with a byte. -/
def wordOf (b : ℕ) : ℕ := b / 8 * 8

/-- Only words with bytes of `R` are different. -/
def Fills (m m' : Paging.Memory) (R : Set ℕ) : Prop :=
  ∀ a, (∀ b ∈ R, wordOf b ≠ a) → m' a = m a

/-- What the loader writes to: the device tree and the kernel image behind it. -/
def loadedBytes (ram dtbSize kernel kernelSize : ℕ) : Set ℕ :=
  Set.Ico ram (ram + dtbSize) ∪ Set.Ico kernel (kernel + kernelSize)

inductive Event where
  | allocateRam (p : ℕ)
  | takeId (p : ℕ)
  | initTables (p : ℕ)
  | allocateTable (p : ℕ)
  | map (p : ℕ)
  | load (p dtbSize kernelSize : ℕ)
  | list (p : ℕ)
  | switch (p : ℕ)
  | enter (p : ℕ)
  | store (p x : ℕ)
  | switchActiveVm (vmId : ℕ)
  | allocate (size alignOrder : ℕ)
  | free (start size : ℕ)
  | write (bytes : Set ℕ)

open Event

/-- `id p` is `ID_AA64MMFR0_EL1` of CPU `p`. -/
inductive Step (id : ℕ → BitVec 64) : System → Event → System → Prop
  | allocateRam {s p ram a} (hp : s.cpus p = .idle)
      (hcall : allocatePages s.allocator (ramSize >>> pageShift) pageShift =
        some (.ok (some ram), a)) :
      Step id s (allocateRam p) ({ s with allocator := a }.put p (.allocated ram))
  | noRam {s p e a} (hp : s.cpus p = .idle)
      (hcall : allocatePages s.allocator (ramSize >>> pageShift) pageShift = some (.error e, a)) :
      Step id s (allocateRam p) ({ s with allocator := a }.put p .halted)
  | takeId {s p ram} (hp : s.cpus p = .allocated ram) :
      Step id s (takeId p)
        ({ s with nextVmId := (s.nextVmId + 1) % 2 ^ 64 }.put p (.numbered ram s.nextVmId))
  | initTables {s p ram vmId table a t} (hp : s.cpus p = .numbered ram vmId)
      (hcall : allocatePages s.allocator (numberOfRootTables (id p))
        (12 + numberOfRootTables (id p) - 1) = some (.ok (some table), a))
      (ht : t = initStage2TranslationTable (id p) table s.memory) :
      Step id s (initTables p) ({ s with allocator := a, memory := t.memory }.put p
        (.mapping ⟨vmId, ram, t.vtcrEl2, t.vttbrEl2, t.tables⟩ []))
  | noRoot {s p ram vmId e a} (hp : s.cpus p = .numbered ram vmId)
      (hcall : allocatePages s.allocator (numberOfRootTables (id p))
        (12 + numberOfRootTables (id p) - 1) = some (.error e, a)) :
      Step id s (initTables p) ({ s with allocator := a }.put p .halted)
  | allocateTable {s p g pages page a} (hp : s.cpus p = .mapping g pages)
      (hcall : allocatePages s.allocator 1 12 = some (.ok (some page), a)) :
      Step id s (allocateTable p)
        ({ s with allocator := a }.put p (.mapping g (pages ++ [page])))
  -- The mapping call comes to the table that it cannot have.
  | noTable {s p g pages e a t} (hp : s.cpus p = .mapping g pages)
      (hcall : allocatePages s.allocator 1 12 = some (.error e, a))
      (hmap : mapAddressStage2 (g.stage2 s.memory) pages g.ram ramVirtualBase ramSize true true =
        some (.error t)) :
      Step id s (allocateTable p)
        ({ s with allocator := a, memory := t.memory }.put p .halted)
  | map {s p g pages t} (hp : s.cpus p = .mapping g pages)
      (hmap : mapAddressStage2 (g.stage2 s.memory) pages g.ram ramVirtualBase ramSize true true =
        some (.ok t))
      (hall : t.tables = pages.reverse ++ g.tables) :
      Step id s (map p)
        ({ s with memory := t.memory }.put p (.created { g with tables := t.tables } .mapped))
  | load {s p g dtbSize kernelSize address kernel m}
      (hp : s.cpus p = .created g .mapped)
      (haddress : kernelVirtualAddress dtbSize = some address)
      (hkernel : g.entry.ram.getPhysicalAddress address = some (some kernel))
      (hm : Fills s.memory m (loadedBytes g.ram dtbSize kernel kernelSize)) :
      Step id s (load p dtbSize kernelSize) ({ s with memory := m }.put p (.created g .loaded))
  -- A file is not found or not read to its end, or the header of the kernel is not valid.
  | notLoaded {s p g dtbSize kernelSize address kernel m}
      (hp : s.cpus p = .created g .mapped)
      (haddress : kernelVirtualAddress dtbSize = some address)
      (hkernel : g.entry.ram.getPhysicalAddress address = some (some kernel))
      (hm : Fills s.memory m (loadedBytes g.ram dtbSize kernel kernelSize)) :
      Step id s (load p dtbSize kernelSize) ({ s with memory := m }.put p .halted)
  | list {s p g} (hp : s.cpus p = .created g .loaded) :
      Step id s (list p) ({ s with vmList := s.vmList ++ [g.entry] }.put p (.created g .listed))
  | switch {s p g} (hp : s.cpus p = .created g .listed) :
      Step id s (switch p) ((s.switchActiveVm g.vmId).1.put p (.created g .switched))
  | enter {s p g} (hp : s.cpus p = .created g .switched) :
      Step id s (enter p) ({ s with tpidrEl2 := Function.update s.tpidrEl2 p g.vmId }.put p
        (.created g .running))
  -- A store of the guest within one word, to an address that is mapped writable.
  | store {s p g x o permission d} (hp : s.cpus p = .created g .running)
      (hx : (g.stage2 s.memory).translate x = some (o, permission))
      (hwritable : permission / 2 % 2 = 1) :
      Step id s (store p x) { s with memory := Function.update s.memory (wordOf o) d }
  | switchActiveVm {s vmId} : Step id s (switchActiveVm vmId) (s.switchActiveVm vmId).1
  | allocate {s size alignOrder address a}
      (hcall : s.allocator.call (.allocate size alignOrder) = some (.ok (some address), a)) :
      Step id s (allocate size alignOrder)
        { s with allocator := a, others := s.others ∪ Set.Ico address (address + size) }
  | notAllocated {s size alignOrder e a}
      (hcall : s.allocator.call (.allocate size alignOrder) = some (.error e, a)) :
      Step id s (allocate size alignOrder) { s with allocator := a }
  | free {s start size a} (hcall : s.allocator.call (.free start size) = some (.ok none, a)) :
      Step id s (free start size)
        { s with allocator := a, others := s.others \ Set.Ico start (start + size) }
  | notFreed {s start size e a} (hcall : s.allocator.call (.free start size) = some (.error e, a)) :
      Step id s (free start size) { s with allocator := a }
  | write {s bytes m} (hm : Fills s.memory m bytes) :
      Step id s (write bytes) { s with memory := m }

/-- The other callers use what they hold, the ids do not wrap around, and the kernel that is
loaded ends in the RAM. -/
def Admits (s : System) : Event → Prop
  | .free start size => Set.Ico start (start + size) ⊆ s.others
  | .write bytes => bytes ⊆ s.others
  | .takeId _ => s.nextVmId + 1 < 2 ^ 64
  | .load _ dtbSize kernelSize => ∀ address, kernelVirtualAddress dtbSize = some address →
      address + kernelSize ≤ ramVirtualBase + ramSize
  | _ => True

/-- No CPU has begun. -/
def boot (allocator : MemoryAllocator) (memory : Paging.Memory) (others : Set ℕ) : System where
  allocator := allocator
  memory := memory
  nextVmId := 0
  vmList := []
  activeVm := none
  tpidrEl2 _ := 0
  cpus _ := .idle
  others := others

end Creation

end MiniVisor
