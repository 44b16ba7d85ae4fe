import MiniVisor.AllocatorFree
import MiniVisor.Library.Runs

/-!
# Runs of the memory allocator

A run is any sequence of `free`, `allocate` and `reserve_memory` calls from
`MemoryAllocator::new()` in which no freed range overlaps what is free at that
moment. Every call of a run does to the set of free bytes what `SpecStep` says,
so the blocks that are handed out never overlap.
-/
namespace MiniVisor

open DoublyLinked

namespace MemoryAllocator

variable {a a' : MemoryAllocator} {l : List ℕ}

inductive Call where
  | free (start size : ℕ)
  | allocate (size alignOrder : ℕ)
  | reserveMemory (startAddress size alignOrder : ℕ)

/-- The result of a call: an address for `allocate`, nothing for the others. -/
abbrev CallResult := Except MemoryError (Option ℕ)

def call (a : MemoryAllocator) : Call → Option (CallResult × MemoryAllocator)
  | .free start size => (a.free start size).map fun (r, a) => (r.map fun _ => none, a)
  | .allocate size alignOrder => (a.allocate size alignOrder).map fun (r, a) => (r.map some, a)
  | .reserveMemory startAddress size alignOrder =>
    (a.reserveMemory startAddress size alignOrder).map fun (r, a) => (r.map fun _ => none, a)

/-- The state that a call leaves behind. -/
def afterCall (a : MemoryAllocator) (c : Call) : Option MemoryAllocator := (a.call c).map Prod.snd

def CallStep (a : MemoryAllocator) (c : Call) (a' : MemoryAllocator) : Prop :=
  a.afterCall c = some a'

/-- A freed range is not free already. -/
def FreesTaken (a : MemoryAllocator) : Call → Prop
  | .free start size => Disjoint (Set.Ico start (start + size)) a.freeBytes
  | _ => True

/-! ## The abstract allocator -/

/-- What a call may do to a set of free bytes. -/
inductive SpecStep (F : Set ℕ) : Call → CallResult → Set ℕ → Prop
  | failed (c : Call) (e : MemoryError) : SpecStep F c (.error e) F
  | freed (start size : ℕ) :
      SpecStep F (.free start size) (.ok none) (F ∪ Set.Ico start (start + size))
  | allocated {size alignOrder address : ℕ} (hfree : Set.Ico address (address + size) ⊆ F)
      (haligned : 2 ^ alignOrder ∣ address) :
      SpecStep F (.allocate size alignOrder) (.ok (some address))
        (F \ Set.Ico address (address + size))
  | reserved {startAddress size alignOrder : ℕ}
      (hfree : widened startAddress size alignOrder ⊆ F) :
      SpecStep F (.reserveMemory startAddress size alignOrder) (.ok none)
        (F \ widened startAddress size alignOrder)

/-- A call keeps the representation and refines the abstract allocator. -/
theorem Rep.call (h : Rep a l) {c : Call} {r : CallResult} (hguard : a.FreesTaken c)
    (hcall : a.call c = some (r, a')) :
    (∃ l', Rep a' l') ∧ SpecStep a.freeBytes c r a'.freeBytes := by
  cases c with
  | free start size =>
    obtain ⟨⟨result, a₁⟩, hfree, heq⟩ := Option.map_eq_some_iff.1 hcall
    obtain ⟨rfl, rfl⟩ := Prod.mk.injEq .. ▸ heq
    have hgave := h.free hguard hfree
    cases result with
    | error e =>
      obtain rfl : a₁ = a := hgave
      exact ⟨⟨l, h⟩, .failed _ e⟩
    | ok _ =>
      obtain ⟨hbytes, l', -, hrep⟩ := hgave
      refine ⟨⟨l', hrep⟩, ?_⟩
      rw [hbytes]
      exact .freed start size
  | allocate size alignOrder =>
    obtain ⟨⟨result, a₁⟩, halloc, heq⟩ := Option.map_eq_some_iff.1 hcall
    obtain ⟨rfl, rfl⟩ := Prod.mk.injEq .. ▸ heq
    have htook := h.allocate halloc
    cases result with
    | error e =>
      obtain rfl : a₁ = a := htook
      exact ⟨⟨l, h⟩, .failed _ e⟩
    | ok address =>
      obtain ⟨haligned, hsub, hbytes, l', hrep⟩ := htook
      refine ⟨⟨l', hrep⟩, ?_⟩
      rw [hbytes]
      exact .allocated hsub haligned
  | reserveMemory startAddress size alignOrder =>
    obtain ⟨⟨result, a₁⟩, hreserve, heq⟩ := Option.map_eq_some_iff.1 hcall
    obtain ⟨rfl, rfl⟩ := Prod.mk.injEq .. ▸ heq
    have htook := h.reserveMemory hreserve
    cases result with
    | error e =>
      obtain rfl : a₁ = a := htook
      exact ⟨⟨l, h⟩, .failed _ e⟩
    | ok _ =>
      obtain ⟨hsub, hbytes, l', hrep⟩ := htook
      refine ⟨⟨l', hrep⟩, ?_⟩
      rw [hbytes]
      exact .reserved hsub

theorem rep_new : Rep new [] where
  chain := ⟨⟨rfl, trivial, List.nodup_nil, by simp, by simp [new, MemoryEntry.new]⟩, by simp,
    List.Pairwise.nil⟩
  filed := ⟨fun _ => [], ⟨fun _ _ => rfl, fun _ _ => trivial, fun _ _ => List.nodup_nil, by simp⟩,
    fun _ _ => List.Pairwise.nil⟩
  size_le := by simp
  empty _ := rfl

theorem freeBytes_new : new.freeBytes = ∅ := by
  rw [rep_new.freeBytes_eq]
  simp [coveredBy]

/-! ## The representation in every state reached -/

/-- The chain `l` and the buckets `B` that the links of a state spell out. -/
structure Represented (a : MemoryAllocator) (l : List ℕ) (B : ℕ → List ℕ) : Prop where
  /-- The chain starts at the first entry and `previous` is the inverse of `next`. -/
  first : a.firstEntry = l.head?
  linked : Linked (fun i => (a.memoryEntryPool i).next) (fun i => (a.memoryEntryPool i).previous)
    none l none
  /-- It visits exactly the enabled entries, once each. -/
  nodup : l.Nodup
  enabled : ∀ i, i ∈ l ↔ i < poolSize ∧ (a.memoryEntryPool i).enabled = true
  id : ∀ i ∈ l, (a.memoryEntryPool i).id = i
  /-- Its ranges increase and are the maximal intervals of the free set. -/
  increasing : l.Pairwise fun i j => (a.memoryEntryPool i).endAddress < (a.memoryEntryPool j).start
  range : ∀ i ∈ l, (a.memoryEntryPool i).start < (a.memoryEntryPool i).endAddress
  gap : l.Pairwise fun i j => ∃ x ∉ a.freeBytes,
    (a.memoryEntryPool i).endAddress < x ∧ x < (a.memoryEntryPool j).start
  maximal : ∀ i ∈ l, (a.memoryEntryPool i).endAddress + 1 ∉ a.freeBytes ∧
    ∀ x, x + 1 = (a.memoryEntryPool i).start → x ∉ a.freeBytes
  /-- A bucket starts at its head and its links are consistent. -/
  head : ∀ o < numOfFreeList, a.freeList o = (B o).head?
  listLinked : ∀ o < numOfFreeList, Linked (fun i => (a.memoryEntryPool i).listNext)
    (fun i => (a.memoryEntryPool i).listPrev) none (B o) none
  /-- The bucket of a size holds exactly the enabled entries of that size class, once each. -/
  listNodup : ∀ o < numOfFreeList, (B o).Nodup
  bucket : ∀ o < numOfFreeList, ∀ i, i ∈ B o ↔
    (i < poolSize ∧ (a.memoryEntryPool i).enabled = true) ∧
      sizeToPageOrder (a.memoryEntryPool i).size = o
  sorted : ∀ o < numOfFreeList,
    (B o).Pairwise fun i j => (a.memoryEntryPool i).size ≤ (a.memoryEntryPool j).size

theorem Rep.not_free_around (h : Rep a l) {i : ℕ} (hi : i ∈ l) :
    (a.memoryEntryPool i).endAddress + 1 ∉ a.freeBytes ∧
      ∀ x, x + 1 = (a.memoryEntryPool i).start → x ∉ a.freeBytes := by
  obtain ⟨l₁, l₂, rfl⟩ := List.append_of_mem hi
  obtain ⟨hlow, hhigh⟩ := h.chain.apart.around
  have hrange := fun j hj => h.chain.range j hj
  have hi := hrange i hi
  rw [h.freeBytes_eq]
  refine ⟨?_, fun x hx => ?_⟩ <;> rintro ⟨j, hj, hcov⟩ <;>
    obtain hj₁ | hj₁ := List.mem_append.1 hj
  · have := hlow j hj₁
    omega
  · obtain rfl | hj₂ := List.mem_cons.1 hj₁
    · omega
    · have := hhigh j hj₂
      omega
  · have := hlow j hj₁
    omega
  · obtain rfl | hj₂ := List.mem_cons.1 hj₁
    · omega
    · have := hhigh j hj₂
      omega

theorem Rep.represented (h : Rep a l) : ∃ B, Represented a l B := by
  obtain ⟨B, hB, hsorted⟩ := h.filed
  have henabled : ∀ i, i ∈ l ↔ i < poolSize ∧ (a.memoryEntryPool i).enabled = true := fun i =>
    ⟨fun hi => ⟨(h.chain.valid i hi).1, (h.chain.enabled i (h.chain.valid i hi).1).2 hi⟩,
      fun hi => (h.chain.enabled i hi.1).1 hi.2⟩
  refine ⟨B, h.chain.first, h.chain.linked, h.chain.nodup, henabled,
    fun i hi => (h.chain.valid i hi).2, ?_, h.chain.range, ?_, fun i hi => h.not_free_around hi,
    hB.head, hB.linked, hB.nodup, fun o ho i => ?_, hsorted⟩
  · exact h.chain.apart.imp fun hij => by omega
  · refine List.Pairwise.imp_of_mem (fun hi _ hij => ?_) h.chain.apart
    exact ⟨_, (h.not_free_around hi).1, by omega, hij⟩
  · rw [← henabled]
    exact hB.mem o ho i

theorem rep_of_run (hrun : Runs.GuardedRun CallStep FreesTaken new a) : ∃ l, Rep a l :=
  hrun.invariant (I := fun a => ∃ l, Rep a l)
    (fun a c a' hrep hguard hstep => by
      obtain ⟨l, hrep⟩ := hrep
      obtain ⟨⟨r, a'⟩, hcall, rfl⟩ := Option.map_eq_some_iff.1 hstep
      exact (hrep.call hguard hcall).1) ⟨[], rep_new⟩

/-- In every state of a run the chain and the buckets are well formed. -/
theorem represented_of_run {a : MemoryAllocator}
    (hrun : Runs.GuardedRun CallStep FreesTaken new a) : ∃ l B, Represented a l B := by
  obtain ⟨l, hrep⟩ := rep_of_run hrun
  obtain ⟨B, hB⟩ := hrep.represented
  exact ⟨l, B, hB⟩

/-- A range is freed, one page of it is reserved and another one allocated. -/
def sampleCalls : List Call :=
  [.reserveMemory 0x4000 0x1000 12, .allocate 0x1000 12]

theorem freesTaken_new (start size : ℕ) : new.FreesTaken (.free start size) := by
  rw [FreesTaken, freeBytes_new]
  exact Set.disjoint_empty _

/-- The reserved page in the middle leaves a chain of two entries. -/
theorem sample_represented : ∃ a : MemoryAllocator, Runs.GuardedRun CallStep FreesTaken new a ∧
    (∃ l B, Represented a l B) ∧ a.firstEntry = some 0 ∧
      (a.memoryEntryPool 0).next = some 1 := by
  obtain ⟨a₁, hfirst⟩ := Option.isSome_iff_exists.1
    (rfl : (new.afterCall (.free 0x1000 0x8000)).isSome = true)
  obtain ⟨a, hrest⟩ := Option.isSome_iff_exists.1
    (rfl : ((new.afterCall (.free 0x1000 0x8000)).bind fun a =>
      sampleCalls.foldlM afterCall a).isSome = true)
  have hlinks : ((new.afterCall (.free 0x1000 0x8000)).bind fun a =>
      sampleCalls.foldlM afterCall a).map (fun a => (a.firstEntry, (a.memoryEntryPool 0).next)) =
      some (some 0, some 1) := rfl
  rw [hrest] at hlinks
  rw [hfirst] at hrest
  have hrun : Runs.GuardedRun CallStep FreesTaken new a :=
    Runs.GuardedRun.cons (freesTaken_new _ _) hfirst
      (Runs.GuardedRun.of_foldlM (by simp [sampleCalls, FreesTaken]) hrest)
  obtain ⟨hstart, hnext⟩ := Prod.mk.injEq .. ▸ Option.some.inj hlinks
  exact ⟨a, hrun, represented_of_run hrun, hstart, hnext⟩

/-! ## Blocks that are handed out -/

/-- The allocator with a record of what its callers hold. -/
structure Heap where
  allocator : MemoryAllocator
  /-- Allocated blocks and reserved ranges, less the bytes freed since. -/
  live : List (Set ℕ)
  /-- All bytes that were ever freed to the allocator. -/
  given : Set ℕ

namespace Heap

def new : Heap := ⟨MemoryAllocator.new, [], ∅⟩

def record (h : Heap) (a : MemoryAllocator) : Call → CallResult → Heap
  | .free start size, .ok _ =>
    ⟨a, h.live.map fun b => b \ Set.Ico start (start + size),
      h.given ∪ Set.Ico start (start + size)⟩
  | .allocate size _, .ok (some address) =>
    ⟨a, Set.Ico address (address + size) :: h.live, h.given⟩
  | .reserveMemory startAddress size alignOrder, .ok _ =>
    ⟨a, widened startAddress size alignOrder :: h.live, h.given⟩
  | _, _ => { h with allocator := a }

def step (h : Heap) (c : Call) : Option Heap :=
  (h.allocator.call c).map fun (r, a) => h.record a c r

def Step (h : Heap) (c : Call) (h' : Heap) : Prop := h.step c = some h'

/-- The allocator is well formed and the live blocks are apart from each other and
from the free bytes. -/
structure Separated (h : Heap) : Prop where
  rep : ∃ l, Rep h.allocator l
  free_given : h.allocator.freeBytes ⊆ h.given
  live_given : ∀ b ∈ h.live, b ⊆ h.given
  live_taken : ∀ b ∈ h.live, Disjoint b h.allocator.freeBytes
  live_disjoint : h.live.Pairwise Disjoint

theorem separated_new : Separated new where
  rep := ⟨[], rep_new⟩
  free_given := by simp [new, freeBytes_new]
  live_given := by simp [new]
  live_taken := by simp [new]
  live_disjoint := List.Pairwise.nil

variable {h h' : Heap}

/-- A block of free bytes is handed out. -/
theorem Separated.take {a : MemoryAllocator} {R : Set ℕ} (hsep : Separated h)
    (hrep : ∃ l, Rep a l) (hsub : R ⊆ h.allocator.freeBytes)
    (hbytes : a.freeBytes = h.allocator.freeBytes \ R) : Separated ⟨a, R :: h.live, h.given⟩ where
  rep := hrep
  free_given := by
    change a.freeBytes ⊆ h.given
    rw [hbytes]
    exact Set.sdiff_subset.trans hsep.free_given
  live_given b hb := by
    obtain rfl | hb := List.mem_cons.1 hb
    · exact hsub.trans hsep.free_given
    · exact hsep.live_given b hb
  live_taken b hb := by
    change Disjoint b a.freeBytes
    rw [hbytes]
    obtain rfl | hb := List.mem_cons.1 hb
    · exact Set.disjoint_sdiff_right
    · exact (hsep.live_taken b hb).mono_right Set.sdiff_subset
  live_disjoint := List.pairwise_cons.2
    ⟨fun b hb => ((hsep.live_taken b hb).mono_right hsub).symm, hsep.live_disjoint⟩

/-- A range is given back. -/
theorem Separated.give {a : MemoryAllocator} {R : Set ℕ} (hsep : Separated h)
    (hrep : ∃ l, Rep a l) (hbytes : a.freeBytes = h.allocator.freeBytes ∪ R) :
    Separated ⟨a, h.live.map fun b => b \ R, h.given ∪ R⟩ where
  rep := hrep
  free_given := by
    change a.freeBytes ⊆ h.given ∪ R
    rw [hbytes]
    exact Set.union_subset_union_left R hsep.free_given
  live_given b hb := by
    obtain ⟨b, hlive, rfl⟩ := List.mem_map.1 hb
    exact (Set.sdiff_subset.trans (hsep.live_given b hlive)).trans Set.subset_union_left
  live_taken b hb := by
    change Disjoint b a.freeBytes
    obtain ⟨b, hlive, rfl⟩ := List.mem_map.1 hb
    rw [hbytes]
    exact ((hsep.live_taken b hlive).mono_left Set.sdiff_subset).union_right Set.disjoint_sdiff_left
  live_disjoint := List.pairwise_map.2 <|
    hsep.live_disjoint.imp fun hdisj => hdisj.mono Set.sdiff_subset Set.sdiff_subset

theorem Separated.step {c : Call} (hsep : Separated h) (hguard : h.allocator.FreesTaken c)
    (hstep : h.Step c h') : Separated h' := by
  obtain ⟨⟨r, a⟩, hcall, rfl⟩ := Option.map_eq_some_iff.1 hstep
  obtain ⟨l, hrep⟩ := hsep.rep
  obtain ⟨hrep', hspec⟩ := hrep.call hguard hcall
  generalize hF : a.freeBytes = F at hspec
  cases hspec with
  | failed c e =>
    cases c <;> exact ⟨hrep', hF ▸ hsep.free_given, hsep.live_given, hF ▸ hsep.live_taken,
      hsep.live_disjoint⟩
  | freed start size => exact hsep.give hrep' hF
  | allocated hfree _ => exact hsep.take hrep' hfree hF
  | reserved hfree => exact hsep.take hrep' hfree hF

theorem Separated.of_run
    (hrun : Runs.GuardedRun Step (fun h c => h.allocator.FreesTaken c) new h) : Separated h :=
  hrun.invariant (fun _ _ _ hsep hguard hstep => hsep.step hguard hstep) separated_new

/-- In every state of a run each call refines the abstract allocator, and the live
blocks are disjoint and inside the memory that the allocator was given. -/
theorem refines_free_bytes {h : Heap}
    (hrun : Runs.GuardedRun Step (fun h c => h.allocator.FreesTaken c) new h) :
    (∀ c r a', h.allocator.FreesTaken c → h.allocator.call c = some (r, a') →
      SpecStep h.allocator.freeBytes c r a'.freeBytes) ∧
      h.live.Pairwise Disjoint ∧ (∀ b ∈ h.live, b ⊆ h.given) ∧
      ∀ b ∈ h.live, Disjoint b h.allocator.freeBytes := by
  have hsep := Separated.of_run hrun
  obtain ⟨l, hrep⟩ := hsep.rep
  exact ⟨fun c r a' hguard hcall => (hrep.call hguard hcall).2, hsep.live_disjoint,
    hsep.live_given, hsep.live_taken⟩

theorem sample_refines : ∃ h : Heap,
    Runs.GuardedRun Step (fun h c => h.allocator.FreesTaken c) new h ∧
      h.live = [Set.Ico 0x1000 0x2000, widened 0x4000 0x1000 12] ∧ h.live.Pairwise Disjoint := by
  obtain ⟨h₁, hfirst⟩ := Option.isSome_iff_exists.1
    (rfl : (new.step (.free 0x1000 0x8000)).isSome = true)
  obtain ⟨h, hrest⟩ := Option.isSome_iff_exists.1
    (rfl : ((new.step (.free 0x1000 0x8000)).bind fun h => sampleCalls.foldlM step h).isSome = true)
  have hlive : ((new.step (.free 0x1000 0x8000)).bind fun h => sampleCalls.foldlM step h).map
      live = some [Set.Ico 0x1000 0x2000, widened 0x4000 0x1000 12] := rfl
  rw [hrest] at hlive
  rw [hfirst] at hrest
  have hrun : Runs.GuardedRun Step (fun h c => h.allocator.FreesTaken c) new h :=
    Runs.GuardedRun.cons (freesTaken_new _ _) hfirst
      (Runs.GuardedRun.of_foldlM (by simp [sampleCalls, FreesTaken]) hrest)
  exact ⟨h, hrun, Option.some.inj hlive, (refines_free_bytes hrun).2.1⟩

end Heap

end MemoryAllocator

end MiniVisor
