import MiniVisor.AllocatorRuns

/-!
# The counter of free bytes

The sizes along the address chain add up to the number of free bytes. Taking memory
moves the counter with them; giving memory back counts it once in
`define_free_memory` and once more in `free`, unless the allocator was empty.
-/
namespace MiniVisor

open DoublyLinked

namespace MemoryAllocator

variable {a a' a₁ : MemoryAllocator} {pool : MemoryEntryPool} {l l₁ l₂ : List ℕ}
  {e start last size : ℕ}

/-! ## Sizes along the chain -/

/-- The entries that the `next` links visit from `entry` on. -/
def chainEntries (pool : MemoryEntryPool) : ℕ → Option ℕ → List ℕ
  | 0, _ => []
  | _ + 1, none => []
  | fuel + 1, some entry => entry :: chainEntries pool fuel (getNextEntry pool entry)

/-- The sum of `get_size` over the enabled entries of the address chain. -/
def chainSize (a : MemoryAllocator) : ℕ :=
  total a.memoryEntryPool ((chainEntries a.memoryEntryPool poolSize (follow a.firstEntry)).filter
    fun i => (a.memoryEntryPool i).enabled)

theorem chainEntries_eq {p : Option ℕ} {fuel : ℕ} (hfuel : l.length ≤ fuel)
    (hlinked : Linked (fun i => (pool i).next) (fun i => (pool i).previous) p l none)
    (hvalid : ∀ i ∈ l, i < poolSize) : chainEntries pool fuel l.head? = l := by
  induction l generalizing p fuel with
  | nil => cases fuel <;> rfl
  | cons e l ih =>
    obtain ⟨-, hnext, hrest⟩ := hlinked
    cases fuel with
    | zero => simp at hfuel
    | succ fuel =>
      have hnext : (pool e).next = l.head? := by rw [← Option.or_none (o := l.head?)]; exact hnext
      have hfollow : getNextEntry pool e = l.head? := by
        rw [getNextEntry, hnext]
        exact follow_eq fun i hi => hvalid i (List.mem_cons_of_mem e (List.mem_of_head? hi))
      rw [List.head?_cons, chainEntries, hfollow]
      rw [ih (by simpa using hfuel) hrest fun i hi => hvalid i (List.mem_cons_of_mem e hi)]

/-- The chain fits into the pool. -/
theorem Links.length_le {first : Option ℕ} (h : Links pool first l) : l.length ≤ poolSize := by
  have hsub : l ⊆ List.range poolSize := fun i hi => List.mem_range.2 (h.valid i hi).1
  simpa using (List.subperm_of_subset h.nodup hsub).length_le

theorem Rep.chainSize_eq (h : Rep a l) : a.chainSize = total a.memoryEntryPool l := by
  have hvalid := fun i hi => (h.chain.valid i hi).1
  have hfollow : follow a.firstEntry = l.head? := by
    rw [h.chain.first]
    exact follow_eq fun i hi => hvalid i (List.mem_of_head? hi)
  rw [chainSize, hfollow, chainEntries_eq h.chain.length_le h.chain.linked hvalid,
    List.filter_eq_self.2 fun i hi => (h.chain.enabled i (hvalid i hi)).2 hi]

theorem finite_coveredBy (pool : MemoryEntryPool) (l : List ℕ) : (coveredBy pool l).Finite := by
  refine Set.Finite.subset (l.finite_toSet.biUnion fun i _ =>
    Set.finite_Icc (pool i).start (pool i).endAddress) fun x hx => ?_
  obtain ⟨i, hi, hx⟩ := hx
  exact Set.mem_biUnion (by exact hi) hx

theorem ncard_coveredBy (hapart : Apart pool l)
    (hrange : ∀ i ∈ l, (pool i).start < (pool i).endAddress) :
    (coveredBy pool l).ncard = total pool l := by
  induction l with
  | nil => simp [coveredBy, total]
  | cons e l ih =>
    have hmiddle := coveredBy_middle pool [] l e
    rw [List.nil_append, List.nil_append] at hmiddle
    have hsize : (range pool e).ncard = (pool e).size := by
      have := hrange e (by simp)
      rw [range, ← Finset.coe_Icc, Set.ncard_coe_finset, Nat.card_Icc, MemoryEntry.size]
      omega
    have hdisjoint : Disjoint (coveredBy pool l) (range pool e) :=
      (show Apart pool ([] ++ e :: l) from hapart).disjoint
    rw [hmiddle, Set.ncard_union_eq hdisjoint (finite_coveredBy pool l) (Set.finite_Icc _ _), hsize,
      ih (List.Pairwise.of_cons hapart) fun i hi => hrange i (List.mem_cons_of_mem e hi)]
    simp only [total, List.map_cons, List.sum_cons]
    omega

theorem Rep.finite_freeBytes (h : Rep a l) : a.freeBytes.Finite := by
  rw [h.freeBytes_eq]
  exact finite_coveredBy _ _

/-- The chain counts the free bytes. -/
theorem Rep.chainSize_eq_ncard (h : Rep a l) : a.chainSize = a.freeBytes.ncard := by
  rw [h.chainSize_eq, h.freeBytes_eq, ncard_coveredBy h.chain.apart h.chain.range]

/-! ## Taking memory -/

theorem chainEntry_counter {oldSize : Option ℕ} (h : a.chainEntry e oldSize = some a') :
    a'.freeSize = a.freeSize := by
  obtain ⟨_, _, -, rfl⟩ := chainEntry_eq_some h
  rfl

theorem setEntryRange_counter {s t : ℕ} (h : a.setEntryRange e s t = some a') :
    a'.freeSize = a.freeSize := (setEntryRange_spec h).2.2.2.2

theorem unchainEntry_counter (h : a.unchainEntry e = some a') : a'.freeSize = a.freeSize := by
  obtain ⟨_, -, rfl⟩ := Option.map_eq_some_iff.1 h
  rfl

theorem takeSize_counter {r : Reply Unit} (h : a.takeSize size = some r) :
    r.2.freeSize + size = a.freeSize := by
  obtain ⟨hle, rfl⟩ := takeSize_eq_some h
  exact Nat.sub_add_cancel hle

/-- On success the counter goes down by the size. -/
def CountsDown {α : Type} (a : MemoryAllocator) (size : ℕ) : Reply α → Prop
  | (.error _, _) => True
  | (.ok _, a') => a'.freeSize + size = a.freeSize

theorem CountsDown.of_takeSize {r : Reply Unit} (h : a₁.takeSize size = some r)
    (hsame : a₁.freeSize = a.freeSize) : CountsDown a size r := by
  have hcount := takeSize_counter h
  obtain ⟨-, rfl⟩ := takeSize_eq_some h
  exact hcount.trans hsame

theorem takeWhole_counts {r : Reply Unit} (h : a.takeWhole e size = some r) :
    CountsDown a size r := by
  have hremove : ∀ first : Option ℕ, takeWhole.remove e size { a with firstEntry := first } =
      some r → CountsDown a size r := by
    intro first h
    obtain ⟨a₁, hunchain, htake⟩ := Option.bind_eq_some_iff.1 h
    have hcounter := unchainEntry_counter hunchain
    exact .of_takeSize htake hcounter
  unfold takeWhole at h
  dsimp only at h
  split at h
  · obtain rfl := Option.some.inj h
    exact trivial
  · exact hremove _ h
  · exact hremove a.firstEntry h

theorem takePart_counts {s t : ℕ} {r : Reply Unit} (h : a.takePart e s t size = some r) :
    CountsDown a size r := by
  simp only [takePart, bind, Option.bind_eq_some_iff] at h
  obtain ⟨oldSize, -, a₁, hset, a₂, hchain, htake⟩ := h
  exact .of_takeSize htake ((chainEntry_counter hchain).trans (setEntryRange_counter hset))

theorem takeLastByte_counts {r : Reply Unit} (h : a.takeLastByte e start size = some r) :
    CountsDown a size r := by
  unfold takeLastByte at h
  split_ifs at h
  · obtain rfl := Option.some.inj h
    exact trivial
  · simp only [bind, Option.bind_eq_some_iff] at h
    obtain ⟨_, -, a₁, hset, _, -, _, -, a₂, hchain, htake⟩ := h
    exact .of_takeSize htake ((chainEntry_counter hchain).trans (setEntryRange_counter hset))

theorem takeMiddle_counts {r : Reply Unit} (h : a.takeMiddle e start size = some r) :
    CountsDown a size r := by
  unfold takeMiddle at h
  split at h
  · obtain rfl := Option.some.inj h
    exact trivial
  · simp only [bind, Option.bind_eq_some_iff] at h
    obtain ⟨_, -, _, -, a₁, hset, _, -, a₂, hset', a₃, hchain, a₄, hnew, htake⟩ := h
    have hcounter := setEntryRange_counter hset
    refine .of_takeSize htake ?_
    rw [chainEntry_counter hnew, chainEntry_counter hchain]
    exact (setEntryRange_counter hset').trans hcounter

theorem takeFrom_counts {r : Reply Unit} (h : a.takeFrom e start size = some r) :
    CountsDown a size r := by
  unfold takeFrom at h
  dsimp only at h
  split_ifs at h
  · obtain ⟨_, -, h⟩ := Option.bind_eq_some_iff.1 h
    split_ifs at h
    · exact takeWhole_counts h
    · obtain ⟨_, -, h⟩ := Option.bind_eq_some_iff.1 h
      exact takePart_counts h
  · exact takeLastByte_counts h
  · obtain ⟨_, -, h⟩ := Option.bind_eq_some_iff.1 h
    split_ifs at h
    · obtain ⟨_, -, h⟩ := Option.bind_eq_some_iff.1 h
      exact takePart_counts h
    · exact takeMiddle_counts h

theorem defineUsedMemoryUnaligned_counts {target : Option ℕ} {r : Reply Unit}
    (h : a.defineUsedMemoryUnaligned start size target = some r) : CountsDown a size r := by
  unfold defineUsedMemoryUnaligned at h
  split_ifs at h
  · obtain rfl := Option.some.inj h
    exact trivial
  · obtain rfl := Option.some.inj h
    exact trivial
  · split at h
    · exact takeFrom_counts h
    · obtain ⟨found, -, h⟩ := Option.bind_eq_some_iff.1 h
      split at h
      · exact takeFrom_counts h
      · obtain rfl := Option.some.inj h
        exact trivial

theorem ncard_Ico (start size : ℕ) : (Set.Ico start (start + size)).ncard = size := by
  rw [← Finset.coe_Ico, Set.ncard_coe_finset, Nat.card_Ico, Nat.add_sub_cancel_left]

/-- The widened range is what is counted. -/
theorem defineUsedMemory_counts {alignOrder : ℕ} {target : Option ℕ} {r : Reply Unit}
    (h : a.defineUsedMemory start size alignOrder target = some r) :
    CountsDown a (widened start size alignOrder).ncard r := by
  unfold defineUsedMemory at h
  split_ifs at h with _ _ horder
  · obtain rfl := Option.some.inj h
    exact trivial
  · obtain rfl := Option.some.inj h
    exact trivial
  · obtain ⟨⟨s, z⟩, halign, h⟩ := Option.bind_eq_some_iff.1 h
    rw [← alignAddressAndSize_eq_some horder halign, ncard_Ico]
    exact defineUsedMemoryUnaligned_counts h
  · rw [widened, if_pos (not_not.1 horder), ncard_Ico]
    exact defineUsedMemoryUnaligned_counts h

theorem allocateLoop_counts {alignOrder remaining order : ℕ} {r : Reply ℕ}
    (h : a.allocateLoop size alignOrder remaining order = some r) : CountsDown a size r := by
  induction remaining generalizing order with
  | zero =>
    obtain rfl := Option.some.inj h
    exact trivial
  | succ remaining ih =>
    unfold allocateLoop at h
    split at h
    · exact ih h
    split at h
    · obtain rfl := Option.some.inj h
      exact trivial
    obtain ⟨found, -, h⟩ := Option.bind_eq_some_iff.1 h
    split at h
    · rename_i entry address
      obtain ⟨⟨result, a₁⟩, huse, rfl⟩ := Option.map_eq_some_iff.1 h
      have hcounts := defineUsedMemory_counts huse
      rw [widened, if_pos rfl, ncard_Ico] at hcounts
      cases result <;> exact hcounts
    · exact ih h

theorem allocate_counts {alignOrder : ℕ} {r : Reply ℕ}
    (h : a.allocate size alignOrder = some r) : CountsDown a size r := by
  unfold allocate at h
  split_ifs at h
  · obtain rfl := Option.some.inj h
    exact trivial
  · obtain rfl := Option.some.inj h
    exact trivial
  · exact allocateLoop_counts h

/-! ## Giving memory back -/

theorem finishGrown_counter {oldSize : ℕ} {r : Reply Unit}
    (h : a.finishGrown e size oldSize = some r) : r.2.freeSize = a.freeSize + size := by
  obtain ⟨a₁, -, rfl⟩ := finishGrown_eq_some h
  rfl

theorem finishNew_counter {n oldSize : ℕ} {r : Reply Unit}
    (h : a.finishNew e n size oldSize = some r) : r.2.freeSize = a.freeSize + size := by
  obtain ⟨a₁, a₂, -, -, rfl⟩ := finishNew_eq_some h
  rfl

theorem chainBefore_counter {n before : ℕ} (h : a.chainBefore e n before = some a') :
    a'.freeSize = a.freeSize := by
  unfold chainBefore at h
  dsimp only at h
  split at h
  · obtain ⟨_, -, rfl⟩ := Option.map_eq_some_iff.1 h
    rfl
  · exact Option.some.inj h ▸ rfl

theorem growEntry_counter {processed : Bool}
    (h : a.growEntry e start last = some (processed, a')) : a'.freeSize = a.freeSize := by
  obtain ⟨b, a₁, hback, hfront⟩ := growEntry_eq_some h
  have hfirst : a₁.freeSize = a.freeSize := by
    split_ifs at hback
    · exact setEntryRange_counter hback.2
    · rw [hback.2]
  split_ifs at hfront
  · exact (setEntryRange_counter hfront.2).trans hfirst
  · rw [hfront.2, hfirst]

theorem growNext_counter {n : ℕ} {p processed : Bool}
    (h : a.growNext n start last p = some (processed, a')) : a'.freeSize = a.freeSize := by
  obtain ⟨-, -, a₁, hset, hchain⟩ | ⟨-, -, rfl⟩ := growNext_eq_some h
  · exact (chainEntry_counter hchain).trans (setEntryRange_counter hset)
  · rfl

theorem mergeNext_counter {n after : ℕ} {processed : Bool}
    (h : a.mergeNext e n after processed = some a') : a'.freeSize = a.freeSize := by
  have hmerge := mergeNext_eq_some h
  split_ifs at hmerge
  · obtain ⟨a₁, a₂, hset, hunchain, rfl⟩ := hmerge
    exact (unchainEntry_counter hunchain).trans (setEntryRange_counter hset)
  · rw [hmerge]

theorem freeAtEnd_counter {oldSize : ℕ} {processed : Bool}
    (h : a.freeAtEnd e start last size oldSize processed = some (.ok (), a')) :
    a'.freeSize = a.freeSize + size := by
  unfold freeAtEnd at h
  split_ifs at h
  · exact finishGrown_counter h
  split at h
  · exact absurd h (by simp [fail])
  simp only [bind, Option.bind_eq_some_iff] at h
  obtain ⟨a₁, hset, h⟩ := h
  have hcounter := setEntryRange_counter hset
  split_ifs at h
  · exact (finishNew_counter h).trans (congrArg (· + size) hcounter)
  · obtain ⟨a₂, hbefore, h⟩ := Option.bind_eq_some_iff.1 h
    rw [finishNew_counter h, chainBefore_counter hbefore, hcounter]

theorem freeBeforeNext_counter {n oldSize after : ℕ} {processed : Bool}
    (h : a.freeBeforeNext e n start last size oldSize after processed = some (.ok (), a')) :
    a'.freeSize = a.freeSize + size := by
  simp only [freeBeforeNext, bind, Option.bind_eq_some_iff] at h
  obtain ⟨⟨processed', a₁⟩, hgrow, a₂, hmerge, h⟩ := h
  have hcounter : a₂.freeSize = a.freeSize :=
    (mergeNext_counter hmerge).trans (growNext_counter hgrow)
  split_ifs at h
  · rw [finishGrown_counter h, hcounter]
  split at h
  · exact absurd h (by simp [fail])
  obtain ⟨a₃, hset, h⟩ := Option.bind_eq_some_iff.1 h
  have hcounter' := setEntryRange_counter hset
  split_ifs at h
  · obtain ⟨a₄, hbefore, h⟩ := Option.bind_eq_some_iff.1 h
    rw [finishNew_counter h, chainBefore_counter hbefore, hcounter', hcounter]
  · rw [finishNew_counter h, hcounter', hcounter]

/-- `define_free_memory` counts the range once. -/
theorem Rep.defineFreeMemory_counter (h : Rep a l) (hne : l ≠ []) {fuel : ℕ}
    (hfree : Disjoint (Set.Ico start (start + size)) a.freeBytes)
    (hdefine : MemoryAllocator.defineFreeMemory (fuel + 1) a start size = some (.ok (), a')) :
    a'.freeSize = a.freeSize + size := by
  by_cases hzero : size = 0
  · rw [MemoryAllocator.defineFreeMemory, if_pos hzero] at hdefine
    exact absurd hdefine (by simp [fail])
  obtain ⟨l₁, e, l₂, last, processed, a₁, rfl, -, -, hgrow, htail⟩ :=
    h.defineFreeMemory_tail hne hzero hfree hdefine
  unfold freeTail at htail
  split at htail
  · rw [freeBeforeNext_counter htail, growEntry_counter hgrow]
  · rw [freeAtEnd_counter htail, growEntry_counter hgrow]

/-- The first range sets the counter; every later one is counted twice. -/
theorem Rep.free_counter (h : Rep a l)
    (hfree : Disjoint (Set.Ico start (start + size)) a.freeBytes)
    (hcall : a.free start size = some (.ok (), a')) :
    a'.freeSize = if a.freeSize = 0 then size else a.freeSize + size + size := by
  unfold MemoryAllocator.free at hcall
  split_ifs at hcall ⊢ with hzero
  · split at hcall
    · exact absurd hcall (by simp [fail])
    simp only [bind, Option.bind_eq_some_iff, pure, Option.some.injEq, Prod.mk.injEq] at hcall
    obtain ⟨_, -, _, -, _, -, -, rfl⟩ := hcall
    rfl
  · obtain ⟨⟨result, a₁⟩, hdefine, hcall⟩ := Option.bind_eq_some_iff.1 hcall
    cases result with
    | error e => exact absurd hcall (by simp [fail])
    | ok _ =>
      obtain ⟨a₂, hadd, heq⟩ := Option.map_eq_some_iff.1 hcall
      obtain ⟨-, rfl⟩ := Prod.mk.injEq .. ▸ heq
      rw [addSize_eq_some hadd]
      dsimp only
      rw [h.defineFreeMemory_counter (fun hnil => hzero (h.empty hnil)) hfree hdefine]

/-! ## Ranges that are refused -/

/-- Every slot of the pool is in use. -/
def Full (a : MemoryAllocator) : Prop := ∀ i < poolSize, (a.memoryEntryPool i).enabled = true

instance (a : MemoryAllocator) : Decidable a.Full :=
  inferInstanceAs (Decidable (∀ i < poolSize, _))

/-- No free byte is next to the range. -/
def Isolated (a : MemoryAllocator) (start size : ℕ) : Prop :=
  start + size ∉ a.freeBytes ∧ ∀ x, x + 1 = start → x ∉ a.freeBytes

/-- An empty range, or one that needs an entry of its own when there is none left. -/
def Refuses (a : MemoryAllocator) (start size : ℕ) : Prop :=
  size = 0 ∨ a.Full ∧ a.Isolated start size

theorem Full.createMemoryEntry (h : a.Full) :
    createMemoryEntry a.memoryEntryPool = .error .noEntry := by
  have hnone : (List.range poolSize).find? (fun i => !(a.memoryEntryPool i).enabled) = none := by
    rw [List.find?_eq_none]
    intro i hi
    simp [h i (List.mem_range.1 hi)]
  rw [MemoryAllocator.createMemoryEntry, hnone]

theorem Rep.mem_freeBytes (h : Rep a l) {i x : ℕ} (hi : i ∈ l)
    (hlow : (a.memoryEntryPool i).start ≤ x) (hhigh : x ≤ (a.memoryEntryPool i).endAddress) :
    x ∈ a.freeBytes := by
  rw [h.freeBytes_eq]
  exact ⟨i, hi, hlow, hhigh⟩

/-- An isolated range touches no entry. -/
theorem Rep.growEntry_isolated (h : Rep a (l₁ ++ e :: l₂)) {processed : Bool}
    (hgap : Gap a.memoryEntryPool l₁ e l₂ start last) (hsize : last - start + 1 = size)
    (hisolated : a.Isolated start size)
    (hgrow : a.growEntry e start last = some (processed, a₁)) : processed = false ∧ a₁ = a := by
  have hle := hgap.le
  have hrange := h.chain.range e (by simp)
  obtain ⟨rfl, hbefore⟩ | hbehind := hgap.here
  · have hfirst := h.chain.first_neighbours.1
    obtain ⟨htouch, -⟩ | ⟨-, hsame⟩ := growEntry_front hfirst (by omega) hgrow
    · refine absurd (h.mem_freeBytes (i := e) (by simp) ?_ ?_) hisolated.1 <;> omega
    · exact hsame
  · obtain ⟨htouch, -⟩ | ⟨-, hsame⟩ := growEntry_behind (by omega) hgrow
    · exact absurd (h.mem_freeBytes (i := e) (by simp) hrange.le le_rfl) (hisolated.2 _ htouch)
    · exact hsame

theorem Rep.freeTail_refused (h : Rep a (l₁ ++ e :: l₂)) {r : Reply Unit} {oldSize : ℕ}
    (hgap : Gap a.memoryEntryPool l₁ e l₂ start last) (hsize : last - start + 1 = size)
    (hfull : a.Full) (hisolated : a.Isolated start size)
    (htail : a.freeTail e l₂.head? start last size oldSize
      ((a.memoryEntryPool e).endAddress + 1) false = some r) : r = (.error .noEntry, a) := by
  have hle := hgap.le
  have herror := hfull.createMemoryEntry
  cases l₂ with
  | nil =>
    simp only [freeTail, List.head?_nil, freeAtEnd, Bool.false_eq_true, if_false, herror] at htail
    exact (Option.some.inj htail).symm
  | cons m l₂ =>
    simp only [freeTail, List.head?_cons, freeBeforeNext, bind, Option.bind_eq_some_iff] at htail
    obtain ⟨⟨processed, a₁⟩, hgrow, a₂, hmerge, htail⟩ := htail
    have hrange := h.chain.range m (by simp)
    obtain ⟨rfl, rfl⟩ : processed = false ∧ a₁ = a := by
      obtain ⟨htouch, -⟩ | ⟨-, hsame⟩ := growNext_eq_some hgrow
      · refine absurd (h.mem_freeBytes (i := m) (by simp) ?_ ?_) hisolated.1 <;> omega
      · exact hsame
    obtain rfl : a₂ = a₁ := by
      have happart := h.chain.apart.around.2 m (by simp)
      have hmerge := mergeNext_eq_some hmerge
      rwa [if_neg (by simp; omega)] at hmerge
    simp only [Bool.false_eq_true, if_false, herror] at htail
    exact (Option.some.inj htail).symm

/-- What is refused leaves the allocator as it was. -/
theorem Rep.free_refused (h : Rep a l)
    (hfree : Disjoint (Set.Ico start (start + size)) a.freeBytes) (hcount : a.freeSize ≠ 0)
    (hrefuses : a.Refuses start size) {r : Reply Unit} (hcall : a.free start size = some r) :
    ∃ error, r = (.error error, a) := by
  rw [MemoryAllocator.free, if_neg hcount] at hcall
  obtain ⟨reply, hdefine, hcall⟩ := Option.bind_eq_some_iff.1 hcall
  suffices hrefused : ∃ error, reply = (.error error, a) by
    obtain ⟨error, rfl⟩ := hrefused
    exact ⟨error, (Option.some.inj hcall).symm⟩
  by_cases hzero : size = 0
  · have hdefine' := hdefine
    rw [show poolSize = 63 + 1 from rfl, MemoryAllocator.defineFreeMemory, if_pos hzero] at hdefine'
    exact ⟨_, (Option.some.inj hdefine').symm⟩
  · obtain ⟨hfull, hisolated⟩ := hrefuses.resolve_left hzero
    obtain ⟨l₁, e, l₂, last, processed, a₂, rfl, hlast, hgap, hgrow, htail⟩ :=
      h.defineFreeMemory_tail (fun hnil => hcount (h.empty hnil)) hzero hfree hdefine
    obtain ⟨-, hsize, -⟩ := getEndAddress_eq_some hlast (Nat.pos_of_ne_zero hzero)
    obtain ⟨rfl, rfl⟩ := h.growEntry_isolated hgap hsize hisolated hgrow
    exact ⟨_, h.freeTail_refused hgap hsize hfull hisolated htail⟩

/-! ## Runs -/

/-- A freed range comes first, or it is refused. -/
def CountsOnce (a : MemoryAllocator) : Call → Prop
  | .free start size => a.freeSize = 0 ∨ a.Refuses start size
  | _ => True

theorem Rep.take_counted {α : Type} (h : Rep a l) {R : Set ℕ} {r : Except MemoryError α}
    (hcount : a.freeSize = a.freeBytes.ncard) (htook : Took a R (r, a'))
    (hcounts : CountsDown a R.ncard (r, a')) : a'.freeSize = a'.freeBytes.ncard := by
  cases r with
  | error e =>
    obtain rfl : a' = a := htook
    exact hcount
  | ok v =>
    obtain ⟨hsub, hbytes, -⟩ := htook
    have hdiff := Set.ncard_sdiff_add_ncard_of_subset hsub h.finite_freeBytes
    have hcounts : a'.freeSize + R.ncard = a.freeSize := hcounts
    rw [hbytes]
    omega

theorem Rep.call_counted (h : Rep a l) {c : Call} {r : CallResult} (hguard : a.FreesTaken c)
    (honce : a.CountsOnce c) (hcount : a.freeSize = a.freeBytes.ncard)
    (hcall : a.call c = some (r, a')) : a'.freeSize = a'.freeBytes.ncard := by
  cases c with
  | free start size =>
    obtain ⟨⟨result, a₁⟩, hfree, heq⟩ := Option.map_eq_some_iff.1 hcall
    obtain ⟨rfl, rfl⟩ := Prod.mk.injEq .. ▸ heq
    cases result with
    | error e =>
      obtain rfl : a₁ = a := h.free hguard hfree
      exact hcount
    | ok _ =>
      by_cases hzero : a.freeSize = 0
      · obtain rfl := h.eq_nil hzero
        have hbytes := (h.free hguard hfree).1
        have hempty : a.freeBytes = ∅ := by
          rw [h.freeBytes_eq]
          simp [coveredBy]
        rw [h.free_counter hguard hfree, if_pos hzero, hbytes, hempty, Set.empty_union, ncard_Ico]
      · obtain ⟨error, herror⟩ := h.free_refused hguard hzero (honce.resolve_left hzero) hfree
        exact absurd (congrArg Prod.fst herror) (by simp)
  | allocate size alignOrder =>
    obtain ⟨⟨result, a₁⟩, halloc, heq⟩ := Option.map_eq_some_iff.1 hcall
    obtain ⟨rfl, rfl⟩ := Prod.mk.injEq .. ▸ heq
    have htook := h.allocate halloc
    have hcounts := allocate_counts halloc
    cases result with
    | error e =>
      obtain rfl : a₁ = a := htook
      exact hcount
    | ok address =>
      rw [← ncard_Ico address size] at hcounts
      exact h.take_counted hcount htook.2 hcounts
  | reserveMemory startAddress size alignOrder =>
    obtain ⟨⟨result, a₁⟩, hreserve, heq⟩ := Option.map_eq_some_iff.1 hcall
    obtain ⟨rfl, rfl⟩ := Prod.mk.injEq .. ▸ heq
    exact h.take_counted hcount (h.reserveMemory hreserve) (defineUsedMemory_counts hreserve)

/-- As long as no range is given back to a non-empty allocator, `free_size` is the
sum of the sizes along the chain in every state. -/
theorem freeSize_eq_chainSize_of_run
    (hrun : Runs.GuardedRun CallStep (fun a c => a.FreesTaken c ∧ a.CountsOnce c) new a) :
    a.freeSize = a.chainSize := by
  obtain ⟨l, hrep, hcount⟩ := hrun.invariant
    (I := fun a => ∃ l, Rep a l ∧ a.freeSize = a.freeBytes.ncard)
    (fun a c a' hinv hguard hstep => by
      obtain ⟨l, hrep, hcount⟩ := hinv
      obtain ⟨⟨r, a'⟩, hcall, rfl⟩ := Option.map_eq_some_iff.1 hstep
      obtain ⟨l', hrep'⟩ := (hrep.call hguard.1 hcall).1
      exact ⟨l', hrep', hrep.call_counted hguard.1 hguard.2 hcount hcall⟩)
    ⟨[], rep_new, by rw [freeBytes_new, Set.ncard_empty]; rfl⟩
  rw [hcount, hrep.chainSize_eq_ncard]

/-- A range is freed, one page of it is reserved and another one allocated. -/
theorem sample_counted : ∃ a : MemoryAllocator, Runs.GuardedRun CallStep
    (fun a c => a.FreesTaken c ∧ a.CountsOnce c) new a ∧ a.freeSize = 0x6000 ∧
      a.chainSize = 0x6000 := by
  obtain ⟨a₁, hfirst⟩ := Option.isSome_iff_exists.1
    (rfl : (new.afterCall (.free 0x1000 0x8000)).isSome = true)
  obtain ⟨a, hrest⟩ := Option.isSome_iff_exists.1
    (rfl : ((new.afterCall (.free 0x1000 0x8000)).bind fun a =>
      sampleCalls.foldlM afterCall a).isSome = true)
  have hsize : ((new.afterCall (.free 0x1000 0x8000)).bind fun a =>
      sampleCalls.foldlM afterCall a).map freeSize = some 0x6000 := rfl
  rw [hrest] at hsize
  rw [hfirst] at hrest
  have hrun : Runs.GuardedRun CallStep (fun a c => a.FreesTaken c ∧ a.CountsOnce c) new a :=
    Runs.GuardedRun.cons ⟨freesTaken_new _ _, .inl rfl⟩ hfirst
      (Runs.GuardedRun.of_foldlM (by simp [sampleCalls, FreesTaken, CountsOnce]) hrest)
  have hcount := freeSize_eq_chainSize_of_run hrun
  exact ⟨a, hrun, Option.some.inj hsize, hcount ▸ Option.some.inj hsize⟩

/-- The second of two pages that are given back is counted twice. -/
theorem second_free_counted_twice : ∃ a : MemoryAllocator,
    Runs.GuardedRun CallStep FreesTaken new a ∧ a.freeSize = 0x3000 ∧ a.chainSize = 0x2000 := by
  have heval : ((new.afterCall (.free 0x1000 0x1000)).bind fun a =>
      (a.afterCall (.free 0x4000 0x1000)).map fun a => (a.freeSize, a.chainSize)) =
      some (0x3000, 0x2000) := by
    decide +kernel
  obtain ⟨a₁, hfirst, heval⟩ := Option.bind_eq_some_iff.1 heval
  obtain ⟨a, hsecond, heval⟩ := Option.map_eq_some_iff.1 heval
  obtain ⟨hsize, hchain⟩ := Prod.mk.injEq .. ▸ heval
  obtain ⟨⟨r, a₁'⟩, hcall, rfl⟩ := Option.map_eq_some_iff.1 hfirst
  have hspec := (rep_new.call (freesTaken_new _ _) hcall).2
  refine ⟨a, .cons (freesTaken_new _ _) hfirst (.cons ?_ hsecond (.refl _)), hsize, hchain⟩
  rw [FreesTaken, Set.disjoint_left]
  intro x hx hfree
  rw [freeBytes_new] at hspec
  have hin : x ∈ Set.Ico 0x1000 0x2000 := by
    generalize a₁'.freeBytes = F at hspec hfree
    cases hspec with
    | failed => exact absurd hfree (Set.notMem_empty x)
    | freed => simpa using hfree
  have := hx.1
  have := hin.2
  omega

end MemoryAllocator

end MiniVisor
