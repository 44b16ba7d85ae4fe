import MiniVisor.AllocatorRuns

/-!
# The search of `allocate`

`allocate` visits the buckets from the one of the requested size on, each along its
list links. What it finds is the first entry of that order which can hold the block,
and because a bucket is sorted and sizes grow from bucket to bucket, it is a smallest
one among all free entries that can.
-/
namespace MiniVisor

open DoublyLinked

/-- The entry has `size` bytes at some address that is a multiple of `2 ^ alignOrder`. -/
def MemoryEntry.CanHold (e : MemoryEntry) (size alignOrder : ℕ) : Prop :=
  ∃ address, 2 ^ alignOrder ∣ address ∧ e.start ≤ address ∧ address + size ≤ e.endAddress + 1

/-- An entry smaller than the block cannot hold it. -/
theorem MemoryEntry.CanHold.size_le {e : MemoryEntry} {size alignOrder : ℕ} (h : e.CanHold size alignOrder)
    (hrange : e.start ≤ e.endAddress) : size ≤ e.size := by
  obtain ⟨address, -, hlow, hhigh⟩ := h
  rw [MemoryEntry.size]
  omega

namespace MemoryAllocator

variable {a a' : MemoryAllocator} {pool : MemoryEntryPool} {freeList : FreeList} {l : List ℕ}
  {first : Option ℕ} {size alignOrder : ℕ}

/-! ## Alignment -/

/-- The first multiple of `2 ^ alignOrder` from `start` on. -/
def alignUp (start alignOrder : ℕ) : ℕ :=
  (start + 2 ^ alignOrder - 1) / 2 ^ alignOrder * 2 ^ alignOrder

theorem dvd_alignUp (start alignOrder : ℕ) : 2 ^ alignOrder ∣ alignUp start alignOrder :=
  Dvd.intro_left _ rfl

theorem le_alignUp (start alignOrder : ℕ) : start ≤ alignUp start alignOrder := by
  have hpos : 0 < 2 ^ alignOrder := by positivity
  have hdiv := Nat.div_add_mod (start + 2 ^ alignOrder - 1) (2 ^ alignOrder)
  have hmod := Nat.mod_lt (start + 2 ^ alignOrder - 1) hpos
  rw [alignUp, Nat.mul_comm]
  omega

theorem alignUp_le {start address : ℕ} (hdvd : 2 ^ alignOrder ∣ address)
    (hle : start ≤ address) : alignUp start alignOrder ≤ address := by
  have hpos : 0 < 2 ^ alignOrder := by positivity
  obtain ⟨k, rfl⟩ := hdvd
  rw [alignUp, Nat.mul_comm]
  apply Nat.mul_le_mul_left
  apply Nat.le_of_lt_succ
  rw [Nat.div_lt_iff_lt_mul hpos, Nat.succ_mul, Nat.mul_comm k]
  omega

@[simp] theorem alignUp_order_zero (start : ℕ) : alignUp start 0 = start := by simp [alignUp]

theorem alignUp_lt (start alignOrder : ℕ) : alignUp start alignOrder < start + 2 ^ alignOrder := by
  have hpos : 0 < 2 ^ alignOrder := by positivity
  have hle := Nat.div_mul_le_self (start + 2 ^ alignOrder - 1) (2 ^ alignOrder)
  rw [alignUp]
  omega

/-- What `align_address_and_available_size` computes. -/
theorem alignAddressAndAvailableSize_eq {start entrySize s z : ℕ}
    (h : alignAddressAndAvailableSize start entrySize alignOrder = some (s, z)) :
    s = alignUp start alignOrder ∧ z = entrySize - (s - start) := by
  have haligned : s = alignUp start alignOrder := by
    obtain ⟨hdvd, hle, -⟩ := alignAddressAndAvailableSize_spec h
    apply le_antisymm _ (alignUp_le hdvd hle)
    unfold alignAddressAndAvailableSize at h
    split_ifs at h with hzero
    · obtain ⟨rfl, -⟩ : 0 = s ∧ entrySize = z := by simpa using h
      exact Nat.zero_le _
    simp only [bind, Option.bind_eq_some_iff] at h
    obtain ⟨alignSize, hbit, s₁, hs₁, s₂, hs₂, h⟩ := h
    obtain ⟨-, rfl⟩ := Checked.bit_eq_some.1 hbit
    obtain ⟨-, rfl⟩ := Checked.sub_eq_some.1 hs₁
    obtain ⟨-, rfl⟩ := Checked.add_eq_some.1 hs₂
    have hs : s = start - 1 - (start - 1) % 2 ^ alignOrder + 2 ^ alignOrder := by
      split_ifs at h with hroom
      · exact (congrArg Prod.fst (Option.some.inj h)).symm
      · exact (congrArg Prod.fst (Option.some.inj h)).symm
    have hshift : start + 2 ^ alignOrder - 1 = start - 1 + 2 ^ alignOrder := by omega
    have hdiv := Nat.div_add_mod (start - 1) (2 ^ alignOrder)
    rw [hs, alignUp, hshift, Nat.add_div_right _ (by positivity), Nat.succ_mul, Nat.mul_comm]
    omega
  refine ⟨haligned, ?_⟩
  unfold alignAddressAndAvailableSize at h
  split_ifs at h with hzero
  · obtain ⟨rfl, rfl⟩ : 0 = s ∧ entrySize = z := by simpa using h
    simp
  simp only [bind, Option.bind_eq_some_iff] at h
  obtain ⟨-, -, -, -, s₂, -, h⟩ := h
  split_ifs at h with hroom
  · obtain ⟨rfl, rfl⟩ : s₂ = s ∧ _ = z := by simpa using h
    rfl
  · obtain ⟨rfl, rfl⟩ : s₂ = s ∧ 0 = z := by simpa using h
    omega

theorem canHold_iff (e : MemoryEntry) :
    e.CanHold size alignOrder ↔ alignUp e.start alignOrder + size ≤ e.endAddress + 1 := by
  constructor
  · rintro ⟨address, hdvd, hlow, hhigh⟩
    have hle := alignUp_le hdvd hlow
    omega
  · intro hroom
    exact ⟨_, dvd_alignUp _ _, le_alignUp _ _, hroom⟩

instance (e : MemoryEntry) (size alignOrder : ℕ) : Decidable (e.CanHold size alignOrder) :=
  decidable_of_iff' _ (canHold_iff e)

/-! ## One bucket -/

/-- The entry with the address of the block, when it can hold it. -/
def fit (pool : MemoryEntryPool) (size alignOrder i : ℕ) : Option (ℕ × ℕ) :=
  if (pool i).CanHold size alignOrder then some (i, alignUp (pool i).start alignOrder) else none

theorem fit_eq_some {i e address : ℕ} (h : fit pool size alignOrder i = some (e, address)) :
    e = i ∧ address = alignUp (pool e).start alignOrder ∧ (pool e).CanHold size alignOrder := by
  unfold fit at h
  split_ifs at h with hholds
  obtain ⟨rfl, rfl⟩ : i = e ∧ _ = address := by simpa using h
  exact ⟨rfl, rfl, hholds⟩

theorem fit_eq_none {i : ℕ} : fit pool size alignOrder i = none ↔
    ¬(pool i).CanHold size alignOrder := by
  simp [fit]

/-- What the search does with one entry: it stops there, or it goes on. -/
def visit (pool : MemoryEntryPool) (size alignOrder i : ℕ) : Option (Option (ℕ × ℕ)) :=
  (pool i).getSize.bind fun entrySize =>
    if size ≤ entrySize then
      if alignOrder ≠ 0 then
        (alignAddressAndAvailableSize (pool i).start entrySize alignOrder).map
          fun (alignedAddress, availableSize) =>
            if availableSize < size then none else some (i, alignedAddress)
      else some (some (i, (pool i).start))
    else some none

/-- The search through a list of entries. -/
def visitAll (pool : MemoryEntryPool) (size alignOrder : ℕ) : List ℕ → Option (Option (ℕ × ℕ))
  | [] => some none
  | i :: rest => (visit pool size alignOrder i).bind fun found =>
    found.elim (visitAll pool size alignOrder rest) fun found => some (some found)

theorem visitAll_append (l₁ l₂ : List ℕ) : visitAll pool size alignOrder (l₁ ++ l₂) =
    (visitAll pool size alignOrder l₁).bind fun found =>
      found.elim (visitAll pool size alignOrder l₂) fun found => some (some found) := by
  induction l₁ with
  | nil => rfl
  | cons i rest ih =>
    rw [List.cons_append, visitAll, visitAll, Option.bind_assoc]
    congr 1
    funext found
    cases found with
    | none => exact ih
    | some found => rfl

/-- The loop over a bucket searches through the entries that its links lead to. -/
theorem searchBucket_eq {fuel : ℕ} {m bucket : List ℕ}
    (hlinked : Linked (fun i => (pool i).listNext) (fun i => (pool i).listPrev) none
      (m ++ bucket) none)
    (hvalid : ∀ i ∈ m ++ bucket, i < poolSize) (hfuel : bucket.length ≤ fuel) :
    searchBucket pool size alignOrder fuel bucket.head? =
      visitAll pool size alignOrder bucket := by
  induction bucket generalizing m fuel with
  | nil => cases fuel <;> rfl
  | cons c rest ih =>
    cases fuel with
    | zero => exact absurd hfuel (by simp)
    | succ fuel =>
      have hnext : follow (pool c).listNext = rest.head? := by
        rw [hlinked.at_node.2]
        exact follow_eq fun i hi => hvalid i (by simp [List.mem_of_head? hi])
      have hassoc : m ++ c :: rest = (m ++ [c]) ++ rest := by simp
      have hrest := ih (hassoc ▸ hlinked) (hassoc ▸ hvalid)
        (Nat.le_of_succ_le_succ hfuel)
      rw [List.head?_cons, searchBucket, hnext, hrest, visitAll, visit, Option.bind_assoc]
      congr 1
      funext entrySize
      split_ifs with hfits horder
      · rw [Option.map_eq_bind, Option.bind_assoc]
        congr 1
        funext aligned
        obtain ⟨address, available⟩ := aligned
        dsimp only [Function.comp_apply, Option.bind_some]
        split_ifs with hless
        · rfl
        · rfl
      · rfl
      · rfl

/-- An entry at which the search stops can hold the block, one that it passes cannot. -/
theorem visit_eq {i : ℕ} {found : Option (ℕ × ℕ)} (hpos : 0 < size)
    (hrange : (pool i).start ≤ (pool i).endAddress)
    (h : visit pool size alignOrder i = some found) : found = fit pool size alignOrder i := by
  unfold visit at h
  obtain ⟨entrySize, hsize, h⟩ := Option.bind_eq_some_iff.1 h
  obtain rfl := MemoryEntry.getSize_eq hsize
  split_ifs at h with hfits horder
  · obtain ⟨⟨aligned, available⟩, halign, rfl⟩ := Option.map_eq_some_iff.1 h
    obtain ⟨rfl, rfl⟩ := alignAddressAndAvailableSize_eq halign
    have hle := le_alignUp (pool i).start alignOrder
    dsimp only
    rw [MemoryEntry.size]
    split_ifs with hless
    · rw [fit_eq_none.2 (by rw [canHold_iff]; omega)]
    · rw [fit, if_pos ((canHold_iff _).2 (by omega))]
  · rw [MemoryEntry.size] at hfits
    rw [fit, not_not.1 horder, if_pos ((canHold_iff _).2 (by rw [alignUp_order_zero]; omega)),
      alignUp_order_zero]
    exact (Option.some.inj h).symm
  · rw [fit_eq_none.2 fun hholds => hfits (hholds.size_le hrange)]
    exact (Option.some.inj h).symm

/-- The search finds the first entry that can hold the block. -/
theorem visitAll_eq {L : List ℕ} {found : Option (ℕ × ℕ)} (hpos : 0 < size)
    (hrange : ∀ i ∈ L, (pool i).start ≤ (pool i).endAddress)
    (h : visitAll pool size alignOrder L = some found) :
    found = L.findSome? (fit pool size alignOrder) := by
  induction L with
  | nil => exact (Option.some.inj h).symm
  | cons i rest ih =>
    obtain ⟨here, hvisit, h⟩ := Option.bind_eq_some_iff.1 h
    obtain rfl := visit_eq hpos (hrange i (by simp)) hvisit
    rw [List.findSome?_cons]
    cases hfit : fit pool size alignOrder i with
    | none =>
      rw [hfit] at h
      exact ih (fun j hj => hrange j (by simp [hj])) h
    | some here =>
      rw [hfit] at h
      exact (Option.some.inj h).symm

/-! ## The buckets in turn -/

theorem le_sizeToPageOrderLoop (size remaining order : ℕ) :
    order ≤ sizeToPageOrderLoop size remaining order := by
  induction remaining generalizing order with
  | zero => exact le_rfl
  | succ remaining ih =>
    unfold sizeToPageOrderLoop
    split_ifs
    · exact le_trans (Nat.le_succ order) (ih (order + 1))
    · exact le_rfl

theorem sizeToPageOrderLoop_mono {size size' : ℕ} (h : size ≤ size') (remaining order : ℕ) :
    sizeToPageOrderLoop size remaining order ≤ sizeToPageOrderLoop size' remaining order := by
  induction remaining generalizing order with
  | zero => exact le_rfl
  | succ remaining ih =>
    unfold sizeToPageOrderLoop
    split_ifs with hlarge hlarge'
    · exact ih (order + 1)
    · omega
    · exact le_trans (Nat.le_succ order) (le_sizeToPageOrderLoop size' remaining (order + 1))
    · exact le_rfl

theorem sizeToPageOrder_mono {size size' : ℕ} (h : size ≤ size') :
    sizeToPageOrder size ≤ sizeToPageOrder size' :=
  sizeToPageOrderLoop_mono h _ _

/-- The entries of a bucket in the order of its list links. -/
def bucketEntries (a : MemoryAllocator) (order : ℕ) : List ℕ :=
  walk (fun i => follow (a.memoryEntryPool i).listNext) poolSize (follow (a.freeList order))

/-- The entries that `allocate` visits for a block, in its order. -/
def candidates (a : MemoryAllocator) (size : ℕ) : List ℕ :=
  (List.range' (sizeToPageOrder size) (numOfFreeList - sizeToPageOrder size)).flatMap
    a.bucketEntries

/-- What `allocate` does with the result of its search. -/
def takeFound (a : MemoryAllocator) (size : ℕ) : Option (ℕ × ℕ) → Option (Reply ℕ)
  | none => a.fail .noMemory
  | some (entry, address) =>
    (a.defineUsedMemory address size 0 (some entry)).map fun (r, a) => (r.map fun _ => address, a)

section Search

variable (hchain : Chain a.memoryEntryPool a.firstEntry l)
  (hfiled : Filed a.memoryEntryPool a.freeList {i | i ∈ l})
include hchain hfiled

/-- The buckets spelled out by the list links are those of the representation. -/
theorem buckets_bucketEntries :
    Buckets a.memoryEntryPool a.freeList {i | i ∈ l}
        (fun i => sizeToPageOrder (a.memoryEntryPool i).size) a.bucketEntries ∧
      ∀ o < numOfFreeList, Sorted a.memoryEntryPool (a.bucketEntries o) := by
  obtain ⟨B, hB, hsorted⟩ := hfiled
  have heq : ∀ o < numOfFreeList, a.bucketEntries o = B o := by
    intro o ho
    have hvalid : ∀ i ∈ B o, i < poolSize := fun i hi =>
      (hchain.valid i ((hB.mem o ho i).1 hi).1).1
    have hhead : follow (a.freeList o) = (B o).head? := by
      rw [hB.head o ho]
      exact follow_eq fun i hi => hvalid i (List.mem_of_head? hi)
    have hlength : (B o).length ≤ poolSize := by
      have hsub : (B o).Subperm (List.range poolSize) :=
        (hB.nodup o ho).subperm fun i hi => List.mem_range.2 (hvalid i hi)
      simpa using hsub.length_le
    have hlinked : Linked (fun i => follow (a.memoryEntryPool i).listNext)
        (fun i => (a.memoryEntryPool i).listPrev) none (B o) none := by
      refine (hB.linked o ho).congr (fun i hi => ?_) fun _ _ => rfl
      obtain ⟨l₁, l₂, hl⟩ := List.append_of_mem hi
      have hlinked := hB.linked o ho
      rw [hl] at hlinked
      refine follow_eq fun j hj => hvalid j ?_
      have hj : l₂.head? = some j := hlinked.at_node.2.symm.trans hj
      simp [hl, List.mem_of_head? hj]
    rw [bucketEntries, hhead]
    exact hlinked.walk_eq hlength
  refine ⟨⟨fun o ho => ?_, fun o ho => ?_, fun o ho => ?_, fun o ho i => ?_⟩, fun o ho => ?_⟩
  · rw [heq o ho]
    exact hB.head o ho
  · rw [heq o ho]
    exact hB.linked o ho
  · rw [heq o ho]
    exact hB.nodup o ho
  · rw [heq o ho]
    exact hB.mem o ho i
  · rw [heq o ho]
    exact hsorted o ho

theorem mem_candidates {i : ℕ} : i ∈ a.candidates size ↔
    i ∈ l ∧ sizeToPageOrder size ≤ sizeToPageOrder (a.memoryEntryPool i).size := by
  obtain ⟨hB, -⟩ := buckets_bucketEntries hchain hfiled
  have hlt := sizeToPageOrder_lt (a.memoryEntryPool i).size
  rw [candidates, List.mem_flatMap]
  constructor
  · rintro ⟨o, ho, hi⟩
    rw [List.mem_range'_1] at ho
    obtain ⟨hil, rfl⟩ := (hB.mem o (by omega) i).1 hi
    exact ⟨hil, ho.1⟩
  · rintro ⟨hil, hle⟩
    refine ⟨_, ?_, (hB.mem _ hlt i).2 ⟨hil, rfl⟩⟩
    rw [List.mem_range'_1]
    omega

/-- Sizes grow along the entries that are visited. -/
theorem sorted_candidates (size : ℕ) : Sorted a.memoryEntryPool (a.candidates size) := by
  obtain ⟨hB, hsorted⟩ := buckets_bucketEntries hchain hfiled
  have hlt := sizeToPageOrder_lt size
  have horders : (List.range' (sizeToPageOrder size)
      (numOfFreeList - sizeToPageOrder size)).Pairwise (· < ·) := List.pairwise_lt_range'
  refine List.pairwise_flatMap.2 ⟨fun o ho => ?_, ?_⟩
  · rw [List.mem_range'_1] at ho
    exact hsorted o (by omega)
  · refine horders.imp_of_mem fun {o o'} ho ho' hoo' i hi j hj => ?_
    rw [List.mem_range'_1] at ho ho'
    obtain ⟨-, hio⟩ := (hB.mem o (by omega) i).1 hi
    obtain ⟨-, hjo⟩ := (hB.mem o' (by omega) j).1 hj
    by_contra hless
    have hmono := sizeToPageOrder_mono (le_of_lt (not_le.1 hless))
    omega

/-- The loop over the buckets searches through the entries of all of them in turn. -/
theorem allocateLoop_eq {remaining order : ℕ} (horder : order + remaining ≤ numOfFreeList) :
    a.allocateLoop size alignOrder remaining order =
      (visitAll a.memoryEntryPool size alignOrder
        ((List.range' order remaining).flatMap a.bucketEntries)).bind (a.takeFound size) := by
  obtain ⟨hB, -⟩ := buckets_bucketEntries hchain hfiled
  induction remaining generalizing order with
  | zero => rfl
  | succ remaining ih =>
    have ho : order < numOfFreeList := by omega
    have hmem : ∀ i ∈ a.bucketEntries order, i ∈ l := fun i hi => ((hB.mem order ho i).1 hi).1
    rw [List.range'_succ, List.flatMap_cons, visitAll_append, MemoryAllocator.allocateLoop,
      hB.head order ho, ih (by omega), Option.bind_assoc]
    cases hbucket : a.bucketEntries order with
    | nil => rfl
    | cons c rest =>
      have hlength : (c :: rest).length ≤ poolSize := by
        rw [← hbucket]
        exact length_walk_le _ _ _
      have hc : getMemoryEntry c = .ok c :=
        if_pos (hchain.valid c (hmem c (by simp [hbucket]))).1
      have hlinked := hB.linked order ho
      rw [hbucket] at hlinked hmem
      have hsearch : searchBucket a.memoryEntryPool size alignOrder poolSize (some c) =
          visitAll a.memoryEntryPool size alignOrder (c :: rest) :=
        searchBucket_eq (m := []) hlinked (fun i hi => (hchain.valid i (hmem i hi)).1) hlength
      rw [List.head?_cons]
      simp only [hc, hsearch]
      congr 1
      funext found
      cases found with
      | none => rfl
      | some found => rfl

theorem allocate_eq (hpos : 0 < size) (hroom : size < a.freeSize) :
    a.allocate size alignOrder =
      (visitAll a.memoryEntryPool size alignOrder (a.candidates size)).bind
        (a.takeFound size) := by
  have hlt := sizeToPageOrder_lt size
  rw [MemoryAllocator.allocate, if_neg (by omega), if_neg (by omega)]
  exact allocateLoop_eq hchain hfiled (by omega)

end Search

/-! ## Best fit -/

/-- What the search finds has the smallest size among the entries that can hold the block. -/
theorem findSome?_fit {L : List ℕ} {e address : ℕ} (hsorted : Sorted pool L)
    (hfound : L.findSome? (fit pool size alignOrder) = some (e, address)) :
    e ∈ L ∧ address = alignUp (pool e).start alignOrder ∧ (pool e).CanHold size alignOrder ∧
      ∀ i ∈ L, (pool i).CanHold size alignOrder → (pool e).size ≤ (pool i).size := by
  obtain ⟨l₁, c, l₂, rfl, hfit, hbefore⟩ := List.findSome?_eq_some_iff.1 hfound
  obtain ⟨rfl, haddress, hholds⟩ := fit_eq_some hfit
  refine ⟨by simp, haddress, hholds, fun i hi hi' => ?_⟩
  rw [List.mem_append, List.mem_cons] at hi
  obtain hi | rfl | hi := hi
  · exact absurd hi' (fit_eq_none.1 (hbefore i hi))
  · exact le_rfl
  · exact (List.pairwise_cons.1 (List.pairwise_append.1 hsorted).2.1).1 i hi

theorem createMemoryEntry_error {err : MemoryError}
    (h : createMemoryEntry pool = .error err) : err = .noEntry := by
  unfold createMemoryEntry at h
  split at h
  · exact absurd h (by simp)
  · exact (Except.error.inj h).symm

theorem takeWhole_error {e : ℕ} {err : MemoryError}
    (h : a.takeWhole e size = some (.error err, a')) : a' = a ∧ err ≠ .noMemory := by
  have hremove : ∀ {b : MemoryAllocator}, takeWhole.remove e size b ≠ some (.error err, a') := by
    intro b hb
    obtain ⟨c, -, hb⟩ := Option.bind_eq_some_iff.1 hb
    simp [takeSize] at hb
  unfold takeWhole at h
  dsimp only at h
  split at h
  · obtain ⟨rfl, rfl⟩ : MemoryError.noEntry = err ∧ a = a' := by simpa [fail] using h
    exact ⟨rfl, by simp⟩
  · exact absurd h hremove
  · exact absurd h hremove

/-- Every error of `define_used_memory` on an entry comes before its first write. -/
theorem takeFrom_error {e start : ℕ} {err : MemoryError}
    (h : a.takeFrom e start size = some (.error err, a')) : a' = a ∧ err ≠ .noMemory := by
  have hsize : ∀ {b : MemoryAllocator}, b.takeSize size ≠ some (.error err, a') := by
    intro b hb
    simp [takeSize] at hb
  have hpart : ∀ {s t : ℕ}, a.takePart e s t size ≠ some (.error err, a') := by
    intro s t hpart
    simp only [takePart, bind, Option.bind_eq_some_iff] at hpart
    obtain ⟨_, -, _, -, _, -, htake⟩ := hpart
    exact hsize htake
  unfold takeFrom at h
  dsimp only at h
  split_ifs at h with hstart hend
  · obtain ⟨last, -, h⟩ := Option.bind_eq_some_iff.1 h
    split_ifs at h with hlast
    · exact takeWhole_error h
    · obtain ⟨newStart, -, h⟩ := Option.bind_eq_some_iff.1 h
      exact absurd h hpart
  · unfold takeLastByte at h
    split_ifs at h with hone
    · obtain ⟨rfl, rfl⟩ : MemoryError.invalidRequest = err ∧ a = a' := by simpa [fail] using h
      exact ⟨rfl, by simp⟩
    · simp only [bind, Option.bind_eq_some_iff] at h
      obtain ⟨_, -, _, -, _, -, _, -, _, -, htake⟩ := h
      exact absurd htake hsize
  · obtain ⟨last, -, h⟩ := Option.bind_eq_some_iff.1 h
    split_ifs at h with hlast
    · obtain ⟨newEnd, -, h⟩ := Option.bind_eq_some_iff.1 h
      exact absurd h hpart
    · unfold takeMiddle at h
      split at h
      · rename_i hcreate
        obtain rfl := createMemoryEntry_error hcreate
        obtain ⟨rfl, rfl⟩ : MemoryError.noEntry = err ∧ a = a' := by simpa [fail] using h
        exact ⟨rfl, by simp⟩
      · simp only [bind, Option.bind_eq_some_iff] at h
        obtain ⟨_, -, _, -, _, -, _, -, _, -, _, -, _, -, htake⟩ := h
        exact absurd htake hsize

/-- An entry as large as all entries together is the only one. -/
theorem sole_of_total_le {i : ℕ} (hi : i ∈ l) (hsize : size ≤ (pool i).size)
    (htotal : total pool l ≤ size) : ∃ i, l = [i] ∧ (pool i).size = size := by
  obtain ⟨l₁, l₂, rfl⟩ := List.append_of_mem hi
  rw [total_middle] at htotal
  have hrest : total pool (l₁ ++ l₂) = 0 := by omega
  have hnil : l₁ ++ l₂ = [] := by
    cases hl : l₁ ++ l₂ with
    | nil => rfl
    | cons j rest =>
      rw [hl, total, List.map_cons, List.sum_cons, MemoryEntry.size] at hrest
      omega
  obtain ⟨rfl, rfl⟩ := List.append_eq_nil_iff.1 hnil
  exact ⟨i, rfl, by omega⟩

/-- The search is complete and finds a best fit: a block that some free entry can hold
is refused with `NoMemory` only where the one free entry has just its size, and the entry
that a block is taken from is a smallest one that can hold it. -/
theorem allocate_best_fit {r : Except MemoryError ℕ}
    (hchain : Chain a.memoryEntryPool a.firstEntry l)
    (hfiled : Filed a.memoryEntryPool a.freeList {i | i ∈ l})
    (hcount : total a.memoryEntryPool l ≤ a.freeSize) (hpos : 1 ≤ size)
    (hcall : a.allocate size alignOrder = some (r, a')) :
    ((∃ i ∈ l, (a.memoryEntryPool i).CanHold size alignOrder) →
      (¬∃ i, l = [i] ∧ (a.memoryEntryPool i).size = size) → r ≠ .error .noMemory) ∧
    ∀ address, r = .ok address → ∃ e ∈ l,
      ((a.memoryEntryPool e).start ≤ address ∧
        address + size ≤ (a.memoryEntryPool e).endAddress + 1) ∧
      ∀ i ∈ l, (a.memoryEntryPool i).CanHold size alignOrder →
        (a.memoryEntryPool e).size ≤ (a.memoryEntryPool i).size := by
  have hholds : ∀ i ∈ l, (a.memoryEntryPool i).CanHold size alignOrder →
      size ≤ (a.memoryEntryPool i).size := fun i hi h => h.size_le (le_of_lt (hchain.range i hi))
  have hvisited : ∀ i ∈ l, (a.memoryEntryPool i).CanHold size alignOrder →
      i ∈ a.candidates size := fun i hi h =>
    (mem_candidates hchain hfiled).2 ⟨hi, sizeToPageOrder_mono (hholds i hi h)⟩
  by_cases hless : a.freeSize ≤ size
  · rw [MemoryAllocator.allocate, if_neg (by omega), if_pos hless] at hcall
    obtain ⟨rfl, rfl⟩ : Except.error MemoryError.noMemory = r ∧ a = a' := by
      simpa [fail] using hcall
    refine ⟨?_, by simp⟩
    rintro ⟨i, hi, hi'⟩ hsole -
    exact hsole (sole_of_total_le hi (hholds i hi hi') (le_trans hcount hless))
  · rw [allocate_eq hchain hfiled hpos (by omega)] at hcall
    obtain ⟨found, hfound, hcall⟩ := Option.bind_eq_some_iff.1 hcall
    have hsearched : ∀ i ∈ a.candidates size,
        (a.memoryEntryPool i).start ≤ (a.memoryEntryPool i).endAddress := fun i hi =>
      le_of_lt (hchain.range i ((mem_candidates hchain hfiled).1 hi).1)
    obtain rfl := visitAll_eq hpos hsearched hfound
    cases hsearch : (a.candidates size).findSome? (fit a.memoryEntryPool size alignOrder) with
    | none =>
      rw [hsearch] at hcall
      obtain ⟨rfl, rfl⟩ : Except.error MemoryError.noMemory = r ∧ a = a' := by
        simpa [takeFound, fail] using hcall
      refine ⟨?_, by simp⟩
      rintro ⟨i, hi, hi'⟩ - -
      exact fit_eq_none.1 (List.findSome?_eq_none_iff.1 hsearch i (hvisited i hi hi')) hi'
    | some found =>
      obtain ⟨e, address⟩ := found
      rw [hsearch] at hcall
      obtain ⟨he, rfl, hfits, hsmallest⟩ :=
        findSome?_fit (sorted_candidates hchain hfiled size) hsearch
      obtain ⟨⟨result, b⟩, huse, hr⟩ := Option.map_eq_some_iff.1 hcall
      obtain ⟨rfl, rfl⟩ : result.map _ = r ∧ b = a' := by simpa using hr
      constructor
      · rintro - - herr
        cases result with
        | ok u => exact absurd herr (by simp [Except.map])
        | error err =>
          have huse : a.takeFrom e (alignUp (a.memoryEntryPool e).start alignOrder) size =
              some (.error err, b) := by
            simpa [defineUsedMemory, defineUsedMemoryUnaligned, show size ≠ 0 by omega,
              show ¬a.freeSize < size by omega] using huse
          exact (takeFrom_error huse).2 (by simpa [Except.map] using herr)
      · intro address haddress
        have haddress : alignUp (a.memoryEntryPool e).start alignOrder = address := by
          cases result with
          | ok u => simpa [Except.map] using haddress
          | error err => exact absurd haddress (by simp [Except.map])
        subst haddress
        have hel := ((mem_candidates hchain hfiled).1 he).1
        exact ⟨e, hel, ⟨le_alignUp _ _, (canHold_iff _).1 hfits⟩,
          fun i hi hi' => hsmallest i (hvisited i hi hi') hi'⟩

/-- Of three and of four free pages, two pages at an 8 KiB boundary come from the three. -/
theorem sample_best_fit : ∃ (a a' : MemoryAllocator) (l : List ℕ),
    Chain a.memoryEntryPool a.firstEntry l ∧
      a.allocate 0x1800 13 = some (.ok 0x2000, a') ∧
      ∃ e ∈ l, ((a.memoryEntryPool e).start ≤ 0x2000 ∧
          0x2000 + 0x1800 ≤ (a.memoryEntryPool e).endAddress + 1) ∧
        ∀ i ∈ l, (a.memoryEntryPool i).CanHold 0x1800 13 →
          (a.memoryEntryPool e).size ≤ (a.memoryEntryPool i).size := by
  obtain ⟨a₁, hfirst⟩ := Option.isSome_iff_exists.1
    (rfl : (new.afterCall (.free 0x1000 0x8000)).isSome = true)
  have heval : ((new.afterCall (.free 0x1000 0x8000)).bind fun a =>
      (a.afterCall (.reserveMemory 0x4000 0x1000 12)).bind fun a =>
        (a.allocate 0x1800 13).map Prod.fst) = some (.ok 0x2000) := rfl
  rw [hfirst, Option.bind_some] at heval
  obtain ⟨a, hsecond, heval⟩ := Option.bind_eq_some_iff.1 heval
  obtain ⟨⟨r, a'⟩, hcall, rfl⟩ := Option.map_eq_some_iff.1 heval
  have hreserve : a₁.FreesTaken (.reserveMemory 0x4000 0x1000 12) := trivial
  have hrun : Runs.GuardedRun CallStep FreesTaken new a :=
    ((Runs.GuardedRun.refl new).snoc (freesTaken_new _ _) hfirst).snoc hreserve hsecond
  obtain ⟨l, hrep⟩ := rep_of_run hrun
  exact ⟨a, a', l, hrep.chain, hcall,
    (allocate_best_fit hrep.chain hrep.filed hrep.size_le (by decide) hcall).2 _ rfl⟩

end MemoryAllocator

end MiniVisor
