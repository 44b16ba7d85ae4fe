import MiniVisor.AllocatorChain

/-!
# Taking memory from the allocator

The five shapes of `define_used_memory` keep the representation invariant and
remove exactly the requested bytes from the free set. `allocate` and
`reserve_memory` only choose the entry and the address.
-/
namespace MiniVisor

open DoublyLinked

namespace MemoryAllocator

variable {a a' a₁ a₂ : MemoryAllocator} {pool pool' : MemoryEntryPool} {l l₁ l₂ : List ℕ}
  {e n s t : ℕ}

/-! ## Bytes and sizes of a chain -/

/-- Total size of the entries of a list. -/
def total (pool : MemoryEntryPool) (l : List ℕ) : ℕ := (l.map fun i => (pool i).size).sum

theorem total_middle (pool : MemoryEntryPool) (l₁ l₂ : List ℕ) (e : ℕ) :
    total pool (l₁ ++ e :: l₂) = total pool (l₁ ++ l₂) + (pool e).size := by
  simp only [total, List.map_append, List.map_cons, List.sum_append, List.sum_cons]
  omega

theorem total_congr (h : ∀ i ∈ l, (pool' i).size = (pool i).size) :
    total pool' l = total pool l := by
  unfold total
  rw [List.map_congr_left h]

/-- The range of one entry. -/
def range (pool : MemoryEntryPool) (i : ℕ) : Set ℕ := Set.Icc (pool i).start (pool i).endAddress

theorem coveredBy_middle (pool : MemoryEntryPool) (l₁ l₂ : List ℕ) (e : ℕ) :
    coveredBy pool (l₁ ++ e :: l₂) = coveredBy pool (l₁ ++ l₂) ∪ range pool e := by
  ext x
  simp only [coveredBy, range, List.mem_append, List.mem_cons, Set.mem_ofPred_eq, Set.mem_union,
    Set.mem_Icc]
  constructor
  · rintro ⟨i, hi | rfl | hi, hx⟩
    · exact .inl ⟨i, .inl hi, hx⟩
    · exact .inr hx
    · exact .inl ⟨i, .inr hi, hx⟩
  · rintro (⟨i, hi, hx⟩ | hx)
    · exact ⟨i, hi.imp id .inr, hx⟩
    · exact ⟨e, .inr (.inl rfl), hx⟩

/-- The other entries do not reach into the range of an entry. -/
theorem Apart.disjoint (h : Apart pool (l₁ ++ e :: l₂)) :
    Disjoint (coveredBy pool (l₁ ++ l₂)) (range pool e) := by
  rw [Set.disjoint_left]
  rintro x ⟨i, hi, hx⟩ hxe
  obtain ⟨hlow, hhigh⟩ := h.around
  have hxe : (pool e).start ≤ x ∧ x ≤ (pool e).endAddress := hxe
  obtain hi | hi := List.mem_append.1 hi
  · have := hlow i hi
    omega
  · have := hhigh i hi
    omega

theorem Rep.total_le (h : Rep a l) : total a.memoryEntryPool l ≤ a.freeSize := h.size_le

/-! ## One entry with a new range -/

/-- Only the range of `e` is different. -/
structure Resized (pool pool' : MemoryEntryPool) (e s t : ℕ) : Prop where
  start : ∀ i, i ≠ e → (pool' i).start = (pool i).start
  endAddress : ∀ i, i ≠ e → (pool' i).endAddress = (pool i).endAddress
  start_self : (pool' e).start = s
  end_self : (pool' e).endAddress = t

theorem Resized.size (h : Resized pool pool' e s t) {i : ℕ} (hi : i ≠ e) :
    (pool' i).size = (pool i).size := by
  rw [MemoryEntry.size, MemoryEntry.size, h.start i hi, h.endAddress i hi]

theorem Resized.size_self (h : Resized pool pool' e s t) : (pool' e).size = t - s + 1 := by
  rw [MemoryEntry.size, h.start_self, h.end_self]

theorem Resized.range_self (h : Resized pool pool' e s t) : range pool' e = Set.Icc s t := by
  rw [range, h.start_self, h.end_self]

theorem Resized.coveredBy (h : Resized pool pool' e s t) (he : e ∉ l) :
    coveredBy pool' l = coveredBy pool l :=
  coveredBy_congr (fun i hi => h.start i fun hie => he (hie ▸ hi))
    fun i hi => h.endAddress i fun hie => he (hie ▸ hi)

theorem Resized.total (h : Resized pool pool' e s t) (he : e ∉ l) :
    total pool' l = total pool l :=
  total_congr fun _ hi => h.size fun hie => he (hie ▸ hi)

theorem setEntryRange_eq_some (h : a.setEntryRange e s t = some a₁) :
    s < t ∧ a₁ = { a with
      memoryEntryPool := modifyEntry a.memoryEntryPool e fun m =>
        { m with start := s, endAddress := t } } := by
  obtain ⟨pool, hpool, rfl⟩ := Option.map_eq_some_iff.1 h
  obtain ⟨_, hlt, rfl⟩ := Option.map_eq_some_iff.1 hpool
  exact ⟨Checked.require_eq_some.1 hlt, rfl⟩

theorem setEntryRange_spec (h : a.setEntryRange e s t = some a₁) :
    s < t ∧ (∀ i, a₁.memoryEntryPool i =
        if i = e then { a.memoryEntryPool e with start := s, endAddress := t }
        else a.memoryEntryPool i) ∧
      a₁.freeList = a.freeList ∧ a₁.firstEntry = a.firstEntry ∧ a₁.freeSize = a.freeSize := by
  obtain ⟨hlt, rfl⟩ := setEntryRange_eq_some h
  exact ⟨hlt, fun i => by simp, rfl, rfl, rfl⟩

theorem setRange_eq (h : a.setEntryRange e s t = some a₁) :
    setRange a.memoryEntryPool e s t = some a₁.memoryEntryPool := by
  obtain ⟨pool, hpool, rfl⟩ := Option.map_eq_some_iff.1 h
  exact hpool

theorem resized_modifyEntry (pool : MemoryEntryPool) (e s t : ℕ) :
    Resized pool (modifyEntry pool e fun m => { m with start := s, endAddress := t }) e s t :=
  ⟨fun i hi => by simp [hi], fun i hi => by simp [hi], by simp, by simp⟩

/-- Taking `chain_entry_to_free_list` on the allocator apart. -/
theorem chainEntry_eq_some {oldSize : Option ℕ} (h : a.chainEntry e oldSize = some a') :
    ∃ pool freeList, chainEntryToFreeList a.memoryEntryPool a.freeList e oldSize =
        some (pool, freeList) ∧
      a' = { a with memoryEntryPool := pool, freeList := freeList } := by
  obtain ⟨⟨pool, freeList⟩, hchain, rfl⟩ := Option.map_eq_some_iff.1 h
  exact ⟨pool, freeList, hchain, rfl⟩

theorem not_mem_middle (h : (l₁ ++ e :: l₂).Nodup) : e ∉ l₁ ++ l₂ :=
  (List.nodup_cons.1 (List.nodup_middle.1 h)).1

/-- An entry gets a new range between its neighbours and moves to its bucket. -/
theorem Rep.resize (h : Rep a (l₁ ++ e :: l₂)) (hset : a.setEntryRange e s t = some a₁)
    (hlow : ∀ i ∈ l₁, (a.memoryEntryPool i).endAddress + 1 < s)
    (hhigh : ∀ i ∈ l₂, t + 1 < (a.memoryEntryPool i).start)
    (hchain : a₁.chainEntry e (some (a.memoryEntryPool e).size) = some a₂) :
    Chain a₂.memoryEntryPool a₂.firstEntry (l₁ ++ e :: l₂) ∧
      Filed a₂.memoryEntryPool a₂.freeList {i | i ∈ l₁ ++ e :: l₂} ∧
      Resized a.memoryEntryPool a₂.memoryEntryPool e s t ∧ a₂.freeSize = a.freeSize := by
  have hchain₁ := h.chain.setRange (setRange_eq hset) hlow hhigh
  obtain ⟨-, rfl⟩ := setEntryRange_eq_some hset
  have hres := resized_modifyEntry a.memoryEntryPool e s t
  obtain ⟨pool, freeList, hfile, rfl⟩ := chainEntry_eq_some hchain
  obtain ⟨hfiled, hsame⟩ := h.filed.rechain hchain₁.validSlots (by simp)
    (fun i _ => by by_cases hie : i = e <;> simp [hie]) (fun i _ hie => hres.size hie) hfile
  refine ⟨hchain₁.sameButLists hsame, hfiled, ⟨fun i hi => ?_, fun i hi => ?_, ?_, ?_⟩, rfl⟩
  · exact (hsame.start i).trans (hres.start i hi)
  · exact (hsame.endAddress i).trans (hres.endAddress i hi)
  · exact (hsame.start e).trans hres.start_self
  · exact (hsame.endAddress e).trans hres.end_self

/-! ## The shapes of `define_used_memory` -/

/-- An error leaves the state alone; a success takes exactly the bytes of `R`. -/
def Took {α : Type} (a : MemoryAllocator) (R : Set ℕ) : Reply α → Prop
  | (.error _, a') => a' = a
  | (.ok _, a') => R ⊆ a.freeBytes ∧ a'.freeBytes = a.freeBytes \ R ∧ ∃ l, Rep a' l

theorem takeSize_eq_some {size : ℕ} {r : Reply Unit} (h : a.takeSize size = some r) :
    size ≤ a.freeSize ∧ r = (.ok (), { a with freeSize := a.freeSize - size }) := by
  obtain ⟨freeSize, hsub, rfl⟩ := Option.map_eq_some_iff.1 h
  obtain ⟨hle, rfl⟩ := Checked.sub_eq_some.1 hsub
  exact ⟨hle, rfl⟩

/-- The entry shrinks to `[s, t]`; what it gives up is `R`. -/
theorem Rep.shrink (h : Rep a (l₁ ++ e :: l₂)) {size : ℕ} {R : Set ℕ} {r : Reply Unit}
    (hs : (a.memoryEntryPool e).start ≤ s) (ht : t ≤ (a.memoryEntryPool e).endAddress)
    (hR : ∀ x, x ∈ R ↔ x ∈ range a.memoryEntryPool e ∧ x ∉ Set.Icc s t)
    (hsize : t - s + 1 + size = (a.memoryEntryPool e).size)
    (hset : a.setEntryRange e s t = some a₁)
    (hchain : a₁.chainEntry e (some (a.memoryEntryPool e).size) = some a₂)
    (htake : a₂.takeSize size = some r) : Took a R r := by
  obtain ⟨hlow, hhigh⟩ := h.chain.apart.around
  obtain ⟨hch, hfiled, hres, hfree⟩ := h.resize hset (fun i hi => (hlow i hi).trans_le hs)
    (fun i hi => lt_of_le_of_lt (by omega) (hhigh i hi)) hchain
  obtain ⟨hle, rfl⟩ := takeSize_eq_some htake
  have he := not_mem_middle h.chain.nodup
  have hrep : Rep { a₂ with freeSize := a₂.freeSize - size } (l₁ ++ e :: l₂) := by
    refine ⟨hch, hfiled, ?_, fun hnil => absurd hnil (by simp)⟩
    have htotal := h.total_le
    have htotal' := total_middle a₂.memoryEntryPool l₁ l₂ e
    rw [total_middle] at htotal
    rw [hres.total he, hres.size_self] at htotal'
    change total a₂.memoryEntryPool (l₁ ++ e :: l₂) ≤ a₂.freeSize - size
    omega
  refine ⟨?_, ?_, _, hrep⟩
  · intro x hx
    rw [h.freeBytes_eq, coveredBy_middle]
    exact .inr ((hR x).1 hx).1
  · rw [hrep.freeBytes_eq, h.freeBytes_eq]
    change coveredBy a₂.memoryEntryPool _ = _
    rw [coveredBy_middle, coveredBy_middle, hres.coveredBy he, hres.range_self]
    have hdisj := Set.disjoint_left.1 h.chain.apart.disjoint
    have hsub : Set.Icc s t ⊆ range a.memoryEntryPool e := Set.Icc_subset_Icc hs ht
    ext x
    simp only [Set.mem_union, Set.mem_sdiff, hR]
    constructor
    · rintro (hx | hx)
      · exact ⟨.inl hx, fun hxe => hdisj hx hxe.1⟩
      · exact ⟨.inr (hsub hx), fun hxe => hxe.2 hx⟩
    · rintro ⟨hx | hx, hnot⟩
      · exact .inl hx
      · by_contra hcon
        exact hnot ⟨hx, fun hxe => hcon (.inr hxe)⟩

theorem setOf_mem_middle_sdiff (h : (l₁ ++ e :: l₂).Nodup) :
    {i | i ∈ l₁ ++ e :: l₂} \ {e} = {i | i ∈ l₁ ++ l₂} := by
  have he := not_mem_middle h
  ext i
  simp only [Set.mem_sdiff, Set.mem_ofPred_eq, List.mem_append, List.mem_cons,
    Set.mem_singleton_iff] at he ⊢
  constructor
  · rintro ⟨hi | rfl | hi, hie⟩
    · exact .inl hi
    · exact absurd rfl hie
    · exact .inr hi
  · rintro hi
    exact ⟨hi.imp id .inr, fun hie => he (hie ▸ hi)⟩

/-- The entry leaves the chain and its bucket. -/
theorem Rep.remove (h : Rep a (l₁ ++ e :: l₂)) {size : ℕ} {R : Set ℕ} {r : Reply Unit}
    (hne : l₁ ++ l₂ ≠ []) (hR : R = range a.memoryEntryPool e)
    (hsize : size = (a.memoryEntryPool e).size) {first : Option ℕ}
    (hfirst : first = (l₁ ++ l₂).head?)
    (hremove : takeWhole.remove e size { a with firstEntry := first } = some r) : Took a R r := by
  obtain ⟨a₁, hunchain, htake⟩ := Option.bind_eq_some_iff.1 hremove
  obtain ⟨⟨pool, freeList⟩, hfile, rfl⟩ := Option.map_eq_some_iff.1 hunchain
  obtain ⟨hfiled, hsame⟩ := h.filed.unchain h.chain.validSlots (by simp) hfile
  obtain ⟨hch, hsame'⟩ := (h.chain.sameButLists hsame).delete
  obtain ⟨hle, rfl⟩ := takeSize_eq_some htake
  rw [setOf_mem_middle_sdiff h.chain.nodup] at hfiled
  have hsizes : ∀ i, (delete pool e i).size = (a.memoryEntryPool i).size := fun i =>
    (hsame'.size i).trans (hsame.size i)
  have hrep : Rep ({ a with
      firstEntry := first, freeList := freeList, memoryEntryPool := delete pool e,
      freeSize := a.freeSize - size } : MemoryAllocator) (l₁ ++ l₂) := by
    refine ⟨hfirst ▸ hch, hfiled.congr (fun i _ => ⟨hsame'.listNext i, hsame'.listPrev i⟩)
      fun i _ => hsame'.size i, ?_, fun hnil => absurd hnil hne⟩
    have htotal := h.total_le
    rw [total_middle] at htotal
    change total (delete pool e) (l₁ ++ l₂) ≤ a.freeSize - size
    rw [total_congr fun i _ => hsizes i]
    omega
  have hcov : coveredBy (delete pool e) (l₁ ++ l₂) = coveredBy a.memoryEntryPool (l₁ ++ l₂) :=
    coveredBy_congr (fun i _ => (hsame'.start i).trans (hsame.start i))
      fun i _ => (hsame'.endAddress i).trans (hsame.endAddress i)
  refine ⟨?_, ?_, _, hrep⟩
  · rw [h.freeBytes_eq, coveredBy_middle, hR]
    exact Set.subset_union_right
  · rw [hrep.freeBytes_eq, h.freeBytes_eq, coveredBy_middle, hR]
    change coveredBy (delete pool e) (l₁ ++ l₂) = _
    rw [hcov, Set.union_sdiff_right, h.chain.apart.disjoint.sdiff_eq_left]

theorem Rep.takeWhole (h : Rep a (l₁ ++ e :: l₂)) {size : ℕ} {r : Reply Unit}
    (hsize : size = (a.memoryEntryPool e).size) (htake : a.takeWhole e size = some r) :
    Took a (range a.memoryEntryPool e) r := by
  obtain ⟨hprev, -, -, hnext⟩ := h.chain.neighbours
  unfold MemoryAllocator.takeWhole at htake
  simp only [MemoryEntry.isFirstEntry, hprev, hnext] at htake
  cases l₁ with
  | nil =>
    cases l₂ with
    | nil =>
      obtain rfl := Option.some.inj htake
      exact rfl
    | cons j l₂ =>
      have hid := (h.chain.valid j (by simp)).2
      exact h.remove (by simp) rfl hsize (by simp [hid]) htake
  | cons j l₁ =>
    have hlast : (j :: l₁).getLast?.isNone = false := by simp
    rw [hlast] at htake
    exact h.remove (by simp) rfl hsize (by rw [h.chain.first]; simp) htake

/-- A new entry in the chain: `e`, which may have a new size, and the new entry
are put into their buckets. -/
theorem Rep.insertNew (h : Rep a (l₁ ++ l₂)) (hn : n < poolSize)
    (hdis : (a.memoryEntryPool n).enabled = false)
    (hsplice : ChainSpliced a.memoryEntryPool a₁.memoryEntryPool n l₁.getLast? l₂.head?)
    (hfirst : a₁.firstEntry = (l₁ ++ n :: l₂).head?) (hlist : a₁.freeList = a.freeList)
    (hlinks : ∀ i ∈ l₁ ++ l₂,
      (a₁.memoryEntryPool i).listNext = (a.memoryEntryPool i).listNext ∧
      (a₁.memoryEntryPool i).listPrev = (a.memoryEntryPool i).listPrev)
    (he : e ∈ l₁ ++ l₂)
    (hsize : ∀ i ∈ l₁ ++ l₂, i ≠ e →
      (a₁.memoryEntryPool i).size = (a.memoryEntryPool i).size)
    (hrange : ∀ i ∈ l₁ ++ n :: l₂,
      (a₁.memoryEntryPool i).start < (a₁.memoryEntryPool i).endAddress)
    (hapart : Apart a₁.memoryEntryPool (l₁ ++ n :: l₂))
    (hold : a₁.chainEntry e (some (a.memoryEntryPool e).size) = some a₂)
    (hnew : a₂.chainEntry n none = some a') :
    Chain a'.memoryEntryPool a'.firstEntry (l₁ ++ n :: l₂) ∧
      Filed a'.memoryEntryPool a'.freeList {i | i ∈ l₁ ++ n :: l₂} ∧
      SameButLists a₁.memoryEntryPool a'.memoryEntryPool ∧ a'.freeSize = a₁.freeSize := by
  have hchain : Chain a₁.memoryEntryPool a₁.firstEntry (l₁ ++ n :: l₂) :=
    ⟨h.chain.toLinks.insert l₁ l₂ hn hdis hsplice hfirst, hrange, hapart⟩
  have hnot := h.chain.not_mem_of_disabled hn hdis
  have hmem : {i | i ∈ l₁ ++ n :: l₂} = insert n {i | i ∈ l₁ ++ l₂} := by
    ext i
    simp only [Set.mem_ofPred_eq, Set.mem_insert_iff, List.mem_append, List.mem_cons]
    tauto
  have hvalid : ∀ i ∈ l₁ ++ l₂, i < poolSize ∧ (a₁.memoryEntryPool i).id = i := by
    intro i hi
    have hi' : i ∈ {i | i ∈ l₁ ++ n :: l₂} := hmem ▸ Set.mem_insert_of_mem n hi
    exact hchain.valid i hi'
  obtain ⟨pool₂, freeList₂, hfile₂, rfl⟩ := chainEntry_eq_some hold
  rw [hlist] at hfile₂
  obtain ⟨hfiled₂, hsame₂⟩ := h.filed.rechain hvalid he hlinks hsize hfile₂
  obtain ⟨pool₃, freeList₃, hfile₃, rfl⟩ := chainEntry_eq_some hnew
  obtain ⟨hfiled₃, hsame₃⟩ := hfiled₂.chainNew
    (fun i hi => ⟨(hvalid i hi).1, (hsame₂.id i).trans (hvalid i hi).2⟩) hnot
    ((hsame₂.id n).trans hsplice.id_self) hfile₃
  exact ⟨hchain.sameButLists (hsame₂.trans hsame₃), hmem ▸ hfiled₃, hsame₂.trans hsame₃, rfl⟩

/-- Linking a new entry `n` behind `e`, before the entry that followed `e`. -/
theorem linkAfter_spec {Q : MemoryEntryPool} (after : Option ℕ) (hne : n ≠ e)
    (hafter : ∀ x, after = some x → x ≠ n ∧ x ≠ e ∧ (Q x).id = x) (he : (Q e).id = e)
    (hn : (Q n).id = n) (hnone : (Q n).next = none)
    (hpool : chainAfterMe (chainBeforeNext Q n after) e n = pool) :
    SameButChain Q pool ∧ (∀ i, (pool i).enabled = (Q i).enabled) ∧
      (∀ i, i ≠ n → (pool i).next = if some e = some i then some n else (Q i).next) ∧
      (∀ i, i ≠ n → (pool i).previous = if after = some i then some n else (Q i).previous) ∧
      (pool n).next = after ∧ (pool n).previous = some e := by
  cases after with
  | none =>
    have hP : ∀ i, pool i = _ := fun i =>
      (congrFun hpool i).symm.trans (chainAfterMe_apply Q e n i (Ne.symm hne))
    refine ⟨?_, fun i => ?_, fun i hi => ?_, fun i hi => ?_, ?_, ?_⟩
    · constructor <;> intro i <;> grind
    all_goals grind
  | some x =>
    obtain ⟨hxn, hxe, hx⟩ := hafter x rfl
    have hP : ∀ i, pool i = _ := fun i =>
      (congrFun hpool i).symm.trans (chainAfterMe_apply (chainAfterMe Q n x) e n i (Ne.symm hne))
    have hQ := fun i => chainAfterMe_apply Q n x i (Ne.symm hxn)
    refine ⟨?_, fun i => ?_, fun i hi => ?_, fun i hi => ?_, ?_, ?_⟩
    · constructor <;> intro i <;> grind
    all_goals grind

/-- The pool in which `e` ends before `start` and a new entry `n` behind it
covers the rest of its range from `stop` on. -/
structure Split (pool pool' : MemoryEntryPool) (e n start stop : ℕ) (after : Option ℕ) : Prop where
  splice : ChainSpliced pool pool' n (some e) after
  lists : ∀ i, i ≠ n → (pool' i).listNext = (pool i).listNext ∧
    (pool' i).listPrev = (pool i).listPrev
  others : ∀ i, i ≠ e → i ≠ n → (pool' i).start = (pool i).start ∧
    (pool' i).endAddress = (pool i).endAddress
  entry : (pool' e).start = (pool e).start ∧ (pool' e).endAddress = start - 1
  fresh : (pool' n).start = stop ∧ (pool' n).endAddress = (pool e).endAddress

/-- Creating the entry, setting both ranges and linking it gives a split pool. -/
theorem Chain.split {first after : Option ℕ} {start stop : ℕ} {Q : MemoryEntryPool}
    (h : Chain pool first (l₁ ++ e :: l₂)) (hafter : after = l₂.head?) (hnot : n ∉ l₁ ++ e :: l₂)
    (hQe : Q e = { pool e with endAddress := start - 1 })
    (hQn : Q n = { MemoryEntry.new with
      id := n, enabled := true, start := stop, endAddress := (pool e).endAddress })
    (hQ : ∀ i, i ≠ e → i ≠ n → Q i = pool i)
    (hpool : chainAfterMe (chainBeforeNext Q n after) e n = pool') :
    Split pool pool' e n start stop after := by
  have hne : n ≠ e := fun hne => hnot (by simp [hne])
  have hhead : ∀ x, after = some x → x ≠ n ∧ x ≠ e ∧ (Q x).id = x := by
    intro x hx
    have hx₂ := List.mem_of_head? (hafter ▸ hx)
    have hxn : x ≠ n := fun hxn => hnot (by simp [← hxn, hx₂])
    have hxe : x ≠ e := fun hxe => not_mem_middle h.nodup (by simp [← hxe, hx₂])
    rw [hQ x hxe hxn]
    exact ⟨hxn, hxe, (h.valid x (by simp [hx₂])).2⟩
  obtain ⟨hsame, hen, hnx, hpv, hnn, hpn⟩ := linkAfter_spec _ hne hhead
    (by rw [hQe]; exact (h.valid e (by simp)).2) (by rw [hQn]) (by rw [hQn]; rfl) hpool
  -- every entry but the new one has the links, the flag and the number it had
  have hkept : ∀ i, i ≠ n → (Q i).next = (pool i).next ∧ (Q i).previous = (pool i).previous ∧
      (Q i).enabled = (pool i).enabled ∧ (Q i).id = (pool i).id ∧
      (Q i).listNext = (pool i).listNext ∧ (Q i).listPrev = (pool i).listPrev := by
    intro i hin
    by_cases hie : i = e
    · rw [hie, hQe]
      exact ⟨rfl, rfl, rfl, rfl, rfl, rfl⟩
    · rw [hQ i hie hin]
      exact ⟨rfl, rfl, rfl, rfl, rfl, rfl⟩
  refine ⟨⟨fun i hin => ?_, fun i hin => ?_, hnn, hpn, fun i hin => ?_, ?_, fun i hin => ?_, ?_⟩,
    fun i hin => ?_, fun i hie hin => ?_, ?_, ?_⟩
  · rw [hnx i hin, (hkept i hin).1]
  · rw [hpv i hin, (hkept i hin).2.1]
  · rw [hen, (hkept i hin).2.2.1]
  · rw [hen, hQn]
  · rw [hsame.id, (hkept i hin).2.2.2.1]
  · rw [hsame.id, hQn]
  · rw [hsame.listNext, hsame.listPrev]
    exact (hkept i hin).2.2.2.2
  · rw [hsame.start, hsame.endAddress, hQ i hie hin]
    exact ⟨rfl, rfl⟩
  · rw [hsame.start, hsame.endAddress, hQe]
    exact ⟨rfl, rfl⟩
  · rw [hsame.start, hsame.endAddress, hQn]
    exact ⟨rfl, rfl⟩

section Split

variable {start stop : ℕ} {after : Option ℕ} (hsplit : Split pool pool' e n start stop after)

include hsplit

theorem Split.outside (hne : n ∉ l₁ ++ e :: l₂) (hnodup : (l₁ ++ e :: l₂).Nodup) {i : ℕ}
    (hi : i ∈ l₁ ++ l₂) : (pool' i).start = (pool i).start ∧
      (pool' i).endAddress = (pool i).endAddress :=
  hsplit.others i (fun hie => not_mem_middle hnodup (hie ▸ hi)) fun hin => hne <| by
    obtain hi | hi := List.mem_append.1 hi <;> simp [← hin, hi]

theorem Split.apart (h : Apart pool (l₁ ++ e :: l₂)) (hnodup : (l₁ ++ e :: l₂).Nodup)
    (hnot : n ∉ l₁ ++ e :: l₂) (hlow : (pool e).start < start) (hmid : start < stop)
    (hhigh : stop < (pool e).endAddress) : Apart pool' ((l₁ ++ [e]) ++ n :: l₂) := by
  obtain ⟨hbefore, hbehind⟩ := h.around
  have hout := fun i (hi : i ∈ l₁ ++ l₂) => hsplit.outside hnot hnodup hi
  obtain ⟨hse, hte⟩ := hsplit.entry
  obtain ⟨hsn, htn⟩ := hsplit.fresh
  have happ : Apart pool' ((l₁ ++ [e]) ++ l₂) := by
    rw [List.append_assoc, List.singleton_append]
    refine h.update hnodup (fun i hi _ => hout i hi) (fun i hi => ?_) fun i hi => ?_
    · rw [hse]
      exact hbefore i hi
    · have := hbehind i hi
      omega
  refine happ.insert (by simpa using hnot) (fun _ _ => rfl) (fun _ _ => rfl) (fun i hi => ?_)
    fun i hi => ?_
  · obtain hi | hi := List.mem_append.1 hi
    · have := hbefore i hi
      have := (hout i (by simp [hi])).2
      omega
    · rw [List.mem_singleton.1 hi]
      omega
  · have := hbehind i hi
    have := (hout i (by simp [hi])).1
    omega

theorem Split.range (hrange : ∀ i ∈ l₁ ++ e :: l₂, (pool i).start < (pool i).endAddress)
    (hlow : (pool e).start < start - 1) (hhigh : stop < (pool e).endAddress) :
    ∀ i ∈ (l₁ ++ [e]) ++ n :: l₂, (pool' i).start < (pool' i).endAddress := by
  intro i hi
  by_cases hie : i = e
  · rw [hie, hsplit.entry.1, hsplit.entry.2]
    exact hlow
  by_cases hin : i = n
  · rw [hin, hsplit.fresh.1, hsplit.fresh.2]
    exact hhigh
  · rw [(hsplit.others i hie hin).1, (hsplit.others i hie hin).2]
    refine hrange i ?_
    simp only [List.mem_append, List.mem_cons] at hi ⊢
    tauto

theorem Split.coveredBy (h : Apart pool (l₁ ++ e :: l₂)) (hnodup : (l₁ ++ e :: l₂).Nodup)
    (hnot : n ∉ l₁ ++ e :: l₂) (hlow : (pool e).start < start) (hmid : start < stop)
    (hhigh : stop < (pool e).endAddress) :
    coveredBy pool' ((l₁ ++ [e]) ++ n :: l₂) =
      coveredBy pool (l₁ ++ e :: l₂) \ Set.Ico start stop := by
  have hout := fun i (hi : i ∈ l₁ ++ l₂) => hsplit.outside hnot hnodup hi
  have hassoc : (l₁ ++ [e]) ++ l₂ = l₁ ++ e :: l₂ := by simp
  rw [coveredBy_middle, hassoc, coveredBy_middle, coveredBy_middle,
    coveredBy_congr (fun i hi => (hout i hi).1) fun i hi => (hout i hi).2]
  have hdisj := Set.disjoint_left.1 h.disjoint
  ext x
  simp only [MemoryAllocator.range, hsplit.entry.1, hsplit.entry.2, hsplit.fresh.1, hsplit.fresh.2,
    Set.mem_union, Set.mem_sdiff, Set.mem_Icc, Set.mem_Ico]
  constructor
  · rintro ((hx | hx) | hx)
    · refine ⟨.inl hx, fun hxe => hdisj hx ?_⟩
      exact ⟨by omega, by omega⟩
    · exact ⟨.inr (by omega), by omega⟩
    · exact ⟨.inr (by omega), by omega⟩
  · rintro ⟨hx | hx, hnot'⟩
    · exact .inl (.inl hx)
    · by_cases hxs : x < start
      · exact .inl (.inr (by omega))
      · exact .inr (by omega)

theorem Split.total (hnodup : (l₁ ++ e :: l₂).Nodup) (hnot : n ∉ l₁ ++ e :: l₂)
    (hlow : (pool e).start < start) (hmid : start < stop) (hhigh : stop < (pool e).endAddress) :
    total pool' ((l₁ ++ [e]) ++ n :: l₂) + (stop - start) = total pool (l₁ ++ e :: l₂) := by
  have hout := fun i (hi : i ∈ l₁ ++ l₂) => hsplit.outside hnot hnodup hi
  have hassoc : (l₁ ++ [e]) ++ l₂ = l₁ ++ e :: l₂ := by simp
  have hsame : MemoryAllocator.total pool' (l₁ ++ l₂) = MemoryAllocator.total pool (l₁ ++ l₂) :=
    total_congr fun i hi => by
      rw [MemoryEntry.size, MemoryEntry.size, (hout i hi).1, (hout i hi).2]
  rw [total_middle, hassoc, total_middle, total_middle, hsame]
  simp only [MemoryEntry.size, hsplit.entry.1, hsplit.entry.2, hsplit.fresh.1, hsplit.fresh.2]
  omega

end Split

/-- The state in which both ranges of a hole are set: the rest of the allocator is as before. -/
structure Cut (a a' : MemoryAllocator) (e n start stop : ℕ) : Prop where
  low : (a.memoryEntryPool e).start < start - 1
  high : stop < (a.memoryEntryPool e).endAddress
  entry : a'.memoryEntryPool e = { a.memoryEntryPool e with endAddress := start - 1 }
  fresh : a'.memoryEntryPool n = { MemoryEntry.new with
    id := n, enabled := true, start := stop, endAddress := (a.memoryEntryPool e).endAddress }
  others : ∀ i, i ≠ e → i ≠ n → a'.memoryEntryPool i = a.memoryEntryPool i
  freeList : a'.freeList = a.freeList
  firstEntry : a'.firstEntry = a.firstEntry
  freeSize : a'.freeSize = a.freeSize

theorem cut_of_setEntryRange {start stop : ℕ} (hne : n ≠ e)
    (hcreate : createMemoryEntry a.memoryEntryPool = .ok (n, pool))
    (hset : ({ a with memoryEntryPool := pool } : MemoryAllocator).setEntryRange n stop
      (pool e).endAddress = some a₁)
    (hcut : a₁.setEntryRange e (a₁.memoryEntryPool e).start (start - 1) = some a₂) :
    pool e = a.memoryEntryPool e ∧ Cut a a₂ e n start stop := by
  obtain ⟨-, -, rfl⟩ := createMemoryEntry_ok hcreate
  obtain ⟨hhigh, hpool₁, hlist₁, hfirst₁, hfree₁⟩ := setEntryRange_spec hset
  obtain ⟨hlow, hpool₂, hlist₂, hfirst₂, hfree₂⟩ := setEntryRange_spec hcut
  refine ⟨by simp [Ne.symm hne], ?_, ?_, ?_, ?_, fun i hie hin => ?_, hlist₂.trans hlist₁,
    hfirst₂.trans hfirst₁, hfree₂.trans hfree₁⟩
  · simpa [hpool₁, Ne.symm hne] using hlow
  · simpa [Ne.symm hne] using hhigh
  · simp [hpool₂, hpool₁, Ne.symm hne]
  · simp [hpool₂, hpool₁, hne, Ne.symm hne]
  · simp [hpool₂, hpool₁, hie, hin]

/-- The entry keeps the part before the hole and a new entry takes the part behind it. -/
theorem Rep.takeMiddle (h : Rep a (l₁ ++ e :: l₂)) {start size : ℕ} {r : Reply Unit}
    (hpos : 0 < size) (htake : a.takeMiddle e start size = some r) :
    Took a (Set.Ico start (start + size)) r := by
  unfold MemoryAllocator.takeMiddle at htake
  split at htake
  · obtain rfl := Option.some.inj htake
    exact rfl
  rename_i n pool₁ hcreate
  obtain ⟨hn, hdis, -⟩ := createMemoryEntry_ok hcreate
  have hnot := h.chain.not_mem_of_disabled hn hdis
  have hne : n ≠ e := fun hne => hnot (by simp [hne])
  simp only [bind, Option.bind_eq_some_iff] at htake
  obtain ⟨oldSize, hold, newStart, hnew, a₁, ha₁, newEnd, hend, a₂, ha₂, a₃, ha₃, a₄, ha₄,
    htake⟩ := htake
  obtain ⟨-, rfl⟩ := Checked.add_eq_some.1 hnew
  obtain ⟨-, rfl⟩ := Checked.sub_eq_some.1 hend
  obtain ⟨hkept, hcut⟩ := cut_of_setEntryRange hne hcreate ha₁ ha₂
  have hlow := hcut.low
  have hhigh := hcut.high
  have hold : oldSize = (a.memoryEntryPool e).size := by
    rw [MemoryEntry.getSize_eq hold, hkept]
  have hnext : getNextEntry a₂.memoryEntryPool e = l₂.head? := by
    rw [← h.chain.neighbours.2.2.2, getNextEntry, getNextEntry, hcut.entry]
  rw [hnext] at ha₃
  generalize hP : chainAfterMe (chainBeforeNext a₂.memoryEntryPool n l₂.head?) e n = P at ha₃
  have hsplit : Split a.memoryEntryPool P e n start (start + size) l₂.head? :=
    h.chain.split rfl hnot hcut.entry hcut.fresh hcut.others hP
  have hassoc : l₁ ++ e :: l₂ = (l₁ ++ [e]) ++ l₂ := by simp
  have hlast : (l₁ ++ [e]).getLast? = some e := by simp
  have hmem : ∀ i ∈ (l₁ ++ [e]) ++ l₂, i ≠ n := fun i hi hin => hnot (by rw [hassoc, ← hin]; exact hi)
  obtain ⟨hchain, hfiled, hsame, hfree⟩ := (hassoc ▸ h).insertNew
    hn hdis (show ChainSpliced _ ({ a₂ with memoryEntryPool := P } : MemoryAllocator).memoryEntryPool
      n _ _ from hlast ▸ hsplit.splice)
    (by
      change a₂.firstEntry = _
      rw [hcut.firstEntry, h.chain.first]
      simp)
    hcut.freeList
    (fun i hi => hsplit.lists i (hmem i hi)) (e := e) (by simp)
    (fun i hi hie => by
      change (P i).size = _
      rw [MemoryEntry.size, MemoryEntry.size, (hsplit.others i hie (hmem i hi)).1,
        (hsplit.others i hie (hmem i hi)).2])
    (hsplit.range h.chain.range hlow hhigh)
    (hsplit.apart h.chain.apart h.chain.nodup hnot (by omega) (by omega) hhigh)
    (hold ▸ ha₃) ha₄
  obtain ⟨hle, rfl⟩ := takeSize_eq_some htake
  have hrep : Rep { a₄ with freeSize := a₄.freeSize - size } ((l₁ ++ [e]) ++ n :: l₂) := by
    refine ⟨hchain, hfiled, ?_, fun hnil => absurd hnil (by simp)⟩
    change total a₄.memoryEntryPool _ ≤ a₄.freeSize - size
    have htotal := h.total_le
    have hparts := hsplit.total h.chain.nodup hnot (by omega) (by omega) hhigh
    have hfree' : a₄.freeSize = a.freeSize := hfree.trans hcut.freeSize
    rw [total_congr fun i _ => hsame.size i]
    change total P _ ≤ _
    omega
  have hcov : coveredBy a₄.memoryEntryPool ((l₁ ++ [e]) ++ n :: l₂) =
      a.freeBytes \ Set.Ico start (start + size) := by
    rw [coveredBy_congr (fun i _ => hsame.start i) fun i _ => hsame.endAddress i, h.freeBytes_eq]
    exact hsplit.coveredBy h.chain.apart h.chain.nodup hnot (by omega) (by omega) hhigh
  refine ⟨?_, hrep.freeBytes_eq.trans hcov, _, hrep⟩
  rw [h.freeBytes_eq, coveredBy_middle]
  rintro x ⟨hx₁, hx₂⟩
  exact .inr ⟨by omega, by omega⟩

theorem Rep.takePart (h : Rep a (l₁ ++ e :: l₂)) {size : ℕ} {R : Set ℕ} {r : Reply Unit}
    (hs : (a.memoryEntryPool e).start ≤ s) (ht : t ≤ (a.memoryEntryPool e).endAddress)
    (hR : s < t → ∀ x, x ∈ R ↔ x ∈ range a.memoryEntryPool e ∧ x ∉ Set.Icc s t)
    (hsize : s < t → t - s + 1 + size = (a.memoryEntryPool e).size)
    (htake : a.takePart e s t size = some r) : Took a R r := by
  simp only [MemoryAllocator.takePart, bind, Option.bind_eq_some_iff] at htake
  obtain ⟨oldSize, hold, a₁, hset, a₂, hchain, htake⟩ := htake
  rw [MemoryEntry.getSize_eq hold] at hchain
  have hlt := (setEntryRange_spec hset).1
  exact h.shrink hs ht (hR hlt) (hsize hlt) hset hchain htake

theorem Rep.takeLastByte (h : Rep a (l₁ ++ e :: l₂)) {start size : ℕ} {r : Reply Unit}
    (hend : (a.memoryEntryPool e).endAddress = start)
    (htake : a.takeLastByte e start size = some r) : Took a (Set.Ico start (start + size)) r := by
  unfold MemoryAllocator.takeLastByte at htake
  split_ifs at htake with hone
  · obtain rfl := Option.some.inj htake
    exact rfl
  obtain rfl : size = 1 := not_not.1 hone
  simp only [bind, Option.bind_eq_some_iff] at htake
  obtain ⟨newEnd, hnewEnd, a₁, hset, newSize, hnew, oldSize, hold, a₂, hchain, htake⟩ := htake
  obtain ⟨-, rfl⟩ := Checked.sub_eq_some.1 hnewEnd
  obtain ⟨-, rfl⟩ := Checked.add_eq_some.1 hold
  obtain ⟨hlt, hpool, -⟩ := setEntryRange_spec hset
  have hsize : newSize + 1 = (a.memoryEntryPool e).size := by
    rw [MemoryEntry.getSize_eq hnew, hpool e, if_pos rfl, MemoryEntry.size, MemoryEntry.size, hend]
    dsimp only
    omega
  rw [hsize] at hchain
  refine h.shrink le_rfl (by omega) (fun x => ?_) ?_ hset hchain htake
  · simp only [range, hend, Set.mem_Ico, Set.mem_Icc]
    omega
  · rw [MemoryEntry.size, hend]
    omega

/-- `define_used_memory` on an entry that covers the start of the range. -/
theorem Rep.takeFrom (h : Rep a l) {start size : ℕ} {r : Reply Unit} (he : e ∈ l)
    (hlow : (a.memoryEntryPool e).start ≤ start) (hhigh : start ≤ (a.memoryEntryPool e).endAddress)
    (hpos : 0 < size) (htake : a.takeFrom e start size = some r) :
    Took a (Set.Ico start (start + size)) r := by
  obtain ⟨l₁, l₂, rfl⟩ := List.append_of_mem he
  have hend : ∀ {last}, getEndAddress start size = some last → last = start + size - 1 := by
    intro last hlast
    obtain ⟨s, hs, hlast⟩ := Option.bind_eq_some_iff.1 hlast
    rw [(Checked.sub_eq_some.1 hlast).2, (Checked.add_eq_some.1 hs).2]
  unfold MemoryAllocator.takeFrom at htake
  dsimp only at htake
  by_cases hfront : (a.memoryEntryPool e).start = start
  · rw [if_pos hfront] at htake
    obtain ⟨last, hlast, htake⟩ := Option.bind_eq_some_iff.1 htake
    obtain rfl := hend hlast
    split_ifs at htake with hwhole
    · have hR : range a.memoryEntryPool e = Set.Ico start (start + size) := by
        ext x
        simp only [range, hfront, hwhole, Set.mem_Icc, Set.mem_Ico]
        omega
      rw [← hR]
      refine h.takeWhole ?_ htake
      rw [MemoryEntry.size, hfront, hwhole]
      omega
    · obtain ⟨newStart, hnew, htake⟩ := Option.bind_eq_some_iff.1 htake
      obtain ⟨-, rfl⟩ := Checked.add_eq_some.1 hnew
      -- the part that stays is not empty, so the range ends inside the entry
      refine h.takePart (by omega) le_rfl (fun hlt x => ?_) (fun hlt => ?_) htake
      · simp only [range, hfront, Set.mem_Icc, Set.mem_Ico]
        omega
      · rw [MemoryEntry.size, hfront]
        omega
  rw [if_neg hfront] at htake
  by_cases hbyte : (a.memoryEntryPool e).endAddress = start
  · rw [if_pos hbyte] at htake
    exact h.takeLastByte hbyte htake
  rw [if_neg hbyte] at htake
  obtain ⟨last, hlast, htake⟩ := Option.bind_eq_some_iff.1 htake
  obtain rfl := hend hlast
  split_ifs at htake with hback
  · obtain ⟨newEnd, hnew, htake⟩ := Option.bind_eq_some_iff.1 htake
    obtain ⟨-, rfl⟩ := Checked.sub_eq_some.1 hnew
    refine h.takePart le_rfl (by omega) (fun hlt x => ?_) (fun hlt => ?_) htake
    · simp only [range, hback, Set.mem_Icc, Set.mem_Ico]
      omega
    · rw [MemoryEntry.size, hback]
      omega
  · exact h.takeMiddle hpos htake

/-! ## The operations -/

theorem Rep.defineUsedMemoryUnaligned (h : Rep a l) {start size : ℕ} {target : Option ℕ}
    {r : Reply Unit}
    (htarget : ∀ e, target = some e → e ∈ l ∧ (a.memoryEntryPool e).start ≤ start ∧
      start ≤ (a.memoryEntryPool e).endAddress)
    (huse : a.defineUsedMemoryUnaligned start size target = some r) :
    Took a (Set.Ico start (start + size)) r := by
  unfold MemoryAllocator.defineUsedMemoryUnaligned at huse
  split_ifs at huse with hzero hless
  · obtain rfl := Option.some.inj huse
    exact rfl
  · obtain rfl := Option.some.inj huse
    exact rfl
  cases target with
  | some e =>
    obtain ⟨he, hlow, hhigh⟩ := htarget e rfl
    exact h.takeFrom he hlow hhigh (Nat.pos_of_ne_zero hzero) huse
  | none =>
    obtain ⟨found, hfound, huse⟩ := Option.bind_eq_some_iff.1 huse
    cases found with
    | none =>
      obtain rfl := Option.some.inj huse
      exact rfl
    | some e =>
      obtain ⟨he, hlow, hhigh⟩ := h.chain.searchEntryContainingAddress hfound
      exact h.takeFrom he hlow hhigh (Nat.pos_of_ne_zero hzero) huse

/-- The range that `reserve_memory` takes: widened to whole blocks when an
alignment is given. -/
def widened (start size alignOrder : ℕ) : Set ℕ :=
  if alignOrder = 0 then Set.Ico start (start + size)
  else
    let alignSize := 2 ^ alignOrder
    let offset := start % alignSize
    Set.Ico (start - offset) (start - offset + ((size + offset - 1) / alignSize + 1) * alignSize)

theorem alignAddressAndSize_eq_some {start size alignOrder s z : ℕ} (horder : alignOrder ≠ 0)
    (h : alignAddressAndSize start size alignOrder = some (s, z)) :
    Set.Ico s (s + z) = widened start size alignOrder := by
  simp only [alignAddressAndSize, bind, Option.bind_eq_some_iff, pure, Option.some.injEq,
    Prod.mk.injEq] at h
  obtain ⟨alignSize, hbit, s₁, hs₁, s₂, hs₂, z', hz', rfl, rfl⟩ := h
  obtain ⟨-, rfl⟩ := Checked.bit_eq_some.1 hbit
  obtain ⟨-, rfl⟩ := Checked.add_eq_some.1 hs₁
  obtain ⟨-, rfl⟩ := Checked.sub_eq_some.1 hs₂
  obtain ⟨-, rfl⟩ := Checked.add_eq_some.1 hz'
  have hmod : start % 2 ^ alignOrder ≤ start := Nat.mod_le _ _
  have hoffset : start - (start - start % 2 ^ alignOrder) = start % 2 ^ alignOrder := by omega
  have hdiv := Nat.div_add_mod (size + start % 2 ^ alignOrder - 1) (2 ^ alignOrder)
  rw [widened, if_neg horder, hoffset]
  dsimp only
  congr 2
  rw [Nat.add_mul, Nat.one_mul, Nat.mul_comm]
  omega

/-- With a target entry, `define_used_memory` is only called without alignment. -/
theorem Rep.defineUsedMemory (h : Rep a l) {start size alignOrder : ℕ} {target : Option ℕ}
    {r : Reply Unit}
    (htarget : ∀ e, target = some e → alignOrder = 0 ∧ e ∈ l ∧
      (a.memoryEntryPool e).start ≤ start ∧ start ≤ (a.memoryEntryPool e).endAddress)
    (huse : a.defineUsedMemory start size alignOrder target = some r) :
    Took a (widened start size alignOrder) r := by
  unfold MemoryAllocator.defineUsedMemory at huse
  by_cases horder : alignOrder = 0
  · subst horder
    rw [if_neg (not_not.2 rfl)] at huse
    split_ifs at huse with hzero hless
    · obtain rfl := Option.some.inj huse
      exact rfl
    · obtain rfl := Option.some.inj huse
      exact rfl
    · exact h.defineUsedMemoryUnaligned (fun e he => (htarget e he).2) huse
  · rw [if_pos horder] at huse
    split_ifs at huse with hzero hless
    · obtain rfl := Option.some.inj huse
      exact rfl
    · obtain rfl := Option.some.inj huse
      exact rfl
    · obtain ⟨⟨s, z⟩, halign, huse⟩ := Option.bind_eq_some_iff.1 huse
      rw [← alignAddressAndSize_eq_some horder halign]
      exact h.defineUsedMemoryUnaligned (fun e he => absurd (htarget e he).1 horder) huse

theorem Rep.reserveMemory (h : Rep a l) {start size alignOrder : ℕ} {r : Reply Unit}
    (hreserve : a.reserveMemory start size alignOrder = some r) :
    Took a (widened start size alignOrder) r :=
  h.defineUsedMemory (by simp) hreserve

/-- An aligned address inside an entry with room for the block. -/
theorem alignAddressAndAvailableSize_spec {start size alignOrder s z : ℕ}
    (h : alignAddressAndAvailableSize start size alignOrder = some (s, z)) :
    2 ^ alignOrder ∣ s ∧ start ≤ s ∧ (0 < z → s + z = start + size) := by
  unfold alignAddressAndAvailableSize at h
  split_ifs at h with hzero
  · obtain ⟨rfl, rfl⟩ : 0 = s ∧ size = z := by simpa using h
    exact ⟨dvd_zero _, by omega, by omega⟩
  simp only [bind, Option.bind_eq_some_iff] at h
  obtain ⟨alignSize, hbit, s₁, hs₁, s₂, hs₂, h⟩ := h
  obtain ⟨-, rfl⟩ := Checked.bit_eq_some.1 hbit
  obtain ⟨-, rfl⟩ := Checked.sub_eq_some.1 hs₁
  obtain ⟨-, rfl⟩ := Checked.add_eq_some.1 hs₂
  have hmod : (start - 1) % 2 ^ alignOrder < 2 ^ alignOrder := Nat.mod_lt _ (by positivity)
  have hle := Nat.mod_le (start - 1) (2 ^ alignOrder)
  have hdvd : 2 ^ alignOrder ∣ start - 1 - (start - 1) % 2 ^ alignOrder + 2 ^ alignOrder :=
    Dvd.dvd.add (Nat.dvd_sub_mod _) dvd_rfl
  split_ifs at h with hroom
  · obtain ⟨rfl, rfl⟩ : _ = s ∧ _ = z := by simpa using h
    exact ⟨hdvd, by omega, by omega⟩
  · obtain ⟨rfl, rfl⟩ : _ = s ∧ 0 = z := by simpa using h
    exact ⟨hdvd, by omega, by omega⟩

/-- What the search through a bucket finds: an entry of the bucket with room for
the block at an aligned address. -/
theorem searchBucket_spec {size alignOrder fuel address : ℕ} {m bucket : List ℕ}
    (hlinked : Linked (fun i => (pool i).listNext) (fun i => (pool i).listPrev) none
      (m ++ bucket) none)
    (hvalid : ∀ i ∈ m ++ bucket, i < poolSize) (hpos : 0 < size)
    (hfound : searchBucket pool size alignOrder fuel bucket.head? = some (some (e, address))) :
    e ∈ bucket ∧ 2 ^ alignOrder ∣ address ∧ (pool e).start ≤ address ∧
      address + size ≤ (pool e).start + (pool e).size := by
  induction fuel generalizing m bucket with
  | zero => cases bucket <;> simp [searchBucket] at hfound
  | succ fuel ih =>
    cases bucket with
    | nil => simp [searchBucket] at hfound
    | cons c rest =>
      have hnext : follow (pool c).listNext = rest.head? := by
        rw [hlinked.at_node.2]
        exact follow_eq fun i hi => hvalid i (by simp [List.mem_of_head? hi])
      have hassoc : m ++ c :: rest = (m ++ [c]) ++ rest := by simp
      have hrest := fun hloop => ih (hassoc ▸ hlinked) (hassoc ▸ hvalid) hloop
      rw [List.head?_cons, searchBucket] at hfound
      obtain ⟨entrySize, hsize, hfound⟩ := Option.bind_eq_some_iff.1 hfound
      obtain rfl := MemoryEntry.getSize_eq hsize
      split_ifs at hfound with hfits horder
      · obtain ⟨⟨aligned, available⟩, halign, hfound⟩ := Option.bind_eq_some_iff.1 hfound
        obtain ⟨hdvd, hlow, hroom⟩ := alignAddressAndAvailableSize_spec halign
        dsimp only at hfound
        split_ifs at hfound with hless
        · obtain ⟨hmem, hspec⟩ := hrest (hnext ▸ hfound)
          exact ⟨by simp [hmem], hspec⟩
        · obtain ⟨rfl, rfl⟩ : c = e ∧ aligned = address := by simpa using hfound
          exact ⟨by simp, hdvd, hlow, by omega⟩
      · obtain ⟨rfl, rfl⟩ : c = e ∧ _ = address := by simpa using hfound
        obtain rfl := not_not.1 horder
        exact ⟨by simp, by simp, le_rfl, by omega⟩
      · obtain ⟨hmem, hspec⟩ := hrest (hnext ▸ hfound)
        exact ⟨by simp [hmem], hspec⟩

/-- What `allocate` hands out: an aligned block of free bytes. -/
def TookBlock (a : MemoryAllocator) (size alignOrder : ℕ) : Reply ℕ → Prop
  | (.error _, a') => a' = a
  | (.ok address, a') => 2 ^ alignOrder ∣ address ∧
      Took a (Set.Ico address (address + size)) (.ok address, a')

theorem Rep.allocateLoop (h : Rep a l) {size alignOrder remaining order : ℕ} {r : Reply ℕ}
    (hpos : 0 < size) (horder : order + remaining ≤ numOfFreeList)
    (hloop : a.allocateLoop size alignOrder remaining order = some r) :
    TookBlock a size alignOrder r := by
  induction remaining generalizing order with
  | zero =>
    obtain rfl := Option.some.inj hloop
    exact rfl
  | succ remaining ih =>
    obtain ⟨B, hB, -⟩ := h.filed
    have ho : order < numOfFreeList := by omega
    have hvalid : ∀ i ∈ B order, i ∈ l ∧ i < poolSize := fun i hi => by
      have hil := ((hB.mem order ho i).1 hi).1
      exact ⟨hil, (h.chain.valid i hil).1⟩
    unfold MemoryAllocator.allocateLoop at hloop
    rw [hB.head order ho] at hloop
    cases hbucket : B order with
    | nil =>
      rw [hbucket] at hloop
      exact ih (by omega) hloop
    | cons c rest =>
      have hc : getMemoryEntry c = .ok c := if_pos (hvalid c (by simp [hbucket])).2
      rw [hbucket, List.head?_cons] at hloop
      simp only [hc] at hloop
      obtain ⟨found, hfound, hloop⟩ := Option.bind_eq_some_iff.1 hloop
      cases found with
      | none => exact ih (by omega) hloop
      | some found =>
        obtain ⟨e, address⟩ := found
        obtain ⟨he, hdvd, hlow, hroom⟩ := searchBucket_spec (m := [])
          (hB.linked order ho) (fun i hi => (hvalid i hi).2) hpos
          (by rw [hbucket]; exact hfound)
        obtain ⟨⟨result, a'⟩, huse, rfl⟩ := Option.map_eq_some_iff.1 hloop
        have hrange := h.chain.range e (hvalid e he).1
        have hlast : address ≤ (a.memoryEntryPool e).endAddress := by
          rw [MemoryEntry.size] at hroom
          omega
        have htook : Took a (widened address size 0) (result, a') := by
          refine h.defineUsedMemory (fun i hi => ?_) huse
          obtain rfl := Option.some.inj hi
          exact ⟨rfl, (hvalid _ he).1, hlow, hlast⟩
        cases result with
        | error err => exact htook
        | ok _ => exact ⟨hdvd, htook⟩

theorem Rep.allocate (h : Rep a l) {size alignOrder : ℕ} {r : Reply ℕ}
    (hallocate : a.allocate size alignOrder = some r) : TookBlock a size alignOrder r := by
  unfold MemoryAllocator.allocate at hallocate
  split_ifs at hallocate with hzero hless
  · obtain rfl := Option.some.inj hallocate
    exact rfl
  · obtain rfl := Option.some.inj hallocate
    exact rfl
  · have hlt := sizeToPageOrder_lt size
    exact h.allocateLoop (Nat.pos_of_ne_zero hzero) (by omega) hallocate

end MemoryAllocator

end MiniVisor
