import MiniVisor.AllocatorDoubleFree

/-!
# Which calls panic

`set_range` asserts that an entry has at least two bytes, so a block cannot be taken where
it leaves a single byte of an entry, in front of it or behind it. A range that is reserved
past the end of the entry it starts in fails the same assertion. Nothing else fails: the
links of a run are sound and addresses below `2 ^ 48` do not overflow.
-/
namespace MiniVisor

namespace MemoryAllocator

variable {a a' a₁ a₂ : MemoryAllocator} {pool : MemoryEntryPool} {l l₁ l₂ : List ℕ}
  {e n s t start size alignOrder : ℕ}

/-! ## Taking a range from an entry -/

/-- The range can be taken from the entry that it starts in, or is refused. -/
def TakesSafely (a : MemoryAllocator) (entry start size : ℕ) : Prop :=
  let e := a.memoryEntryPool entry
  -- It is inside the entry and leaves no single byte of it.
  (start + size ≤ e.endAddress + 1 ∧ start + size ≠ e.endAddress ∧ start ≠ e.start + 1) ∨
  -- It starts with the last byte and is longer, which is refused.
  (start = e.endAddress ∧ size ≠ 1) ∨
  -- It needs an entry for what is behind it and there is none, which is refused.
  (e.start < start ∧ start < e.endAddress ∧ start + size ≠ e.endAddress + 1 ∧ a.Full)

instance (a : MemoryAllocator) (entry start size : ℕ) : Decidable (a.TakesSafely entry start size) := by
  unfold TakesSafely
  infer_instance

theorem takeSize_returns (h : size ≤ a.freeSize) : ∃ r, a.takeSize size = some r := by
  rw [takeSize, Checked.sub, if_pos h]
  exact ⟨_, rfl⟩

section Take

variable (h : Rep a (l₁ ++ e :: l₂)) (hsized : Sized a.memoryEntryPool {i | i ∈ l₁ ++ e :: l₂})
  (hcount : size ≤ a.freeSize)
include hsized hcount

theorem takeWhole_returns : ∃ r, a.takeWhole e size = some r := by
  have hsize := hsized.getSize (show e ∈ {i | i ∈ l₁ ++ e :: l₂} by simp)
  have hremove : ∀ first, ∃ r,
      takeWhole.remove e size { a with firstEntry := first } = some r := by
    intro first
    rw [takeWhole.remove, unchainEntry, unchainEntryFromFreeList, hsize]
    exact takeSize_returns hcount
  unfold takeWhole
  dsimp only
  split
  · exact ⟨_, rfl⟩
  · exact hremove _
  · exact hremove a.firstEntry

include h

/-- An entry can be cut down to any two bytes or more. -/
theorem takePart_returns_iff (ht : t + 1 < 2 ^ 64) :
    (∃ r, a.takePart e s t size = some r) ↔ s < t := by
  have he : e ∈ l₁ ++ e :: l₂ := by simp
  rw [takePart, hsized.getSize he]
  simp only [bind, Option.bind_some]
  constructor
  · rintro ⟨r, hr⟩
    obtain ⟨a₁, hset, -⟩ := Option.bind_eq_some_iff.1 hr
    exact (setEntryRange_eq_some hset).1
  · intro hlt
    obtain ⟨a₁, hset⟩ := setEntryRange_returns (a := a) (e := e) hlt
    obtain ⟨a₂, hchain⟩ := h.resize_returns hsized he hset ht
    have hcount₂ : size ≤ a₂.freeSize := by
      rw [chainEntry_counter hchain, setEntryRange_counter hset]
      exact hcount
    obtain ⟨r, hr⟩ := takeSize_returns hcount₂
    refine ⟨r, ?_⟩
    rw [hset, Option.bind_some, hchain, Option.bind_some, hr]

theorem takeLastByte_returns_iff (hend : (a.memoryEntryPool e).endAddress = start) :
    (∃ r, a.takeLastByte e start size = some r) ↔
      size ≠ 1 ∨ (a.memoryEntryPool e).start + 1 < start := by
  have he : e ∈ l₁ ++ e :: l₂ := by simp
  have hbound := (hsized e he).2
  rw [takeLastByte]
  by_cases hone : size = 1
  · rw [if_neg (not_not.2 hone)]
    have hrange := h.chain.range e he
    have hsub : Checked.sub start 1 = some (start - 1) := Checked.sub_eq_some.2 ⟨by omega, rfl⟩
    simp only [bind, hsub, Option.bind_some]
    constructor
    · rintro ⟨r, hr⟩
      obtain ⟨a₁, hset, -⟩ := Option.bind_eq_some_iff.1 hr
      have hlt := (setEntryRange_eq_some hset).1
      omega
    · intro hlt
      have hlt : (a.memoryEntryPool e).start < start - 1 := by omega
      obtain ⟨a₁, hset⟩ := setEntryRange_returns (a := a) (e := e) hlt
      obtain ⟨-, hpool, -⟩ := setEntryRange_spec hset
      have hsized₁ := hsized.setRange hlt (by omega) hpool
      have hold : (a₁.memoryEntryPool e).size + 1 = (a.memoryEntryPool e).size := by
        rw [hpool e, if_pos rfl, MemoryEntry.size, MemoryEntry.size]
        dsimp only
        omega
      have hadd : Checked.add 64 (a₁.memoryEntryPool e).size 1 =
          some (a.memoryEntryPool e).size := by
        rw [Checked.add_eq_some, hold, MemoryEntry.size]
        omega
      obtain ⟨a₂, hchain⟩ := h.resize_returns hsized he hset (by omega)
      have hcount₂ : size ≤ a₂.freeSize := by
        rw [chainEntry_counter hchain, setEntryRange_counter hset]
        exact hcount
      obtain ⟨r, hr⟩ := takeSize_returns hcount₂
      refine ⟨r, ?_⟩
      rw [hset, Option.bind_some, hsized₁.getSize he, Option.bind_some, hadd, Option.bind_some,
        hchain, Option.bind_some, hr]
  · rw [if_pos hone]
    exact ⟨fun _ => .inl hone, fun _ => ⟨_, rfl⟩⟩

omit hcount in
/-- After the cut both entries go to their buckets. -/
theorem cut_returns (hn : n < poolSize) (hdis : (a.memoryEntryPool n).enabled = false) {stop : ℕ}
    (hmid : start ≤ stop) (hcut : Cut a a₁ e n start stop) :
    ∃ a₂ a₃, ({ a₁ with
      memoryEntryPool := chainAfterMe (chainBeforeNext a₁.memoryEntryPool n l₂.head?) e n } :
      MemoryAllocator).chainEntry e (some (a.memoryEntryPool e).size) = some a₂ ∧
      a₂.chainEntry n none = some a₃ ∧ a₃.freeSize = a.freeSize := by
  have he : e ∈ {i | i ∈ l₁ ++ e :: l₂} := by simp
  have hnot := h.chain.not_mem_of_disabled hn hdis
  have hne : n ≠ e := fun hne => hnot (by simp [hne])
  have hlow := hcut.low
  have hhigh := hcut.high
  have hbound := (hsized e he).2
  generalize hP : chainAfterMe (chainBeforeNext a₁.memoryEntryPool n l₂.head?) e n = P
  have hsplit : Split a.memoryEntryPool P e n start stop l₂.head? :=
    h.chain.split rfl hnot hcut.entry hcut.fresh hcut.others hP
  have hsame : SameButChain a₁.memoryEntryPool P := by
    refine (linkAfter_spec _ hne (fun x hx => ?_) ?_ ?_ ?_ hP).1
    · have hx₂ := List.mem_of_head? hx
      have hxn : x ≠ n := fun hxn => hnot (by simp [← hxn, hx₂])
      have hxe : x ≠ e := fun hxe => not_mem_middle h.chain.nodup (by simp [← hxe, hx₂])
      rw [hcut.others x hxe hxn]
      exact ⟨hxn, hxe, (h.chain.valid x (by simp [hx₂])).2⟩
    · rw [hcut.entry]
      exact (h.chain.valid e he).2
    · rw [hcut.fresh]
    · rw [hcut.fresh]
      rfl
  have hmem : ∀ i ∈ l₁ ++ e :: l₂, i ≠ n := fun i hi hin => hnot (hin ▸ hi)
  have hvalid : ValidSlots P {i | i ∈ l₁ ++ e :: l₂} := fun i hi => by
    rw [hsplit.splice.id i (hmem i hi)]
    exact h.chain.valid i hi
  have hsized' : Sized P {i | i ∈ l₁ ++ e :: l₂} := by
    intro i hi
    by_cases hie : i = e
    · rw [hie, hsplit.entry.1, hsplit.entry.2]
      omega
    · rw [(hsplit.others i hie (hmem i hi)).1, (hsplit.others i hie (hmem i hi)).2]
      exact hsized i hi
  have hlinks : ∀ i ∈ {i | i ∈ l₁ ++ e :: l₂}, (P i).listNext = (a.memoryEntryPool i).listNext ∧
      (P i).listPrev = (a.memoryEntryPool i).listPrev := fun i hi => hsplit.lists i (hmem i hi)
  obtain ⟨⟨pool₂, freeList₂⟩, hfile⟩ := h.filed.rechain_returns hvalid hsized' he hlinks
  obtain ⟨B, hB, -⟩ := h.filed
  obtain ⟨B₂, hB₂, hsame₂, -⟩ := (hB.congr hlinks).rechain hvalid he rfl hfile
  obtain ⟨hnext, hprev⟩ := (hB.congr hlinks).rechain_outside hvalid he rfl hfile hnot
  have hfresh : Sized pool₂ {n} := by
    rintro i rfl
    rw [hsame₂.start, hsame₂.endAddress, hsplit.fresh.1, hsplit.fresh.2]
    omega
  obtain ⟨⟨pool₃, freeList₃⟩, hfile₃⟩ := hB₂.chainNew_returns
    (fun i hi => by rw [hsame₂.id]; exact hvalid i hi) (hsized'.sameButLists hsame₂)
    (hfresh.getSize rfl) (by rw [hnext, hsame.listNext, hcut.fresh]; rfl)
    (by rw [hprev, hsame.listPrev, hcut.fresh]; rfl)
  refine ⟨{ a₁ with memoryEntryPool := pool₂, freeList := freeList₂ },
    { a₁ with memoryEntryPool := pool₃, freeList := freeList₃ }, ?_, ?_, hcut.freeSize⟩
  · rw [chainEntry]
    dsimp only
    rw [hcut.freeList, hfile]
    rfl
  · rw [chainEntry]
    dsimp only
    rw [hfile₃]
    rfl

/-- A hole needs an entry for the part behind it, and two bytes on either side. -/
theorem takeMiddle_returns_iff (hpos : 0 < start) (hbound : start + size < 2 ^ 64) :
    (∃ r, a.takeMiddle e start size = some r) ↔
      a.Full ∨ ((a.memoryEntryPool e).start < start - 1 ∧
        start + size < (a.memoryEntryPool e).endAddress) := by
  have he : e ∈ {i | i ∈ l₁ ++ e :: l₂} := by simp
  by_cases hfull : a.Full
  · refine ⟨fun _ => .inl hfull, fun _ => ?_⟩
    rw [takeMiddle, hfull.createMemoryEntry]
    exact ⟨_, rfl⟩
  obtain ⟨n, pool, hcreate⟩ := createMemoryEntry_returns hfull
  obtain ⟨hn, hdis, -⟩ := createMemoryEntry_ok hcreate
  have hnot := h.chain.not_mem_of_disabled hn hdis
  have hne : n ≠ e := fun hne => hnot (by simp [hne])
  have hkept : pool e = a.memoryEntryPool e := by
    rw [(createMemoryEntry_ok hcreate).2.2]
    simp [Ne.symm hne]
  have hstop : Checked.add 64 start size = some (start + size) :=
    Checked.add_eq_some.2 ⟨hbound, rfl⟩
  have hsub : Checked.sub start 1 = some (start - 1) := Checked.sub_eq_some.2 ⟨hpos, rfl⟩
  rw [takeMiddle, hcreate]
  simp only [bind, hkept, hsized.getSize he, hstop, hsub, Option.bind_some]
  constructor
  · rintro ⟨r, hr⟩
    obtain ⟨a₁, hset, hr⟩ := Option.bind_eq_some_iff.1 hr
    obtain ⟨a₂, hcut, -⟩ := Option.bind_eq_some_iff.1 hr
    rw [← hkept] at hset
    obtain ⟨-, hcut⟩ := cut_of_setEntryRange hne hcreate hset hcut
    exact .inr ⟨hcut.low, hcut.high⟩
  · rintro (hfull' | ⟨hlow, hhigh⟩)
    · exact absurd hfull' hfull
    obtain ⟨a₁, hset⟩ := setEntryRange_returns (a := { a with memoryEntryPool := pool }) (e := n) hhigh
    have hsame : a₁.memoryEntryPool e = a.memoryEntryPool e := by
      rw [(setEntryRange_spec hset).2.1, if_neg (Ne.symm hne)]
      exact hkept
    obtain ⟨a₂, hset₂⟩ := setEntryRange_returns (a := a₁) (e := e) hlow
    have hset' := hset
    rw [← hkept] at hset'
    obtain ⟨-, hcut⟩ := cut_of_setEntryRange hne hcreate hset' (by rw [hsame]; exact hset₂)
    obtain ⟨a₃, a₄, hold, hnew, hfree⟩ :=
      cut_returns h hsized hn hdis (Nat.le_add_right start size) hcut
    obtain ⟨r, hr⟩ := takeSize_returns (hfree ▸ hcount)
    have hnext : getNextEntry a₂.memoryEntryPool e = l₂.head? := by
      rw [← h.chain.neighbours.2.2.2, getNextEntry, getNextEntry, hcut.entry]
    refine ⟨r, ?_⟩
    rw [hset, Option.bind_some, hsame, hset₂, Option.bind_some, hnext, hold, Option.bind_some, hnew,
      Option.bind_some, hr]

end Take

/-- A range that starts in an entry can be taken from it, or is refused, exactly where it
leaves no single byte and does not end behind the entry. -/
theorem takeFrom_returns_iff (h : Rep a l) (hsized : Sized a.memoryEntryPool {i | i ∈ l})
    (he : e ∈ l) (hlow : (a.memoryEntryPool e).start ≤ start)
    (hhigh : start ≤ (a.memoryEntryPool e).endAddress) (hpos : 0 < size)
    (hcount : size ≤ a.freeSize) (hbound : start + size < 2 ^ 64) :
    (∃ r, a.takeFrom e start size = some r) ↔ a.TakesSafely e start size := by
  have hend := (hsized e he).2
  have hrange := h.chain.range e he
  have hlast := getEndAddress_returns hpos hbound
  have hstop : Checked.add 64 start size = some (start + size) :=
    Checked.add_eq_some.2 ⟨hbound, rfl⟩
  obtain ⟨l₁, l₂, rfl⟩ := List.append_of_mem he
  rw [takeFrom, TakesSafely]
  simp only [hlast, Option.bind_some]
  by_cases hstart : (a.memoryEntryPool e).start = start
  · rw [if_pos hstart]
    by_cases hwhole : (a.memoryEntryPool e).endAddress = start + size - 1
    · rw [if_pos hwhole]
      refine ⟨fun _ => .inl ⟨by omega, by omega, by omega⟩, fun _ => ?_⟩
      exact takeWhole_returns hsized hcount
    · rw [if_neg hwhole, hstop, Option.bind_some, takePart_returns_iff h hsized hcount hend]
      omega
  · rw [if_neg hstart]
    by_cases hbyte : (a.memoryEntryPool e).endAddress = start
    · rw [if_pos hbyte, takeLastByte_returns_iff h hsized hcount hbyte]
      omega
    · rw [if_neg hbyte]
      by_cases htail : (a.memoryEntryPool e).endAddress = start + size - 1
      · have hsub : Checked.sub start 1 = some (start - 1) :=
          Checked.sub_eq_some.2 ⟨by omega, rfl⟩
        rw [if_pos htail, hsub, Option.bind_some,
          takePart_returns_iff h hsized hcount (by omega)]
        omega
      · rw [if_neg htail, takeMiddle_returns_iff h hsized hcount (by omega) hbound]
        constructor
        · rintro (hfull | ⟨hfront, hback⟩)
          · exact .inr (.inr ⟨by omega, by omega, by omega, hfull⟩)
          · exact .inl ⟨by omega, by omega, by omega⟩
        · rintro (⟨hin, hback, hfront⟩ | ⟨hlastByte, -⟩ | ⟨-, -, -, hfull⟩)
          · exact .inr ⟨by omega, by omega⟩
          · exact absurd hlastByte.symm hbyte
          · exact .inl hfull

/-! ## The calls -/

theorem alignAddressAndAvailableSize_returns (entrySize : ℕ) (hstart : start < 2 ^ 48)
    (horder : alignOrder < 48) :
    ∃ r, alignAddressAndAvailableSize start entrySize alignOrder = some r := by
  unfold alignAddressAndAvailableSize
  split_ifs with hzero
  · exact ⟨_, rfl⟩
  have hpow : 2 ^ alignOrder ≤ 2 ^ 47 := Nat.pow_le_pow_right (by decide) (by omega)
  have hbit : Checked.bit 64 alignOrder = some (2 ^ alignOrder) :=
    Checked.bit_eq_some.2 ⟨by omega, rfl⟩
  have hsub : Checked.sub start 1 = some (start - 1) := Checked.sub_eq_some.2 ⟨by omega, rfl⟩
  have hadd : Checked.add 64 (start - 1 - (start - 1) % 2 ^ alignOrder) (2 ^ alignOrder) =
      some (start - 1 - (start - 1) % 2 ^ alignOrder + 2 ^ alignOrder) :=
    Checked.add_eq_some.2 ⟨by omega, rfl⟩
  simp only [bind, hbit, hsub, hadd, Option.bind_some]
  split_ifs
  · exact ⟨_, rfl⟩
  · exact ⟨_, rfl⟩

theorem visit_returns {i : ℕ} (hsize : (pool i).getSize = some (pool i).size)
    (hstart : (pool i).start < 2 ^ 48) (horder : alignOrder < 48) :
    ∃ found, visit pool size alignOrder i = some found := by
  rw [visit, hsize, Option.bind_some]
  split_ifs
  · obtain ⟨r, hr⟩ := alignAddressAndAvailableSize_returns (pool i).size hstart horder
    rw [hr]
    exact ⟨_, rfl⟩
  · exact ⟨_, rfl⟩
  · exact ⟨_, rfl⟩

theorem visitAll_returns {L : List ℕ}
    (h : ∀ i ∈ L, ∃ found, visit pool size alignOrder i = some found) :
    ∃ found, visitAll pool size alignOrder L = some found := by
  induction L with
  | nil => exact ⟨_, rfl⟩
  | cons i rest ih =>
    obtain ⟨found, hfound⟩ := h i (by simp)
    rw [visitAll, hfound, Option.bind_some]
    cases found with
    | none => exact ih fun j hj => h j (by simp [hj])
    | some found => exact ⟨_, rfl⟩

/-- The first entry that can hold the block, along the buckets from that of its size on. -/
def firstFit (a : MemoryAllocator) (size alignOrder : ℕ) : Option ℕ :=
  (a.candidates size).find? fun i => (a.memoryEntryPool i).CanHold size alignOrder

theorem findSome?_fit_eq (L : List ℕ) : L.findSome? (fit pool size alignOrder) =
    (L.find? fun i => (pool i).CanHold size alignOrder).map fun e =>
      (e, alignUp (pool e).start alignOrder) := by
  induction L with
  | nil => rfl
  | cons i rest ih =>
    rw [List.findSome?_cons, List.find?_cons, fit]
    by_cases hholds : (pool i).CanHold size alignOrder
    · simp [hholds]
    · simp [hholds, ih]

/-- The block can be taken from the first entry that can hold it. -/
def AllocatesSafely (a : MemoryAllocator) (size alignOrder : ℕ) : Prop :=
  size < a.freeSize → ∀ e, a.firstFit size alignOrder = some e →
    a.TakesSafely e (alignUp (a.memoryEntryPool e).start alignOrder) size

/-- The range can be taken from the entry that its start lies in. -/
def ReservesSafely (a : MemoryAllocator) (start size : ℕ) : Prop :=
  0 < size → size ≤ a.freeSize → ∀ e < poolSize, (a.memoryEntryPool e).enabled = true →
    (a.memoryEntryPool e).start ≤ start → start ≤ (a.memoryEntryPool e).endAddress →
      a.TakesSafely e start size

/-- Without an alignment `define_used_memory` takes the range from the entry it is given. -/
theorem defineUsedMemory_eq {target : Option ℕ} (hpos : 0 < size) (hcount : size ≤ a.freeSize) :
    a.defineUsedMemory start size 0 target = a.defineUsedMemoryUnaligned start size target := by
  rw [defineUsedMemory, if_neg (by omega), if_neg (by omega), if_neg (by simp)]

theorem takeFound_eq {address : ℕ} (hpos : 0 < size) (hcount : size ≤ a.freeSize) :
    a.takeFound size (some (e, address)) =
      (a.takeFrom e address size).map fun (r, a) => (r.map fun _ => address, a) := by
  rw [takeFound, defineUsedMemory_eq hpos hcount, defineUsedMemoryUnaligned, if_neg (by omega),
    if_neg (by omega)]

theorem Rep.sized_of_lt (h : Rep a l) (hlow : ∀ x ∈ a.freeBytes, x < 2 ^ 48) :
    Sized a.memoryEntryPool {i | i ∈ l} :=
  h.sized fun x hx => by
    have := hlow x hx
    omega

theorem Rep.allocate_returns_iff (h : Rep a l) (hlow : ∀ x ∈ a.freeBytes, x < 2 ^ 48)
    (hpos : 1 ≤ size) (horder : alignOrder < 48) :
    (∃ r, a.allocate size alignOrder = some r) ↔ a.AllocatesSafely size alignOrder := by
  by_cases hroom : size < a.freeSize
  swap
  · refine ⟨fun _ hroom' => absurd hroom' hroom, fun _ => ?_⟩
    rw [MemoryAllocator.allocate, if_neg (by omega), if_pos (by omega)]
    exact ⟨_, rfl⟩
  have hsized := h.sized_of_lt hlow
  have hmem : ∀ i ∈ a.candidates size, i ∈ l := fun i hi =>
    ((mem_candidates h.chain h.filed).1 hi).1
  have hvisit : ∀ i ∈ a.candidates size,
      ∃ found, visit a.memoryEntryPool size alignOrder i = some found := fun i hi =>
    visit_returns (hsized.getSize (hmem i hi))
      (hlow _ (h.mem_freeBytes (hmem i hi) le_rfl (h.chain.range i (hmem i hi)).le)) horder
  obtain ⟨found, hfound⟩ := visitAll_returns hvisit
  obtain rfl := visitAll_eq hpos (fun i hi => (h.chain.range i (hmem i hi)).le) hfound
  rw [allocate_eq h.chain h.filed hpos hroom, hfound, Option.bind_some, findSome?_fit_eq,
    ← firstFit, AllocatesSafely]
  cases hfit : a.firstFit size alignOrder with
  | none => exact ⟨fun _ _ e he => absurd he (by simp), fun _ => ⟨_, rfl⟩⟩
  | some e =>
    have he := hmem e (List.mem_of_find?_eq_some hfit)
    have hholds : (a.memoryEntryPool e).CanHold size alignOrder := by
      simpa using List.find?_some hfit
    have hend := (canHold_iff _).1 hholds
    have hbound := (hsized e he).2
    have hiff := takeFrom_returns_iff h hsized he (le_alignUp _ alignOrder) (by omega) hpos
      hroom.le (by omega)
    rw [Option.map_some, takeFound_eq hpos hroom.le]
    constructor
    · rintro ⟨r, hr⟩ - e' he'
      obtain rfl := Option.some.inj he'
      obtain ⟨r', hr', -⟩ := Option.map_eq_some_iff.1 hr
      exact hiff.1 ⟨r', hr'⟩
    · intro hsafe
      obtain ⟨r, hr⟩ := hiff.2 (hsafe hroom e rfl)
      rw [hr]
      exact ⟨_, rfl⟩

theorem Chain.searchContainingLoop_returns {first : Option ℕ} (h : Chain pool first l)
    {address fuel c : ℕ} {m rest : List ℕ} (hl : l = m ++ c :: rest) (hfuel : rest.length < fuel) :
    ∃ found, MemoryAllocator.searchContainingLoop pool address fuel c = some found ∧
      ∀ e ∈ c :: rest, (pool e).start ≤ address → address ≤ (pool e).endAddress →
        found = some e := by
  induction fuel generalizing c m rest with
  | zero => omega
  | succ fuel ih =>
    have hrange := h.range c (by simp [hl])
    obtain ⟨-, -, -, hnext⟩ := (hl ▸ h).neighbours
    have hbehind : ∀ i ∈ rest, (pool c).endAddress + 1 < (pool i).start :=
      (hl ▸ h).apart.around.2
    unfold MemoryAllocator.searchContainingLoop
    rw [hnext]
    split_ifs with hbefore hin
    · cases rest with
      | nil =>
        refine ⟨_, rfl, fun e he hlow hhigh => ?_⟩
        obtain rfl : e = c := by simpa using he
        omega
      | cons d rest =>
        obtain ⟨found, hloop, hfound⟩ :=
          ih (show l = (m ++ [c]) ++ d :: rest by simp [hl]) (by simpa using hfuel)
        refine ⟨found, hloop, fun e he hlow hhigh => ?_⟩
        obtain rfl | he := List.mem_cons.1 he
        · omega
        · exact hfound e he hlow hhigh
    · refine ⟨_, rfl, fun e he hlow hhigh => ?_⟩
      obtain rfl | he := List.mem_cons.1 he
      · rfl
      · have := hbehind e he
        omega
    · refine ⟨_, rfl, fun e he hlow hhigh => ?_⟩
      obtain rfl | he := List.mem_cons.1 he
      · exact absurd ⟨hlow, hhigh⟩ hin
      · have := hbehind e he
        omega

theorem Rep.searchEntryContainingAddress_returns (h : Rep a l) (address : ℕ) :
    ∃ found, searchEntryContainingAddress a.memoryEntryPool a.firstEntry address = some found ∧
      ∀ e ∈ l, (a.memoryEntryPool e).start ≤ address →
        address ≤ (a.memoryEntryPool e).endAddress → found = some e := by
  have hlength := h.chain.length_le
  have hfollow : follow a.firstEntry = l.head? := by
    rw [h.chain.first]
    exact follow_eq fun i hi => (h.chain.valid i (List.mem_of_head? hi)).1
  unfold MemoryAllocator.searchEntryContainingAddress
  rw [hfollow]
  cases l with
  | nil => exact ⟨_, rfl, by simp⟩
  | cons c l => exact h.chain.searchContainingLoop_returns (m := []) rfl (by simpa using hlength)

theorem Rep.reserveMemory_returns_iff (h : Rep a l) (hlow : ∀ x ∈ a.freeBytes, x < 2 ^ 48)
    (hbound : start + size ≤ 2 ^ 48) :
    (∃ r, a.reserveMemory start size 0 = some r) ↔ a.ReservesSafely start size := by
  rw [MemoryAllocator.reserveMemory, ReservesSafely]
  by_cases hpos : 0 < size
  swap
  · rw [MemoryAllocator.defineUsedMemory, if_pos (by omega)]
    exact ⟨fun _ hpos' => absurd hpos' hpos, fun _ => ⟨_, rfl⟩⟩
  by_cases hcount : size ≤ a.freeSize
  swap
  · rw [MemoryAllocator.defineUsedMemory, if_neg (by omega), if_pos (by omega)]
    exact ⟨fun _ _ hcount' => absurd hcount' hcount, fun _ => ⟨_, rfl⟩⟩
  have hsized := h.sized_of_lt hlow
  obtain ⟨found, hfound, hmem⟩ := h.searchEntryContainingAddress_returns start
  rw [defineUsedMemory_eq hpos hcount, MemoryAllocator.defineUsedMemoryUnaligned,
    if_neg (by omega), if_neg (by omega)]
  simp only [hfound, Option.bind_some]
  cases found with
  | none =>
    refine ⟨fun _ _ _ e he hen hlo hhi => ?_, fun _ => ⟨_, rfl⟩⟩
    exact absurd (hmem e ((h.chain.enabled e he).1 hen) hlo hhi) (by simp)
  | some e =>
    obtain ⟨he, hlo, hhi⟩ := h.chain.searchEntryContainingAddress hfound
    have hiff := takeFrom_returns_iff h hsized he hlo hhi hpos hcount (by omega)
    constructor
    · intro hr _ _ e' he' hen' hlo' hhi'
      obtain rfl := Option.some.inj (hmem e' ((h.chain.enabled e' he').1 hen') hlo' hhi')
      exact hiff.1 hr
    · intro hsafe
      have hvalid := (h.chain.valid e he).1
      exact hiff.2 (hsafe hpos hcount e hvalid ((h.chain.enabled e hvalid).2 he) hlo hhi)

/-! ## Runs -/

/-- The chain of a state. -/
def entries (a : MemoryAllocator) : List ℕ :=
  DoublyLinked.walk (fun i => (a.memoryEntryPool i).next) poolSize a.firstEntry

theorem Rep.entries_eq (h : Rep a l) : a.entries = l := by
  rw [entries, h.chain.first]
  exact h.chain.linked.walk_eq h.chain.length_le

/-- A freed range is not free already, or lies in one of the ways that are handled. -/
def FreesWell (a : MemoryAllocator) : Call → Prop
  | .free start size => Disjoint (Set.Ico start (start + size)) a.freeBytes ∨ size = 1 ∨
      Handled a start size a.entries
  | _ => True

/-- The representation of a state whose entries end below the last address. -/
def Sound (a : MemoryAllocator) : Prop := (∃ l, Rep a l) ∧ ∀ x ∈ a.freeBytes, x + 1 < 2 ^ 64

/-- A byte that is free already is refused. -/
theorem defines_byte (h : Rep a l) (hbytes : ∀ x ∈ a.freeBytes, x + 1 < 2 ^ 64)
    (hbound : start + 1 < 2 ^ 64)
    (hfree : ¬Disjoint (Set.Ico start (start + 1)) a.freeBytes) : a.DefinesWell start 1 := by
  rw [h.freeBytes_eq] at hfree
  obtain ⟨x, hx, i, hi, hlow, hhigh⟩ := Set.not_disjoint_iff.1 hfree
  obtain rfl : x = start := by
    rw [Set.mem_Ico] at hx
    omega
  obtain ⟨l₁, l₂, rfl⟩ := List.append_of_mem hi
  exact defines_covered hbytes (by decide) hbound h hlow (by omega)

theorem Rep.free_well {r : Reply Unit} (h : Rep a l) (hbytes : ∀ x ∈ a.freeBytes, x + 1 < 2 ^ 64)
    (hwell : a.FreesWell (.free start size)) (hcall : a.free start size = some r) :
    Gave a (Set.Ico start (start + size)) r := by
  by_cases hfree : Disjoint (Set.Ico start (start + size)) a.freeBytes
  · exact h.free hfree hcall
  have hne : l ≠ [] := by
    rintro rfl
    refine hfree ?_
    rw [h.freeBytes_eq]
    exact Set.disjoint_left.2 fun x _ hx => by simp [coveredBy] at hx
  have hpos : size ≠ 0 := by
    rintro rfl
    exact hfree (by simp)
  refine gave_of_define (fun hzero => hne (h.eq_nil hzero)) (fun r hdefine => ?_) hcall
  have hbound := bound_of_define h hne hpos hdefine
  have hdefines : a.DefinesWell start size := by
    obtain hfree' | rfl | hhandled := hwell
    · exact absurd hfree' hfree
    · exact defines_byte h hbytes hbound hfree
    · by_cases hone : size = 1
      · obtain rfl := hone
        exact defines_byte h hbytes hbound hfree
      · rw [h.entries_eq] at hhandled
        exact hhandled.defines h hne hbytes (by omega) hbound
  obtain ⟨r', hdefine', hgave, -⟩ := hdefines
  obtain rfl := Option.some.inj (hdefine.symm.trans hdefine')
  exact hgave

theorem Rep.bound_of_free (h : Rep a l) (hcall : a.free start size = some (.ok (), a')) :
    start + size < 2 ^ 64 := by
  unfold MemoryAllocator.free at hcall
  split_ifs at hcall with hzero
  · split at hcall
    · exact absurd hcall (by simp [fail])
    simp only [bind, Option.bind_eq_some_iff] at hcall
    obtain ⟨last, hlast, -⟩ := hcall
    obtain ⟨s, hs, -⟩ := Option.bind_eq_some_iff.1 hlast
    exact (Checked.add_eq_some.1 hs).1
  · obtain ⟨⟨result, a₁⟩, hdefine, hcall⟩ := Option.bind_eq_some_iff.1 hcall
    refine bound_of_define h (fun hnil => hzero (h.empty hnil)) ?_ hdefine
    rintro rfl
    rw [show poolSize = 63 + 1 from rfl, MemoryAllocator.defineFreeMemory, if_pos rfl] at hdefine
    obtain ⟨rfl, rfl⟩ := Prod.mk.injEq .. ▸ Option.some.inj hdefine
    exact absurd hcall (by simp [fail])

theorem SpecStep.subset {F F' : Set ℕ} {c : Call} {r : CallResult} (h : SpecStep F c r F')
    (hc : ∀ start size, c ≠ .free start size) : F' ⊆ F := by
  cases h with
  | failed c e => exact Set.Subset.rfl
  | freed start size => exact absurd rfl (hc start size)
  | allocated hfree haligned => exact Set.sdiff_subset
  | reserved hfree => exact Set.sdiff_subset

theorem Sound.call {c : Call} (h : Sound a) (hguard : a.FreesWell c) (hstep : CallStep a c a') :
    Sound a' := by
  obtain ⟨⟨l, hrep⟩, hbytes⟩ := h
  obtain ⟨⟨result, b⟩, hcall, rfl⟩ := Option.map_eq_some_iff.1 hstep
  cases c with
  | free start size =>
    obtain ⟨⟨r, a₁⟩, hfree, heq⟩ := Option.map_eq_some_iff.1 hcall
    obtain ⟨-, rfl⟩ := Prod.mk.injEq .. ▸ heq
    have hgave := hrep.free_well hbytes hguard hfree
    cases r with
    | error e =>
      obtain rfl : a₁ = a := hgave
      exact ⟨⟨l, hrep⟩, hbytes⟩
    | ok u =>
      obtain ⟨hunion, l', -, hrep'⟩ := hgave
      have hbound := hrep.bound_of_free hfree
      refine ⟨⟨l', hrep'⟩, fun x hx => ?_⟩
      obtain hx | hx := hunion ▸ hx
      · exact hbytes x hx
      · have := hx.2
        omega
  | allocate size alignOrder =>
    obtain ⟨hrep', hspec⟩ := hrep.call (c := .allocate size alignOrder) trivial hcall
    exact ⟨hrep', fun x hx => hbytes x (hspec.subset (by simp) hx)⟩
  | reserveMemory startAddress size alignOrder =>
    obtain ⟨hrep', hspec⟩ := hrep.call (c := .reserveMemory startAddress size alignOrder) trivial hcall
    exact ⟨hrep', fun x hx => hbytes x (hspec.subset (by simp) hx)⟩

theorem sound_of_run (hrun : Runs.GuardedRun CallStep FreesWell new a) : Sound a := by
  refine hrun.invariant (fun b c b' hsound hguard hstep => hsound.call hguard hstep) ?_
  refine ⟨⟨[], rep_new⟩, fun x hx => ?_⟩
  rw [freeBytes_new] at hx
  exact absurd hx (Set.notMem_empty x)

/-- In every state of a run whose memory is below `2 ^ 48`, an allocation returns if and only
if its block can be taken from the first entry that can hold it, and a reservation if and
only if its range can be taken from the entry that it starts in. -/
theorem returns_iff_of_run (hrun : Runs.GuardedRun CallStep FreesWell new a)
    (hlow : ∀ x ∈ a.freeBytes, x < 2 ^ 48) :
    (∀ size alignOrder, 1 ≤ size → alignOrder < 48 →
      ((∃ r, a.allocate size alignOrder = some r) ↔ a.AllocatesSafely size alignOrder)) ∧
    ∀ start size, start + size ≤ 2 ^ 48 →
      ((∃ r, a.reserveMemory start size 0 = some r) ↔ a.ReservesSafely start size) := by
  obtain ⟨⟨l, hrep⟩, -⟩ := sound_of_run hrun
  exact ⟨fun size alignOrder hpos horder => hrep.allocate_returns_iff hlow hpos horder,
    fun start size hbound => hrep.reserveMemory_returns_iff hlow hbound⟩

/-- A run that makes one page free. -/
theorem freedPage : ∃ a, new.afterCall (.free 0x1000 0x1000) = some a ∧
    Runs.GuardedRun CallStep FreesTaken new a ∧ Runs.GuardedRun CallStep FreesWell new a ∧
    a.freeBytes = Set.Ico 0x1000 0x2000 := by
  obtain ⟨⟨result, a⟩, hfree, rfl⟩ := Option.map_eq_some_iff.1
    (rfl : (new.free 0x1000 0x1000).map Prod.fst = some (.ok ()))
  have htaken : new.FreesTaken (.free 0x1000 0x1000) := freesTaken_new _ _
  have hwell : new.FreesWell (.free 0x1000 0x1000) := Or.inl htaken
  have hcall : new.afterCall (.free 0x1000 0x1000) = some a := by
    rw [afterCall, call, hfree]
    rfl
  refine ⟨a, hcall, (Runs.GuardedRun.refl new).snoc htaken hcall,
    (Runs.GuardedRun.refl new).snoc hwell hcall, ?_⟩
  obtain ⟨hbytes, -⟩ := rep_new.free htaken hfree
  rw [hbytes, freeBytes_new, Set.empty_union]

/-- Half of a free page is allocated. -/
theorem sample_returns_iff : ∃ a, Runs.GuardedRun CallStep FreesWell new a ∧
    a.AllocatesSafely 0x800 11 := by
  obtain ⟨a, hcall, -, hrun, hbytes⟩ := freedPage
  have heval : ((new.afterCall (.free 0x1000 0x1000)).bind fun a =>
      a.allocate 0x800 11).isSome = true := rfl
  rw [hcall, Option.bind_some] at heval
  have hlow : ∀ x ∈ a.freeBytes, x < 2 ^ 48 := fun x hx => by
    rw [hbytes] at hx
    have := hx.2
    omega
  exact ⟨a, hrun, ((returns_iff_of_run hrun hlow).1 0x800 11 (by decide) (by decide)).1
    (Option.isSome_iff_exists.1 heval)⟩

/-- All but the last byte of a free page: the entry that is left would have one byte. -/
theorem last_byte_left_panics : ∃ a, Runs.GuardedRun CallStep FreesTaken new a ∧
    (∀ x ∈ a.freeBytes, x < 2 ^ 48) ∧ a.allocate 0xfff 0 = none := by
  obtain ⟨a, hcall, hrun, -, hbytes⟩ := freedPage
  have heval : ((new.afterCall (.free 0x1000 0x1000)).bind fun a => a.allocate 0xfff 0) = none := rfl
  rw [hcall, Option.bind_some] at heval
  refine ⟨a, hrun, fun x hx => ?_, heval⟩
  rw [hbytes] at hx
  have := hx.2
  omega

end MemoryAllocator

end MiniVisor
