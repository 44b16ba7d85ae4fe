import MiniVisor.AllocatorPanics

/-!
# The global allocator

`GlobalAlloc::alloc` hands the alignment of a layout to `allocate`, which takes the order
of an alignment. Up to 32 bytes this asks for more than the layout does. From 64 bytes on
the shift by the alignment overflows, and only an entry at address 0, for which no shift
is computed, is taken.
-/
namespace MiniVisor

/-- A layout of `alloc::alloc`, whose alignment is a power of two. -/
structure Layout where
  size : ℕ
  align : ℕ
  align_eq : ∃ k ≤ 63, align = 2 ^ k

theorem Layout.align_lt {layout : Layout} (h : layout.align < 64) : layout.align < 48 := by
  obtain ⟨k, -, hk⟩ := layout.align_eq
  rw [hk] at h ⊢
  have hk6 : k < 6 := (Nat.pow_lt_pow_iff_right (by decide : 1 < 2)).1 (by simpa using h)
  have hpow : 2 ^ k ≤ 2 ^ 5 := Nat.pow_le_pow_right (by decide) (by omega)
  omega

/-- An alignment divides the one that it is the order of. -/
theorem Layout.align_dvd (layout : Layout) : layout.align ∣ 2 ^ layout.align := by
  obtain ⟨k, -, hk⟩ := layout.align_eq
  rw [hk]
  exact Nat.pow_dvd_pow 2 Nat.lt_two_pow_self.le

namespace MemoryAllocator

variable {a a' : MemoryAllocator} {pool : MemoryEntryPool} {l : List ℕ} {e size alignOrder : ℕ}

/-- The address of `GlobalAlloc::alloc`, with 0 for the null pointer. -/
def alloc (a : MemoryAllocator) (layout : Layout) : Option (ℕ × MemoryAllocator) :=
  (a.allocate layout.size layout.align).map fun (r, a) =>
    match r with
    | .ok address => (address, a)
    | .error _ => (0, a)

/-- `alloc` returns null or an aligned address with as many bytes as the layout asks for. -/
def Honours (a : MemoryAllocator) (layout : Layout) : Prop :=
  ∃ p a', a.alloc layout = some (p, a') ∧
    (p = 0 ∨ layout.align ∣ p ∧ Set.Ico p (p + layout.size) ⊆ a.freeBytes)

/-- The first entry of the buckets with as many bytes, if any, starts at address 0 and the
block can be taken from its front. -/
def AllocatesAtZero (a : MemoryAllocator) (size : ℕ) : Prop :=
  size < a.freeSize → ∀ e,
    ((a.candidates size).find? fun i => size ≤ (a.memoryEntryPool i).size) = some e →
      (a.memoryEntryPool e).start = 0 ∧ a.TakesSafely e 0 size

/-- The layouts that can be honoured in a state. -/
def AllocSafely (a : MemoryAllocator) (layout : Layout) : Prop :=
  if layout.align < 64 then a.AllocatesSafely layout.size layout.align
  else a.AllocatesAtZero layout.size

/-- A layout is honoured as soon as `alloc` returns. -/
theorem Rep.honours_iff (h : Rep a l) (layout : Layout) :
    a.Honours layout ↔ ∃ r, a.allocate layout.size layout.align = some r := by
  constructor
  · rintro ⟨p, a', hcall, -⟩
    obtain ⟨r, hr, -⟩ := Option.map_eq_some_iff.1 hcall
    exact ⟨r, hr⟩
  · rintro ⟨⟨r, a'⟩, hcall⟩
    have htook := h.allocate hcall
    rw [Honours, alloc, hcall]
    cases r with
    | error err => exact ⟨0, a', rfl, .inl rfl⟩
    | ok address =>
      obtain ⟨hdvd, hfree, -⟩ := htook
      exact ⟨address, a', rfl, .inr ⟨layout.align_dvd.trans hdvd, hfree⟩⟩

/-! ## Shifts by 64 and more -/

theorem visit_overflow {i : ℕ} (hsize : (pool i).getSize = some (pool i).size)
    (horder : 64 ≤ alignOrder) :
    visit pool size alignOrder i =
      if size ≤ (pool i).size then
        if (pool i).start = 0 then some (some (i, 0)) else none
      else some none := by
  have hbit : Checked.bit 64 alignOrder = none := if_neg (by omega)
  rw [visit, hsize, Option.bind_some]
  split_ifs with hfits horder' hzero hzero
  · rw [alignAddressAndAvailableSize, if_pos hzero, Option.map_some]
    simp [not_lt.2 hfits]
  · rw [alignAddressAndAvailableSize, if_neg hzero, hbit]
    rfl
  · omega
  · omega
  · rfl

theorem visitAll_overflow {L : List ℕ} (horder : 64 ≤ alignOrder)
    (hsize : ∀ i ∈ L, (pool i).getSize = some (pool i).size) :
    visitAll pool size alignOrder L =
      ((L.find? fun i => size ≤ (pool i).size).elim (some none) fun e =>
        if (pool e).start = 0 then some (some (e, 0)) else none) := by
  induction L with
  | nil => rfl
  | cons i rest ih =>
    rw [visitAll, visit_overflow (hsize i (by simp)) horder, List.find?_cons]
    by_cases hfits : size ≤ (pool i).size
    · by_cases hzero : (pool i).start = 0
      · simp [hfits, hzero]
      · simp [hfits, hzero]
    · simp only [hfits, if_false, Option.bind_some, Option.elim_none, decide_false]
      exact ih fun j hj => hsize j (by simp [hj])

theorem Rep.allocate_overflow_iff (h : Rep a l) (hlow : ∀ x ∈ a.freeBytes, x < 2 ^ 48)
    (hpos : 1 ≤ size) (horder : 64 ≤ alignOrder) :
    (∃ r, a.allocate size alignOrder = some r) ↔ a.AllocatesAtZero size := by
  by_cases hroom : size < a.freeSize
  swap
  · refine ⟨fun _ hroom' => absurd hroom' hroom, fun _ => ?_⟩
    rw [MemoryAllocator.allocate, if_neg (by omega), if_pos (by omega)]
    exact ⟨_, rfl⟩
  have hsized := h.sized_of_lt hlow
  have hmem : ∀ i ∈ a.candidates size, i ∈ l := fun i hi =>
    ((mem_candidates h.chain h.filed).1 hi).1
  rw [allocate_eq h.chain h.filed hpos hroom,
    visitAll_overflow horder fun i hi => hsized.getSize (hmem i hi), AllocatesAtZero]
  cases hfind : (a.candidates size).find? fun i => size ≤ (a.memoryEntryPool i).size with
  | none => exact ⟨fun _ _ e he => absurd he (by simp), fun _ => ⟨_, rfl⟩⟩
  | some e =>
    have he := hmem e (List.mem_of_find?_eq_some hfind)
    have hfits : size ≤ (a.memoryEntryPool e).size := by simpa using List.find?_some hfind
    have hbound := (hsized e he).2
    rw [Option.elim_some]
    by_cases hzero : (a.memoryEntryPool e).start = 0
    · rw [MemoryEntry.size] at hfits
      have hiff := takeFrom_returns_iff h hsized he hzero.le (Nat.zero_le _) hpos hroom.le
        (by omega)
      rw [if_pos hzero, Option.bind_some, takeFound_eq hpos hroom.le]
      constructor
      · rintro ⟨r, hr⟩ - e' he'
        obtain rfl := Option.some.inj he'
        obtain ⟨r', hr', -⟩ := Option.map_eq_some_iff.1 hr
        exact ⟨hzero, hiff.1 ⟨r', hr'⟩⟩
      · intro hsafe
        obtain ⟨r, hr⟩ := hiff.2 (hsafe hroom e rfl).2
        rw [hr]
        exact ⟨_, rfl⟩
    · rw [if_neg hzero]
      constructor
      · rintro ⟨r, hr⟩
        exact absurd hr (by simp)
      · intro hsafe
        exact absurd (hsafe hroom e rfl).1 hzero

/-- In every state of a run whose memory is below `2 ^ 48`, a layout is honoured if and only
if the block can be taken from the entry that the search ends at, which from an alignment of
64 bytes on has to be an entry at address 0. -/
theorem honours_iff_of_run (hrun : Runs.GuardedRun CallStep FreesWell new a)
    (hlow : ∀ x ∈ a.freeBytes, x < 2 ^ 48) (layout : Layout) (hpos : 1 ≤ layout.size) :
    a.Honours layout ↔ a.AllocSafely layout := by
  obtain ⟨⟨l, hrep⟩, -⟩ := sound_of_run hrun
  rw [hrep.honours_iff, AllocSafely]
  split_ifs with halign
  · exact hrep.allocate_returns_iff hlow hpos (Layout.align_lt halign)
  · exact hrep.allocate_overflow_iff hlow hpos (by omega)

/-- A block of 32 bytes at a multiple of 8, out of a free page. -/
theorem sample_honours : ∃ a, Runs.GuardedRun CallStep FreesWell new a ∧
    a.Honours ⟨32, 8, 3, by decide, rfl⟩ := by
  obtain ⟨a, hcall, -, hrun, hbytes⟩ := freedPage
  have heval : (new.afterCall (.free 0x1000 0x1000)).map (fun a =>
      (a.firstFit 32 8, (a.memoryEntryPool 0).start, (a.memoryEntryPool 0).endAddress)) =
      some (some 0, 0x1000, 0x1fff) := by decide +kernel
  rw [hcall] at heval
  simp only [Option.map_some, Option.some.injEq, Prod.mk.injEq] at heval
  obtain ⟨hfit, hstart, hend⟩ := heval
  have hlow : ∀ x ∈ a.freeBytes, x < 2 ^ 48 := fun x hx => by
    rw [hbytes] at hx
    have := hx.2
    omega
  refine ⟨a, hrun, (honours_iff_of_run hrun hlow _ (by decide)).2 ?_⟩
  rw [AllocSafely, if_pos (by decide)]
  intro _ e he
  obtain rfl := Option.some.inj (hfit.symm.trans he)
  refine .inl ?_
  rw [hstart, hend]
  decide

/-- A layout that is aligned to a cache line: the shift by 64 overflows. -/
theorem cacheLine_not_honoured : ∃ a, Runs.GuardedRun CallStep FreesTaken new a ∧
    (∀ x ∈ a.freeBytes, x < 2 ^ 48) ∧ ¬a.Honours ⟨64, 64, 6, by decide, rfl⟩ := by
  obtain ⟨a, hcall, hrun, -, hbytes⟩ := freedPage
  have heval : ((new.afterCall (.free 0x1000 0x1000)).bind fun a => a.allocate 64 64) = none := rfl
  rw [hcall, Option.bind_some] at heval
  refine ⟨a, hrun, fun x hx => ?_, ?_⟩
  · rw [hbytes] at hx
    have := hx.2
    omega
  · rintro ⟨p, a', halloc, -⟩
    rw [alloc, heval] at halloc
    exact absurd halloc (by simp)

end MemoryAllocator

end MiniVisor
