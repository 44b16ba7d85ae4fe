import MiniVisor.PagingRuns

/-!
# What `Ok` of `map_address_stage2` means

The loops stop when the size is used up or when a table ends, and the index into the root
tables is masked, so `Ok` alone does not say that the range was mapped. It was mapped
exactly if it ends inside the input address space and its target below `2 ^ 48`.

The only size for which `*remaining_size` underflows is zero: the loop of level 3 subtracts
a page before it compares.
-/
namespace MiniVisor

namespace Paging

open RadixTree

variable {own : Owner} {s s' : MapState} {base depth r₀ num x : ℕ} {p : BitVec 64}

/-! ## The subtractions that a call reaches -/

/-- `*remaining_size -= size` is reached with less than `size` left. -/
def MapState.SizeUnderflow (s : MapState) (size : ℕ) : Prop :=
  s.physicalAddress + size < 2 ^ 64 ∧ s.intermediatePhysicalAddress + size < 2 ^ 64 ∧
    s.remainingSize < size

/-- A subtraction of `mapPages` underflows. -/
def pagesUnderflow (permission : BitVec 64) : ℕ → ℕ → MapState → Prop
  | 0, _, _ => False
  | n + 1, descriptor, s => s.SizeUnderflow pageSize ∨
    ∃ s', s.put descriptor (.page s.physicalAddress permission) pageSize = some s' ∧
      s'.remainingSize ≠ 0 ∧ pagesUnderflow permission n (descriptor + 8) s'

/-- A subtraction of `mapEntries` underflows; `below` says it for a table of the next level. -/
def entriesUnderflow (permission : BitVec 64) (depth : ℕ) (next : ℕ → MapState → Option MapResult)
    (below : ℕ → MapState → Prop) : ℕ → ℕ → MapState → Prop
  | 0, _, _ => False
  | n + 1, descriptor, s =>
    let blockSize := 1 <<< (12 + 9 * depth)
    let mask := blockSize - 1
    if depth ≤ 2 ∧ blockSize ≤ s.remainingSize ∧ s.physicalAddress &&& mask = 0 ∧
        s.intermediatePhysicalAddress &&& mask = 0 then
      s.SizeUnderflow blockSize ∨
        ∃ s', s.put descriptor (.block s.physicalAddress permission) blockSize = some s' ∧
          s'.remainingSize ≠ 0 ∧
            entriesUnderflow permission depth next below n (descriptor + 8) s'
    else
      ∃ table s', nextLevelTable s descriptor = .ok (table, s') ∧
        (below table s' ∨ ∃ s'', next table s' = some (.ok s'') ∧ s''.remainingSize ≠ 0 ∧
          entriesUnderflow permission depth next below n (descriptor + 8) s'')

/-- A subtraction of `_map_address_stage2` underflows. -/
def levelUnderflow (permission : BitVec 64) : ℕ → ℕ → ℕ → MapState → Prop
  | 0, tableAddress, numOfDescriptors, s =>
    let index := (s.intermediatePhysicalAddress >>> 12) &&& (numOfDescriptors - 1)
    pagesUnderflow permission (numOfDescriptors - index) (tableAddress + 8 * index) s
  | depth + 1, tableAddress, numOfDescriptors, s =>
    let index := (s.intermediatePhysicalAddress >>> (12 + 9 * (depth + 1))) &&&
      (numOfDescriptors - 1)
    entriesUnderflow permission (depth + 1) (fun table s => mapLevel permission depth table 512 s)
      (fun table s => levelUnderflow permission depth table 512 s)
      (numOfDescriptors - index) (tableAddress + 8 * index) s

/-! ## Sizes above zero -/

/-- Whole pages are left, and at least one. -/
def MapState.PagesLeft (s : MapState) : Prop := s.remainingSize % 4096 = 0 ∧ 0 < s.remainingSize

theorem put_pages {d : Descriptor} {a k : ℕ} (h : s.remainingSize % 4096 = 0)
    (hput : s.put a d (4096 * k) = some s') : s'.remainingSize % 4096 = 0 := by
  obtain ⟨rfl, hle⟩ := put_eq_some hput
  dsimp only
  omega

theorem blockSize_eq (depth : ℕ) : 1 <<< (12 + 9 * depth) = 4096 * 2 ^ (9 * depth) := by
  rw [Nat.one_shiftLeft, pow_add]
  norm_num

theorem mapPages_pages {n a : ℕ} (h : s.remainingSize % 4096 = 0)
    (hmap : mapPages p n a s = some s') : s'.remainingSize % 4096 = 0 := by
  induction n generalizing a s with
  | zero =>
    obtain rfl := Option.some.inj hmap
    exact h
  | succ n ih =>
    obtain ⟨s₁, hput, hmap⟩ := Option.bind_eq_some_iff.1 hmap
    have h₁ : s₁.remainingSize % 4096 = 0 := put_pages (k := 1) h hput
    split_ifs at hmap with hzero
    · obtain rfl := Option.some.inj hmap
      exact h₁
    · exact ih h₁ hmap

theorem nextLevelTable_size {a q : ℕ} (h : nextLevelTable s a = .ok (q, s')) :
    s'.remainingSize = s.remainingSize := by
  unfold nextLevelTable at h
  split_ifs at h with htable
  · obtain ⟨-, rfl⟩ := Prod.mk.injEq .. ▸ Except.ok.inj h
    rfl
  · split at h
    · exact absurd h (by simp)
    · obtain ⟨-, rfl⟩ := Prod.mk.injEq .. ▸ Except.ok.inj h
      rfl

theorem mapEntries_pages {next : ℕ → MapState → Option MapResult} {n a : ℕ}
    (hnext : ∀ {q : ℕ} {s s' : MapState}, s.remainingSize % 4096 = 0 →
      next q s = some (.ok s') → s'.remainingSize % 4096 = 0)
    (h : s.remainingSize % 4096 = 0) (hmap : mapEntries p depth next n a s = some (.ok s')) :
    s'.remainingSize % 4096 = 0 := by
  induction n generalizing a s with
  | zero =>
    obtain rfl := Except.ok.inj (Option.some.inj hmap)
    exact h
  | succ n ih =>
    have hgo : ∀ {s₁ : MapState}, s₁.remainingSize % 4096 = 0 →
        (if s₁.remainingSize = 0 then some (.ok s₁)
          else mapEntries p depth next n (a + 8) s₁) = some (.ok s') →
        s'.remainingSize % 4096 = 0 := by
      intro s₁ h₁ hmap
      split_ifs at hmap with hzero
      · obtain rfl := Except.ok.inj (Option.some.inj hmap)
        exact h₁
      · exact ih h₁ hmap
    unfold mapEntries at hmap
    dsimp only at hmap
    split_ifs at hmap with hblock
    · obtain ⟨s₁, hput, hmap⟩ := Option.bind_eq_some_iff.1 hmap
      rw [blockSize_eq] at hput
      exact hgo (put_pages h hput) hmap
    · split at hmap
      · exact absurd hmap (by simp)
      rename_i q s₁ htable
      obtain ⟨result, hbelow, hmap⟩ := Option.bind_eq_some_iff.1 hmap
      cases result with
      | error s₂ => exact absurd hmap (by simp)
      | ok s₂ => exact hgo (hnext (by rw [nextLevelTable_size htable]; exact h) hbelow) hmap

theorem mapLevel_pages (h : s.remainingSize % 4096 = 0)
    (hmap : mapLevel p depth base num s = some (.ok s')) : s'.remainingSize % 4096 = 0 := by
  induction depth generalizing s s' base num with
  | zero =>
    obtain ⟨s₁, hpages, heq⟩ := Option.map_eq_some_iff.1 hmap
    obtain rfl := Except.ok.inj heq
    exact mapPages_pages h hpages
  | succ depth ih => exact mapEntries_pages (fun h hmap => ih h hmap) h hmap

theorem not_pagesUnderflow {n a : ℕ} (h : s.PagesLeft) : ¬pagesUnderflow p n a s := by
  induction n generalizing a s with
  | zero => exact id
  | succ n ih =>
    obtain ⟨hmod, hpos⟩ := h
    rintro (⟨-, -, hless⟩ | ⟨s', hput, hne, hrest⟩)
    · have hpage : pageSize = 4096 := rfl
      omega
    · exact ih ⟨put_pages (k := 1) hmod hput, Nat.pos_of_ne_zero hne⟩ hrest

theorem not_entriesUnderflow {next : ℕ → MapState → Option MapResult} {below : ℕ → MapState → Prop}
    {n a : ℕ} (hnext : ∀ {q : ℕ} {s s' : MapState}, s.remainingSize % 4096 = 0 →
      next q s = some (.ok s') → s'.remainingSize % 4096 = 0)
    (hbelow : ∀ q (s : MapState), s.PagesLeft → ¬below q s) (h : s.PagesLeft) :
    ¬entriesUnderflow p depth next below n a s := by
  induction n generalizing a s with
  | zero => exact id
  | succ n ih =>
    obtain ⟨hmod, hpos⟩ := h
    unfold entriesUnderflow
    dsimp only
    split_ifs with hblock
    · rintro (⟨-, -, hless⟩ | ⟨s', hput, hne, hrest⟩)
      · exact absurd hblock.2.1 (not_le.2 hless)
      · rw [blockSize_eq] at hput
        exact ih ⟨put_pages hmod hput, Nat.pos_of_ne_zero hne⟩ hrest
    · rintro ⟨q, s₁, htable, hunder⟩
      have hsize := nextLevelTable_size htable
      obtain hunder | ⟨s₂, hmap, hne, hrest⟩ := hunder
      · exact hbelow q s₁ ⟨by omega, by omega⟩ hunder
      · exact ih ⟨hnext (by omega) hmap, Nat.pos_of_ne_zero hne⟩ hrest

theorem not_levelUnderflow (h : s.PagesLeft) : ¬levelUnderflow p depth base num s := by
  induction depth generalizing s base num with
  | zero => exact not_pagesUnderflow h
  | succ depth ih =>
    exact not_entriesUnderflow (fun h hmap => mapLevel_pages h hmap) (fun _ _ h => ih h) h

/-! ## Size zero -/

/-- How many tables the walk to the page of an address lacks, from the descriptor at `a` on. -/
def missingTables (memory : Memory) : ℕ → ℕ → ℕ → ℕ
  | 0, _, _ => 0
  | depth + 1, a, x =>
    if (memory a).isTableDescriptor then
      missingTables memory depth ((memory a).getNextLevelTableAddress +
        8 * ((x >>> (12 + 9 * depth)) &&& (512 - 1))) x
    else depth + 1

theorem missingTables_new {memory : Memory} {a : ℕ} (h : memory a = .new) :
    missingTables memory depth a x = depth := by
  cases depth with
  | zero => rfl
  | succ depth =>
    have hnot : (memory a).isTableDescriptor = false := by
      rw [h]
      decide
    rw [missingTables, hnot]
    rfl

/-- Both addresses can move on by a page. -/
def MapState.CanMove (s : MapState) : Prop :=
  s.physicalAddress + pageSize < 2 ^ 64 ∧ s.intermediatePhysicalAddress + pageSize < 2 ^ 64

theorem mapPages_zero {n a : ℕ} (h : s.remainingSize = 0) : mapPages p (n + 1) a s = none := by
  rw [mapPages, Option.bind_eq_none_iff]
  intro s₁ hput
  have hle := (put_eq_some hput).2
  have hpage : pageSize = 4096 := rfl
  omega

/-- The descriptor of an address is one of the table. -/
theorem exists_descriptors (x : ℕ) (hnum : 0 < num) :
    ∃ n, num - (x &&& (num - 1)) = n + 1 := by
  have hle : x &&& (num - 1) ≤ num - 1 := Nat.and_le_right
  exact ⟨num - (x &&& (num - 1)) - 1, by omega⟩

theorem not_block_zero (h : s.remainingSize = 0) (depth : ℕ) {q : Prop} :
    ¬(depth ≤ 2 ∧ 1 <<< (12 + 9 * depth) ≤ s.remainingSize ∧ q) := by
  rintro ⟨-, hle, -⟩
  have hpos : 0 < 1 <<< (12 + 9 * depth) := by
    rw [Nat.one_shiftLeft]
    positivity
  omega

/-- A call for size zero does not return `Ok`. -/
theorem mapLevel_zero (h : s.remainingSize = 0) (hnum : 0 < num) :
    mapLevel p depth base num s ≠ some (.ok s') := by
  induction depth generalizing s s' base num with
  | zero =>
    obtain ⟨n, hn⟩ := exists_descriptors (s.intermediatePhysicalAddress >>> 12) hnum
    rw [mapLevel, hn, mapPages_zero h]
    simp
  | succ depth ih =>
    obtain ⟨n, hn⟩ := exists_descriptors
      (s.intermediatePhysicalAddress >>> (12 + 9 * (depth + 1))) hnum
    rw [mapLevel, hn, mapEntries, if_neg (not_block_zero h _)]
    intro hmap
    split at hmap
    · exact absurd hmap (by simp)
    rename_i q s₁ htable
    obtain ⟨result, hbelow, hmap⟩ := Option.bind_eq_some_iff.1 hmap
    cases result with
    | error s₂ => exact absurd hmap (by simp)
    | ok s₂ => exact ih ((nextLevelTable_size htable).trans h) (by decide) hbelow

/-- The call goes down to level 3, creating the tables on the way, and underflows there. -/
theorem levelUnderflow_zero_iff (hgood : Good own s) (hslots : Slots own depth base r₀ num)
    (hnum : 0 < num) (h : s.remainingSize = 0) :
    levelUnderflow p depth base num s ↔
      missingTables s.memory depth
        (base + 8 * ((s.intermediatePhysicalAddress >>> (12 + 9 * depth)) &&& (num - 1)))
        s.intermediatePhysicalAddress ≤ s.pages.length ∧ s.CanMove := by
  induction depth generalizing own s base r₀ num with
  | zero =>
    obtain ⟨n, hn⟩ := exists_descriptors (s.intermediatePhysicalAddress >>> 12) hnum
    rw [levelUnderflow, hn, pagesUnderflow, missingTables]
    have hpage : pageSize = 4096 := rfl
    constructor
    · rintro (⟨hpa, hipa, -⟩ | ⟨s', hput, -⟩)
      · exact ⟨Nat.zero_le _, hpa, hipa⟩
      · have hle := (put_eq_some hput).2
        omega
    · rintro ⟨-, hpa, hipa⟩
      exact .inl ⟨hpa, hipa, by omega⟩
  | succ depth ih =>
    obtain ⟨n, hn⟩ := exists_descriptors
      (s.intermediatePhysicalAddress >>> (12 + 9 * (depth + 1))) hnum
    have hown := hslots _ (by omega :
      (s.intermediatePhysicalAddress >>> (12 + 9 * (depth + 1))) &&& (num - 1) < num)
    rw [levelUnderflow, hn, entriesUnderflow, if_neg (not_block_zero h _)]
    generalize (s.intermediatePhysicalAddress >>> (12 + 9 * (depth + 1))) &&& (num - 1) = i at *
    generalize hcell : base + 8 * i = a at *
    -- the table of the next level does not return with `Ok` either
    have hstep : (∃ q s₁, nextLevelTable s a = .ok (q, s₁) ∧ (levelUnderflow p depth q 512 s₁ ∨
        ∃ s₂, mapLevel p depth q 512 s₁ = some (.ok s₂) ∧ s₂.remainingSize ≠ 0 ∧
          entriesUnderflow p (depth + 1) (fun table s => mapLevel p depth table 512 s)
            (fun table s => levelUnderflow p depth table 512 s) n (a + 8) s₂)) ↔
        ∃ q s₁, nextLevelTable s a = .ok (q, s₁) ∧ levelUnderflow p depth q 512 s₁ := by
      refine exists_congr fun q => exists_congr fun s₁ => and_congr_right fun htable => ?_
      refine or_iff_left ?_
      rintro ⟨s₂, hmap, -⟩
      exact mapLevel_zero ((nextLevelTable_size htable).trans h) (by decide) hmap
    rw [hstep]
    have hlo : layout.region (depth + 1) ((r₀ + i) * layout.size (depth + 1)) = r₀ + i :=
      Nat.mul_div_cancel _ (layout.size_pos _)
    have hbelow : ∀ {q : ℕ} {s₁ : MapState}, nextLevelTable s a = .ok (q, s₁) →
        (levelUnderflow p depth q 512 s₁ ↔ missingTables s₁.memory depth
          (q + 8 * ((s₁.intermediatePhysicalAddress >>> (12 + 9 * depth)) &&& (512 - 1)))
          s₁.intermediatePhysicalAddress ≤ s₁.pages.length ∧ s₁.CanMove) := by
      intro q s₁ htable
      obtain ⟨own₁, hgood₁, -, -, -, hslots₁, -⟩ := hgood.nextLevelTable hown hlo htable
      exact ih hgood₁ hslots₁ (by decide) ((nextLevelTable_size htable).trans h)
    rw [missingTables]
    by_cases htable : (s.memory a).isTableDescriptor
    · have hnext : nextLevelTable s a = .ok ((s.memory a).getNextLevelTableAddress, s) := by
        rw [nextLevelTable, if_pos htable]
      rw [if_pos htable, ← hbelow hnext]
      constructor
      · rintro ⟨q, s₁, hnext', hunder⟩
        obtain ⟨rfl, rfl⟩ := Prod.mk.injEq .. ▸ Except.ok.inj (hnext.symm.trans hnext')
        exact hunder
      · intro hunder
        exact ⟨_, _, hnext, hunder⟩
    · rw [if_neg htable]
      cases hpages : s.pages with
      | nil =>
        have hnext : nextLevelTable s a = .error s := by
          rw [nextLevelTable, if_neg htable, hpages]
        simp [hnext]
      | cons page pages =>
        obtain ⟨s₁, hs₁⟩ : ∃ s₁ : MapState, s₁ = { s with
          memory := Function.update (initTable s.memory page 512) a (.table page)
          pages := pages
          tables := page :: s.tables } := ⟨_, rfl⟩
        have hnext : nextLevelTable s a = .ok (page, s₁) := by
          rw [nextLevelTable, if_neg htable, hpages, hs₁]
        have hnew : ∀ j < 512, s₁.memory (page + 8 * j) = .new := by
          intro j hj
          obtain ⟨own₁, -, hext, -, -, hslots₁, -⟩ := hgood.nextLevelTable hown hlo hnext
          have hne : page + 8 * j ≠ a := by
            intro heq
            have hdepth := (hslots₁ j hj).symm.trans (heq ▸ hext _ _ hown)
            simp at hdepth
          rw [hs₁]
          dsimp only
          rw [Function.update_of_ne hne, initTable_of_mem hj]
        have hindex : (s₁.intermediatePhysicalAddress >>> (12 + 9 * depth)) &&& (512 - 1) < 512 :=
          lt_of_le_of_lt Nat.and_le_right (by decide)
        have hiff := hbelow hnext
        rw [missingTables_new (hnew _ hindex)] at hiff
        have hsame : s₁.CanMove ↔ s.CanMove := by rw [hs₁]; rfl
        have hlength : s₁.pages.length = pages.length := by rw [hs₁]
        rw [hsame, hlength] at hiff
        rw [List.length_cons, Nat.add_le_add_iff_right, ← hiff]
        constructor
        · rintro ⟨q, s₂, hnext', hunder⟩
          obtain ⟨rfl, rfl⟩ := Prod.mk.injEq .. ▸ Except.ok.inj (hnext.symm.trans hnext')
          exact hunder
        · intro hunder
          exact ⟨_, _, hnext, hunder⟩

/-! ## Calls -/

namespace Stage2

/-- The call passes the check of the size and a subtraction underflows. -/
def Underflows (s : Stage2) (c : MapCall) : Prop :=
  c.mapSize &&& ((1 <<< pageShift) - 1) = 0 ∧
    levelUnderflow (permissionBits c.isReadable c.isWritable) s.rootDepth s.tableAddress
      s.numOfDescriptors (c.start s)

/-- How many tables are missing on the way to the page of an address. -/
def missing (s : Stage2) (x : ℕ) : ℕ :=
  missingTables s.memory s.rootDepth
    (s.tableAddress + 8 * ((x >>> (12 + 9 * s.rootDepth)) &&& (s.numOfDescriptors - 1))) x

theorem WellFormed.numOfDescriptors_pos {s : Stage2} (h : WellFormed own s) :
    0 < s.numOfDescriptors := by
  obtain ⟨k, hk⟩ := h.width
  rw [hk]
  positivity

end Stage2

/-- Every address of the range translates to that of its page, and no address outside of it
gets a translation. -/
structure MapsRange (s : Stage2) (c : MapCall) (t : Stage2) : Prop where
  inside : ∀ x, c.Covers x → (t.translate x).map Prod.fst =
    some (c.physicalAddress + (x - c.intermediatePhysicalAddress))
  outside : ∀ x, ¬c.Covers x → t.translate x = none ∨ t.translate x = s.translate x

section Calls

variable {s t : Stage2} {c : MapCall}

theorem Maps.pos (h : Maps s c t) (hwf : Stage2.WellFormed own s) : 0 < c.mapSize := by
  obtain ⟨u, hlevel, -⟩ := h.mapLevel
  by_contra hzero
  exact mapLevel_zero (s := c.start s) (Nat.eq_zero_of_not_pos hzero) hwf.numOfDescriptors_pos hlevel

theorem underflows_iff (hwf : Stage2.WellFormed own s) (hfresh : c.Fresh s)
    (hsize : c.mapSize % 4096 = 0) :
    s.Underflows c ↔ c.mapSize = 0 ∧ s.missing c.intermediatePhysicalAddress ≤ c.pages.length ∧
      c.physicalAddress + pageSize < 2 ^ 64 ∧
      c.intermediatePhysicalAddress + pageSize < 2 ^ 64 := by
  have hcheck : c.mapSize &&& ((1 <<< pageShift) - 1) = 0 := by
    rw [Nat.one_shiftLeft, Nat.and_two_pow_sub_one_eq_mod]
    exact hsize
  rw [Stage2.Underflows, and_iff_right hcheck]
  by_cases hzero : c.mapSize = 0
  · rw [levelUnderflow_zero_iff (hwf.start hfresh) hwf.root hwf.numOfDescriptors_pos hzero,
      and_iff_right hzero]
    rfl
  · refine ⟨fun hunder => ?_, fun hall => absurd hall.1 hzero⟩
    exact absurd hunder (not_levelUnderflow ⟨hsize, Nat.pos_of_ne_zero hzero⟩)

/-- A range that was mapped lies in the input address space, and its target fits. -/
theorem MapsRange.bounds (h : MapsRange s c t) (hsame : Stage2.SameRegisters s t)
    (hipa : c.intermediatePhysicalAddress % 4096 = 0) (hsize : c.mapSize % 4096 = 0)
    (hpos : 0 < c.mapSize) :
    c.intermediatePhysicalAddress + c.mapSize ≤ 2 ^ (64 - s.t0sz) ∧
      c.physicalAddress + c.mapSize ≤ 2 ^ 48 := by
  have hlast := h.inside (c.intermediatePhysicalAddress + (c.mapSize - 1)) ⟨by omega, by omega⟩
  have hpage := h.inside (c.intermediatePhysicalAddress + (c.mapSize - 4096)) ⟨by omega, by omega⟩
  constructor
  · by_contra hout
    rw [Stage2.translate_eq_none (by rw [hsame.t0sz]; omega)] at hlast
    exact absurd hlast (by simp)
  · obtain ⟨⟨o, q⟩, ho, heq⟩ := Option.map_eq_some_iff.1 hpage
    have hlt := Stage2.translate_output (by omega) ho
    dsimp only at heq
    omega

theorem Maps.mapsRange (h : Maps s c t) (hwf : Stage2.WellFormed own s) (hfresh : c.Fresh s)
    (hin : c.InRange s) (hout : c.Output) : MapsRange s c t := by
  have heffect := h.effect hwf hfresh hin hout
  refine ⟨fun x hx => ?_, fun x hx => ?_⟩
  · rw [heffect.inside x hx]
    rfl
  · obtain heq | ⟨hnone, -⟩ := heffect.translate_outside h.sameRegisters hx
    · exact .inr heq
    · exact .inl hnone

end Calls

/-- For every table reachable by any calls and every page-aligned call: a subtraction from the
remaining size underflows if and only if the size is zero and nothing else fails on the way
to the page; and if the call returns `Ok`, its range was mapped, and nothing else, if and
only if the range ends in the input address space and its target below `2 ^ 48`. -/
theorem ok_maps_range_iff {idReg : BitVec 64} {table : ℕ} {memory : Memory} {s : Stage2}
    {c : MapCall} (haligned : table % 4096 = 0) (hlt : table < 2 ^ 47)
    (hrun : Runs.GuardedRun Maps MapCall.Fresh (initStage2TranslationTable idReg table memory) s)
    (hfresh : c.Fresh s) (hpa : c.physicalAddress % 4096 = 0)
    (hipa : c.intermediatePhysicalAddress % 4096 = 0) (hsize : c.mapSize % 4096 = 0) :
    (s.Underflows c ↔ c.mapSize = 0 ∧ s.missing c.intermediatePhysicalAddress ≤ c.pages.length ∧
      c.physicalAddress + pageSize < 2 ^ 64 ∧
      c.intermediatePhysicalAddress + pageSize < 2 ^ 64) ∧
    ∀ t, Maps s c t → (MapsRange s c t ↔
      c.intermediatePhysicalAddress + c.mapSize ≤ 2 ^ (64 - s.t0sz) ∧
        c.physicalAddress + c.mapSize ≤ 2 ^ 48) := by
  obtain ⟨own, hwf⟩ := wellFormed_of_run haligned hlt hrun
  refine ⟨underflows_iff hwf hfresh hsize, fun t hmaps => ?_⟩
  have hpos := hmaps.pos hwf
  constructor
  · intro hrange
    exact hrange.bounds hmaps.sameRegisters hipa hsize hpos
  · rintro ⟨hin, hout⟩
    exact hmaps.mapsRange hwf hfresh ⟨hipa, hsize, hpos, hin⟩ ⟨hpa, hout⟩

/-- A block inside the input address space is mapped. -/
theorem sample_mapsRange : ∃ t, Maps sampleStart sampleBlock t ∧
    MapsRange sampleStart sampleBlock t := by
  obtain ⟨t, ht, -⟩ := sampleBlock_run
  exact ⟨t, ht, ((ok_maps_range_iff (by decide) (by decide) (.refl _) sampleBlock_fresh
    (by decide) (by decide) (by decide)).2 t ht).2 ⟨sampleBlock_inRange.bound,
      sampleBlock_output.bound⟩⟩

/-- Two pages of which the second is behind the end of the root table. -/
def overhanging : MapCall := ⟨[0x2000, 0x3000], 0x40000000, 0x7ffffff000, 0x2000, true, true⟩

/-- Nothing at all. -/
def emptyCall : MapCall := ⟨[0x2000, 0x3000], 0x40000000, 0, 0, true, true⟩

/-- A range that runs out of the root table is reported as mapped, and a size of zero
underflows. -/
theorem overhanging_ok_unmapped : (∃ t, overhanging.Fresh sampleStart ∧
    Maps sampleStart overhanging t ∧ ¬MapsRange sampleStart overhanging t) ∧
    emptyCall.Fresh sampleStart ∧ sampleStart.Underflows emptyCall := by
  have hfresh : ∀ q ∈ [0x2000, 0x3000], q % 4096 = 0 ∧ q < 2 ^ 47 ∧ q ∉ sampleStart.tables := by
    decide +kernel
  have heval : (overhanging.run sampleStart).map (fun t => (t.translate 0x8000000000)) =
      some none := by
    decide +kernel
  obtain ⟨t, ht, hnone⟩ := Option.map_eq_some_iff.1 heval
  obtain ⟨k, hzeroed⟩ := zeroed_init 0 0x1000 (fun _ => .new) (by decide) (by decide)
  obtain ⟨own, hwf⟩ := hzeroed.wellFormed (by decide)
  refine ⟨⟨t, ⟨by decide, hfresh⟩, maps_of_run ht, fun hrange => ?_⟩, ⟨by decide, hfresh⟩, ?_⟩
  · have hmapped := hrange.inside 0x8000000000 (by decide)
    rw [hnone] at hmapped
    exact absurd hmapped (by simp)
  · refine (underflows_iff hwf ⟨by decide, hfresh⟩ (by decide)).2 ⟨rfl, ?_, by decide, by decide⟩
    decide +kernel

end Paging

end MiniVisor
