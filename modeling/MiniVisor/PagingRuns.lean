import MiniVisor.PagingMaps
import MiniVisor.Library.Runs

/-!
# Runs of mapping calls

A run starts from the zeroed root tables and makes any number of mapping calls that
return `Ok`. With ranges that do not meet, the walk translates each range as it was
asked for and faults elsewhere. A call that meets earlier ranges is right about its
own range, and about the rest exactly if it cuts no block.
-/
namespace MiniVisor

namespace Paging

open Descriptor RadixTree

/-! ## Calls -/

/-- The arguments of a call, with the pages that `allocate_pages` returns during it. -/
structure MapCall where
  pages : List ℕ
  physicalAddress : ℕ
  intermediatePhysicalAddress : ℕ
  mapSize : ℕ
  isReadable : Bool
  isWritable : Bool
  deriving DecidableEq

namespace MapCall

/-- The addresses that the call is to map. -/
def Covers (c : MapCall) (x : ℕ) : Prop :=
  c.intermediatePhysicalAddress ≤ x ∧ x < c.intermediatePhysicalAddress + c.mapSize

instance (c : MapCall) (x : ℕ) : Decidable (c.Covers x) := inferInstanceAs (Decidable (_ ∧ _))

/-- What the call asks for at an address that it covers. -/
def target (c : MapCall) (x : ℕ) : ℕ × ℕ :=
  (c.physicalAddress + (x - c.intermediatePhysicalAddress), accessBits c.isReadable c.isWritable)

/-- A page-aligned, non-empty range in the input address space of `s`. -/
structure InRange (c : MapCall) (s : Stage2) : Prop where
  intermediate : c.intermediatePhysicalAddress % 4096 = 0
  size : c.mapSize % 4096 = 0
  pos : 0 < c.mapSize
  bound : c.intermediatePhysicalAddress + c.mapSize ≤ 2 ^ (64 - s.t0sz)

/-- A page-aligned target below `2^48`. -/
structure Output (c : MapCall) : Prop where
  physical : c.physicalAddress % 4096 = 0
  bound : c.physicalAddress + c.mapSize ≤ 2 ^ 48

/-- `allocate_pages` returns aligned pages below `2^47` that are not in use as a table. -/
structure Fresh (s : Stage2) (c : MapCall) : Prop where
  nodup : c.pages.Nodup
  page : ∀ q ∈ c.pages, q % 4096 = 0 ∧ q < 2 ^ 47 ∧ q ∉ s.tables

end MapCall

/-- The call returns `Ok` and leaves `t`. -/
def Maps (s : Stage2) (c : MapCall) (t : Stage2) : Prop :=
  mapAddressStage2 s c.pages c.physicalAddress c.intermediatePhysicalAddress c.mapSize
    c.isReadable c.isWritable = some (.ok t)

/-- The tables that a call leaves when it returns `Ok`. -/
def MapCall.run (s : Stage2) (c : MapCall) : Option Stage2 :=
  match mapAddressStage2 s c.pages c.physicalAddress c.intermediatePhysicalAddress c.mapSize
    c.isReadable c.isWritable with
  | some (.ok t) => some t
  | _ => none

theorem maps_of_run {s t : Stage2} {c : MapCall} (h : c.run s = some t) : Maps s c t := by
  unfold MapCall.run at h
  split at h
  · rename_i u hu
    obtain rfl := Option.some.inj h
    exact hu
  · exact absurd h (by simp)

namespace Stage2

/-- The depth of the root tables. -/
def rootDepth (s : Stage2) : ℕ := 3 - s.initialLookupLevel

/-- The descriptor at which the walk ends, with its depth. -/
def lookup (s : Stage2) (x : ℕ) : ℕ × Descriptor :=
  descend s.memory s.rootDepth (s.tableAddress + 8 * layout.region s.rootDepth x) x

/-- The descriptor that serves `x` serves `y` too. -/
def Shares (s : Stage2) (x y : ℕ) : Prop :=
  layout.region (s.lookup x).1 y = layout.region (s.lookup x).1 x

/-- Some page or block maps addresses inside and outside the range of the call. -/
def Cut (s : Stage2) (c : MapCall) : Prop :=
  ∃ x y, ¬c.Covers x ∧ c.Covers y ∧ (s.translate x).isSome ∧ s.Shares x y

variable {s t : Stage2} {x y : ℕ}

theorem translate_eq (s : Stage2) (hx : x < 2 ^ (64 - s.t0sz)) :
    s.translate x = leaf (s.lookup x).1 (s.lookup x).2 x := by
  rw [translate, if_pos hx, walk_eq, ← layout_size]
  rfl

theorem translate_eq_none (hx : ¬x < 2 ^ (64 - s.t0sz)) : s.translate x = none := if_neg hx

theorem lookup_depth_le (s : Stage2) (x : ℕ) : (s.lookup x).1 ≤ s.rootDepth :=
  descend_depth_le _ _ _ _ _ _

theorem Shares.lookup_eq (h : s.Shares x y) : s.lookup y = s.lookup x := by
  have hroot := layout.region_congr (s.lookup_depth_le x) h
  rw [lookup, hroot]
  exact descend_congr_key h

/-! ## Well-formed tables -/

/-- The tables are a tree over the whole input address space. -/
structure WellFormed (own : Owner) (s : Stage2) : Prop where
  tables : Tables own s.memory
  covered : ∀ a, own a ≠ none → ∃ p ∈ s.tables, p ≤ a ∧ a < p + 4096
  aligned : ∀ p ∈ s.tables, p % 4096 = 0
  root : Slots own s.rootDepth s.tableAddress 0 s.numOfDescriptors
  width : ∃ k, s.numOfDescriptors = 2 ^ k
  reach : 2 ^ (64 - s.t0sz) ≤ s.numOfDescriptors * layout.size s.rootDepth

theorem WellFormed.region_lt {own : Owner} (h : WellFormed own s) (hx : x < 2 ^ (64 - s.t0sz)) :
    layout.region s.rootDepth x < s.numOfDescriptors :=
  (Nat.div_lt_iff_lt_mul (layout.size_pos _)).2 (hx.trans_le h.reach)

theorem WellFormed.root_cell {own : Owner} (h : WellFormed own s) (hx : x < 2 ^ (64 - s.t0sz)) :
    own (s.tableAddress + 8 * layout.region s.rootDepth x) =
      some (s.rootDepth, layout.region s.rootDepth x) := by
  have hcell := h.root _ (h.region_lt hx)
  rwa [Nat.zero_add] at hcell

/-- Only the memory and the record of tables differ. -/
structure SameRegisters (s t : Stage2) : Prop where
  vtcr : t.vtcrEl2 = s.vtcrEl2
  vttbr : t.vttbrEl2 = s.vttbrEl2

theorem SameRegisters.t0sz (h : SameRegisters s t) : t.t0sz = s.t0sz := by
  rw [Stage2.t0sz, Stage2.t0sz, h.vtcr]

theorem SameRegisters.rootDepth (h : SameRegisters s t) : t.rootDepth = s.rootDepth := by
  simp only [Stage2.rootDepth, initialLookupLevel, sl0, h.vtcr]

theorem SameRegisters.tableAddress (h : SameRegisters s t) :
    t.tableAddress = s.tableAddress := by
  rw [Stage2.tableAddress, Stage2.tableAddress, h.vttbr]

theorem SameRegisters.numOfDescriptors (h : SameRegisters s t) :
    t.numOfDescriptors = s.numOfDescriptors := by
  simp only [Stage2.numOfDescriptors, initialLookupLevel, sl0, Stage2.t0sz, h.vtcr]

theorem WellFormed.of_good {own own' : Owner} {u : MapState} (h : WellFormed own s)
    (hsame : SameRegisters s t) (hmem : t.memory = u.memory) (htables : t.tables = u.tables)
    (hgood : Good own' u) (hext : ∀ a p, own a = some p → own' a = some p) :
    WellFormed own' t where
  tables := by
    rw [hmem]
    exact hgood.tables
  covered := by
    rw [htables]
    exact hgood.covered
  aligned := by
    rw [htables]
    exact hgood.aligned
  root := by
    rw [hsame.rootDepth, hsame.tableAddress, hsame.numOfDescriptors]
    exact h.root.mono hext
  width := by
    rw [hsame.numOfDescriptors]
    exact h.width
  reach := by
    rw [hsame.rootDepth, hsame.numOfDescriptors, hsame.t0sz]
    exact h.reach

end Stage2

/-! ## The zeroed tables -/

theorem parange_lt (idReg : BitVec 64) :
    ∃ n < 16, idReg &&& idAa64mmfr0El1Parange = BitVec.ofNat 64 n := by
  refine ⟨idReg.toNat % 16, Nat.mod_lt _ (by decide), ?_⟩
  apply BitVec.eq_of_toNat_eq
  have hmask : idAa64mmfr0El1Parange.toNat = 2 ^ 4 - 1 := rfl
  rw [BitVec.toNat_and, BitVec.toNat_ofNat, hmask, Nat.and_two_pow_sub_one_eq_mod]
  omega

/-- T0SZ and SL0 are read back from VTCR_EL2. -/
theorem vtcrEl2For_fields : ∀ n < 16, let ps := BitVec.ofNat 64 n
    (vtcrEl2For ps &&& vtcrEl2T0sz).toNat = (initialLookup ps).1 ∧
      ((vtcrEl2For ps &&& vtcrEl2Sl0) >>> 6).toNat = 2 - (initialLookup ps).2 := by
  decide

/-- The lookups by physical address range, each with the width of its root tables. -/
theorem initialLookup_cases (ps : BitVec 64) : ∃ t0sz level k, initialLookup ps = (t0sz, level) ∧
    level ≤ 1 ∧ numberOfConcatenatedPageTables t0sz level * 512 = 2 ^ k ∧
    64 - t0sz ≤ k + (12 + 9 * (3 - level)) := by
  unfold initialLookup
  split
  · exact ⟨32, 1, 9, rfl, by decide⟩
  · exact ⟨28, 1, 9, rfl, by decide⟩
  · exact ⟨24, 1, 10, rfl, by decide⟩
  · exact ⟨22, 1, 12, rfl, by decide⟩
  · exact ⟨20, 0, 9, rfl, by decide⟩
  · exact ⟨16, 0, 9, rfl, by decide⟩
  · exact ⟨16, 0, 9, rfl, by decide⟩

theorem vttbr_address {table : ℕ} (haligned : table % 4096 = 0) (hlt : table < 2 ^ 47) :
    (BitVec.ofNat 64 table &&& vttbrBaddr).toNat = table := by
  have hmask : vttbrBaddr.toNat = (2 ^ 46 - 1) <<< 1 := by decide
  rw [BitVec.toNat_and, BitVec.toNat_ofNat, Nat.mod_eq_of_lt (by omega), hmask]
  have hshift : table &&& (2 ^ 46 - 1) <<< 1 = ((table >>> 1) &&& (2 ^ 46 - 1)) <<< 1 := by
    apply Nat.eq_of_testBit_eq
    intro i
    simp only [Nat.testBit_and, Nat.testBit_shiftLeft, Nat.testBit_shiftRight]
    by_cases hi : 1 ≤ i
    · simp [hi]
    · simp [hi]
  rw [hshift, Nat.and_two_pow_sub_one_eq_mod, Nat.shiftRight_eq_div_pow, Nat.shiftLeft_eq]
  omega

/-- The registers and the memory right after `init_stage2_translation_table`. -/
structure Zeroed (s : Stage2) (table k : ℕ) : Prop where
  tableAddress : s.tableAddress = table
  numOfDescriptors : s.numOfDescriptors = 2 ^ k
  reach : 64 - s.t0sz ≤ k + (12 + 9 * s.rootDepth)
  zero : ∀ j < 2 ^ k, s.memory (table + 8 * j) = .new
  tables : ∀ p, p ∈ s.tables ↔ ∃ c, 512 * c < 2 ^ k ∧ p = table + 4096 * c

theorem zeroed_init (idReg : BitVec 64) (table : ℕ) (memory : Memory)
    (haligned : table % 4096 = 0) (hlt : table < 2 ^ 47) :
    ∃ k, Zeroed (initStage2TranslationTable idReg table memory) table k := by
  obtain ⟨n, hn, hps⟩ := parange_lt idReg
  obtain ⟨ht0sz, hsl0⟩ := vtcrEl2For_fields n hn
  obtain ⟨t0sz, level, k, hlookup, hlevel, hk, hreach⟩ := initialLookup_cases (BitVec.ofNat 64 n)
  rw [hlookup] at ht0sz hsl0
  dsimp only at ht0sz hsl0
  have hinit : initStage2TranslationTable idReg table memory =
      { vtcrEl2 := vtcrEl2For (BitVec.ofNat 64 n)
        vttbrEl2 := BitVec.ofNat 64 table
        memory := initTable memory table (numberOfConcatenatedPageTables t0sz level * 512)
        tables := (List.range (numberOfConcatenatedPageTables t0sz level)).map
          fun c => table + pageSize * c } := by
    simp only [initStage2TranslationTable, hps, hlookup]
  rw [hinit, hk]
  have hstart : ∀ (m : Memory) (ts : List ℕ), (Stage2.mk (vtcrEl2For (BitVec.ofNat 64 n))
      (BitVec.ofNat 64 table) m ts).initialLookupLevel = level := by
    intro m ts
    rw [Stage2.initialLookupLevel, Stage2.sl0, hsl0]
    obtain rfl | rfl : level = 0 ∨ level = 1 := by omega
    all_goals rfl
  refine ⟨k, vttbr_address haligned hlt, ?_, ?_, fun j hj => initTable_of_mem hj, fun p => ?_⟩
  · rw [Stage2.numOfDescriptors, hstart, Stage2.t0sz, ht0sz, hk]
  · rw [Stage2.rootDepth, hstart, Stage2.t0sz, ht0sz]
    exact hreach
  · simp only [List.mem_map, List.mem_range, pageSize, pageShift]
    constructor
    · rintro ⟨c, hc, rfl⟩
      exact ⟨c, by omega, rfl⟩
    · rintro ⟨c, hc, rfl⟩
      exact ⟨c, by omega, rfl⟩

namespace Zeroed

variable {s : Stage2} {table k x : ℕ}

theorem wellFormed (h : Zeroed s table k) (haligned : table % 4096 = 0) :
    ∃ own, Stage2.WellFormed own s := by
  obtain ⟨haddr, hnum, hreach, hzero, htables⟩ := h
  let own : Owner := fun a =>
    if table ≤ a ∧ a < table + 8 * 2 ^ k ∧ (a - table) % 8 = 0 then
      some (s.rootDepth, (a - table) / 8)
    else none
  have hcell : ∀ a, own a ≠ none → ∃ j < 2 ^ k, a = table + 8 * j := by
    intro a ha
    by_cases hin : table ≤ a ∧ a < table + 8 * 2 ^ k ∧ (a - table) % 8 = 0
    · exact ⟨(a - table) / 8, by omega, by omega⟩
    · exact absurd (if_neg hin) ha
  have hnew : ∀ a p, own a = some p → s.memory a = .new := by
    intro a p ha
    obtain ⟨j, hj, rfl⟩ := hcell a (by simp [ha])
    exact hzero j hj
  refine ⟨own, ⟨fun a d r q ha hnext => ?_, fun a d t ha htable => ?_⟩, fun a ha => ?_,
    fun p hp => ?_, fun j hj => ?_, ⟨k, hnum⟩, ?_⟩
  · rw [hnew a _ ha, nextTable_new] at hnext
    exact absurd hnext (by simp)
  · rw [hnew a _ ha] at htable
    exact absurd htable (by decide)
  · obtain ⟨j, hj, rfl⟩ := hcell a ha
    exact ⟨table + 4096 * (j / 512), (htables _).2 ⟨j / 512, by omega, rfl⟩, by omega, by omega⟩
  · obtain ⟨c, -, rfl⟩ := (htables p).1 hp
    omega
  · have hin : table ≤ table + 8 * j ∧ table + 8 * j < table + 8 * 2 ^ k ∧
        (table + 8 * j - table) % 8 = 0 := by omega
    have hindex : (table + 8 * j - table) / 8 = 0 + j := by omega
    rw [haddr]
    change (if _ then _ else _) = _
    rw [if_pos hin, hindex]
  · rw [hnum, layout_size, ← pow_add]
    exact Nat.pow_le_pow_right (by decide) hreach

theorem translate (h : Zeroed s table k) (x : ℕ) : s.translate x = none := by
  by_cases hx : x < 2 ^ (64 - s.t0sz)
  · have hindex : layout.region s.rootDepth x < 2 ^ k := by
      refine (Nat.div_lt_iff_lt_mul (layout.size_pos _)).2 (hx.trans_le ?_)
      rw [layout_size, ← pow_add]
      exact Nat.pow_le_pow_right (by decide) h.reach
    have hcell := h.zero _ hindex
    rw [s.translate_eq hx, Stage2.lookup, h.tableAddress, descend,
      descend_of_none (by rw [hcell, nextTable_new]), hcell, leaf_new]
  · exact Stage2.translate_eq_none hx

end Zeroed

/-! ## One call -/

/-- The cursors at the start of a call. -/
def MapCall.start (c : MapCall) (s : Stage2) : MapState where
  memory := s.memory
  physicalAddress := c.physicalAddress
  intermediatePhysicalAddress := c.intermediatePhysicalAddress
  remainingSize := c.mapSize
  pages := c.pages
  tables := s.tables

variable {own : Owner} {s t : Stage2} {c : MapCall} {x y : ℕ}

theorem Maps.mapLevel (h : Maps s c t) : ∃ u,
    mapLevel (permissionBits c.isReadable c.isWritable) s.rootDepth s.tableAddress
      s.numOfDescriptors (c.start s) = some (.ok u) ∧
      t = { s with memory := u.memory, tables := u.tables } := by
  unfold Maps mapAddressStage2 at h
  split_ifs at h with hsize
  · exact absurd h (by simp)
  · obtain ⟨r, hlevel, hr⟩ := Option.map_eq_some_iff.1 h
    cases r with
    | error u => exact absurd hr (by simp)
    | ok u => exact ⟨u, hlevel, (Except.ok.inj hr).symm⟩

theorem Maps.sameRegisters (h : Maps s c t) : Stage2.SameRegisters s t := by
  obtain ⟨u, -, rfl⟩ := h.mapLevel
  exact ⟨rfl, rfl⟩

theorem Stage2.WellFormed.start (h : WellFormed own s) (hfresh : c.Fresh s) :
    Good own (c.start s) :=
  ⟨h.tables, h.covered, h.aligned, hfresh.nodup, hfresh.page⟩

/-- The tables stay well formed, whatever the arguments are. -/
theorem Maps.wellFormed (h : Maps s c t) (hwf : Stage2.WellFormed own s) (hfresh : c.Fresh s) :
    ∃ own', Stage2.WellFormed own' t := by
  have hsame := h.sameRegisters
  obtain ⟨u, hlevel, rfl⟩ := h.mapLevel
  obtain ⟨own', hgood, hext⟩ := mapLevel_good (hwf.start hfresh) hwf.root hlevel
  exact ⟨own', hwf.of_good hsame rfl rfl hgood hext⟩

/-- What a call does to the walks of the input address space. -/
structure Effect (s : Stage2) (c : MapCall) (t : Stage2) : Prop where
  inside : ∀ x, c.Covers x → t.translate x = some (c.target x)
  outside : ∀ x < 2 ^ (64 - s.t0sz), ¬c.Covers x → t.lookup x = s.lookup x ∨
    (t.lookup x).2 = .new ∧ ∃ y, c.Covers y ∧ s.Shares x y
  fits : ∀ x y, c.Covers x → t.Shares x y → c.Covers y

theorem MapCall.InRange.lt (h : c.InRange s) (hx : c.Covers x) : x < 2 ^ (64 - s.t0sz) :=
  hx.2.trans_le h.bound

theorem Maps.effect (h : Maps s c t) (hwf : Stage2.WellFormed own s) (hfresh : c.Fresh s)
    (hin : c.InRange s) (hout : c.Output) : Effect s c t := by
  have hsame := h.sameRegisters
  obtain ⟨u, hlevel, rfl⟩ := h.mapLevel
  obtain ⟨k, hk⟩ := hwf.width
  have hfirst : c.Covers c.intermediatePhysicalAddress :=
    ⟨le_rfl, Nat.lt_add_of_pos_right hin.pos⟩
  have hcur : Cursor (c.start s) :=
    ⟨hout.physical, hin.intermediate, hin.size, hin.pos, hout.bound⟩
  have hroot := hwf.root
  have hfirstRegion := hwf.region_lt (hin.lt hfirst)
  rw [hk] at hlevel hroot hfirstRegion
  obtain ⟨⟨own', hm⟩, hfinished, -⟩ := mapLevel_done (hwf.start hfresh) hroot (Nat.zero_mod _)
    (Nat.zero_le _) (by rwa [Nat.zero_add]) hcur hlevel
  -- the root tables reach over the whole range
  have hend : u.intermediatePhysicalAddress = c.intermediatePhysicalAddress + c.mapSize := by
    have hleft : u.remainingSize + u.intermediatePhysicalAddress =
      c.mapSize + c.intermediatePhysicalAddress := hm.left
    have hbound := hin.bound.trans hwf.reach
    rw [Nat.zero_add, ← hk] at hfinished
    obtain hzero | hlast := hfinished <;> omega
  have hcell : ∀ x, cell s.tableAddress 0 s.rootDepth x =
      s.tableAddress + 8 * layout.region s.rootDepth x := fun _ => rfl
  refine ⟨fun x hx => ?_, fun x hx hnot => ?_, fun x y hx hy => ?_⟩
  · have hmapped := hm.mapped x hx.1 (hend ▸ hx.2)
    rw [Stage2.translate_eq _ (hsame.t0sz.symm ▸ hin.lt hx), Stage2.lookup]
    rw [walk_eq, hcell] at hmapped
    exact hmapped
  · obtain heq | ⟨hnew, y, hlo, hhi, hy⟩ := hm.frame _ _ x (hwf.root_cell hx)
      (fun hcov => hnot ⟨hcov.1, hend ▸ hcov.2⟩)
    · exact .inl heq
    · exact .inr ⟨hnew, y, ⟨hlo, hend ▸ hhi⟩, hy⟩
  · have hfits := hm.fits x hx.1 (hend ▸ hx.2) y hy
    exact ⟨hfits.1, hend ▸ hfits.2⟩

/-- An address outside the range keeps its translation, or loses it to a cut. -/
theorem Effect.translate_outside (h : Effect s c t) (hsame : Stage2.SameRegisters s t)
    (hx : ¬c.Covers x) : t.translate x = s.translate x ∨
      t.translate x = none ∧ ∃ y, c.Covers y ∧ s.Shares x y := by
  have ht0sz := hsame.t0sz
  by_cases hlt : x < 2 ^ (64 - s.t0sz)
  · have hlt' : x < 2 ^ (64 - t.t0sz) := ht0sz ▸ hlt
    obtain heq | ⟨hnew, hcut⟩ := h.outside x hlt hx
    · exact .inl (by rw [t.translate_eq hlt', heq, s.translate_eq hlt])
    · exact .inr ⟨by rw [t.translate_eq hlt', hnew, leaf_new], hcut⟩
  · have hlt' : ¬x < 2 ^ (64 - t.t0sz) := ht0sz ▸ hlt
    exact .inl (by rw [Stage2.translate_eq_none hlt', Stage2.translate_eq_none hlt])

theorem Stage2.Shares.isSome_iff (h : s.Shares x y) (hx : x < 2 ^ (64 - s.t0sz))
    (hy : y < 2 ^ (64 - s.t0sz)) : (s.translate y).isSome = (s.translate x).isSome := by
  rw [s.translate_eq hx, s.translate_eq hy, h.lookup_eq, leaf_isSome, leaf_isSome]

/-! ## Ranges that do not meet -/

/-- The tables with the calls made so far, which no function reads. -/
structure Mapper where
  stage2 : Stage2
  calls : List MapCall

namespace Mapper

def init (idReg : BitVec 64) (table : ℕ) (memory : Memory) : Mapper :=
  ⟨initStage2TranslationTable idReg table memory, []⟩

/-- One call that returns `Ok`. -/
def Step (m : Mapper) (c : MapCall) (m' : Mapper) : Prop :=
  Maps m.stage2 c m'.stage2 ∧ m'.calls = c :: m.calls

/-- A call for a page-aligned range that meets none of the earlier ones. -/
structure Admits (m : Mapper) (c : MapCall) : Prop where
  fresh : c.Fresh m.stage2
  inRange : c.InRange m.stage2
  output : c.Output
  disjoint : ∀ d ∈ m.calls, ∀ x, c.Covers x → ¬d.Covers x

/-- The walk gives what was asked for, and nothing else. -/
structure AsAsked (m : Mapper) : Prop where
  mapped : ∀ c ∈ m.calls, ∀ x, c.Covers x → m.stage2.translate x = some (c.target x)
  fault : ∀ x, (∀ c ∈ m.calls, ¬c.Covers x) → m.stage2.translate x = none

theorem AsAsked.step {m m' : Mapper} (h : m.AsAsked) (hwf : Stage2.WellFormed own m.stage2)
    (hadmits : m.Admits c) (hstep : Step m c m') : m'.AsAsked := by
  obtain ⟨hmaps, hcalls⟩ := hstep
  have hsame := hmaps.sameRegisters
  have heffect := hmaps.effect hwf hadmits.fresh hadmits.inRange hadmits.output
  -- a block that reached into the new range would have mapped addresses there
  have houtside : ∀ x, ¬c.Covers x → m'.stage2.translate x = m.stage2.translate x := by
    intro x hx
    obtain heq | ⟨hnone, y, hy, hshare⟩ := heffect.translate_outside hsame hx
    · exact heq
    · rw [hnone]
      by_contra hne
      have hlt : x < 2 ^ (64 - m.stage2.t0sz) := by
        by_contra hge
        exact hne (Stage2.translate_eq_none hge).symm
      have hyNone := h.fault y fun d hd hdy => hadmits.disjoint d hd y hy hdy
      have hsome := hshare.isSome_iff hlt (hadmits.inRange.lt hy)
      rw [hyNone] at hsome
      exact hne (Option.isNone_iff_eq_none.1 (by simpa using hsome.symm)).symm
  refine ⟨fun d hd x hx => ?_, fun x hx => ?_⟩
  · rw [hcalls] at hd
    obtain rfl | hd := List.mem_cons.1 hd
    · exact heffect.inside x hx
    · have hnot : ¬c.Covers x := fun hcx => hadmits.disjoint d hd x hcx hx
      rw [houtside x hnot]
      exact h.mapped d hd x hx
  · rw [hcalls] at hx
    rw [houtside x (hx c (by simp))]
    exact h.fault x fun d hd => hx d (by simp [hd])

/-- Whatever was mapped before, the walk from the registers translates each range as
asked for and faults on every other address. -/
theorem asAsked_of_run {idReg : BitVec 64} {table : ℕ} {memory : Memory} {m : Mapper}
    (haligned : table % 4096 = 0) (hlt : table < 2 ^ 47)
    (hrun : Runs.GuardedRun Step Admits (init idReg table memory) m) :
    (∀ c ∈ m.calls, ∀ x, c.Covers x → m.stage2.translate x = some (c.target x)) ∧
      ∀ x, (∀ c ∈ m.calls, ¬c.Covers x) → m.stage2.translate x = none := by
  obtain ⟨k, hzeroed⟩ := zeroed_init idReg _ memory haligned hlt
  obtain ⟨-, hasked⟩ := hrun.invariant
    (I := fun m => (∃ own, Stage2.WellFormed own m.stage2) ∧ m.AsAsked)
    (fun _ _ _ hinv hadmits hstep => by
      obtain ⟨⟨own, hwf⟩, hasked⟩ := hinv
      exact ⟨hstep.1.wellFormed hwf hadmits.fresh, hasked.step hwf hadmits hstep⟩)
    ⟨hzeroed.wellFormed haligned, fun c hc => absurd hc (by simp [init]),
      fun x _ => hzeroed.translate x⟩
  exact ⟨hasked.mapped, hasked.fault⟩

end Mapper

/-- Root tables for the smallest address range. -/
def sampleStart : Stage2 := initStage2TranslationTable 0 0x1000 fun _ => .new

/-- A range of one 2 MiB block. -/
def sampleBlock : MapCall := ⟨[0x2000], 0x40000000, 0, 0x200000, true, true⟩

/-- The page behind the block. -/
def sampleNext : MapCall := ⟨[0x3000], 0x50000000, 0x200000, 0x1000, true, false⟩

/-- A page inside the block. -/
def samplePage : MapCall := ⟨[0x3000], 0x50000000, 0, 0x1000, true, false⟩

/-- What the walk and the registers say after the block is mapped. -/
theorem sampleBlock_run : ∃ s, Maps sampleStart sampleBlock s ∧
    s.translate 0x1000 = some (0x40001000, 3) ∧ s.tables = [0x2000, 0x1000] ∧ s.t0sz = 32 ∧
    (∃ t, Maps s sampleNext t) ∧ ∃ t, Maps s samplePage t ∧ t.translate 0x1000 = none := by
  have heval : ((sampleBlock.run sampleStart).bind fun s => (sampleNext.run s).bind fun _ =>
      (samplePage.run s).map fun t => (s.translate 0x1000, s.tables, s.t0sz, t.translate 0x1000)) =
      some (some (0x40001000, 3), [0x2000, 0x1000], 32, none) := by
    decide +kernel
  obtain ⟨s, hs, heval⟩ := Option.bind_eq_some_iff.1 heval
  obtain ⟨u, hu, heval⟩ := Option.bind_eq_some_iff.1 heval
  obtain ⟨t, ht, heval⟩ := Option.map_eq_some_iff.1 heval
  simp only [Prod.mk.injEq] at heval
  obtain ⟨htranslate, htables, ht0sz, hcut⟩ := heval
  exact ⟨s, maps_of_run hs, htranslate, htables, ht0sz, ⟨u, maps_of_run hu⟩, t,
    maps_of_run ht, hcut⟩

theorem sampleBlock_fresh : sampleBlock.Fresh sampleStart :=
  ⟨by decide, by decide +kernel⟩

theorem sampleBlock_inRange : sampleBlock.InRange sampleStart :=
  ⟨by decide, by decide, by decide, by decide +kernel⟩

theorem sampleBlock_output : sampleBlock.Output := ⟨by decide, by decide⟩

/-- A block and the page behind it are both translated. -/
theorem Mapper.sample_asAsked : ∃ m, Runs.GuardedRun Step Admits
    (init 0 0x1000 fun _ => .new) m ∧ m.calls = [sampleNext, sampleBlock] ∧
    m.stage2.translate 0x200010 = some (0x50000010, 1) := by
  obtain ⟨s, hs, -, htables, ht0sz, ⟨t, ht⟩, -⟩ := sampleBlock_run
  have hfirst : Step (init 0 0x1000 fun _ => .new) sampleBlock ⟨s, [sampleBlock]⟩ := ⟨hs, rfl⟩
  have hsecond : Step ⟨s, [sampleBlock]⟩ sampleNext ⟨t, [sampleNext, sampleBlock]⟩ := ⟨ht, rfl⟩
  have hrun : Runs.GuardedRun Step Admits (init 0 0x1000 fun _ => .new)
      ⟨t, [sampleNext, sampleBlock]⟩ := by
    refine .cons ⟨sampleBlock_fresh, sampleBlock_inRange, sampleBlock_output, by simp [init]⟩
      hfirst (.cons ⟨⟨by decide, ?_⟩, ⟨by decide, by decide, by decide, ?_⟩,
        ⟨by decide, by decide⟩, fun d hd x hx => ?_⟩ hsecond (.refl _))
    · dsimp only
      rw [htables]
      decide
    · dsimp only
      rw [ht0sz]
      decide
    · obtain rfl := List.mem_singleton.1 hd
      intro hx'
      have hlo : 0x200000 ≤ x := hx.1
      have hhi : x < 0 + 0x200000 := hx'.2
      omega
  exact ⟨_, hrun, rfl, (asAsked_of_run (by decide) (by decide) hrun).1 sampleNext (by simp)
    0x200010 (by decide)⟩

/-! ## Ranges that meet earlier ones -/

theorem leaf_output {depth o p : ℕ} {d : Descriptor} (hx : x % 4096 = 0)
    (h : leaf depth d x = some (o, p)) : o % 4096 = 0 ∧ o < 2 ^ 48 := by
  unfold leaf at h
  split_ifs at h with hleaf
  obtain ⟨rfl, -⟩ := Prod.mk.injEq .. ▸ Option.some.inj h
  have hdepth : depth ≤ 2 := by
    have hif := ((isLeaf_iff depth d).1 hleaf).2
    split_ifs at hif <;> omega
  obtain rfl | rfl | rfl : depth = 0 ∨ depth = 1 ∨ depth = 2 := by omega
  all_goals omega

theorem Stage2.translate_output {o p : ℕ} (hx : x % 4096 = 0) (h : s.translate x = some (o, p)) :
    o % 4096 = 0 ∧ o < 2 ^ 48 := by
  by_cases hlt : x < 2 ^ (64 - s.t0sz)
  · rw [s.translate_eq hlt] at h
    exact leaf_output hx h
  · rw [Stage2.translate_eq_none hlt] at h
    exact absurd h (by simp)

/-- Only targets that fit into a descriptor can be read back. -/
theorem MapCall.InRange.output_of_inside (hin : c.InRange s)
    (h : ∀ x, c.Covers x → t.translate x = some (c.target x)) : c.Output := by
  obtain ⟨hipa, hsize, hpos, -⟩ := hin
  have hfirst := Stage2.translate_output hipa
    (h c.intermediatePhysicalAddress ⟨le_rfl, Nat.lt_add_of_pos_right hpos⟩)
  have hlast := Stage2.translate_output (by omega)
    (h (c.intermediatePhysicalAddress + (c.mapSize - 4096)) ⟨by omega, by omega⟩)
  exact ⟨by omega, by omega⟩

theorem wellFormed_of_run {idReg : BitVec 64} {table : ℕ} {memory : Memory}
    (haligned : table % 4096 = 0) (hlt : table < 2 ^ 47)
    (hrun : Runs.GuardedRun Maps MapCall.Fresh (initStage2TranslationTable idReg table memory) s) :
    ∃ own, Stage2.WellFormed own s := by
  obtain ⟨k, hzeroed⟩ := zeroed_init idReg _ memory haligned hlt
  refine hrun.invariant (I := fun s => ∃ own, Stage2.WellFormed own s)
    (fun _ _ _ hinv hfresh hmaps => ?_) (hzeroed.wellFormed haligned)
  obtain ⟨own, hwf⟩ := hinv
  exact hmaps.wellFormed hwf hfresh

/-- For every table reachable by any calls, one more call is right about its own
range and leaves all other translations alone exactly if its target fits into
descriptors and it cuts no page or block. -/
theorem remap_keeps_rest_iff {idReg : BitVec 64} {table : ℕ} {memory : Memory}
    (haligned : table % 4096 = 0) (hlt : table < 2 ^ 47)
    (hrun : Runs.GuardedRun Maps MapCall.Fresh (initStage2TranslationTable idReg table memory) s)
    (hfresh : c.Fresh s) (hin : c.InRange s) (h : Maps s c t) :
    ((∀ x, c.Covers x → t.translate x = some (c.target x)) ∧
      ∀ x, ¬c.Covers x → t.translate x = s.translate x) ↔ c.Output ∧ ¬s.Cut c := by
  obtain ⟨own, hwf⟩ := wellFormed_of_run haligned hlt hrun
  have hsame := h.sameRegisters
  constructor
  · rintro ⟨hinside, houtside⟩
    have hout := hin.output_of_inside hinside
    have heffect := h.effect hwf hfresh hin hout
    refine ⟨hout, ?_⟩
    rintro ⟨x, y, hx, hy, hsome, hshare⟩
    have hlt : x < 2 ^ (64 - s.t0sz) := by
      by_contra hge
      rw [Stage2.translate_eq_none hge] at hsome
      exact absurd hsome (by simp)
    obtain heq | ⟨hnew, -⟩ := heffect.outside x hlt hx
    · -- the descriptor is still there, so it serves `y` too
      have hshare' : t.Shares x y := by
        rw [Stage2.Shares, heq]
        exact hshare
      have hback : t.Shares y x := by
        rw [Stage2.Shares, hshare'.lookup_eq]
        exact Eq.symm hshare'
      exact hx (heffect.fits y x hy hback)
    · have hnone : t.translate x = none := by
        rw [t.translate_eq (hsame.t0sz.symm ▸ hlt), hnew, leaf_new]
      rw [houtside x hx] at hnone
      rw [hnone] at hsome
      exact absurd hsome (by simp)
  · rintro ⟨hout, hcut⟩
    have heffect := h.effect hwf hfresh hin hout
    refine ⟨heffect.inside, fun x hx => ?_⟩
    obtain heq | ⟨hnone, y, hy, hshare⟩ := heffect.translate_outside hsame hx
    · exact heq
    · rw [hnone]
      by_contra hne
      exact hcut ⟨x, y, hx, hy, Option.isSome_iff_ne_none.2 (Ne.symm hne), hshare⟩

/-- The first block of a table cuts nothing. -/
theorem sample_remap : ∃ t, Maps sampleStart sampleBlock t ∧
    ∀ x, ¬sampleBlock.Covers x → t.translate x = sampleStart.translate x := by
  obtain ⟨t, ht, -⟩ := sampleBlock_run
  obtain ⟨k, hzeroed⟩ := zeroed_init 0 0x1000 (fun _ => .new) (by decide) (by decide)
  refine ⟨t, ht, ((remap_keeps_rest_iff (by decide) (by decide) (.refl _) sampleBlock_fresh
    sampleBlock_inRange ht).2 ⟨sampleBlock_output, ?_⟩).2⟩
  rintro ⟨x, y, -, -, hsome, -⟩
  rw [hzeroed.translate x] at hsome
  exact absurd hsome (by simp)

/-- Mapping a page inside a block unmaps the rest of the block. -/
theorem page_inside_block_unmaps_rest : ∃ s t, Runs.GuardedRun Maps MapCall.Fresh sampleStart s ∧
    samplePage.Fresh s ∧ samplePage.InRange s ∧ Maps s samplePage t ∧
    ¬((∀ x, samplePage.Covers x → t.translate x = some (samplePage.target x)) ∧
      ∀ x, ¬samplePage.Covers x → t.translate x = s.translate x) := by
  obtain ⟨s, hs, htranslate, htables, ht0sz, -, t, ht, hcut⟩ := sampleBlock_run
  refine ⟨s, t, .cons sampleBlock_fresh hs (.refl _), ⟨by decide, ?_⟩,
    ⟨by decide, by decide, by decide, ?_⟩, ht, fun hproperty => ?_⟩
  · rw [htables]
    decide
  · rw [ht0sz]
    decide
  · have hsame := hproperty.2 0x1000 (by decide)
    rw [hcut, htranslate] at hsame
    exact absurd hsame (by simp)

end Paging

end MiniVisor
