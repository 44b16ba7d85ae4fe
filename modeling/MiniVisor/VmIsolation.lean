import MiniVisor.Library.Holdings
import MiniVisor.VmCreation

/-!
# Isolation of the guests

In every state that the CPUs reach, in whatever order they take their steps, the RAM of each VM,
the tables of each CPU, the bytes of the other callers and the free bytes are apart, and the
tables of a guest translate its RAM and nothing else. A store of a guest therefore changes its
own RAM only: no table, no other guest, nothing of the hypervisor.
-/
namespace MiniVisor

namespace Creation

open Paging MemoryAllocator Holdings

section Words

variable {m m' : Paging.Memory} {R S : Set ℕ} {tables : List ℕ} {a b p : ℕ}

theorem wordOf_mem (hp : p % 4096 = 0) (h : p ≤ wordOf b ∧ wordOf b < p + 4096) :
    p ≤ b ∧ b < p + 4096 := by
  rw [wordOf] at h
  omega

theorem wordOf_mem_iff {size : ℕ} (hp : p % 4096 = 0) (hsize : size % 4096 = 0) :
    wordOf b ∈ Set.Ico p (p + size) ↔ b ∈ Set.Ico p (p + size) := by
  rw [Set.mem_Ico, Set.mem_Ico, wordOf]
  omega

theorem Fills.mono (h : Fills m m' R) (hsub : R ⊆ S) : Fills m m' S :=
  fun a ha => h a fun b hb => ha b (hsub hb)

theorem fills_update (m : Paging.Memory) (b : ℕ) (d : Descriptor) :
    Fills m (Function.update m (wordOf b) d) {b} :=
  fun _ ha => Function.update_of_ne (Ne.symm (ha b rfl)) ..

/-- Pages consist of whole words. -/
theorem Fills.agrees (h : Fills m m' R) (haligned : ∀ p ∈ tables, p % 4096 = 0)
    (hR : Disjoint R (pagesOf tables)) : ∀ a ∈ pagesOf tables, m' a = m a := by
  rintro a ⟨p, hp, hin⟩
  refine h a fun b hb hword => ?_
  subst hword
  exact Set.disjoint_left.1 hR hb ⟨p, hp, wordOf_mem (haligned p hp) hin⟩

end Words

/-! ## Who holds which bytes -/

def Stage.ramBytes : Stage → Set ℕ
  | .allocated ram => Set.Ico ram (ram + ramSize)
  | .numbered ram _ => Set.Ico ram (ram + ramSize)
  | .mapping g _ => Set.Ico g.ram (g.ram + ramSize)
  | .created g _ => Set.Ico g.ram (g.ram + ramSize)
  | _ => ∅

def Stage.tableBytes : Stage → Set ℕ
  | .mapping g pages => pagesOf (pages.reverse ++ g.tables)
  | .created g _ => pagesOf g.tables
  | _ => ∅

inductive Holder where
  | free
  | others
  | ram (p : ℕ)
  | tables (p : ℕ)
  deriving DecidableEq

def System.held (s : System) : Holder → Set ℕ
  | .free => s.allocator.freeBytes
  | .others => s.others
  | .ram p => (s.cpus p).ramBytes
  | .tables p => (s.cpus p).tableBytes

/-- No byte has two holders, and all are below `2 ^ 47`. -/
structure Separate (s : System) : Prop where
  rep : ∃ l, Rep s.allocator l
  apart : Apart s.held
  low : ∀ i, ∀ x ∈ s.held i, x < 2 ^ 47

section Separate

variable {s u : System} {a : MemoryAllocator} {i j : Holder} {R : Set ℕ} {p : ℕ} {stage : Stage}

theorem Separate.mono (h : Separate s) (hrep : ∃ l, Rep u.allocator l)
    (hle : ∀ i, u.held i ⊆ s.held i) : Separate u where
  rep := hrep
  apart := h.apart.mono hle
  low i x hx := h.low i x (hle i hx)

theorem Separate.move (h : Separate s) (hrep : ∃ l, Rep u.allocator l)
    (hm : Moved s.held u.held i j R) : Separate u where
  rep := hrep
  apart := h.apart.move hm
  low k x hx := by
    obtain ⟨l, hl⟩ := Set.mem_iUnion.1 (hm.subset_all k hx)
    exact h.low l x hl

/-- A block that the allocator hands out. -/
theorem Separate.allocated {size alignOrder address : ℕ} (h : Separate s)
    (hcall : s.allocator.call (.allocate size alignOrder) = some (.ok (some address), a)) :
    (∃ l, Rep a l) ∧ 2 ^ alignOrder ∣ address ∧
      Set.Ico address (address + size) ⊆ s.allocator.freeBytes ∧
      a.freeBytes = s.allocator.freeBytes \ Set.Ico address (address + size) := by
  obtain ⟨l, hl⟩ := h.rep
  have hguard : s.allocator.FreesTaken (.allocate size alignOrder) := trivial
  obtain ⟨hrep, hspec⟩ := hl.call hguard hcall
  generalize hF : a.freeBytes = F at hspec
  cases hspec with
  | allocated hfree haligned => exact ⟨hrep, haligned, hfree, rfl⟩

/-- A call that fails leaves the free bytes. -/
theorem Separate.failed {c : Call} {e : MemoryError} (h : Separate s)
    (hguard : s.allocator.FreesTaken c) (hcall : s.allocator.call c = some (.error e, a)) :
    (∃ l, Rep a l) ∧ a.freeBytes = s.allocator.freeBytes := by
  obtain ⟨l, hl⟩ := h.rep
  obtain ⟨hrep, hspec⟩ := hl.call hguard hcall
  generalize hF : a.freeBytes = F at hspec
  cases hspec with
  | failed => exact ⟨hrep, rfl⟩

theorem put_cpus (s : System) (p : ℕ) (stage : Stage) (q : ℕ) :
    (s.put p stage).cpus q = if q = p then stage else s.cpus q :=
  Function.update_apply ..

theorem held_ram_put (s : System) (p : ℕ) (stage : Stage) (q : ℕ) :
    (s.put p stage).held (.ram q) = if q = p then stage.ramBytes else s.held (.ram q) := by
  rw [System.held, put_cpus]
  split_ifs with hq
  · rfl
  · rfl

theorem held_tables_put (s : System) (p : ℕ) (stage : Stage) (q : ℕ) :
    (s.put p stage).held (.tables q) = if q = p then stage.tableBytes else s.held (.tables q) := by
  rw [System.held, put_cpus]
  split_ifs with hq
  · rfl
  · rfl

/-- CPU `p` goes on with no more than it had. -/
theorem Separate.put (h : Separate s) (hrep : ∃ l, Rep u.allocator l)
    (hcpus : u.cpus = s.cpus) (hothers : u.others ⊆ s.others)
    (hfree : u.allocator.freeBytes ⊆ s.allocator.freeBytes)
    (hram : stage.ramBytes ⊆ (s.cpus p).ramBytes)
    (htables : stage.tableBytes ⊆ (s.cpus p).tableBytes) : Separate (u.put p stage) := by
  refine h.mono hrep fun i => ?_
  cases i with
  | free => exact hfree
  | others => exact hothers
  | ram q =>
    rw [held_ram_put, System.held, System.held, hcpus]
    split_ifs with hq
    · exact hq ▸ hram
    · exact subset_rfl
  | tables q =>
    rw [held_tables_put, System.held, System.held, hcpus]
    split_ifs with hq
    · exact hq ▸ htables
    · exact subset_rfl

/-- CPU `p` takes a block from the free bytes, for its RAM or for its tables. -/
theorem Separate.take {size alignOrder address : ℕ} (h : Separate s)
    (hcall : s.allocator.call (.allocate size alignOrder) = some (.ok (some address), a))
    (hj : j = .ram p ∨ j = .tables p) (halloc : u.allocator = a) (hcpus : u.cpus = s.cpus)
    (hothers : u.others = s.others)
    (hram : stage.ramBytes ⊆
      (s.cpus p).ramBytes ∪ if j = .ram p then Set.Ico address (address + size) else ∅)
    (htables : stage.tableBytes ⊆
      (s.cpus p).tableBytes ∪ if j = .tables p then Set.Ico address (address + size) else ∅) :
    Separate (u.put p stage) := by
  obtain ⟨hrep, -, hpart, hfree⟩ := h.allocated hcall
  subst halloc
  refine h.move (i := .free) (j := j) hrep ⟨?_, hpart, ?_, ?_, ?_⟩
  · rcases hj with rfl | rfl <;> exact Holder.noConfusion
  · exact hfree.subset
  · rcases hj with rfl | rfl
    · rw [if_pos rfl] at hram
      rw [held_ram_put, if_pos rfl]
      exact hram
    · rw [if_pos rfl] at htables
      rw [held_tables_put, if_pos rfl]
      exact htables
  · intro k hk hkj
    cases k with
    | free => exact absurd rfl hk
    | others => exact hothers.subset
    | ram q =>
      rw [held_ram_put, System.held, System.held, hcpus]
      split_ifs with hq
      · subst hq
        rwa [if_neg (Ne.symm hkj), Set.union_empty] at hram
      · exact subset_rfl
    | tables q =>
      rw [held_tables_put, System.held, System.held, hcpus]
      split_ifs with hq
      · subst hq
        rwa [if_neg (Ne.symm hkj), Set.union_empty] at htables
      · exact subset_rfl

end Separate

/-! ## Tables -/

/-- The translation that a guest is to have. -/
def Guest.target (g : Guest) (x : ℕ) : Option (ℕ × ℕ) :=
  if ramVirtualBase ≤ x ∧ x < ramVirtualBase + ramSize then some (g.ram + (x - ramVirtualBase), 3)
  else none

/-- The tables are a tree over an address space with room for the RAM. -/
structure Guest.Rooted (g : Guest) (m : Paging.Memory) : Prop where
  wellFormed : ∃ own, Stage2.WellFormed own (g.stage2 m)
  width : (g.stage2 m).t0sz ≤ 32
  aligned : g.ram % 4096 = 0

/-- What holds of the tables of a CPU in each stage. -/
def Stage.Sound (m : Paging.Memory) : Stage → Prop
  | .allocated ram => ram % 4096 = 0
  | .numbered ram _ => ram % 4096 = 0
  | .mapping g pages => g.Rooted m ∧ (g.mapCall pages).Fresh (g.stage2 m) ∧
      ∀ x, (g.stage2 m).translate x = none
  | .created g _ => g.Rooted m ∧ ∀ x, (g.stage2 m).translate x = g.target x
  | _ => True

section Sound

variable {m m' : Paging.Memory} {g : Guest} {pages : List ℕ} {stage : Stage}

theorem Guest.Rooted.pages_aligned (h : g.Rooted m) : ∀ p ∈ g.tables, p % 4096 = 0 := by
  obtain ⟨own, hwf⟩ := h.wellFormed
  exact hwf.aligned

theorem Guest.Rooted.congr (h : g.Rooted m) (hm : ∀ a ∈ pagesOf g.tables, m' a = m a) :
    g.Rooted m' ∧ ∀ x, (g.stage2 m').translate x = (g.stage2 m).translate x := by
  obtain ⟨own, hwf⟩ := h.wellFormed
  exact ⟨⟨⟨own, hwf.withMemory hm⟩, h.width, h.aligned⟩, hwf.translate_congr hm⟩

/-- What happens outside of its tables does not concern a CPU. -/
theorem Stage.Sound.congr (h : stage.Sound m) (hm : ∀ a ∈ stage.tableBytes, m' a = m a) :
    stage.Sound m' := by
  cases stage with
  | mapping g pages =>
    obtain ⟨hrooted, hfresh, hnone⟩ := h
    have hold : ∀ a ∈ pagesOf g.tables, m' a = m a := fun a ha =>
      hm a (by rw [Stage.tableBytes, pagesOf_append]; exact .inr ha)
    obtain ⟨hrooted', hsame⟩ := hrooted.congr hold
    exact ⟨hrooted', ⟨hfresh.nodup, hfresh.page⟩, fun x => (hsame x).trans (hnone x)⟩
  | created g progress =>
    obtain ⟨hrooted, htarget⟩ := h
    obtain ⟨hrooted', hsame⟩ := hrooted.congr hm
    exact ⟨hrooted', fun x => (hsame x).trans (htarget x)⟩
  | _ => exact h

/-- The pages of the tables of a CPU. -/
theorem Stage.Sound.exists_pages (h : stage.Sound m) :
    ∃ tables, stage.tableBytes = pagesOf tables ∧ ∀ p ∈ tables, p % 4096 = 0 := by
  cases stage with
  | mapping g pages =>
    obtain ⟨hrooted, hfresh, -⟩ := h
    refine ⟨_, rfl, fun p hp => ?_⟩
    rcases List.mem_append.1 hp with hp | hp
    · exact (hfresh.page p (List.mem_reverse.1 hp)).1
    · exact hrooted.pages_aligned p hp
  | created g progress => exact ⟨_, rfl, h.1.pages_aligned⟩
  | _ => exact ⟨[], pagesOf_nil.symm, by simp⟩

/-- Words of bytes outside of its tables do not concern a CPU. -/
theorem Stage.Sound.fills {R : Set ℕ} (h : stage.Sound m) (hm : Fills m m' R)
    (hR : Disjoint R stage.tableBytes) : stage.Sound m' := by
  obtain ⟨tables, htables, haligned⟩ := h.exists_pages
  refine h.congr ?_
  rw [htables] at hR ⊢
  exact hm.agrees haligned hR

end Sound

/-! ## The steps of a mapping call -/

theorem t0sz_init_le (idReg : BitVec 64) (table : ℕ) (m : Paging.Memory) :
    (initStage2TranslationTable idReg table m).t0sz ≤ 32 := by
  obtain ⟨n, hn, hps⟩ := parange_lt idReg
  have hfields := (vtcrEl2For_fields n hn).1
  have hle : ∀ n < 16, (initialLookup (BitVec.ofNat 64 n)).1 ≤ 32 := by decide
  change (vtcrEl2For (idReg &&& idAa64mmfr0El1Parange) &&& vtcrEl2T0sz).toNat ≤ 32
  rw [hps, hfields]
  exact hle n hn

theorem numberOfRootTables_pos (idReg : BitVec 64) : 0 < numberOfRootTables idReg := by
  obtain ⟨t0sz, level, k, hlookup, -, hwidth, -⟩ :=
    initialLookup_cases (idReg &&& idAa64mmfr0El1Parange)
  rw [numberOfRootTables, hlookup]
  have hpos : 0 < numberOfConcatenatedPageTables t0sz level * 512 := by
    rw [hwidth]
    exact Nat.two_pow_pos k
  exact Nat.pos_of_mul_pos_right hpos

/-- The pages of the root tables lie in the block that was allocated for them. -/
theorem init_tables_subset (idReg : BitVec 64) (table : ℕ) (m : Paging.Memory) :
    pagesOf (initStage2TranslationTable idReg table m).tables ⊆
      Set.Ico table (table + numberOfRootTables idReg <<< pageShift) := by
  rintro a ⟨p, hp, hlo, hhi⟩
  obtain ⟨c, hc, rfl⟩ := List.mem_map.1 hp
  have hc : c + 1 ≤ numberOfRootTables idReg := List.mem_range.1 hc
  have hmul : 4096 * (c + 1) ≤ 4096 * numberOfRootTables idReg := Nat.mul_le_mul_left _ hc
  have hshift : numberOfRootTables idReg <<< pageShift = 4096 * numberOfRootTables idReg := by
    rw [Nat.shiftLeft_eq, Nat.mul_comm]
    rfl
  have hpage : pageSize = 4096 := rfl
  rw [Set.mem_Ico, hshift]
  rw [hpage] at hlo hhi
  omega

theorem init_memory (idReg : BitVec 64) (table : ℕ) (m : Paging.Memory) {a : ℕ}
    (ha : a ∉ Set.Ico table (table + numberOfRootTables idReg <<< pageShift)) :
    (initStage2TranslationTable idReg table m).memory a = m a := by
  refine initTable_of_not_mem fun hin => ha ?_
  have hshift : numberOfRootTables idReg <<< pageShift = 8 * (numberOfRootTables idReg * 512) := by
    rw [Nat.shiftLeft_eq, pageShift]
    omega
  rw [Set.mem_Ico, hshift]
  exact hin

section Map

variable {m : Paging.Memory} {g : Guest} {pages : List ℕ} {t : Stage2}

theorem Guest.mapCall_inRange (h : (g.stage2 m).t0sz ≤ 32) :
    (g.mapCall pages).InRange (g.stage2 m) where
  intermediate := show ramVirtualBase % 4096 = 0 by decide
  size := show ramSize % 4096 = 0 by decide
  pos := show 0 < ramSize by decide
  bound := by
    have hroom : ramVirtualBase + ramSize ≤ 2 ^ 32 := by decide
    exact hroom.trans (Nat.pow_le_pow_right (by decide) (by omega))

/-- The call maps the RAM as it should be. -/
theorem Guest.mapped (hrooted : g.Rooted m) (hfresh : (g.mapCall pages).Fresh (g.stage2 m))
    (hnone : ∀ x, (g.stage2 m).translate x = none) (hbound : g.ram + ramSize ≤ 2 ^ 48)
    (hmap : Maps (g.stage2 m) (g.mapCall pages) t) :
    (Stage.created { g with tables := t.tables } .mapped).Sound t.memory := by
  obtain ⟨own, hwf⟩ := hrooted.wellFormed
  have hsame := hmap.sameRegisters
  have hstage : Guest.stage2 { g with tables := t.tables } t.memory = t := by
    have hvtcr : g.vtcrEl2 = t.vtcrEl2 := hsame.vtcr.symm
    have hvttbr : g.vttbrEl2 = t.vttbrEl2 := hsame.vttbr.symm
    rw [Guest.stage2, hvtcr, hvttbr]
  have heffect := hmap.effect hwf hfresh (mapCall_inRange hrooted.width) ⟨hrooted.aligned, hbound⟩
  refine ⟨⟨?_, ?_, hrooted.aligned⟩, fun x => ?_⟩
  · rw [hstage]
    exact hmap.wellFormed hwf hfresh
  · rw [hstage, hsame.t0sz]
    exact hrooted.width
  · rw [hstage, Guest.target]
    split_ifs with hx
    · exact heffect.inside x hx
    · rcases heffect.translate_outside hsame hx with heq | ⟨heq, -⟩
      · exact heq.trans (hnone x)
      · exact heq

/-- Ok or not, the call writes to the tables of the CPU. -/
theorem Guest.map_frames {result : Except Stage2 Stage2} (hrooted : g.Rooted m)
    (hfresh : (g.mapCall pages).Fresh (g.stage2 m))
    (hmap : mapAddressStage2 (g.stage2 m) pages g.ram ramVirtualBase ramSize true true =
      some result) {a : ℕ} (ha : a ∉ (Stage.mapping g pages).tableBytes) :
    (Stage2.left result).memory a = m a := by
  obtain ⟨own, hwf⟩ := hrooted.wellFormed
  obtain ⟨⟨used, hused, htables⟩, hframe⟩ := hwf.map_frames (c := g.mapCall pages) hfresh hmap
  refine hframe a fun hin => ha ?_
  rw [htables, pagesOf_append, pagesOf_reverse] at hin
  rw [Stage.tableBytes, pagesOf_append, pagesOf_reverse]
  refine hin.imp ?_ id
  rintro ⟨p, hp, hpa⟩
  exact ⟨p, hused.subset hp, hpa⟩

end Map

/-! ## The loader -/

theorem le_kernelVirtualAddress {dtbSize address : ℕ}
    (h : kernelVirtualAddress dtbSize = some address) : ramVirtualBase + dtbSize ≤ address := by
  obtain ⟨s, hs, h⟩ := Option.bind_eq_some_iff.1 h
  obtain ⟨u, hs', h⟩ := Option.bind_eq_some_iff.1 h
  obtain ⟨-, rfl⟩ := Checked.add_eq_some.1 hs
  obtain ⟨-, rfl⟩ := Checked.sub_eq_some.1 hs'
  obtain ⟨-, rfl⟩ := Checked.add_eq_some.1 h
  have hpos : 0 < alignSize := Nat.succ_pos 0x1FFFFF
  have hmod := Nat.mod_lt (ramVirtualBase + dtbSize - 1) hpos
  omega

theorem Guest.getPhysicalAddress_eq {g : Guest} {x address : ℕ}
    (h : g.entry.ram.getPhysicalAddress x = some (some address)) :
    ramVirtualBase ≤ x ∧ x < ramVirtualBase + ramSize ∧ address = x - ramVirtualBase + g.ram := by
  simp only [GuestRam.getPhysicalAddress, Option.bind_eq_bind, Option.bind_eq_some_iff] at h
  obtain ⟨last, hlast, h⟩ := h
  obtain ⟨-, rfl⟩ := Checked.add_eq_some.1 hlast
  split_ifs at h with hin
  · obtain ⟨o, ho, heq⟩ := Option.bind_eq_some_iff.1 h
    obtain ⟨-, rfl⟩ := Checked.add_eq_some.1 ho
    obtain rfl := Option.some.inj (Option.some.inj heq)
    exact ⟨hin.1, hin.2, rfl⟩
  · exact absurd (Option.some.inj h) (by simp)

/-- The device tree fits in any case, the kernel by the guard of the step. -/
theorem Guest.loadedBytes_subset {g : Guest} {dtbSize kernelSize address kernel : ℕ}
    (haddress : kernelVirtualAddress dtbSize = some address)
    (hkernel : g.entry.ram.getPhysicalAddress address = some (some kernel))
    (hfits : address + kernelSize ≤ ramVirtualBase + ramSize) :
    loadedBytes g.ram dtbSize kernel kernelSize ⊆ Set.Ico g.ram (g.ram + ramSize) := by
  have hbehind := le_kernelVirtualAddress haddress
  obtain ⟨hlo, hhi, rfl⟩ := getPhysicalAddress_eq hkernel
  refine Set.union_subset (Set.Ico_subset_Ico_right (by omega)) (Set.Ico_subset_Ico ?_ ?_)
  · omega
  · omega

/-! ## Runs -/

/-- The invariant of all steps. -/
structure Inv (s : System) : Prop where
  separate : Separate s
  sound : ∀ p, (s.cpus p).Sound s.memory

section Inv

variable {id : ℕ → BitVec 64} {s u : System} {a : MemoryAllocator} {m : Paging.Memory}
  {p q : ℕ} {g : Guest} {pages : List ℕ} {stage : Stage} {R : Set ℕ} {e : Event}

theorem Inv.rep (h : Inv s) : ∃ l, Rep s.allocator l := h.separate.rep

/-- Two holders of the state. -/
theorem Inv.disjoint (h : Inv s) {i j : Holder} (hij : i ≠ j) : Disjoint (s.held i) (s.held j) :=
  h.separate.apart i j hij

theorem sound_put (hcpus : u.cpus = s.cpus)
    (hothers : ∀ q, q ≠ p → (s.cpus q).Sound u.memory) (hnew : stage.Sound u.memory) :
    ∀ q, ((u.put p stage).cpus q).Sound (u.put p stage).memory := by
  intro q
  rw [put_cpus, hcpus]
  split_ifs with hq
  · exact hnew
  · exact hothers q hq

/-- A step of a CPU that neither takes bytes nor writes. -/
theorem Inv.advance (h : Inv s) (hrep : ∃ l, Rep u.allocator l) (hmemory : u.memory = s.memory)
    (hcpus : u.cpus = s.cpus) (hothers : u.others = s.others)
    (hfree : u.allocator.freeBytes = s.allocator.freeBytes)
    (hram : stage.ramBytes ⊆ (s.cpus p).ramBytes)
    (htables : stage.tableBytes ⊆ (s.cpus p).tableBytes) (hnew : stage.Sound s.memory) :
    Inv (u.put p stage) where
  separate := h.separate.put hrep hcpus hothers.subset hfree.subset hram htables
  sound := sound_put hcpus (fun q _ => hmemory ▸ h.sound q) (hmemory ▸ hnew)

/-- A call that fails. -/
theorem Inv.refuse {c : Call} {err : MemoryError} (h : Inv s) (hguard : s.allocator.FreesTaken c)
    (hcall : s.allocator.call c = some (.error err, a)) : Inv { s with allocator := a } := by
  obtain ⟨hrep, hfree⟩ := h.separate.failed hguard hcall
  refine ⟨h.separate.mono hrep fun i => ?_, h.sound⟩
  cases i with
  | free => exact hfree.subset
  | _ => exact subset_rfl

theorem Inv.halt (h : Inv s) : Inv (s.put p .halted) :=
  h.advance h.rep rfl rfl rfl rfl (Set.empty_subset _) (Set.empty_subset _) trivial

/-- Words of a holder that has no tables. -/
theorem Inv.sound_fills (h : Inv s) {i : Holder} (hi : i ≠ .tables q) (hm : Fills s.memory m R)
    (hR : R ⊆ s.held i) : (s.cpus q).Sound m :=
  (h.sound q).fills hm ((h.disjoint hi).mono_left hR)

/-- The memory changes within the RAM of CPU `p`, which does not take more bytes. -/
theorem Inv.fill_ram (h : Inv s) (hm : Fills s.memory m R) (hR : R ⊆ (s.cpus p).ramBytes)
    (hram : stage.ramBytes ⊆ (s.cpus p).ramBytes)
    (htables : stage.tableBytes ⊆ (s.cpus p).tableBytes) (hnew : stage.Sound m) :
    Inv ({ s with memory := m }.put p stage) where
  separate := h.separate.put (u := { s with memory := m }) h.rep rfl subset_rfl subset_rfl hram
    htables
  sound := sound_put (u := { s with memory := m }) rfl
    (fun _ _ => h.sound_fills (i := .ram p) Holder.noConfusion hm hR) hnew

theorem Inv.allocateRam {ram : ℕ} (h : Inv s)
    (hcall : allocatePages s.allocator (ramSize >>> pageShift) pageShift =
      some (.ok (some ram), a)) : Inv ({ s with allocator := a }.put p (.allocated ram)) := by
  obtain ⟨-, haligned, -, -⟩ := h.separate.allocated hcall
  refine ⟨h.separate.take (u := { s with allocator := a }) hcall (.inl rfl) rfl rfl rfl ?_ ?_,
    sound_put (u := { s with allocator := a }) rfl (fun q _ => h.sound q)
      (Nat.mod_eq_zero_of_dvd haligned)⟩
  · rw [if_pos rfl]
    exact Set.subset_union_right
  · exact Set.empty_subset _

theorem Inv.initTables {ram vmId table : ℕ} {t : Stage2} (h : Inv s)
    (hp : s.cpus p = .numbered ram vmId)
    (hcall : allocatePages s.allocator (numberOfRootTables (id p))
      (12 + numberOfRootTables (id p) - 1) = some (.ok (some table), a))
    (ht : t = initStage2TranslationTable (id p) table s.memory) :
    Inv ({ s with allocator := a, memory := t.memory }.put p
      (.mapping ⟨vmId, ram, t.vtcrEl2, t.vttbrEl2, t.tables⟩ [])) := by
  obtain ⟨-, hdvd, hfree, -⟩ := h.separate.allocated hcall
  have hsubset : pagesOf t.tables ⊆
      Set.Ico table (table + numberOfRootTables (id p) <<< pageShift) := by
    rw [ht]
    exact init_tables_subset (id p) table s.memory
  have hroots := numberOfRootTables_pos (id p)
  have haligned : table % 4096 = 0 :=
    Nat.mod_eq_zero_of_dvd ((Nat.pow_dvd_pow 2 (by omega : 12 ≤ _)).trans hdvd)
  have hlow : table < 2 ^ 47 := h.separate.low .free table (hfree ⟨le_rfl, by
    rw [Nat.shiftLeft_eq]
    have := Nat.mul_pos hroots (Nat.two_pow_pos pageShift)
    omega⟩)
  obtain ⟨k, hzeroed⟩ := zeroed_init (id p) table s.memory haligned hlow
  refine ⟨h.separate.take (u := { s with allocator := a, memory := t.memory }) hcall (.inr rfl)
    rfl rfl rfl ?_ ?_, sound_put (u := { s with allocator := a, memory := t.memory }) rfl
      (fun q _ => ?_) ?_⟩
  · rw [hp, if_neg Holder.noConfusion, Set.union_empty]
    exact subset_rfl
  · rw [if_pos rfl]
    exact hsubset.trans Set.subset_union_right
  · -- the tables are zeroed in bytes that were free
    refine (h.sound q).congr fun b hb => ?_
    rw [ht]
    refine init_memory _ _ _ fun hin => ?_
    exact Set.disjoint_left.1 (h.disjoint (i := .tables q) (j := .free) Holder.noConfusion) hb
      (hfree hin)
  · subst ht
    have hram : ram % 4096 = 0 := by
      have hsound := h.sound p
      rwa [hp] at hsound
    exact ⟨⟨hzeroed.wellFormed haligned, t0sz_init_le _ _ _, hram⟩,
      ⟨List.nodup_nil, fun q hq => absurd hq (by simp [Guest.mapCall])⟩, hzeroed.translate⟩

theorem Inv.allocateTable {page : ℕ} (h : Inv s) (hp : s.cpus p = .mapping g pages)
    (hcall : allocatePages s.allocator 1 12 = some (.ok (some page), a)) :
    Inv ({ s with allocator := a }.put p (.mapping g (pages ++ [page]))) := by
  obtain ⟨-, hdvd, hfree, -⟩ := h.separate.allocated hcall
  have haligned : page % 4096 = 0 := Nat.mod_eq_zero_of_dvd hdvd
  have hmem : page ∈ s.held .free := hfree ⟨le_rfl, Nat.lt_add_of_pos_right (by decide)⟩
  have hblock : Set.Ico page (page + 1 <<< pageShift) = pagesOf [page] :=
    (pagesOf_singleton page).symm
  have hsound := h.sound p
  rw [hp] at hsound
  obtain ⟨hrooted, hfresh, hnone⟩ := hsound
  -- a free page is none of the tables
  have hnew : page ∉ pages.reverse ++ g.tables := by
    intro hin
    have htables : page ∈ s.held (.tables p) := by
      rw [System.held, hp]
      exact ⟨page, hin, le_rfl, by omega⟩
    exact Set.disjoint_left.1 (h.disjoint (i := .tables p) (j := .free) Holder.noConfusion) htables
      hmem
  rw [List.mem_append, List.mem_reverse, not_or] at hnew
  refine ⟨h.separate.take (u := { s with allocator := a }) hcall (.inr rfl) rfl rfl rfl ?_ ?_,
    sound_put (u := { s with allocator := a }) rfl (fun q _ => h.sound q) ?_⟩
  · rw [hp, if_neg Holder.noConfusion, Set.union_empty]
    exact subset_rfl
  · rw [hp, if_pos rfl, hblock, Stage.tableBytes, Stage.tableBytes, ← pagesOf_append,
      pagesOf_append, pagesOf_append, pagesOf_append, pagesOf_reverse, pagesOf_reverse,
      pagesOf_append]
    exact fun b hb => by
      rcases hb with (hb | hb) | hb
      · exact .inl (.inl hb)
      · exact .inr hb
      · exact .inl (.inr hb)
  · refine ⟨hrooted, ⟨?_, fun q hq => ?_⟩, hnone⟩
    · refine List.nodup_append.2 ⟨hfresh.nodup, List.nodup_singleton page, ?_⟩
      rintro x hx y hy rfl
      obtain rfl := List.mem_singleton.1 hy
      exact hnew.1 hx
    · rcases List.mem_append.1 hq with hq | hq
      · exact hfresh.page q hq
      · obtain rfl := List.mem_singleton.1 hq
        exact ⟨haligned, h.separate.low .free _ hmem, hnew.2⟩

/-- The other CPUs after a mapping call of CPU `p`. -/
theorem Inv.sound_map {result : Except Stage2 Stage2} (h : Inv s)
    (hp : s.cpus p = .mapping g pages)
    (hmap : mapAddressStage2 (g.stage2 s.memory) pages g.ram ramVirtualBase ramSize true true =
      some result) (hq : q ≠ p) : (s.cpus q).Sound (Stage2.left result).memory := by
  have hsound := h.sound p
  rw [hp] at hsound
  obtain ⟨hrooted, hfresh, -⟩ := hsound
  refine (h.sound q).congr fun b hb => Guest.map_frames hrooted hfresh hmap fun hin => ?_
  have hne : Holder.tables q ≠ Holder.tables p := fun heq => hq (Holder.tables.inj heq)
  refine Set.disjoint_left.1 (h.disjoint hne) hb ?_
  rw [System.held, hp]
  exact hin

theorem Inv.noTable {t : Stage2} {err : MemoryError} (h : Inv s)
    (hp : s.cpus p = .mapping g pages)
    (hcall : allocatePages s.allocator 1 12 = some (.error err, a))
    (hmap : mapAddressStage2 (g.stage2 s.memory) pages g.ram ramVirtualBase ramSize true true =
      some (.error t)) : Inv ({ s with allocator := a, memory := t.memory }.put p .halted) := by
  have hguard : s.allocator.FreesTaken (.allocate (1 <<< pageShift) 12) := trivial
  obtain ⟨hrep, hfree⟩ := h.separate.failed hguard hcall
  exact ⟨h.separate.put (u := { s with allocator := a, memory := t.memory }) hrep rfl subset_rfl
      hfree.subset (Set.empty_subset _) (Set.empty_subset _),
    sound_put (u := { s with allocator := a, memory := t.memory }) rfl
      (fun q hq => h.sound_map hp hmap hq) trivial⟩

theorem Inv.map {t : Stage2} (h : Inv s) (hp : s.cpus p = .mapping g pages)
    (hmap : mapAddressStage2 (g.stage2 s.memory) pages g.ram ramVirtualBase ramSize true true =
      some (.ok t)) (hall : t.tables = pages.reverse ++ g.tables) :
    Inv ({ s with memory := t.memory }.put p (.created { g with tables := t.tables } .mapped)) := by
  have hsound := h.sound p
  rw [hp] at hsound
  obtain ⟨hrooted, hfresh, hnone⟩ := hsound
  have hbound : g.ram + ramSize ≤ 2 ^ 48 := by
    have hlast : g.ram + ramSize - 1 ∈ s.held (.ram p) := by
      rw [System.held, hp, Stage.ramBytes, Set.mem_Ico, ramSize]
      omega
    have hlow := h.separate.low _ _ hlast
    omega
  refine ⟨h.separate.put (u := { s with memory := t.memory }) h.rep rfl subset_rfl subset_rfl
    ?_ ?_, sound_put (u := { s with memory := t.memory }) rfl
      (fun q hq => h.sound_map hp hmap hq) (Guest.mapped hrooted hfresh hnone hbound hmap)⟩
  · rw [hp]
    exact subset_rfl
  · rw [hp, Stage.tableBytes, Stage.tableBytes, hall]

/-- The guest is at `progress`, and so it stays but for its progress. -/
theorem Inv.sound_created {progress : Progress} (h : Inv s) (hp : s.cpus p = .created g progress) :
    g.Rooted s.memory ∧ ∀ x, (g.stage2 s.memory).translate x = g.target x := by
  have hsound := h.sound p
  rwa [hp] at hsound

/-- A CPU that has its tables goes on. -/
theorem Inv.proceed {progress progress' : Progress} (h : Inv s)
    (hp : s.cpus p = .created g progress) (hallocator : u.allocator = s.allocator)
    (hmemory : u.memory = s.memory) (hcpus : u.cpus = s.cpus) (hothers : u.others = s.others) :
    Inv (u.put p (.created g progress')) := by
  refine h.advance (hallocator ▸ h.rep) hmemory hcpus hothers (by rw [hallocator]) ?_ ?_
    (h.sound_created hp)
  · rw [hp]
    exact subset_rfl
  · rw [hp]
    exact subset_rfl

/-- A guest reaches its own RAM. -/
theorem Inv.translate {x o permission : ℕ} {progress : Progress} (h : Inv s)
    (hp : s.cpus p = .created g progress)
    (hx : (g.stage2 s.memory).translate x = some (o, permission)) : o ∈ s.held (.ram p) := by
  rw [(h.sound_created hp).2, Guest.target] at hx
  split_ifs at hx with hin
  obtain ⟨rfl, -⟩ := Prod.mk.inj (Option.some.inj hx)
  rw [System.held, hp, Stage.ramBytes, Set.mem_Ico]
  omega

/-- The memory changes in bytes of a holder without tables. -/
theorem Inv.fill {i : Holder} (h : Inv s) (hi : ∀ q, i ≠ .tables q) (hm : Fills s.memory m R)
    (hR : R ⊆ s.held i) : Inv { s with memory := m } where
  separate := h.separate.mono h.rep fun i => by cases i <;> exact subset_rfl
  sound q := h.sound_fills (hi q) hm hR

theorem Inv.load {dtbSize kernelSize address kernel : ℕ} (h : Inv s)
    (hp : s.cpus p = .created g .mapped) (haddress : kernelVirtualAddress dtbSize = some address)
    (hkernel : g.entry.ram.getPhysicalAddress address = some (some kernel))
    (hfits : address + kernelSize ≤ ramVirtualBase + ramSize)
    (hm : Fills s.memory m (loadedBytes g.ram dtbSize kernel kernelSize)) :
    Inv { s with memory := m } := by
  refine h.fill (i := .ram p) (fun _ => Holder.noConfusion) hm ?_
  rw [System.held, hp]
  exact Guest.loadedBytes_subset haddress hkernel hfits

theorem Inv.stored {x o permission : ℕ} {d : Descriptor} (h : Inv s)
    (hp : s.cpus p = .created g .running)
    (hx : (g.stage2 s.memory).translate x = some (o, permission)) :
    Inv { s with memory := Function.update s.memory (wordOf o) d } :=
  h.fill (i := .ram p) (fun _ => Holder.noConfusion) (fills_update _ _ _)
    (Set.singleton_subset_iff.2 (h.translate hp hx))

/-- The other callers get a block. -/
theorem Inv.allocate {size alignOrder address : ℕ} (h : Inv s)
    (hcall : s.allocator.call (.allocate size alignOrder) = some (.ok (some address), a)) :
    Inv { s with allocator := a, others := s.others ∪ Set.Ico address (address + size) } := by
  obtain ⟨hrep, -, hpart, hfree⟩ := h.separate.allocated hcall
  refine ⟨h.separate.move (i := .free) (j := .others) hrep
    ⟨Holder.noConfusion, hpart, hfree.subset, subset_rfl, fun k hk hkj => ?_⟩, h.sound⟩
  cases k with
  | free => exact absurd rfl hk
  | others => exact absurd rfl hkj
  | _ => exact subset_rfl

/-- They give bytes back. -/
theorem Inv.free {start size : ℕ} (h : Inv s) (hpart : Set.Ico start (start + size) ⊆ s.others)
    (hcall : s.allocator.call (.free start size) = some (.ok none, a)) :
    Inv { s with allocator := a, others := s.others \ Set.Ico start (start + size) } := by
  obtain ⟨l, hl⟩ := h.rep
  have hguard : s.allocator.FreesTaken (.free start size) :=
    (h.disjoint (i := .others) (j := .free) Holder.noConfusion).mono_left hpart
  obtain ⟨hrep, hspec⟩ := hl.call hguard hcall
  generalize hF : a.freeBytes = F at hspec
  cases hspec with
  | freed =>
    refine ⟨h.separate.move (i := .others) (j := .free) hrep
      ⟨Holder.noConfusion, hpart, subset_rfl, hF.subset, fun k hk hkj => ?_⟩, h.sound⟩
    cases k with
    | free => exact absurd rfl hkj
    | others => exact absurd rfl hk
    | _ => exact subset_rfl

theorem switchActiveVm_frame (s : System) (vmId : ℕ) :
    (s.switchActiveVm vmId).1 = { s with activeVm := (s.switchActiveVm vmId).1.activeVm } := by
  rw [System.switchActiveVm]
  split
  · rfl
  · rfl

theorem Inv.step (h : Inv s) (hadmits : Admits s e) (hstep : Step id s e u) : Inv u := by
  cases hstep with
  | allocateRam hp hcall => exact h.allocateRam hcall
  | noRam hp hcall => exact (h.refuse (c := .allocate _ _) trivial hcall).halt
  | @takeId p _ hp =>
    refine h.advance h.rep rfl rfl rfl rfl ?_ ?_ ?_
    · rw [hp]
      exact subset_rfl
    · exact Set.empty_subset _
    · have hsound := h.sound p
      rwa [hp] at hsound
  | initTables hp hcall ht => exact h.initTables hp hcall ht
  | noRoot hp hcall => exact (h.refuse (c := .allocate _ _) trivial hcall).halt
  | allocateTable hp hcall => exact h.allocateTable hp hcall
  | noTable hp hcall hmap => exact h.noTable hp hcall hmap
  | map hp hmap hall => exact h.map hp hmap hall
  | load hp haddress hkernel hm =>
    exact (h.load hp haddress hkernel (hadmits _ haddress) hm).proceed hp rfl rfl rfl rfl
  | notLoaded hp haddress hkernel hm =>
    exact (h.load hp haddress hkernel (hadmits _ haddress) hm).halt
  | list hp => exact h.proceed hp rfl rfl rfl rfl
  | switch hp =>
    rw [switchActiveVm_frame]
    exact h.proceed hp rfl rfl rfl rfl
  | enter hp => exact h.proceed hp rfl rfl rfl rfl
  | store hp hx hwritable => exact h.stored hp hx
  | switchActiveVm =>
    rw [switchActiveVm_frame]
    exact ⟨h.separate.mono h.rep fun i => by cases i <;> exact subset_rfl, h.sound⟩
  | allocate hcall => exact h.allocate hcall
  | notAllocated hcall => exact h.refuse (c := .allocate _ _) trivial hcall
  | free hcall => exact h.free hadmits hcall
  | notFreed hcall =>
    have hguard := (h.disjoint (i := .others) (j := .free) Holder.noConfusion).mono_left hadmits
    exact h.refuse (c := .free _ _) hguard hcall
  | write hm => exact h.fill (i := .others) (fun _ => Holder.noConfusion) hm hadmits

/-- What the allocator has is apart from what its callers have. -/
structure Boots (allocator : MemoryAllocator) (others : Set ℕ) : Prop where
  run : Runs.GuardedRun CallStep FreesTaken new allocator
  apart : Disjoint allocator.freeBytes others
  low : ∀ x ∈ allocator.freeBytes ∪ others, x < 2 ^ 47

theorem Boots.inv {allocator : MemoryAllocator} {others : Set ℕ} (h : Boots allocator others)
    (memory : Paging.Memory) : Inv (boot allocator memory others) where
  separate :=
    { rep := rep_of_run h.run
      apart := fun i j hij => by
        cases i with
        | free =>
          cases j with
          | free => exact absurd rfl hij
          | others => exact h.apart
          | _ => exact Set.disjoint_empty _
        | others =>
          cases j with
          | free => exact h.apart.symm
          | others => exact absurd rfl hij
          | _ => exact Set.disjoint_empty _
        | _ => exact Set.empty_disjoint _
      low := fun i x hx => by
        cases i with
        | free => exact h.low x (.inl hx)
        | others => exact h.low x (.inr hx)
        | _ => exact absurd hx (Set.notMem_empty x) }
  sound _ := trivial

theorem Inv.of_run {allocator : MemoryAllocator} {others : Set ℕ} {memory : Paging.Memory}
    (h : Boots allocator others)
    (hrun : Runs.GuardedRun (Step id) Admits (boot allocator memory others) s) : Inv s :=
  hrun.invariant (fun _ _ _ hinv hadmits hstep => hinv.step hadmits hstep) (h.inv memory)

/-- A store of the guest on CPU `p` stays in its RAM. -/
theorem Inv.store {x : ℕ} (h : Inv s) (hstep : Step id s (.store p x) u) :
    (∀ b ∉ (s.cpus p).ramBytes, u.memory b = s.memory b) ∧
      ∀ q g progress, s.cpus q = .created g progress →
        ∀ y, (g.stage2 u.memory).translate y = (g.stage2 s.memory).translate y := by
  have hinv : Inv u := h.step (e := .store p x) trivial hstep
  cases hstep with
  | store hp hx hwritable =>
    refine ⟨fun b hb => Function.update_of_ne ?_ .., fun q g progress hq y => ?_⟩
    · rintro rfl
      have hin := h.translate hp hx
      have haligned := (h.sound_created hp).1.aligned
      rw [System.held, hp] at hin
      rw [hp] at hb
      exact hb ((wordOf_mem_iff haligned (by decide)).2 hin)
    · rw [(h.sound_created hq).2, (hinv.sound_created hq).2]

end Inv

/-- In every state of a run the tables of each guest translate its RAM and nothing else, and the
RAM of each guest, the tables of each CPU, the bytes of the other callers and the free bytes are
apart; and what a guest stores changes its own RAM and no translation. -/
theorem isolated_of_run {id : ℕ → BitVec 64} {allocator : MemoryAllocator} {others : Set ℕ}
    {memory : Paging.Memory} {s : System} (hboots : Boots allocator others)
    (hrun : Runs.GuardedRun (Step id) Admits (boot allocator memory others) s) :
    (∀ p g progress, s.cpus p = .created g progress →
      ∀ x, (g.stage2 s.memory).translate x = g.target x) ∧
    Apart s.held ∧
    ∀ p x u, Step id s (.store p x) u →
      (∀ b ∉ (s.cpus p).ramBytes, u.memory b = s.memory b) ∧
        ∀ q g progress, s.cpus q = .created g progress →
          ∀ y, (g.stage2 u.memory).translate y = (g.stage2 s.memory).translate y := by
  have hinv := Inv.of_run hboots hrun
  exact ⟨fun p g progress hp => (hinv.sound_created hp).2, hinv.separate.apart,
    fun p x u hstep => hinv.store hstep⟩

/-! ## A guest that runs -/

/-- Root tables at the block behind the RAM. -/
def sampleRoot : Stage2 := initStage2TranslationTable 0 0x90000000 fun _ => .new

def sampleGuest : Guest where
  vmId := 0
  ram := 0x80000000
  vtcrEl2 := sampleRoot.vtcrEl2
  vttbrEl2 := sampleRoot.vttbrEl2
  tables := sampleRoot.tables

/-- The blocks that a CPU gets for its RAM, its root table and the table below. -/
theorem sample_blocks : ∃ a a₁ a₂ a₃, Boots a ∅ ∧
    allocatePages a (ramSize >>> pageShift) pageShift = some (.ok (some 0x80000000), a₁) ∧
    allocatePages a₁ 1 12 = some (.ok (some 0x90000000), a₂) ∧
    allocatePages a₂ 1 12 = some (.ok (some 0x90001000), a₃) := by
  have heval : ((new.free 0x80000000 0x20000000).bind fun r =>
      (allocatePages r.2 (ramSize >>> pageShift) pageShift).bind fun r₁ =>
        (allocatePages r₁.2 1 12).bind fun r₂ => (allocatePages r₂.2 1 12).map fun r₃ =>
          (r.1, r₁.1, r₂.1, r₃.1)) = some (.ok (), .ok (some 0x80000000), .ok (some 0x90000000),
            .ok (some 0x90001000)) := by decide +kernel
  obtain ⟨⟨r, a⟩, hfree, h⟩ := Option.bind_eq_some_iff.1 heval
  obtain ⟨⟨r₁, a₁⟩, h₁, h⟩ := Option.bind_eq_some_iff.1 h
  obtain ⟨⟨r₂, a₂⟩, h₂, h⟩ := Option.bind_eq_some_iff.1 h
  obtain ⟨⟨r₃, a₃⟩, h₃, h⟩ := Option.map_eq_some_iff.1 h
  simp only [Prod.mk.injEq] at h
  obtain ⟨rfl, rfl, rfl, rfl⟩ := h
  have htaken : new.FreesTaken (.free 0x80000000 0x20000000) := freesTaken_new _ _
  have hcall : new.afterCall (.free 0x80000000 0x20000000) = some a := by
    rw [afterCall, call, hfree]
    rfl
  obtain ⟨hbytes, -⟩ := rep_new.free htaken hfree
  refine ⟨a, a₁, a₂, a₃, ⟨(Runs.GuardedRun.refl new).snoc htaken hcall, Set.disjoint_empty _,
    fun x hx => ?_⟩, h₁, h₂, h₃⟩
  rw [hbytes, freeBytes_new, Set.empty_union, Set.union_empty] at hx
  exact hx.2.trans (by norm_num)

theorem sample_map : ∃ t, mapAddressStage2 (sampleGuest.stage2 sampleRoot.memory) [0x90001000]
    sampleGuest.ram ramVirtualBase ramSize true true = some (.ok t) ∧
      t.tables = [0x90001000, 0x90000000] := by
  have heval : ((mapAddressStage2 (sampleGuest.stage2 sampleRoot.memory) [0x90001000]
      sampleGuest.ram ramVirtualBase ramSize true true).bind fun r => r.toOption.map (·.tables)) =
        some [0x90001000, 0x90000000] := by decide +kernel
  obtain ⟨r, hmap, hr⟩ := Option.bind_eq_some_iff.1 heval
  cases r with
  | error t => exact absurd hr (by simp [Except.toOption])
  | ok t => exact ⟨t, hmap, Option.some.inj hr⟩

/-- A CPU creates its VM and enters the guest. -/
theorem sample_run : ∃ a s g, Boots a ∅ ∧
    Runs.GuardedRun (Step fun _ => 0) Admits (boot a (fun _ => .new) ∅) s ∧
    s.cpus 0 = .created g .running ∧ g.vmId = 0 ∧ g.ram = 0x80000000 := by
  obtain ⟨a, a₁, a₂, a₃, hboots, h₁, h₂, h₃⟩ := sample_blocks
  obtain ⟨t, hmap, htables⟩ := sample_map
  have haddress : kernelVirtualAddress 0x1000 = some 0x40200000 := by decide +kernel
  have hkernel : (GuestRam.mk ramVirtualBase 0x80000000 ramSize).getPhysicalAddress 0x40200000 =
      some (some 0x80200000) := by decide +kernel
  refine ⟨a, _, { sampleGuest with tables := t.tables }, hboots,
    .cons (i := .allocateRam 0) trivial (.allocateRam rfl h₁)
    (.cons (i := .takeId 0) (show 0 + 1 < 2 ^ 64 by norm_num) (.takeId rfl)
    (.cons (i := .initTables 0) trivial (.initTables rfl h₂ rfl)
    (.cons (i := .allocateTable 0) trivial (.allocateTable rfl h₃)
    (.cons (i := .map 0) trivial (.map rfl hmap htables)
    (.cons (i := .load 0 0x1000 0x1000) ?_ (.load rfl haddress hkernel (fun _ _ => rfl))
    (.cons (i := .list 0) trivial (.list rfl)
    (.cons (i := .switch 0) trivial (.switch rfl)
    (.cons (i := .enter 0) trivial (.enter rfl) (.refl _))))))))), rfl, rfl, rfl⟩
  intro address h
  obtain rfl := Option.some.inj (haddress.symm.trans h)
  decide

theorem sample_isolated : ∃ a s g, Boots a ∅ ∧
    Runs.GuardedRun (Step fun _ => 0) Admits (boot a (fun _ => .new) ∅) s ∧
    s.cpus 0 = .created g .running ∧
    (g.stage2 s.memory).translate 0x40000123 = some (0x80000123, 3) := by
  obtain ⟨a, s, g, hboots, hrun, hs, -, hram⟩ := sample_run
  have htarget := (isolated_of_run hboots hrun).1 0 g .running hs 0x40000123
  rw [Guest.target, if_pos (by decide), hram] at htarget
  exact ⟨a, s, g, hboots, hrun, hs, htarget⟩

end Creation

end MiniVisor
