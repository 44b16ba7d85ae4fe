import MiniVisor.PagingWalk

/-!
# What one mapping call does

Each loop of `_map_address_stage2` handles a contiguous piece of the range. `Mapped`
says what a piece does to the walks: inside the piece they give the new target,
outside they are as before unless a block was cut. Pieces compose.
-/
namespace MiniVisor

namespace Paging

open Descriptor RadixTree

variable {own own' own₁ own₂ : Owner} {m m' : Memory} {s s' s₁ s₂ : MapState}
  {a base depth r₀ t num x lo hi : ℕ} {r w : Bool}

/-! ## Well-formed table memory -/

/-- The tables are a tree, and the code reads table addresses as the walk does. -/
structure Tables (own : Owner) (m : Memory) : Prop where
  placed : Placed layout nextTable own m
  address : ∀ a d t, own a = some (d + 1, t) → (m a).isTableDescriptor = true →
    (m a).getNextLevelTableAddress = walkTableAddress (m a)

/-- Cells lie in the pages recorded as tables, and pages to come are others. -/
structure Good (own : Owner) (s : MapState) : Prop where
  tables : Tables own s.memory
  covered : ∀ a, own a ≠ none → ∃ p ∈ s.tables, p ≤ a ∧ a < p + 4096
  aligned : ∀ p ∈ s.tables, p % 4096 = 0
  pages_nodup : s.pages.Nodup
  pages_fresh : ∀ q ∈ s.pages, q % 4096 = 0 ∧ q < 2 ^ 47 ∧ q ∉ s.tables

/-- Something is left to map, at page-aligned addresses below `2^48`. -/
structure Cursor (s : MapState) : Prop where
  physical : s.physicalAddress % 4096 = 0
  intermediate : s.intermediatePhysicalAddress % 4096 = 0
  size : s.remainingSize % 4096 = 0
  pos : 0 < s.remainingSize
  bound : s.physicalAddress + s.remainingSize ≤ 2 ^ 48

/-- The cells of a table of `num` descriptors at `base` own the regions from `r₀` on. -/
def Slots (own : Owner) (depth base r₀ num : ℕ) : Prop :=
  ∀ j < num, own (base + 8 * j) = some (depth, r₀ + j)

theorem Slots.mono (h : Slots own depth base r₀ num)
    (hext : ∀ a p, own a = some p → own' a = some p) : Slots own' depth base r₀ num :=
  fun j hj => hext _ _ (h j hj)

/-- The cell of a table at `base` for an address. -/
def cell (base r₀ depth x : ℕ) : ℕ := base + 8 * (layout.region depth x - r₀)

theorem Slots.cell (h : Slots own depth base r₀ num) (hlo : r₀ ≤ layout.region depth x)
    (hhi : layout.region depth x < r₀ + num) :
    own (cell base r₀ depth x) = some (depth, layout.region depth x) := by
  have := h (layout.region depth x - r₀) (by omega)
  rwa [Nat.add_sub_cancel' hlo] at this

/-! ## Pieces of a range -/

/-- The step from `s` to `s'` mapped the addresses between the two cursors through
the cells of the table at `base`, with descriptors that map nothing else. -/
structure Mapped (r w : Bool) (depth base r₀ : ℕ) (own own' : Owner) (s s' : MapState) : Prop where
  good : Good own' s'
  ext : ∀ a p, own a = some p → own' a = some p
  frame : Preserves layout nextTable .new own s.memory s'.memory s.intermediatePhysicalAddress
    s'.intermediatePhysicalAddress
  above : ∀ a e t, own a = some (e, t) → depth < e → s'.memory a = s.memory a
  le : s.intermediatePhysicalAddress ≤ s'.intermediatePhysicalAddress
  cells : ∀ x, s.intermediatePhysicalAddress ≤ x → x < s'.intermediatePhysicalAddress →
    own' (cell base r₀ depth x) = some (depth, layout.region depth x)
  mapped : ∀ x, s.intermediatePhysicalAddress ≤ x → x < s'.intermediatePhysicalAddress →
    walk s'.memory depth (cell base r₀ depth x) x =
      some (s.physicalAddress + (x - s.intermediatePhysicalAddress), accessBits r w)
  fits : ∀ x, s.intermediatePhysicalAddress ≤ x → x < s'.intermediatePhysicalAddress →
    ∀ y, layout.region (descend s'.memory depth (cell base r₀ depth x) x).1 y =
        layout.region (descend s'.memory depth (cell base r₀ depth x) x).1 x →
      s.intermediatePhysicalAddress ≤ y ∧ y < s'.intermediatePhysicalAddress
  moved : s'.physicalAddress + s.intermediatePhysicalAddress =
    s.physicalAddress + s'.intermediatePhysicalAddress
  left : s'.remainingSize + s'.intermediatePhysicalAddress =
    s.remainingSize + s.intermediatePhysicalAddress

theorem Mapped.refl (hgood : Good own s) : Mapped r w depth base r₀ own own s s where
  good := hgood
  ext _ _ h := h
  frame := Preserves.refl _ _ _
  above _ _ _ _ _ := rfl
  le := le_rfl
  cells _ hlo hhi := absurd hlo (not_le.2 hhi)
  mapped _ hlo hhi := absurd hlo (not_le.2 hhi)
  fits _ hlo hhi := absurd hlo (not_le.2 hhi)
  moved := rfl
  left := rfl

/-- An address before a boundary keeps its walk when only addresses behind the
boundary are mapped. -/
theorem descend_of_preserves {b : ℕ}
    (h : Preserves layout nextTable .new own m m' (b * layout.size depth) hi)
    (ha : own a = some (depth, layout.region depth x)) (hx : x < b * layout.size depth) :
    descend m' depth a x = descend m depth a x := by
  obtain heq | ⟨-, y, hy, -, hregion⟩ := h a depth x ha (by omega)
  · exact heq
  · -- the block of `x` would reach over the boundary
    have hle := descend_depth_le layout nextTable m depth a x
    have hsame := layout.region_congr hle hregion
    have hpos := layout.size_pos depth
    have hy' : b ≤ layout.region depth y := (Nat.le_div_iff_mul_le hpos).2 hy
    have hx' : layout.region depth x < b := (Nat.div_lt_iff_lt_mul hpos).2 hx
    omega

/-- Two pieces that meet at a boundary of the table's cells. -/
theorem Mapped.trans {b : ℕ} (h : Mapped r w depth base r₀ own own₁ s s₁)
    (h' : Mapped r w depth base r₀ own₁ own₂ s₁ s₂)
    (hb : s₁.intermediatePhysicalAddress = b * layout.size depth) :
    Mapped r w depth base r₀ own own₂ s s₂ where
  good := h'.good
  ext a p ha := h'.ext a p (h.ext a p ha)
  frame := (h.frame.mono le_rfl h'.le).trans h.ext (h'.frame.mono h.le le_rfl)
  above a e t ha hlt := (h'.above a e t (h.ext _ _ ha) hlt).trans (h.above a e t ha hlt)
  le := h.le.trans h'.le
  cells x hlo hhi := by
    by_cases hx : x < s₁.intermediatePhysicalAddress
    · exact h'.ext _ _ (h.cells x hlo hx)
    · exact h'.cells x (not_lt.1 hx) hhi
  mapped x hlo hhi := by
    by_cases hx : x < s₁.intermediatePhysicalAddress
    · rw [walk_eq, descend_of_preserves (b := b) (hb ▸ h'.frame) (h.cells x hlo hx) (hb ▸ hx),
        ← walk_eq]
      exact h.mapped x hlo hx
    · rw [h'.mapped x (not_lt.1 hx) hhi]
      have := h.moved
      have := h.le
      congr 2
      omega
  fits x hlo hhi y hy := by
    have hle := h.le
    have hle' := h'.le
    by_cases hx : x < s₁.intermediatePhysicalAddress
    · rw [descend_of_preserves (b := b) (hb ▸ h'.frame) (h.cells x hlo hx) (hb ▸ hx)] at hy
      have := h.fits x hlo hx y hy
      omega
    · have := h'.fits x (not_lt.1 hx) hhi y hy
      omega
  moved := by
    have := h.moved
    have := h'.moved
    omega
  left := h'.left.trans h.left

/-! ## One descriptor -/

theorem put_eq_some {d : Descriptor} {size : ℕ} (h : s.put a d size = some s') :
    s' = { s with
      memory := Function.update s.memory a d
      physicalAddress := s.physicalAddress + size
      intermediatePhysicalAddress := s.intermediatePhysicalAddress + size
      remainingSize := s.remainingSize - size } ∧ size ≤ s.remainingSize := by
  simp only [MapState.put, bind, Option.bind_eq_some_iff, pure, Option.some.injEq] at h
  obtain ⟨pa, hpa, ipa, hipa, rest, hrest, rfl⟩ := h
  obtain ⟨-, rfl⟩ := Checked.add_eq_some.1 hpa
  obtain ⟨-, rfl⟩ := Checked.add_eq_some.1 hipa
  obtain ⟨hle, rfl⟩ := Checked.sub_eq_some.1 hrest
  exact ⟨rfl, hle⟩

theorem Tables.update {d : Descriptor} (h : Tables own m) (ha : own a = some (depth, t))
    (hd : depth ≠ 0 → d.isTableDescriptor = false) : Tables own (Function.update m a d) where
  placed := by
    refine h.placed.update ha fun e q he hq => ?_
    rw [nextTable_eq_none (hd (by omega))] at hq
    exact absurd hq (by simp)
  address b e u hb htable := by
    by_cases hba : b = a
    · subst hba
      obtain ⟨rfl, -⟩ := Prod.mk.injEq .. ▸ Option.some.inj (ha.symm.trans hb)
      rw [Function.update_self, hd (by omega)] at htable
      exact absurd htable (by simp)
    · rw [Function.update_of_ne hba] at htable ⊢
      exact h.address b e u hb htable

/-- A page or block descriptor maps the whole region of its cell. -/
theorem Good.put {d : Descriptor} (h : Good own s)
    (hown : own (cell base r₀ depth s.intermediatePhysicalAddress) = some (depth, t))
    (hipa : s.intermediatePhysicalAddress = t * layout.size depth)
    (hd : depth ≠ 0 → d.isTableDescriptor = false)
    (hleaf : ∀ x, leaf depth d x =
      some (s.physicalAddress + x % layout.size depth, accessBits r w))
    (hput : s.put (cell base r₀ depth s.intermediatePhysicalAddress) d (layout.size depth) =
      some s') : Mapped r w depth base r₀ own own s s' := by
  obtain ⟨rfl, hle⟩ := put_eq_some hput
  have hpos := layout.size_pos depth
  have hend : s.intermediatePhysicalAddress + layout.size depth = (t + 1) * layout.size depth := by
    rw [hipa, Nat.add_mul, Nat.one_mul]
  have hregion : ∀ x, s.intermediatePhysicalAddress ≤ x →
      x < s.intermediatePhysicalAddress + layout.size depth → layout.region depth x = t :=
    fun x hlo hhi => layout.region_eq_iff.2 ⟨hipa ▸ hlo, hend ▸ hhi⟩
  have hself := hregion _ le_rfl (by omega)
  have hcell : ∀ x, s.intermediatePhysicalAddress ≤ x →
      x < s.intermediatePhysicalAddress + layout.size depth →
      cell base r₀ depth x = cell base r₀ depth s.intermediatePhysicalAddress :=
    fun x hlo hhi => by rw [cell, cell, hregion x hlo hhi, hself]
  have hdesc : ∀ x, descend (Function.update s.memory
      (cell base r₀ depth s.intermediatePhysicalAddress) d) depth
      (cell base r₀ depth s.intermediatePhysicalAddress) x = (depth, d) := by
    intro x
    cases depth with
    | zero => rw [descend, RadixTree.descend, Function.update_self]
    | succ depth =>
      rw [descend, descend_of_none, Function.update_self]
      rw [Function.update_self, nextTable_eq_none (hd (by omega))]
  refine ⟨⟨h.tables.update hown hd, h.covered, h.aligned, h.pages_nodup, h.pages_fresh⟩,
    fun _ _ ha => ha, ?_, fun b e u hb hlt => ?_, Nat.le_add_right _ _, fun x hlo hhi => ?_,
    fun x hlo hhi => ?_, fun x hlo hhi y hy => ?_, ?_, ?_⟩
  · dsimp only
    rw [hend, hipa]
    rw [hipa] at hown
    exact Preserves.write h.tables.placed hown
  · refine Function.update_of_ne (fun hba => ?_) ..
    rw [hba, hown] at hb
    obtain ⟨rfl, -⟩ := Prod.mk.injEq .. ▸ Option.some.inj hb
    omega
  · rw [hcell x hlo hhi, hown, hregion x hlo hhi]
  · rw [hcell x hlo hhi, walk_eq]
    dsimp only
    have hmod : x % layout.size depth = x - s.intermediatePhysicalAddress := by
      have hdiv : x / layout.size depth = t := hregion x hlo hhi
      rw [Nat.mod_eq_sub_mul_div, hdiv, hipa, Nat.mul_comm]
    rw [hdesc, hleaf, hmod]
  · dsimp only at hy ⊢
    rw [hcell x hlo hhi, hdesc] at hy
    rw [hend, hipa]
    exact layout.region_eq_iff.1 (hy.trans (hregion x hlo hhi))
  · dsimp only
    omega
  · dsimp only
    omega

/-! ## The table below a descriptor -/

theorem initTable_of_mem {q i num : ℕ} (hi : i < num) : initTable m q num (q + 8 * i) = .new := by
  rw [initTable, if_pos]
  omega

theorem initTable_of_not_mem {q num : ℕ} (h : ¬(q ≤ a ∧ a < q + 8 * num)) :
    initTable m q num a = m a := by
  rw [initTable, if_neg]
  omega

/-- The cursors are where they were. -/
def SameCursor (s s' : MapState) : Prop :=
  s'.physicalAddress = s.physicalAddress ∧
    s'.intermediatePhysicalAddress = s.intermediatePhysicalAddress ∧
    s'.remainingSize = s.remainingSize

theorem Good.nextLevelTable {q : ℕ} (h : Good own s) (ha : own a = some (depth + 1, t))
    (ht : layout.region (depth + 1) lo = t)
    (hnext : nextLevelTable s a = .ok (q, s₁)) :
    ∃ own₁, Good own₁ s₁ ∧ (∀ a p, own a = some p → own₁ a = some p) ∧
      Preserves layout nextTable .new own s.memory s₁.memory lo (lo + 1) ∧
      (∀ b e u, own b = some (e, u) → depth + 1 < e → s₁.memory b = s.memory b) ∧
      Slots own₁ depth q (512 * t) 512 ∧ nextTable (s₁.memory a) = some q ∧ SameCursor s s₁ := by
  unfold Paging.nextLevelTable at hnext
  split_ifs at hnext with htable
  · obtain ⟨rfl, rfl⟩ := Prod.mk.injEq .. ▸ Except.ok.inj hnext
    have hq : nextTable (s.memory a) = some (s.memory a).getNextLevelTableAddress := by
      rw [nextTable, if_pos htable, h.tables.address a depth t ha htable]
    exact ⟨own, h, fun _ _ hb => hb, Preserves.refl _ _ _, fun _ _ _ _ _ => rfl,
      h.tables.placed a depth t _ ha hq, hq, rfl, rfl, rfl⟩
  · split at hnext
    · exact absurd hnext (by simp)
    rename_i page pages hpages
    obtain ⟨rfl, rfl⟩ := Prod.mk.injEq .. ▸ Except.ok.inj hnext
    obtain ⟨hal, hlt, hfresh⟩ := h.pages_fresh page (by simp [hpages])
    -- no cell lies in the fresh page
    have hout : ∀ b, own b ≠ none → ¬(page ≤ b ∧ b < page + 8 * 512) := by
      rintro b hb ⟨hb₁, hb₂⟩
      obtain ⟨p, hp, hp₁, hp₂⟩ := h.covered b hb
      have := h.aligned p hp
      obtain rfl : p = page := by omega
      exact hfresh hp
    obtain ⟨own₁, hext, hnew, hold, hplaced, hpres⟩ := Preserves.grow (L := layout)
      (q := page) (v := .table page) h.tables.placed ha
      (nextTable_eq_none (by simpa using htable)) nextTable_new (nextTable_table hal hlt)
      (fun i hi => by
        by_contra hne
        have hi : i < 512 := hi
        exact hout _ hne ⟨Nat.le_add_right _ _, by change page + 8 * i < _; omega⟩)
      (fun b hb => initTable_of_not_mem (hout b hb)) (fun i hi => initTable_of_mem hi) ht
      (Nat.lt_succ_self _)
    refine ⟨own₁, ⟨⟨hplaced, ?_⟩, ?_, ?_, ?_, ?_⟩, hext, hpres, ?_, hnew, ?_, rfl, rfl, rfl⟩
    · intro b e u hb htab
      dsimp only at htab ⊢
      by_cases hba : b = a
      · subst hba
        obtain ⟨-, hwalk, hget⟩ := isTableDescriptor_table hal hlt
        rw [Function.update_self, hget, hwalk]
      · rw [Function.update_of_ne hba] at htab ⊢
        by_cases hin : ∃ i < 512, b = page + 8 * i
        · obtain ⟨i, hi, rfl⟩ := hin
          rw [initTable_of_mem hi] at htab
          exact absurd htab (by decide)
        · obtain hob | hob := hold b (by simp [hb])
          · have hbu : own b = some (e + 1, u) := by
              obtain ⟨p, hp⟩ := Option.ne_none_iff_exists'.1 hob
              rw [hp, ← hb, hext b p hp]
            rw [initTable_of_not_mem (hout b hob)] at htab ⊢
            exact h.tables.address b e u hbu htab
          · exact absurd hob hin
    · intro b hb
      obtain hob | ⟨i, hi, rfl⟩ := hold b hb
      · obtain ⟨p, hp, hpb⟩ := h.covered b hob
        exact ⟨p, by simp [hp], hpb⟩
      · have hi : i < 512 := hi
        exact ⟨page, by simp, Nat.le_add_right _ _, by change page + 8 * i < _; omega⟩
    · intro p hp
      obtain rfl | hp := List.mem_cons.1 hp
      · exact hal
      · exact h.aligned p hp
    · exact (List.nodup_cons.1 (hpages ▸ h.pages_nodup)).2
    · intro q hq
      obtain ⟨hqa, hql, hqt⟩ := h.pages_fresh q (by simp [hpages, hq])
      refine ⟨hqa, hql, fun hmem => ?_⟩
      obtain rfl | hmem := List.mem_cons.1 hmem
      · exact (List.nodup_cons.1 (hpages ▸ h.pages_nodup)).1 hq
      · exact hqt hmem
    · intro b e u hb hlt'
      dsimp only
      rw [Function.update_of_ne, initTable_of_not_mem (hout b (by simp [hb]))]
      rintro rfl
      obtain ⟨rfl, -⟩ := Prod.mk.injEq .. ▸ Option.some.inj (ha.symm.trans hb)
      omega
    · dsimp only
      rw [Function.update_self]
      exact nextTable_table hal hlt

theorem walk_of_next {q : ℕ} (h : nextTable (m a) = some q) :
    walk m (depth + 1) a x = walk m depth (layout.slot q depth x) x := by
  rw [walk_eq, walk_eq, descend, descend, descend_of_next h]

/-- What was mapped in the table below a descriptor is mapped through the descriptor. -/
theorem Mapped.below {q : ℕ} (h : Mapped r w depth q (512 * t) own₁ own₂ s₁ s₂)
    (hext : ∀ a p, own a = some p → own₁ a = some p)
    (hown : own (cell base r₀ (depth + 1) s.intermediatePhysicalAddress) = some (depth + 1, t))
    (ht : layout.region (depth + 1) s.intermediatePhysicalAddress = t)
    (hend : s₂.intermediatePhysicalAddress ≤ (t + 1) * layout.size (depth + 1))
    (hpres : Preserves layout nextTable .new own s.memory s₁.memory s.intermediatePhysicalAddress
      s₂.intermediatePhysicalAddress)
    (habove : ∀ b e u, own b = some (e, u) → depth + 1 < e → s₁.memory b = s.memory b)
    (hnext : nextTable (s₁.memory (cell base r₀ (depth + 1) s.intermediatePhysicalAddress)) = some q)
    (hsame : SameCursor s s₁) : Mapped r w (depth + 1) base r₀ own own₂ s s₂ := by
  obtain ⟨hpa, hipa, hsize⟩ := hsame
  have hregion : ∀ x, s.intermediatePhysicalAddress ≤ x → x < s₂.intermediatePhysicalAddress →
      layout.region (depth + 1) x = t := fun x hlo hhi =>
    layout.region_eq_iff.2 ⟨(layout.region_eq_iff.1 ht).1.trans hlo, hhi.trans_le hend⟩
  have hcell : ∀ x, s.intermediatePhysicalAddress ≤ x → x < s₂.intermediatePhysicalAddress →
      cell base r₀ (depth + 1) x = cell base r₀ (depth + 1) s.intermediatePhysicalAddress :=
    fun x hlo hhi => by rw [cell, cell, hregion x hlo hhi, ht]
  have hslot : ∀ x, s.intermediatePhysicalAddress ≤ x → x < s₂.intermediatePhysicalAddress →
      layout.slot q depth x = cell q (512 * t) depth x := by
    intro x hlo hhi
    have hdigit := layout.region_eq depth x
    rw [hregion x hlo hhi] at hdigit
    rw [RadixTree.Layout.slot, cell]
    change q + 8 * (layout.region depth x % 512) = _
    change layout.region depth x = 512 * t + layout.region depth x % 512 at hdigit
    omega
  have hkept : nextTable (s₂.memory (cell base r₀ (depth + 1) s.intermediatePhysicalAddress)) =
      some q := by
    rw [h.above _ _ _ (hext _ _ hown) (Nat.lt_succ_self depth), hnext]
  refine ⟨h.good, fun b p hb => h.ext b p (hext b p hb), hpres.trans hext (hipa ▸ h.frame),
    fun b e u hb hlt => ?_, hipa ▸ h.le, fun x hlo hhi => ?_, fun x hlo hhi => ?_,
    fun x hlo hhi y hy => ?_, ?_, ?_⟩
  · rw [h.above b e u (hext b _ hb) (by omega), habove b e u hb hlt]
  · rw [hcell x hlo hhi, hregion x hlo hhi]
    exact h.ext _ _ (hext _ _ hown)
  · rw [hcell x hlo hhi, walk_of_next hkept, hslot x hlo hhi, h.mapped x (hipa ▸ hlo) hhi, hpa, hipa]
  · rw [hcell x hlo hhi, descend, descend_of_next hkept, hslot x hlo hhi] at hy
    rw [← hipa]
    exact h.fits x (hipa ▸ hlo) hhi y hy
  · rw [← hipa, ← hpa]
    exact h.moved
  · rw [← hipa, ← hsize]
    exact h.left

/-! ## The loops -/

/-- A loop over the cells from `r₀` to `r₀ + num` mapped everything, or went to the
end of its table. -/
structure Done (r w : Bool) (depth base r₀ num : ℕ) (own : Owner) (s s' : MapState) : Prop where
  mapped : ∃ own', Mapped r w depth base r₀ own own' s s'
  finished : s'.remainingSize = 0 ∨
    s'.intermediatePhysicalAddress = (r₀ + num) * layout.size depth
  inside : s'.intermediatePhysicalAddress ≤ (r₀ + num) * layout.size depth

theorem Cursor.next (h : Cursor s) (hm : Mapped r w depth base r₀ own own' s s')
    (hipa : s'.intermediatePhysicalAddress % 4096 = 0) (hne : s'.remainingSize ≠ 0) :
    Cursor s' := by
  have := hm.moved
  have := hm.left
  have := hm.le
  obtain ⟨h₁, h₂, h₃, h₄, h₅⟩ := h
  exact ⟨by omega, hipa, by omega, by omega, by omega⟩

theorem layout_size_mod (depth : ℕ) : layout.size depth % 4096 = 0 := by
  rw [RadixTree.Layout.size]
  exact Nat.mul_mod_right 4096 _

theorem mul_size_mod (b depth : ℕ) : b * layout.size depth % 4096 = 0 := by
  rw [Nat.mul_mod, layout_size_mod, Nat.mul_zero, Nat.zero_mod]

/-- One cell was handled; the loop ends or goes on with the next cell. -/
theorem Done.step (hslots : Slots own depth base r₀ num) {j : ℕ} (hj : j < num)
    (hm : Mapped r w depth base r₀ own own₁ s s₁)
    (hend : s₁.intermediatePhysicalAddress ≤ (r₀ + j + 1) * layout.size depth)
    (hfin : s₁.remainingSize = 0 ∨
      s₁.intermediatePhysicalAddress = (r₀ + j + 1) * layout.size depth)
    (hrest : s₁.remainingSize ≠ 0 →
      s₁.intermediatePhysicalAddress = (r₀ + j + 1) * layout.size depth →
      Slots own₁ depth base r₀ num → Done r w depth base r₀ num own₁ s₁ s')
    (hstop : s₁.remainingSize = 0 → s' = s₁) : Done r w depth base r₀ num own s s' := by
  have hle : (r₀ + j + 1) * layout.size depth ≤ (r₀ + num) * layout.size depth :=
    Nat.mul_le_mul_right _ (by omega)
  by_cases hzero : s₁.remainingSize = 0
  · obtain rfl := hstop hzero
    exact ⟨⟨own₁, hm⟩, .inl hzero, hend.trans hle⟩
  · have hb := hfin.resolve_left hzero
    obtain ⟨⟨own', hm'⟩, hfin', hin'⟩ := hrest hzero hb (hslots.mono hm.ext)
    exact ⟨⟨own', hm.trans hm' hb⟩, hfin', hin'⟩

theorem cell_eq {j : ℕ} (h : layout.region depth x = r₀ + j) :
    cell base r₀ depth x = base + 8 * j := by
  rw [cell, h, Nat.add_sub_cancel_left]

theorem Done.atEnd (hgood : Good own s) (hipa : s.intermediatePhysicalAddress =
    (r₀ + num) * layout.size depth) : Done r w depth base r₀ num own s s :=
  ⟨⟨own, Mapped.refl hgood⟩, .inr hipa, hipa.le⟩

theorem mapPages_done {n j : ℕ} (hgood : Good own s) (hslots : Slots own 0 base r₀ num)
    (hj : j + n = num) (hcur : Cursor s)
    (hipa : s.intermediatePhysicalAddress = (r₀ + j) * layout.size 0)
    (h : mapPages (permissionBits r w) n (base + 8 * j) s = some s') :
    Done r w 0 base r₀ num own s s' := by
  induction n generalizing s j own with
  | zero =>
    obtain rfl := Option.some.inj h
    exact Done.atEnd hgood (by rw [hipa, ← hj, Nat.add_zero])
  | succ n ih =>
    have hsize : layout.size 0 = pageSize := rfl
    have hregion : layout.region 0 s.intermediatePhysicalAddress = r₀ + j := by
      rw [hipa]
      exact Nat.mul_div_cancel _ (layout.size_pos 0)
    have hcell : cell base r₀ 0 s.intermediatePhysicalAddress = base + 8 * j := cell_eq hregion
    have hcellNext : base + 8 * j + 8 = base + 8 * (j + 1) := by omega
    obtain ⟨s₁, hput, h⟩ := Option.bind_eq_some_iff.1 h
    obtain ⟨hphys, -, -, hpos, hbound⟩ := id hcur
    have hm : Mapped r w 0 base r₀ own own s s₁ := by
      refine hgood.put ?_ hipa (fun hne => absurd rfl hne) (fun x => ?_)
        (by rw [hcell, hsize]; exact hput)
      · rw [hcell]
        exact hslots j (by omega)
      · exact leaf_page hphys (by omega) r w x
    obtain ⟨rfl, -⟩ := put_eq_some hput
    have hend : s.intermediatePhysicalAddress + pageSize = (r₀ + j + 1) * layout.size 0 := by
      rw [hipa, Nat.add_mul (r₀ + j), Nat.one_mul, hsize]
    refine Done.step hslots (by omega : j < num) hm hend.le (.inr hend)
      (fun hne hb hslots' => ?_) fun hzero => ?_
    · rw [if_neg hne, hcellNext] at h
      refine ih (j := j + 1) hm.good hslots' (by omega)
        (hcur.next hm (hb ▸ mul_size_mod _ _) hne) ?_ h
      rw [hb, Nat.add_assoc]
    · rw [if_pos hzero] at h
      exact (Option.some.inj h).symm

/-- What the loop of level `3 - depth` needs from the tables of the next level. -/
def MapsBelow (r w : Bool) (depth : ℕ) (next : ℕ → MapState → Option MapResult) : Prop :=
  ∀ {own : Owner} {s s' : MapState} {q t : ℕ}, Good own s → Slots own depth q (512 * t) 512 →
    layout.region (depth + 1) s.intermediatePhysicalAddress = t → Cursor s →
    next q s = some (.ok s') → Done r w depth q (512 * t) 512 own s s'

theorem mapEntries_done {n j : ℕ} {next : ℕ → MapState → Option MapResult}
    (hnext : MapsBelow r w depth next) (hgood : Good own s)
    (hslots : Slots own (depth + 1) base r₀ num) (hj : j + n = num) (hcur : Cursor s)
    (hregion : layout.region (depth + 1) s.intermediatePhysicalAddress = r₀ + j)
    (hlast : n = 0 → s.intermediatePhysicalAddress = (r₀ + num) * layout.size (depth + 1))
    (h : mapEntries (permissionBits r w) (depth + 1) next n (base + 8 * j) s = some (.ok s')) :
    Done r w (depth + 1) base r₀ num own s s' := by
  induction n generalizing s j own with
  | zero =>
    obtain rfl := Except.ok.inj (Option.some.inj h)
    exact Done.atEnd hgood (hlast rfl)
  | succ n ih =>
    have hcell : cell base r₀ (depth + 1) s.intermediatePhysicalAddress = base + 8 * j :=
      cell_eq hregion
    have hown : own (base + 8 * j) = some (depth + 1, r₀ + j) := hslots j (by omega)
    -- the next cell, once the loop has reached its region
    have hgo : ∀ {own₁ : Owner} {s₁ : MapState},
        Mapped r w (depth + 1) base r₀ own own₁ s s₁ → s₁.remainingSize ≠ 0 →
        s₁.intermediatePhysicalAddress = (r₀ + j + 1) * layout.size (depth + 1) →
        Slots own₁ (depth + 1) base r₀ num →
        mapEntries (permissionBits r w) (depth + 1) next n (base + 8 * j + 8) s₁ =
          some (.ok s') → Done r w (depth + 1) base r₀ num own₁ s₁ s' := by
      intro own₁ s₁ hm hne hb hslots' h
      have hcellNext : base + 8 * j + 8 = base + 8 * (j + 1) := by omega
      rw [hcellNext] at h
      refine ih (j := j + 1) hm.good hslots' (by omega)
        (hcur.next hm (hb ▸ mul_size_mod _ _) hne) ?_ (fun hn => ?_) h
      · rw [hb, ← Nat.add_assoc]
        exact Nat.mul_div_cancel _ (layout.size_pos _)
      · rw [hb]
        congr 1
        omega
    obtain ⟨hphys, -, -, hpos, hbound⟩ := id hcur
    have hshift : 1 <<< (12 + 9 * (depth + 1)) = layout.size (depth + 1) := by
      rw [Nat.one_shiftLeft, layout_size]
    have hmask : ∀ y, y &&& (layout.size (depth + 1) - 1) = y % layout.size (depth + 1) := by
      intro y
      rw [layout_size, Nat.and_two_pow_sub_one_eq_mod]
    unfold mapEntries at h
    dsimp only at h
    rw [hshift, hmask, hmask] at h
    split_ifs at h with hblock
    · obtain ⟨hdepth, -, hpa, hip⟩ := hblock
      obtain ⟨s₁, hput, h⟩ := Option.bind_eq_some_iff.1 h
      have hipa : s.intermediatePhysicalAddress = (r₀ + j) * layout.size (depth + 1) := by
        rw [← hregion]
        exact (Nat.div_mul_cancel (Nat.dvd_of_mod_eq_zero hip)).symm
      have hm : Mapped r w (depth + 1) base r₀ own own s s₁ := by
        refine hgood.put ?_ hipa (fun _ => isTableDescriptor_block hphys r w)
          (fun x => ?_) (by rw [hcell]; exact hput)
        · rw [hcell]
          exact hown
        · rw [layout_size] at hpa ⊢
          exact leaf_block (by omega) hdepth hpa (by omega) r w x
      obtain ⟨rfl, -⟩ := put_eq_some hput
      have hend : s.intermediatePhysicalAddress + layout.size (depth + 1) =
          (r₀ + j + 1) * layout.size (depth + 1) := by
        rw [hipa, Nat.add_mul (r₀ + j), Nat.one_mul]
      refine Done.step hslots (by omega : j < num) hm hend.le (.inr hend)
        (fun hne hb hslots' => ?_) fun hzero => ?_
      · rw [if_neg hne] at h
        exact hgo hm hne hb hslots' h
      · rw [if_pos hzero] at h
        exact (Except.ok.inj (Option.some.inj h)).symm
    · split at h
      · exact absurd h (by simp)
      rename_i q s₁ htable
      obtain ⟨result, hbelow, h⟩ := Option.bind_eq_some_iff.1 h
      cases result with
      | error s₂ => exact absurd h (by simp)
      | ok s₂ =>
        dsimp only at h
        obtain ⟨own₁, hgood₁, hext, hpres, habove, hslots₁, hq, hsame⟩ :=
          hgood.nextLevelTable hown hregion htable
        have hipa₁ := hsame.2.1
        have hcur₁ : Cursor s₁ := by
          obtain ⟨hpa, hip, hsz⟩ := hsame
          exact ⟨by rw [hpa]; exact hphys, by rw [hip]; exact hcur.intermediate,
            by rw [hsz]; exact hcur.size, by rw [hsz]; exact hpos, by rw [hpa, hsz]; exact hbound⟩
        obtain ⟨⟨own₂, hm₂⟩, hfin, hin⟩ := hnext hgood₁ hslots₁ (by rw [hipa₁, hregion]) hcur₁ hbelow
        have hend : (512 * (r₀ + j) + 512) * layout.size depth =
            (r₀ + j + 1) * layout.size (depth + 1) := by
          have hfan : layout.fanout = 512 := rfl
          rw [layout.size_succ, hfan]
          ring
        rw [hend] at hfin hin
        have hprogress : s.intermediatePhysicalAddress + 1 ≤ s₂.intermediatePhysicalAddress := by
          have hlt := (layout.region_eq_iff.1 hregion).2
          have hleft := hm₂.left
          have hle := hm₂.le
          have hpos₁ := hcur₁.pos
          obtain hzero | hb := hfin <;> omega
        have hm := hm₂.below hext (hcell ▸ hown) hregion hin (hpres.mono le_rfl hprogress) habove
          (hcell ▸ hq) hsame
        refine Done.step hslots (by omega : j < num) hm hin hfin (fun hne hb hslots' => ?_)
          fun hzero => ?_
        · rw [if_neg hne] at h
          exact hgo hm hne hb hslots' h
        · rw [if_pos hzero] at h
          exact (Except.ok.inj (Option.some.inj h)).symm

/-- The index of the first cell: the number of the region, modulo the table size. -/
theorem index_eq (depth : ℕ) {k : ℕ} (hr₀ : r₀ % 2 ^ k = 0) (hlo : r₀ ≤ layout.region depth x)
    (hhi : layout.region depth x < r₀ + 2 ^ k) :
    (x >>> (12 + 9 * depth)) &&& (2 ^ k - 1) = layout.region depth x - r₀ := by
  have hdvd := Nat.dvd_of_mod_eq_zero hr₀
  rw [Nat.and_two_pow_sub_one_eq_mod, Nat.shiftRight_eq_div_pow, ← layout_size]
  change layout.region depth x % 2 ^ k = _
  have hsplit : layout.region depth x = layout.region depth x - r₀ + r₀ := by omega
  rw [hsplit, Nat.add_mod, hr₀, Nat.add_zero, Nat.mod_mod]
  rw [Nat.mod_eq_of_lt (by omega)]
  omega

/-- `_map_address_stage2` maps its range as far as its table reaches. -/
theorem mapLevel_done {k : ℕ} (hgood : Good own s) (hslots : Slots own depth base r₀ (2 ^ k))
    (hr₀ : r₀ % 2 ^ k = 0) (hlo : r₀ ≤ layout.region depth s.intermediatePhysicalAddress)
    (hhi : layout.region depth s.intermediatePhysicalAddress < r₀ + 2 ^ k) (hcur : Cursor s)
    (h : mapLevel (permissionBits r w) depth base (2 ^ k) s = some (.ok s')) :
    Done r w depth base r₀ (2 ^ k) own s s' := by
  induction depth generalizing own s s' base r₀ k with
  | zero =>
    unfold mapLevel at h
    dsimp only at h
    have hindex := index_eq 0 hr₀ hlo hhi
    rw [Nat.mul_zero, Nat.add_zero] at hindex
    rw [hindex] at h
    obtain ⟨s₁, hpages, heq⟩ := Option.map_eq_some_iff.1 h
    obtain rfl := Except.ok.inj heq
    refine mapPages_done hgood hslots (by omega) hcur ?_ hpages
    rw [Nat.add_sub_cancel' hlo]
    exact (Nat.div_mul_cancel (Nat.dvd_of_mod_eq_zero hcur.intermediate)).symm
  | succ depth ih =>
    unfold mapLevel at h
    dsimp only at h
    rw [index_eq _ hr₀ hlo hhi] at h
    refine mapEntries_done ?_ hgood hslots (by omega) hcur (by omega) (fun hn => by omega) h
    intro own s s' q t hgood hslots hregion hcur hbelow
    have hdigit := layout.region_eq depth s.intermediatePhysicalAddress
    have hlt : layout.region depth s.intermediatePhysicalAddress % layout.fanout < 512 :=
      Nat.mod_lt _ layout.fanout_pos
    have hfan : layout.fanout = 512 := rfl
    rw [hregion, hfan] at hdigit
    rw [hfan] at hlt
    exact ih (k := 9) hgood hslots (Nat.mul_mod_right 512 t) (by omega) (by omega) hcur hbelow

/-! ## Calls with any arguments

Whatever the cursors are, the tables stay a tree. -/

/-- `n` cells from `a` on belong to tables of one depth. -/
def Cells (own : Owner) (depth a n : ℕ) : Prop := ∀ j < n, ∃ t, own (a + 8 * j) = some (depth, t)

theorem Cells.head {n : ℕ} (h : Cells own depth a (n + 1)) : ∃ t, own a = some (depth, t) :=
  h 0 (Nat.succ_pos n)

theorem Cells.tail {n : ℕ} (h : Cells own depth a (n + 1))
    (hext : ∀ a p, own a = some p → own' a = some p) : Cells own' depth (a + 8) n := by
  intro j hj
  obtain ⟨t, ht⟩ := h (j + 1) (by omega)
  refine ⟨t, hext _ _ ?_⟩
  rw [← ht]
  congr 1
  omega

theorem Slots.cells (h : Slots own depth base r₀ num) {i : ℕ} :
    Cells own depth (base + 8 * i) (num - i) := by
  intro j hj
  refine ⟨r₀ + (i + j), ?_⟩
  rw [← h (i + j) (by omega)]
  congr 1
  omega

/-- The state is still well formed for some larger assignment of cells. -/
def Grows (own : Owner) (s' : MapState) : Prop :=
  ∃ own', Good own' s' ∧ ∀ a p, own a = some p → own' a = some p

theorem Good.update {d : Descriptor} {size : ℕ} (h : Good own s) (ha : own a = some (depth, t))
    (hd : depth ≠ 0 → d.isTableDescriptor = false) (hput : s.put a d size = some s') :
    Good own s' := by
  obtain ⟨rfl, -⟩ := put_eq_some hput
  exact ⟨h.tables.update ha hd, h.covered, h.aligned, h.pages_nodup, h.pages_fresh⟩

theorem mapPages_good {n : ℕ} {p : BitVec 64} (hgood : Good own s) (hcells : Cells own 0 a n)
    (h : mapPages p n a s = some s') : Good own s' := by
  induction n generalizing s a with
  | zero => exact Option.some.inj h ▸ hgood
  | succ n ih =>
    obtain ⟨t, ha⟩ := hcells.head
    obtain ⟨s₁, hput, h⟩ := Option.bind_eq_some_iff.1 h
    have hgood₁ := hgood.update ha (fun hne => absurd rfl hne) hput
    split_ifs at h with hzero
    · exact Option.some.inj h ▸ hgood₁
    · exact ih hgood₁ (hcells.tail fun _ _ h => h) h

theorem mapEntries_good {n : ℕ} {next : ℕ → MapState → Option MapResult}
    (hnext : ∀ {own : Owner} {s s' : MapState} {q t : ℕ}, Good own s →
      Slots own depth q (512 * t) 512 → next q s = some (.ok s') → Grows own s')
    (hgood : Good own s) (hcells : Cells own (depth + 1) a n)
    (h : mapEntries (permissionBits r w) (depth + 1) next n a s = some (.ok s')) :
    Grows own s' := by
  induction n generalizing s a own with
  | zero =>
    obtain rfl := Except.ok.inj (Option.some.inj h)
    exact ⟨own, hgood, fun _ _ h => h⟩
  | succ n ih =>
    obtain ⟨t, ha⟩ := hcells.head
    -- after one cell the loop ends or goes on
    have hgo : ∀ {own₁ : Owner} {s₁ : MapState}, Good own₁ s₁ →
        (∀ a p, own a = some p → own₁ a = some p) →
        (if s₁.remainingSize = 0 then some (.ok s₁)
          else mapEntries (permissionBits r w) (depth + 1) next n (a + 8) s₁) = some (.ok s') →
        Grows own s' := by
      intro own₁ s₁ hgood₁ hext h
      split_ifs at h with hzero
      · obtain rfl := Except.ok.inj (Option.some.inj h)
        exact ⟨own₁, hgood₁, hext⟩
      · obtain ⟨own', hgood', hext'⟩ := ih hgood₁ (hcells.tail hext) h
        exact ⟨own', hgood', fun b p hb => hext' b p (hext b p hb)⟩
    unfold mapEntries at h
    dsimp only at h
    split_ifs at h with hblock
    · obtain ⟨-, -, hpa, -⟩ := hblock
      obtain ⟨s₁, hput, h⟩ := Option.bind_eq_some_iff.1 h
      have hpage : s.physicalAddress % 4096 = 0 := by
        rw [Nat.one_shiftLeft, Nat.and_two_pow_sub_one_eq_mod] at hpa
        have hdvd : 4096 ∣ 2 ^ (12 + 9 * (depth + 1)) :=
          pow_dvd_pow 2 (by omega : 12 ≤ 12 + 9 * (depth + 1))
        exact Nat.mod_eq_zero_of_dvd (hdvd.trans (Nat.dvd_of_mod_eq_zero hpa))
      exact hgo (hgood.update ha (fun _ => isTableDescriptor_block hpage r w) hput)
        (fun _ _ h => h) h
    · split at h
      · exact absurd h (by simp)
      rename_i q s₁ htable
      obtain ⟨result, hbelow, h⟩ := Option.bind_eq_some_iff.1 h
      cases result with
      | error s₂ => exact absurd h (by simp)
      | ok s₂ =>
        have hlo : layout.region (depth + 1) (t * layout.size (depth + 1)) = t :=
          Nat.mul_div_cancel _ (layout.size_pos _)
        obtain ⟨own₁, hgood₁, hext, -, -, hslots₁, -⟩ := hgood.nextLevelTable ha hlo htable
        obtain ⟨own₂, hgood₂, hext₂⟩ := hnext hgood₁ hslots₁ hbelow
        exact hgo hgood₂ (fun b p hb => hext₂ b p (hext b p hb)) h

theorem mapLevel_good (hgood : Good own s) (hslots : Slots own depth base r₀ num)
    (h : mapLevel (permissionBits r w) depth base num s = some (.ok s')) : Grows own s' := by
  induction depth generalizing own s s' base r₀ num with
  | zero =>
    obtain ⟨s₁, hpages, heq⟩ := Option.map_eq_some_iff.1 h
    obtain rfl := Except.ok.inj heq
    exact ⟨own, mapPages_good hgood hslots.cells hpages, fun _ _ h => h⟩
  | succ depth ih =>
    exact mapEntries_good (fun hgood hslots hbelow => ih hgood hslots hbelow) hgood hslots.cells h

end Paging

end MiniVisor
