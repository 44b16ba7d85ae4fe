import Mathlib.Data.Nat.Basic
import Mathlib.Logic.Function.Basic
import Mathlib.Tactic

/-!
# Radix trees in a flat memory

A table is an array of cells; a cell of depth `d + 1` may point to a table of
depth `d`. The walk for a key follows the digits of the key from cell to cell and
ends at the first cell that is not a pointer. A cell of depth `d` serves one
region of keys, all those with the same quotient by the size of depth `d`.

That the tables form a tree is not said about the pointers but by an assignment
of cells to positions: `own a = some (d, r)` gives cell `a` to region `r` of
depth `d`, and a pointer must lead to cells that own the parts of its region.
A write to a cell then changes the walks of keys in its own region only.
-/
namespace RadixTree

structure Layout where
  /-- Number of cells of a table. -/
  fanout : ℕ
  /-- Distance of two cells in the memory. -/
  stride : ℕ
  /-- Number of keys under one cell of depth zero. -/
  unit : ℕ
  fanout_pos : 0 < fanout
  stride_pos : 0 < stride
  unit_pos : 0 < unit

namespace Layout

variable (L : Layout) {d e r x y : ℕ}

/-- Number of keys under one cell of depth `d`. -/
def size (d : ℕ) : ℕ := L.unit * L.fanout ^ d

def region (d x : ℕ) : ℕ := x / L.size d

/-- The cell for `x` in the table of depth `d` at `base`. -/
def slot (base d x : ℕ) : ℕ := base + L.stride * (L.region d x % L.fanout)

theorem size_succ (d : ℕ) : L.size (d + 1) = L.size d * L.fanout := by
  rw [size, size, pow_succ, Nat.mul_assoc]

theorem size_pos (d : ℕ) : 0 < L.size d :=
  Nat.mul_pos L.unit_pos (Nat.pow_pos L.fanout_pos)

theorem region_succ (d x : ℕ) : L.region (d + 1) x = L.region d x / L.fanout := by
  rw [region, region, size_succ, Nat.div_div_eq_div_mul]

theorem region_eq (d x : ℕ) :
    L.region d x = L.fanout * L.region (d + 1) x + L.region d x % L.fanout := by
  rw [region_succ, Nat.div_add_mod]

/-- Keys in one region share the larger regions around it. -/
theorem region_congr (hle : e ≤ d) (h : L.region e x = L.region e y) :
    L.region d x = L.region d y := by
  induction d, hle using Nat.le_induction with
  | base => exact h
  | succ d _ ih => rw [region_succ, region_succ, ih]

/-- The keys of a region are an interval. -/
theorem region_eq_iff : L.region d x = r ↔ r * L.size d ≤ x ∧ x < (r + 1) * L.size d := by
  have hpos := L.size_pos d
  rw [region, Nat.div_eq_iff hpos]
  have hsub : L.size d - 1 + 1 = L.size d := Nat.succ_pred_eq_of_pos hpos
  rw [Nat.add_mul, Nat.one_mul]
  omega

end Layout

section Walk

variable {V : Type*} (L : Layout) (next : V → Option ℕ)

/-- The cell at which the walk of `x` from cell `a` of depth `d` ends: its depth and
its content. -/
def descend (m : ℕ → V) : ℕ → ℕ → ℕ → ℕ × V
  | 0, a, _ => (0, m a)
  | d + 1, a, x =>
    match next (m a) with
    | none => (d + 1, m a)
    | some q => descend m d (L.slot q d x) x

/-- Which cell serves which depth and region. -/
abbrev Owner := ℕ → Option (ℕ × ℕ)

/-- Pointers lead to the cells of the parts of their region. -/
def Placed (own : Owner) (m : ℕ → V) : Prop :=
  ∀ a d r q, own a = some (d + 1, r) → next (m a) = some q →
    ∀ i < L.fanout, own (q + L.stride * i) = some (d, L.fanout * r + i)

variable {L next} {own own' : Owner} {m m' m'' : ℕ → V} {a b d e r q x y lo hi : ℕ} {v zero : V}

theorem descend_of_next (hnext : next (m a) = some q) :
    descend L next m (d + 1) a x = descend L next m d (L.slot q d x) x := by
  rw [descend, hnext]

theorem descend_of_none (hnext : next (m a) = none) : descend L next m d a x = (d, m a) := by
  cases d with
  | zero => rfl
  | succ d => rw [descend, hnext]

theorem descend_depth_le (L : Layout) (next : V → Option ℕ) (m : ℕ → V) (d a x : ℕ) :
    (descend L next m d a x).1 ≤ d := by
  induction d generalizing a with
  | zero => exact le_rfl
  | succ d ih =>
    cases hnext : next (m a) with
    | none => rw [descend_of_none hnext]
    | some q =>
      rw [descend_of_next hnext]
      exact (ih _).trans (Nat.le_succ d)

/-- Keys that the final cell does not tell apart have the same walk. -/
theorem descend_congr_key
    (h : L.region (descend L next m d a x).1 y = L.region (descend L next m d a x).1 x) :
    descend L next m d a y = descend L next m d a x := by
  induction d generalizing a with
  | zero => rfl
  | succ d ih =>
    cases hnext : next (m a) with
    | none => rw [descend_of_none hnext, descend_of_none hnext]
    | some q =>
      rw [descend_of_next hnext] at h
      rw [descend_of_next hnext, descend_of_next hnext]
      have hslot : L.slot q d y = L.slot q d x := by
        rw [Layout.slot, Layout.slot, L.region_congr (descend_depth_le L next m d _ x) h]
      rw [hslot]
      exact ih h

theorem Placed.slot (h : Placed L next own m) (ha : own a = some (d + 1, L.region (d + 1) x))
    (hnext : next (m a) = some q) : own (L.slot q d x) = some (d, L.region d x) := by
  rw [Layout.slot, h a d _ q ha hnext _ (Nat.mod_lt _ L.fanout_pos), ← L.region_eq]

/-- A walk only looks at owned cells. -/
theorem descend_congr (h : Placed L next own m) (hagree : ∀ a, own a ≠ none → m' a = m a)
    (hb : own b = some (e, L.region e x)) :
    descend L next m' e b x = descend L next m e b x := by
  have hcell : m' b = m b := hagree b (by simp [hb])
  induction e generalizing b with
  | zero => rw [descend, descend, hcell]
  | succ e ih =>
    cases hnext : next (m b) with
    | none => rw [descend_of_none hnext, descend_of_none (hcell ▸ hnext), hcell]
    | some q =>
      have hslot := h.slot hb hnext
      rw [descend_of_next hnext, descend_of_next (hcell ▸ hnext)]
      exact ih hslot (hagree _ (by simp [hslot]))

/-- After a write to one cell a walk is as before, or it comes through that cell. -/
theorem descend_update (h : Placed L next own m) (ha : own a = some (d, r))
    (hb : own b = some (e, L.region e x)) :
    descend L next (Function.update m a v) e b x = descend L next m e b x ∨
      (L.region d x = r ∧ descend L next m e b x = descend L next m d a x ∧
        descend L next (Function.update m a v) e b x =
          descend L next (Function.update m a v) d a x) := by
  induction e generalizing b with
  | zero =>
    by_cases hba : b = a
    · subst hba
      obtain ⟨rfl, rfl⟩ := Prod.mk.injEq .. ▸ Option.some.inj (hb.symm.trans ha)
      exact .inr ⟨rfl, rfl, rfl⟩
    · exact .inl (by rw [descend, descend, Function.update_of_ne hba])
  | succ e ih =>
    by_cases hba : b = a
    · subst hba
      obtain ⟨rfl, rfl⟩ := Prod.mk.injEq .. ▸ Option.some.inj (hb.symm.trans ha)
      exact .inr ⟨rfl, rfl, rfl⟩
    · have hcell : Function.update m a v b = m b := Function.update_of_ne hba ..
      cases hnext : next (m b) with
      | none =>
        left
        rw [descend_of_none hnext, descend_of_none (by rw [hcell, hnext]), hcell]
      | some q =>
        rw [descend_of_next hnext, descend_of_next (by rw [hcell, hnext])]
        exact ih (h.slot hb hnext)

theorem Placed.update (h : Placed L next own m) (ha : own a = some (d, r))
    (hv : ∀ e q, d = e + 1 → next v = some q →
      ∀ i < L.fanout, own (q + L.stride * i) = some (e, L.fanout * r + i)) :
    Placed L next own (Function.update m a v) := by
  intro b e s q hb hnext
  by_cases hba : b = a
  · subst hba
    obtain ⟨rfl, rfl⟩ := Prod.mk.injEq .. ▸ Option.some.inj (ha.symm.trans hb)
    rw [Function.update_self] at hnext
    exact hv e q rfl hnext
  · rw [Function.update_of_ne hba] at hnext
    exact h b e s q hb hnext

/-! ## Changes inside an interval of keys -/

/-- Walks of keys outside `[lo, hi)` are as before, or they end at an empty cell
where they used to end at one whose region reaches into the interval. -/
def Preserves (L : Layout) (next : V → Option ℕ) (zero : V) (own : Owner) (m m' : ℕ → V)
    (lo hi : ℕ) : Prop :=
  ∀ b e x, own b = some (e, L.region e x) → ¬(lo ≤ x ∧ x < hi) →
    descend L next m' e b x = descend L next m e b x ∨
      (descend L next m' e b x).2 = zero ∧ ∃ y, lo ≤ y ∧ y < hi ∧
        L.region (descend L next m e b x).1 y = L.region (descend L next m e b x).1 x

theorem Preserves.mono {lo' hi' : ℕ} (h : Preserves L next zero own m m' lo hi) (hlo : lo' ≤ lo)
    (hhi : hi ≤ hi') : Preserves L next zero own m m' lo' hi' := by
  intro b e x hb hx
  obtain heq | ⟨hzero, y, hy₁, hy₂, hy⟩ := h b e x hb (fun hin => hx ⟨by omega, by omega⟩)
  · exact .inl heq
  · exact .inr ⟨hzero, y, by omega, by omega, hy⟩

theorem Preserves.trans (h : Preserves L next zero own m m' lo hi)
    (hext : ∀ a p, own a = some p → own' a = some p)
    (h' : Preserves L next zero own' m' m'' lo hi) : Preserves L next zero own m m'' lo hi := by
  intro b e x hb hx
  obtain heq | ⟨hzero, hcut⟩ := h b e x hb hx
  · rw [← heq]
    exact h' b e x (hext _ _ hb) hx
  · obtain heq' | ⟨hzero', -⟩ := h' b e x (hext _ _ hb) hx
    · exact .inr ⟨by rw [heq', hzero], hcut⟩
    · exact .inr ⟨hzero', hcut⟩

theorem Preserves.refl (m : ℕ → V) (lo hi : ℕ) : Preserves L next zero own m m lo hi :=
  fun _ _ _ _ _ => .inl rfl

/-- A write to a cell is seen in its region only. -/
theorem Preserves.write (h : Placed L next own m) (ha : own a = some (d, r)) :
    Preserves L next zero own m (Function.update m a v) (r * L.size d) ((r + 1) * L.size d) := by
  intro b e x hb hx
  obtain heq | ⟨hr, -, -⟩ := descend_update (v := v) h ha hb
  · exact .inl heq
  · exact absurd (L.region_eq_iff.1 hr) hx

/-- A cell that was no pointer gets a table of empty cells. -/
theorem Preserves.grow (h : Placed L next own m) (ha : own a = some (d + 1, r))
    (hnone : next (m a) = none) (hempty : next zero = none) (hv : next v = some q)
    (hfresh : ∀ i < L.fanout, own (q + L.stride * i) = none)
    (hagree : ∀ b, own b ≠ none → m' b = m b)
    (hzero : ∀ i < L.fanout, m' (q + L.stride * i) = zero)
    (hlo : L.region (d + 1) lo = r) (hhi : lo < hi) :
    ∃ own' : Owner, (∀ b p, own b = some p → own' b = some p) ∧
      (∀ i < L.fanout, own' (q + L.stride * i) = some (d, L.fanout * r + i)) ∧
      (∀ b, own' b ≠ none → own b ≠ none ∨ ∃ i < L.fanout, b = q + L.stride * i) ∧
      Placed L next own' (Function.update m' a v) ∧
      Preserves L next zero own m (Function.update m' a v) lo hi := by
  classical
  have hinj : ∀ i j, q + L.stride * i = q + L.stride * j → i = j := fun i j hij =>
    Nat.eq_of_mul_eq_mul_left L.stride_pos (Nat.add_left_cancel hij)
  obtain ⟨own', hnew, hold⟩ : ∃ own' : Owner,
      (∀ i < L.fanout, own' (q + L.stride * i) = some (d, L.fanout * r + i)) ∧
      ∀ b, (∀ i < L.fanout, b ≠ q + L.stride * i) → own' b = own b := by
    refine ⟨fun b => if h : ∃ i < L.fanout, b = q + L.stride * i then
      some (d, L.fanout * r + h.choose) else own b, fun i hi => ?_, fun b hb => ?_⟩
    · have hex : ∃ j < L.fanout, q + L.stride * i = q + L.stride * j := ⟨i, hi, rfl⟩
      dsimp only
      rw [dif_pos hex, hinj _ _ hex.choose_spec.2.symm]
    · exact dif_neg fun ⟨i, hi, hbi⟩ => hb i hi hbi
  have hout : ∀ b, own b ≠ none → ∀ i < L.fanout, b ≠ q + L.stride * i := fun b hb i hi hbi =>
    hb (hbi ▸ hfresh i hi)
  have hext : ∀ b p, own b = some p → own' b = some p := fun b p hb => by
    rw [hold b (hout b (by simp [hb])), hb]
  have hcell : m' a = m a := hagree a (by simp [ha])
  have hplaced : Placed L next own m' := fun b e s t hb hnext => by
    rw [hagree b (by simp [hb])] at hnext
    exact h b e s t hb hnext
  refine ⟨own', hext, hnew, fun b hb => ?_, ?_, fun b e x hb hx => ?_⟩
  · by_cases hin : ∃ i < L.fanout, b = q + L.stride * i
    · exact .inr hin
    · exact .inl (hold b (fun i hi hbi => hin ⟨i, hi, hbi⟩) ▸ hb)
  · refine Placed.update (d := d + 1) (r := r) ?_ (hext _ _ ha) fun e t he ht i hi => ?_
    · intro b e s t hb hnext i hi
      by_cases hin : ∃ j < L.fanout, b = q + L.stride * j
      · obtain ⟨j, hj, rfl⟩ := hin
        rw [hzero j hj, hempty] at hnext
        exact absurd hnext (by simp)
      · rw [hold b fun j hj hbj => hin ⟨j, hj, hbj⟩] at hb
        exact hext _ _ (hplaced b e s t hb hnext i hi)
    · obtain rfl : d = e := by omega
      obtain rfl : q = t := Option.some.inj (hv.symm.trans ht)
      exact hnew i hi
  · have hbase : descend L next m' e b x = descend L next m e b x := descend_congr h hagree hb
    obtain heq | ⟨hr, hthrough, hnow⟩ := descend_update (v := v) hplaced ha hb
    · exact .inl (heq.trans hbase)
    · right
      have hne : L.slot q d x ≠ a := fun hsa =>
        hout a (by simp [ha]) _ (Nat.mod_lt _ L.fanout_pos) hsa.symm
      have hlast : Function.update m' a v (L.slot q d x) = zero := by
        rw [Function.update_of_ne hne]
        exact hzero _ (Nat.mod_lt _ L.fanout_pos)
      have hthen : descend L next m' (d + 1) a x = (d + 1, m' a) :=
        descend_of_none (by rw [hcell, hnone])
      have hnow' : descend L next (Function.update m' a v) (d + 1) a x =
          (d, Function.update m' a v (L.slot q d x)) := by
        rw [descend_of_next (by rw [Function.update_self, hv]),
          descend_of_none (by rw [hlast, hempty])]
      rw [← hbase, hthrough, hnow, hthen, hnow']
      exact ⟨hlast, lo, le_rfl, hhi, hlo.trans hr.symm⟩

end Walk

end RadixTree
