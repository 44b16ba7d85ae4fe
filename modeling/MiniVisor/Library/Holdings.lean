import Mathlib

/-!
# Holders of disjoint sets

A family of sets, one for each holder, of which no two meet. It stays so when a holder
gives a part of its set to another one, and when holders lose elements.
-/
namespace Holdings

variable {ι α : Type*} {f g : ι → Set α} {i j : ι} {R : Set α}

/-- No two holders have an element in common. -/
def Apart (f : ι → Set α) : Prop := ∀ i j, i ≠ j → Disjoint (f i) (f j)

theorem Apart.mono (h : Apart f) (hle : ∀ i, g i ⊆ f i) : Apart g :=
  fun i j hij => (h i j hij).mono (hle i) (hle j)

/-- `g` comes from `f` when `i` gives `R` to `j`. -/
structure Moved (f g : ι → Set α) (i j : ι) (R : Set α) : Prop where
  ne : i ≠ j
  part : R ⊆ f i
  giver : g i ⊆ f i \ R
  taker : g j ⊆ f j ∪ R
  others : ∀ k, k ≠ i → k ≠ j → g k ⊆ f k

theorem Moved.subset_of_ne (h : Moved f g i j R) {k : ι} (hk : k ≠ j) : g k ⊆ f k := by
  by_cases hki : k = i
  · subst hki
    exact h.giver.trans Set.sdiff_subset
  · exact h.others k hki hk

/-- What a third holder has does not meet the part that moved. -/
theorem Moved.disjoint_part (h : Moved f g i j R) (hf : Apart f) {k : ι} (hk : k ≠ j) :
    Disjoint R (g k) := by
  by_cases hki : k = i
  · subst hki
    exact Set.disjoint_left.2 fun x hx hg => (h.giver hg).2 hx
  · exact (hf i k (Ne.symm hki)).mono h.part (h.others k hki hk)

theorem Apart.move (hf : Apart f) (h : Moved f g i j R) : Apart g := by
  -- only the pairs with the taker are not pairs of parts of `f`
  have htaker : ∀ k, k ≠ j → Disjoint (g j) (g k) := fun k hk =>
    (Set.disjoint_union_left.2 ⟨(hf j k (Ne.symm hk)).mono_right (h.subset_of_ne hk),
      h.disjoint_part hf hk⟩).mono_left h.taker
  intro k l hkl
  by_cases hk : k = j
  · subst hk
    exact htaker l (Ne.symm hkl)
  · by_cases hl : l = j
    · subst hl
      exact (htaker k hk).symm
    · exact (hf k l hkl).mono (h.subset_of_ne hk) (h.subset_of_ne hl)

/-- All elements that somebody holds. -/
theorem Moved.subset_all (h : Moved f g i j R) (k : ι) : g k ⊆ ⋃ k, f k := by
  by_cases hk : k = j
  · subst hk
    refine h.taker.trans (Set.union_subset (Set.subset_iUnion f k) ?_)
    exact h.part.trans (Set.subset_iUnion f i)
  · exact (h.subset_of_ne hk).trans (Set.subset_iUnion f k)

end Holdings
