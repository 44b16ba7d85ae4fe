import MiniVisor.AllocatorUse

/-!
# Giving memory back to the allocator

A freed range that no entry covers either touches its neighbours, which then grow
or merge, or gets an entry of its own. The branches for duplicated areas are not
reached.
-/
namespace MiniVisor

namespace MemoryAllocator

variable {a a' a₁ a₂ a₃ a₄ a₅ a₆ : MemoryAllocator} {pool pool' Q : MemoryEntryPool}
  {l l₁ l₂ : List ℕ} {e n s t start last size : ℕ} {R : Set ℕ} {r : Reply Unit}

/-- An error leaves the state alone; a success adds exactly the bytes of `R`. -/
def Gave (a : MemoryAllocator) (R : Set ℕ) : Reply Unit → Prop
  | (.error _, a') => a' = a
  | (.ok _, a') => a'.freeBytes = a.freeBytes ∪ R ∧ ∃ l, l ≠ [] ∧ Rep a' l

/-! ## The ends of `define_free_memory` -/

theorem addSize_eq_some (h : a.addSize size = some a') :
    a' = { a with freeSize := a.freeSize + size } := by
  obtain ⟨freeSize, hadd, rfl⟩ := Option.map_eq_some_iff.1 h
  rw [(Checked.add_eq_some.1 hadd).2]

theorem chainEntry_freeSize (a : MemoryAllocator) (e k : ℕ) (oldSize : Option ℕ) :
    ({ a with freeSize := k } : MemoryAllocator).chainEntry e oldSize =
      (a.chainEntry e oldSize).map fun a' => { a' with freeSize := k } := by
  simp only [chainEntry, Option.map_map]
  rfl

theorem finishGrown_eq_some {oldSize : ℕ} (h : a.finishGrown e size oldSize = some r) :
    ∃ a₁, a.chainEntry e (some oldSize) = some a₁ ∧
      r = (.ok (), { a₁ with freeSize := a.freeSize + size }) := by
  simp only [finishGrown, bind, Option.bind_eq_some_iff, pure, Option.some.injEq] at h
  obtain ⟨a₁, hadd, a₂, hchain, rfl⟩ := h
  rw [addSize_eq_some hadd, chainEntry_freeSize] at hchain
  obtain ⟨a₃, hentry, rfl⟩ := Option.map_eq_some_iff.1 hchain
  exact ⟨a₃, hentry, rfl⟩

theorem finishNew_eq_some {oldSize : ℕ} (h : a.finishNew e n size oldSize = some r) :
    ∃ a₁ a₂, a.chainEntry e (some oldSize) = some a₁ ∧ a₁.chainEntry n none = some a₂ ∧
      r = (.ok (), { a₂ with freeSize := a.freeSize + size }) := by
  simp only [finishNew, bind, Option.bind_eq_some_iff, pure, Option.some.injEq] at h
  obtain ⟨a₁, hadd, a₂, hold, a₃, hnew, rfl⟩ := h
  rw [addSize_eq_some hadd, chainEntry_freeSize] at hold
  obtain ⟨a₂, hentry, rfl⟩ := Option.map_eq_some_iff.1 hold
  rw [chainEntry_freeSize] at hnew
  obtain ⟨a₃, hfresh, rfl⟩ := Option.map_eq_some_iff.1 hnew
  exact ⟨a₂, a₃, hentry, hfresh, rfl⟩

/-- An entry that kept its size stays where it is. -/
theorem chainEntry_same (h : a.chainEntry e (some (a.memoryEntryPool e).size) = some a') :
    a' = a := by
  obtain ⟨pool, freeList, hchain, rfl⟩ := chainEntry_eq_some h
  obtain ⟨newSize, hsize, hchain⟩ := Option.bind_eq_some_iff.1 hchain
  rw [MemoryEntry.getSize_eq hsize, if_pos rfl] at hchain
  obtain ⟨rfl, rfl⟩ := Prod.mk.injEq .. ▸ Option.some.inj hchain
  rfl

/-! ## An entry grows -/

theorem Rep.grown (l₁ : List ℕ) (h : Rep a (l₁ ++ e :: l₂)) (hs : s ≤ (a.memoryEntryPool e).start)
    (ht : (a.memoryEntryPool e).endAddress ≤ t)
    (hlow : ∀ i ∈ l₁, (a.memoryEntryPool i).endAddress + 1 < s)
    (hhigh : ∀ i ∈ l₂, t + 1 < (a.memoryEntryPool i).start)
    (hR : ∀ x, x ∈ R ↔ x ∈ Set.Icc s t ∧ x ∉ range a.memoryEntryPool e)
    (hsize : t - s + 1 = (a.memoryEntryPool e).size + size)
    (hset : a.setEntryRange e s t = some a₁)
    (hchain : a₁.chainEntry e (some (a.memoryEntryPool e).size) = some a₂) :
    Gave a R (.ok (), { a₂ with freeSize := a.freeSize + size }) := by
  obtain ⟨hch, hfiled, hres, -⟩ := h.resize hset hlow hhigh hchain
  have he := not_mem_middle h.chain.nodup
  have hrep : Rep { a₂ with freeSize := a.freeSize + size } (l₁ ++ e :: l₂) := by
    refine ⟨hch, hfiled, ?_, fun hnil => absurd hnil (by simp)⟩
    have htotal := h.total_le
    have htotal' := total_middle a₂.memoryEntryPool l₁ l₂ e
    rw [total_middle] at htotal
    rw [hres.total he, hres.size_self] at htotal'
    change total a₂.memoryEntryPool (l₁ ++ e :: l₂) ≤ a.freeSize + size
    omega
  refine ⟨?_, _, by simp, hrep⟩
  rw [hrep.freeBytes_eq, h.freeBytes_eq]
  change coveredBy a₂.memoryEntryPool _ = _
  rw [coveredBy_middle, coveredBy_middle, hres.coveredBy he, hres.range_self]
  have hsub : range a.memoryEntryPool e ⊆ Set.Icc s t := Set.Icc_subset_Icc hs ht
  ext x
  simp only [Set.mem_union, hR]
  constructor
  · rintro (hx | hx)
    · exact .inl (.inl hx)
    · by_cases hxe : x ∈ range a.memoryEntryPool e
      · exact .inl (.inr hxe)
      · exact .inr ⟨hx, hxe⟩
  · rintro ((hx | hx) | hx)
    · exact .inl hx
    · exact .inr (hsub hx)
    · exact .inr hx.1

/-! ## A new entry -/

/-- The pool with a new entry `n` for `[s, t]` linked between two entries. -/
structure Inserted (pool pool' : MemoryEntryPool) (n s t : ℕ) (before after : Option ℕ) : Prop where
  splice : ChainSpliced pool pool' n before after
  lists : ∀ i, i ≠ n → (pool' i).listNext = (pool i).listNext ∧
    (pool' i).listPrev = (pool i).listPrev
  others : ∀ i, i ≠ n → (pool' i).start = (pool i).start ∧
    (pool' i).endAddress = (pool i).endAddress
  fresh : (pool' n).start = s ∧ (pool' n).endAddress = t

/-- Both ways of linking give an inserted pool when they change the links only. -/
theorem Inserted.of_links {before after : Option ℕ} (hQ : ∀ i, i ≠ n → Q i = pool i)
    (hQn : Q n = { MemoryEntry.new with id := n, enabled := true, start := s, endAddress := t })
    (hsame : SameButChain Q pool') (hen : ∀ i, (pool' i).enabled = (Q i).enabled)
    (hnext : ∀ i, i ≠ n → (pool' i).next = if before = some i then some n else (Q i).next)
    (hprev : ∀ i, i ≠ n → (pool' i).previous = if after = some i then some n else (Q i).previous)
    (hnn : (pool' n).next = after) (hpn : (pool' n).previous = before) :
    Inserted pool pool' n s t before after := by
  refine ⟨⟨fun i hi => ?_, fun i hi => ?_, hnn, hpn, fun i hi => ?_, ?_, fun i hi => ?_, ?_⟩,
    fun i hi => ?_, fun i hi => ?_, ?_⟩
  · rw [hnext i hi, hQ i hi]
  · rw [hprev i hi, hQ i hi]
  · rw [hen, hQ i hi]
  · rw [hen, hQn]
  · rw [hsame.id, hQ i hi]
  · rw [hsame.id, hQn]
  · rw [hsame.listNext, hsame.listPrev, hQ i hi]
    exact ⟨rfl, rfl⟩
  · rw [hsame.start, hsame.endAddress, hQ i hi]
    exact ⟨rfl, rfl⟩
  · rw [hsame.start, hsame.endAddress, hQn]
    exact ⟨rfl, rfl⟩

/-- Linking a new entry in front of `e`, the first of the chain. -/
theorem linkBefore_spec (hne : n ≠ e) (he : (Q e).id = e) (hn : (Q n).id = n)
    (hnone : (Q n).previous = none) (hpool : chainAfterMe Q n e = pool) :
    SameButChain Q pool ∧ (∀ i, (pool i).enabled = (Q i).enabled) ∧
      (∀ i, i ≠ n → (pool i).next = if none = some i then some n else (Q i).next) ∧
      (∀ i, i ≠ n → (pool i).previous = if some e = some i then some n else (Q i).previous) ∧
      (pool n).next = some e ∧ (pool n).previous = none := by
  have hP : ∀ i, pool i = _ := fun i =>
    (congrFun hpool i).symm.trans (chainAfterMe_apply Q n e i hne)
  refine ⟨?_, fun i => ?_, fun i hi => ?_, fun i hi => ?_, ?_, ?_⟩
  · constructor <;> intro i <;> grind
  all_goals grind

theorem Rep.inserted (l₁ l₂ : List ℕ) (h : Rep a (l₁ ++ l₂)) (hn : n < poolSize)
    (hdis : (a.memoryEntryPool n).enabled = false)
    (hins : Inserted a.memoryEntryPool a₁.memoryEntryPool n s t l₁.getLast? l₂.head?)
    (hfirst : a₁.firstEntry = (l₁ ++ n :: l₂).head?) (hlist : a₁.freeList = a.freeList)
    (hfree : a₁.freeSize = a.freeSize) (he : e ∈ l₁ ++ l₂) (hlt : s < t)
    (hlow : ∀ i ∈ l₁, (a.memoryEntryPool i).endAddress + 1 < s)
    (hhigh : ∀ i ∈ l₂, t + 1 < (a.memoryEntryPool i).start) (hsize : t - s + 1 = size)
    (hfinish : a₁.finishNew e n size (a.memoryEntryPool e).size = some r) :
    Gave a (Set.Icc s t) r := by
  obtain ⟨a₂, a₃, hold, hnew, rfl⟩ := finishNew_eq_some hfinish
  have hnot := h.chain.not_mem_of_disabled hn hdis
  have hmem : ∀ i ∈ l₁ ++ l₂, i ≠ n := fun i hi hin => hnot (hin ▸ hi)
  have hsizes : ∀ i ∈ l₁ ++ l₂, (a₁.memoryEntryPool i).size = (a.memoryEntryPool i).size := by
    intro i hi
    rw [MemoryEntry.size, MemoryEntry.size, (hins.others i (hmem i hi)).1,
      (hins.others i (hmem i hi)).2]
  obtain ⟨hchain, hfiled, hsame, -⟩ := h.insertNew hn hdis hins.splice hfirst hlist
    (fun i hi => hins.lists i (hmem i hi)) he (fun i hi _ => hsizes i hi)
    (fun i hi => by
      by_cases hin : i = n
      · rw [hin, hins.fresh.1, hins.fresh.2]
        exact hlt
      · rw [(hins.others i hin).1, (hins.others i hin).2]
        refine h.chain.range i ?_
        simp only [List.mem_append, List.mem_cons] at hi ⊢
        tauto)
    (h.chain.apart.insert hnot (fun i hi => (hins.others i (hmem i hi)).1)
      (fun i hi => (hins.others i (hmem i hi)).2) (by rw [hins.fresh.1]; exact hlow)
      (by rw [hins.fresh.2]; exact hhigh)) hold hnew
  have hrep : Rep { a₃ with freeSize := a₁.freeSize + size } (l₁ ++ n :: l₂) := by
    refine ⟨hchain, hfiled, ?_, fun hnil => absurd hnil (by simp)⟩
    change total a₃.memoryEntryPool _ ≤ a₁.freeSize + size
    have htotal := h.total_le
    have hfresh : (a₁.memoryEntryPool n).size = size := by
      rw [MemoryEntry.size, hins.fresh.1, hins.fresh.2, hsize]
    rw [total_congr fun i _ => hsame.size i, total_middle, total_congr hsizes, hfresh, hfree]
    omega
  refine ⟨?_, _, by simp, hrep⟩
  rw [hrep.freeBytes_eq, h.freeBytes_eq]
  change coveredBy a₃.memoryEntryPool _ = _
  rw [coveredBy_congr (fun i _ => hsame.start i) fun i _ => hsame.endAddress i, coveredBy_middle,
    coveredBy_congr (fun i hi => (hins.others i (hmem i hi)).1)
      fun i hi => (hins.others i (hmem i hi)).2, range, hins.fresh.1, hins.fresh.2]

/-! ## Two entries merge -/

/-- The bucket side of a merge. `n` moves to the bucket of its intermediate size and
leaves it again; what is left is in the buckets of the sizes it had before. -/
theorem Filed.leave {P₁ P₂ P₃ P₄ : MemoryEntryPool} {f f₂ f₄ : FreeList} {S : Set ℕ}
    (h : Filed pool f S) (hvalid : ValidSlots P₁ S) (hn : n ∈ S)
    (hlinks₁ : ∀ i, (P₁ i).listNext = (pool i).listNext ∧ (P₁ i).listPrev = (pool i).listPrev)
    (h₂ : chainEntryToFreeList P₁ f n (some (pool n).size) = some (P₂, f₂))
    (hlinks₃ : ∀ i, (P₃ i).listNext = (P₂ i).listNext ∧ (P₃ i).listPrev = (P₂ i).listPrev)
    (hid₃ : ∀ i, (P₃ i).id = (P₂ i).id) (hsize₃ : (P₃ n).size = (P₂ n).size)
    (h₄ : unchainEntryFromFreeList P₃ f₂ n = some (P₄, f₄)) :
    SameButLists P₁ P₂ ∧ SameButLists P₃ P₄ ∧ ∃ Q : MemoryEntryPool, Filed Q f₄ (S \ {n}) ∧
      (∀ i, (Q i).size = (pool i).size) ∧
      ∀ i, (P₄ i).listNext = (Q i).listNext ∧ (P₄ i).listPrev = (Q i).listPrev := by
  obtain ⟨B, hB, hsorted⟩ := h
  obtain ⟨B₂, hB₂, hsame₂, herase₂, -⟩ := (hB.congr fun i _ => hlinks₁ i).rechain hvalid hn rfl h₂
  have hvalid₃ : ValidSlots P₃ S := fun i hi =>
    ⟨(hvalid i hi).1, (hid₃ i).trans ((hsame₂.id i).trans (hvalid i hi).2)⟩
  obtain ⟨hB₄, hsame₄⟩ := (hB₂.congr fun i _ => hlinks₃ i).unchain hvalid₃ hn
    (by rw [Function.update_self, hsize₃, hsame₂.size]) h₄
  obtain ⟨Q, hQ⟩ : ∃ Q : MemoryEntryPool, ∀ i, Q i =
    { pool i with listNext := (P₄ i).listNext, listPrev := (P₄ i).listPrev } := ⟨_, fun _ => rfl⟩
  have hsize : ∀ i, (Q i).size = (pool i).size := fun i => by rw [hQ]; rfl
  have hlinks : ∀ i, (Q i).listNext = (P₄ i).listNext ∧ (Q i).listPrev = (P₄ i).listPrev :=
    fun i => by rw [hQ]; exact ⟨rfl, rfl⟩
  refine ⟨hsame₂, hsame₄, Q, ⟨fun o => (B₂ o).erase n, ?_, fun o ho => ?_⟩, hsize,
    fun i => ⟨(hlinks i).1.symm, (hlinks i).2.symm⟩⟩
  · refine (hB₄.congr fun i _ => hlinks i).congr_order fun i hi => ?_
    rw [Function.update_of_ne hi.2, hsize]
  · dsimp only
    rw [herase₂ o ho]
    have hrest : Sorted pool ((B o).erase n) := (hsorted o ho).sublist List.erase_sublist
    exact hrest.congr fun i _ => hsize i

/-- The ranges after a merge: `e` ends where `n` ended. -/
structure Merged (pool pool' : MemoryEntryPool) (l : List ℕ) (e n : ℕ) : Prop where
  others : ∀ i ∈ l, (pool' i).start = (pool i).start ∧ (pool' i).endAddress = (pool i).endAddress
  entry : (pool' e).start = (pool e).start ∧ (pool' e).endAddress = (pool n).endAddress

section Merged

variable (hmerged : Merged pool pool' (l₁ ++ l₂) e n)

include hmerged

theorem Merged.apart (h : Apart pool (l₁ ++ e :: n :: l₂)) (hnodup : (l₁ ++ e :: n :: l₂).Nodup) :
    Apart pool' (l₁ ++ e :: l₂) := by
  have hsub : List.Sublist (l₁ ++ e :: l₂) (l₁ ++ e :: n :: l₂) :=
    List.Sublist.append_left (List.Sublist.cons_cons e (List.sublist_cons_self n l₂)) l₁
  have hassoc : l₁ ++ e :: n :: l₂ = (l₁ ++ [e]) ++ n :: l₂ := by simp
  refine Apart.update (List.Pairwise.sublist hsub h) (hnodup.sublist hsub)
    (fun i hi _ => hmerged.others i hi) (fun i hi => ?_) fun i hi => ?_
  · rw [hmerged.entry.1]
    exact h.around.1 i hi
  · rw [hmerged.entry.2]
    exact (hassoc ▸ h).around.2 i hi

theorem Merged.range (hrange : ∀ i ∈ l₁ ++ e :: n :: l₂, (pool i).start < (pool i).endAddress)
    (hlt : (pool e).endAddress < (pool n).start) :
    ∀ i ∈ l₁ ++ e :: l₂, (pool' i).start < (pool' i).endAddress := by
  intro i hi
  obtain rfl | hi : i = e ∨ i ∈ l₁ ++ l₂ := by
    simp only [List.mem_append, List.mem_cons] at hi ⊢
    tauto
  · rw [hmerged.entry.1, hmerged.entry.2]
    have := hrange i (by simp)
    have := hrange n (by simp)
    omega
  · rw [(hmerged.others i hi).1, (hmerged.others i hi).2]
    refine hrange i ?_
    simp only [List.mem_append, List.mem_cons] at hi ⊢
    tauto

theorem Merged.coveredBy (hrange : ∀ i ∈ l₁ ++ e :: n :: l₂, (pool i).start < (pool i).endAddress)
    (hlow : (pool e).start ≤ start) (hbehind : start ≤ (pool e).endAddress + 1)
    (hlt : (pool e).endAddress ≤ last) (hfront : (pool n).start = last + 1) :
    coveredBy pool' (l₁ ++ e :: l₂) = coveredBy pool (l₁ ++ e :: n :: l₂) ∪ Set.Icc start last := by
  rw [coveredBy_middle, coveredBy_middle, coveredBy_middle,
    coveredBy_congr (fun i hi => (hmerged.others i hi).1) fun i hi => (hmerged.others i hi).2]
  have he := hrange e (by simp)
  have hn := hrange n (by simp)
  ext x
  simp only [MemoryAllocator.range, hmerged.entry.1, hmerged.entry.2, Set.mem_union, Set.mem_Icc]
  constructor
  · rintro (hx | hx)
    · exact .inl (.inl (.inl hx))
    · by_cases hxe : x ≤ (pool e).endAddress
      · exact .inl (.inr (by omega))
      · by_cases hxn : (pool n).start ≤ x
        · exact .inl (.inl (.inr (by omega)))
        · exact .inr (by omega)
  · rintro (((hx | hx) | hx) | hx)
    · exact .inl hx
    · exact .inr (by omega)
    · exact .inr (by omega)
    · exact .inr (by omega)

theorem Merged.total (hrange : ∀ i ∈ l₁ ++ e :: n :: l₂, (pool i).start < (pool i).endAddress)
    (hlt : (pool e).endAddress ≤ last) (hfront : (pool n).start = last + 1) :
    total pool' (l₁ ++ e :: l₂) = total pool (l₁ ++ e :: n :: l₂) + (last - (pool e).endAddress) := by
  have hsame : MemoryAllocator.total pool' (l₁ ++ l₂) = MemoryAllocator.total pool (l₁ ++ l₂) :=
    total_congr fun i hi => by
      rw [MemoryEntry.size, MemoryEntry.size, (hmerged.others i hi).1, (hmerged.others i hi).2]
  rw [total_middle, total_middle, total_middle, hsame]
  have he := hrange e (by simp)
  have hn := hrange n (by simp)
  simp only [MemoryEntry.size, hmerged.entry.1, hmerged.entry.2]
  omega

end Merged

/-- The range closes the gap between `e` and `n`: `n` and maybe `e` grow over it, then `e`
takes the range of `n` and `n` leaves the chain. -/
theorem Rep.merged (h : Rep a (l₁ ++ e :: n :: l₂)) (hlow : (a.memoryEntryPool e).start ≤ start)
    (hbehind : start ≤ (a.memoryEntryPool e).endAddress + 1)
    (hfront : (a.memoryEntryPool n).start = last + 1) (hsize : last - start + 1 = size)
    (ht : t ≤ last) (h₁ : a.setEntryRange e (a.memoryEntryPool e).start t = some a₁)
    (h₂ : a₁.setEntryRange n start (a₁.memoryEntryPool n).endAddress = some a₂)
    (h₃ : a₂.chainEntry n (some (a₁.memoryEntryPool n).size) = some a₃)
    (h₄ : a₃.setEntryRange e (a₃.memoryEntryPool e).start
      (max (a₃.memoryEntryPool e).endAddress (a₃.memoryEntryPool n).endAddress) = some a₄)
    (h₅ : a₄.unchainEntry n = some a₅)
    (h₆ : ({ a₅ with memoryEntryPool := delete a₅.memoryEntryPool n } : MemoryAllocator).chainEntry
      e (some (a.memoryEntryPool e).size) = some a₆) :
    Gave a (Set.Icc start last) (.ok (), { a₆ with freeSize := a.freeSize + size }) := by
  have hassoc : l₁ ++ e :: n :: l₂ = (l₁ ++ [e]) ++ n :: l₂ := by simp
  have hnot := not_mem_middle (hassoc ▸ h.chain.nodup)
  have hne : e ≠ n := fun hne => hnot (by simp [hne])
  have hgap := h.chain.apart.around.2 n (by simp)
  obtain ⟨-, hP₁, hl₁, hf₁, -⟩ := setEntryRange_spec h₁
  obtain ⟨-, hP₂, hl₂, hf₂, -⟩ := setEntryRange_spec h₂
  have hlinks₂ := (h.chain.toLinks.setRange (setRange_eq h₁)).setRange (setRange_eq h₂)
  obtain ⟨P₃, fl₃, hc₃, rfl⟩ := chainEntry_eq_some h₃
  obtain ⟨-, hP₄, hl₄, hf₄, -⟩ := setEntryRange_spec h₄
  obtain ⟨⟨P₅, fl₅⟩, hu₅, rfl⟩ := Option.map_eq_some_iff.1 h₅
  obtain ⟨P₆, fl₆, hc₆, rfl⟩ := chainEntry_eq_some h₆
  dsimp only at hP₄ hl₄ hf₄ hu₅ hc₆
  have hn₁ : a₁.memoryEntryPool n = a.memoryEntryPool n := by rw [hP₁, if_neg (Ne.symm hne)]
  rw [hn₁, hl₂, hl₁] at hc₃
  obtain ⟨hsame₃, hsame₅, Q, hQ, hQsize, hQlinks⟩ := h.filed.leave hlinks₂.validSlots
    (by simp : n ∈ l₁ ++ e :: n :: l₂) (fun i => by simp only [hP₂, hP₁]; grind) hc₃
    (fun i => by rw [hP₄]; grind) (fun i => by rw [hP₄]; grind)
    (by rw [hP₄, if_neg (Ne.symm hne)]) (hl₄ ▸ hu₅)
  obtain ⟨hlinks₆, hsame⟩ := Links.delete (l₁ ++ [e]) <| hassoc ▸
    ((hlinks₂.congr hsame₃.next hsame₃.previous hsame₃.id hsame₃.enabled).setRange
      (setRange_eq h₄)).congr hsame₅.next hsame₅.previous hsame₅.id hsame₅.enabled
  have hmem : ∀ i ∈ l₁ ++ l₂, i ≠ n ∧ i ≠ e := by
    have he := not_mem_middle h.chain.nodup
    refine fun i hi => ⟨fun hin => hnot ?_, fun hie => he ?_⟩
    · obtain hi | hi := List.mem_append.1 hi <;> simp [← hin, hi]
    · obtain hi | hi := List.mem_append.1 hi <;> simp [← hie, hi]
  have hmerged : Merged a.memoryEntryPool (delete P₅ n) (l₁ ++ l₂) e n := by
    refine ⟨fun i hi => ?_, ?_⟩
    · obtain ⟨hin, hie⟩ := hmem i hi
      rw [hsame.start, hsame.endAddress, hsame₅.start, hsame₅.endAddress, hP₄]
      simp [hie, hsame₃.start, hsame₃.endAddress, hP₂, hP₁, hin]
    · have hend : t ≤ (a.memoryEntryPool n).endAddress := by
        have := h.chain.range n (by simp)
        omega
      rw [hsame.start, hsame.endAddress, hsame₅.start, hsame₅.endAddress, hP₄]
      simp [hsame₃.start, hsame₃.endAddress, hP₂, hP₁, hne, Ne.symm hne, hend]
  have hassoc' : (l₁ ++ [e]) ++ l₂ = l₁ ++ e :: l₂ := by simp
  rw [hassoc'] at hlinks₆
  have hset : {i | i ∈ l₁ ++ e :: n :: l₂} \ {n} = {i | i ∈ l₁ ++ e :: l₂} := by
    rw [hassoc, setOf_mem_middle_sdiff (hassoc ▸ h.chain.nodup), hassoc']
  rw [hset] at hQ
  obtain ⟨hfiled₆, hsame₆⟩ := hQ.rechain hlinks₆.validSlots (by simp : e ∈ l₁ ++ e :: l₂)
    (fun i _ => ⟨(hsame.listNext i).trans (hQlinks i).1, (hsame.listPrev i).trans (hQlinks i).2⟩)
    (fun i hi hie => by
      have hi' : i ∈ l₁ ++ l₂ := by
        have hi : i ∈ l₁ ++ e :: l₂ := hi
        simp only [List.mem_append, List.mem_cons] at hi ⊢
        tauto
      rw [hQsize, MemoryEntry.size, MemoryEntry.size, (hmerged.others i hi').1,
        (hmerged.others i hi').2])
    (by rw [hQsize]; exact hc₆)
  have hchain : Chain P₆ a₄.firstEntry (l₁ ++ e :: l₂) := by
    have hfirst : a₄.firstEntry = (l₁ ++ e :: l₂).head? := by
      rw [hf₄, hf₂, hf₁, h.chain.first]
      cases l₁ <;> rfl
    rw [hfirst]
    exact Chain.sameButLists ⟨hlinks₆, hmerged.range h.chain.range (by omega),
      hmerged.apart h.chain.apart h.chain.nodup⟩ hsame₆
  have hrep : Rep ({ a₄ with
      freeList := fl₆, memoryEntryPool := P₆, freeSize := a.freeSize + size } : MemoryAllocator)
      (l₁ ++ e :: l₂) := by
    refine ⟨hchain, hfiled₆, ?_, fun hnil => absurd hnil (by simp)⟩
    change total P₆ (l₁ ++ e :: l₂) ≤ a.freeSize + size
    have htotal := h.total_le
    rw [total_congr fun i _ => hsame₆.size i,
      hmerged.total h.chain.range (by omega) hfront]
    omega
  refine ⟨?_, _, by simp, hrep⟩
  rw [hrep.freeBytes_eq, h.freeBytes_eq]
  change coveredBy P₆ (l₁ ++ e :: l₂) = _
  rw [coveredBy_congr (fun i _ => hsame₆.start i) fun i _ => hsame₆.endAddress i]
  exact hmerged.coveredBy h.chain.range hlow hbehind (by omega) hfront

/-! ## The steps of `define_free_memory` -/

theorem isFirstEntry_iff {m : MemoryEntry} : m.isFirstEntry = true ↔ m.previous = none :=
  Option.isNone_iff_eq_none

theorem growEntry_eq_some {processed : Bool}
    (h : a.growEntry e start last = some (processed, a')) :
    ∃ b a₁, (if (a.memoryEntryPool e).endAddress + 1 = start then
        b = true ∧ a.setEntryRange e (a.memoryEntryPool e).start last = some a₁
      else b = false ∧ a₁ = a) ∧
      if (a₁.memoryEntryPool e).previous = none ∧ (a₁.memoryEntryPool e).start = last + 1 then
        processed = true ∧
          a₁.setEntryRange e start (a₁.memoryEntryPool e).endAddress = some a'
      else processed = b ∧ a' = a₁ := by
  have hfront : ∀ {b : Bool} {a₁ : MemoryAllocator},
      (if (a₁.memoryEntryPool e).isFirstEntry = true then
        (Checked.add 64 last 1).bind fun after =>
          if (a₁.memoryEntryPool e).start = after then
            (a₁.setEntryRange e start (a₁.memoryEntryPool e).endAddress).map fun a => (true, a)
          else some (b, a₁)
      else some (b, a₁)) = some (processed, a') →
      if (a₁.memoryEntryPool e).previous = none ∧ (a₁.memoryEntryPool e).start = last + 1 then
        processed = true ∧
          a₁.setEntryRange e start (a₁.memoryEntryPool e).endAddress = some a'
      else processed = b ∧ a' = a₁ := by
    intro b a₁ h
    by_cases hprev : (a₁.memoryEntryPool e).previous = none
    · rw [if_pos (isFirstEntry_iff.2 hprev)] at h
      obtain ⟨after, hafter, h⟩ := Option.bind_eq_some_iff.1 h
      obtain ⟨-, rfl⟩ := Checked.add_eq_some.1 hafter
      split_ifs at h with hstart
      · rw [if_pos ⟨hprev, hstart⟩]
        obtain ⟨a₂, hset, heq⟩ := Option.map_eq_some_iff.1 h
        obtain ⟨rfl, rfl⟩ := Prod.mk.injEq .. ▸ heq
        exact ⟨rfl, hset⟩
      · rw [if_neg fun hcon => hstart hcon.2]
        obtain ⟨rfl, rfl⟩ := Prod.mk.injEq .. ▸ Option.some.inj h
        exact ⟨rfl, rfl⟩
    · rw [if_neg fun hfirst => hprev (isFirstEntry_iff.1 hfirst)] at h
      rw [if_neg fun hcon => hprev hcon.1]
      obtain ⟨rfl, rfl⟩ := Prod.mk.injEq .. ▸ Option.some.inj h
      exact ⟨rfl, rfl⟩
  obtain ⟨after, hafter, h⟩ := Option.bind_eq_some_iff.1 h
  obtain ⟨-, rfl⟩ := Checked.add_eq_some.1 hafter
  by_cases hend : (a.memoryEntryPool e).endAddress + 1 = start
  · rw [if_pos hend] at h
    obtain ⟨⟨b, a₁⟩, hback, h⟩ := Option.bind_eq_some_iff.1 h
    obtain ⟨a₂, hset, heq⟩ := Option.map_eq_some_iff.1 hback
    obtain ⟨rfl, rfl⟩ := Prod.mk.injEq .. ▸ heq
    exact ⟨_, _, by rw [if_pos hend]; exact ⟨rfl, hset⟩, hfront h⟩
  · rw [if_neg hend] at h
    exact ⟨false, a, by rw [if_neg hend]; exact ⟨rfl, rfl⟩, hfront h⟩

/-- The first entry behind the range: it grows to the front when it touches it. -/
theorem growEntry_front {processed : Bool} (hfirst : (a.memoryEntryPool e).previous = none)
    (hend : start ≤ (a.memoryEntryPool e).endAddress)
    (h : a.growEntry e start last = some (processed, a')) :
    ((a.memoryEntryPool e).start = last + 1 ∧ processed = true ∧
        a.setEntryRange e start (a.memoryEntryPool e).endAddress = some a') ∨
      ((a.memoryEntryPool e).start ≠ last + 1 ∧ processed = false ∧ a' = a) := by
  obtain ⟨b, a₁, hback, hfront⟩ := growEntry_eq_some h
  rw [if_neg (by omega)] at hback
  obtain ⟨rfl, rfl⟩ := hback
  by_cases hstart : (a₁.memoryEntryPool e).start = last + 1
  · rw [if_pos ⟨hfirst, hstart⟩] at hfront
    exact .inl ⟨hstart, hfront⟩
  · rw [if_neg fun hcon => hstart hcon.2] at hfront
    exact .inr ⟨hstart, hfront⟩

/-- An entry before the range: it grows to the back when it touches it. -/
theorem growEntry_behind {processed : Bool} (hstart : (a.memoryEntryPool e).start ≤ last)
    (h : a.growEntry e start last = some (processed, a')) :
    ((a.memoryEntryPool e).endAddress + 1 = start ∧ processed = true ∧
        a.setEntryRange e (a.memoryEntryPool e).start last = some a') ∨
      ((a.memoryEntryPool e).endAddress + 1 ≠ start ∧ processed = false ∧ a' = a) := by
  obtain ⟨b, a₁, hback, hfront⟩ := growEntry_eq_some h
  by_cases hend : (a.memoryEntryPool e).endAddress + 1 = start
  · rw [if_pos hend] at hback
    obtain ⟨rfl, hset⟩ := hback
    have hsame : (a₁.memoryEntryPool e).start = (a.memoryEntryPool e).start := by
      rw [(setEntryRange_spec hset).2.1, if_pos rfl]
    rw [if_neg (by omega)] at hfront
    obtain ⟨rfl, rfl⟩ := hfront
    exact .inl ⟨hend, rfl, hset⟩
  · rw [if_neg hend] at hback
    obtain ⟨rfl, rfl⟩ := hback
    rw [if_neg (by omega)] at hfront
    exact .inr ⟨hend, hfront⟩

/-- Whatever `growEntry` does, it only touches the range of the entry. -/
theorem growEntry_kept {processed : Bool}
    (h : a.growEntry e start last = some (processed, a')) :
    (∀ i, i ≠ e → a'.memoryEntryPool i = a.memoryEntryPool i) ∧
      getNextEntry a'.memoryEntryPool e = getNextEntry a.memoryEntryPool e := by
  have hset : ∀ {b b' : MemoryAllocator} {s t : ℕ}, b.setEntryRange e s t = some b' →
      (∀ i, i ≠ e → b'.memoryEntryPool i = b.memoryEntryPool i) ∧
        getNextEntry b'.memoryEntryPool e = getNextEntry b.memoryEntryPool e := by
    intro b b' s t hset
    obtain ⟨-, hpool, -⟩ := setEntryRange_spec hset
    refine ⟨fun i hi => by rw [hpool, if_neg hi], ?_⟩
    rw [getNextEntry, getNextEntry, hpool, if_pos rfl]
  obtain ⟨b, a₁, hback, hfront⟩ := growEntry_eq_some h
  have h₁ : (∀ i, i ≠ e → a₁.memoryEntryPool i = a.memoryEntryPool i) ∧
      getNextEntry a₁.memoryEntryPool e = getNextEntry a.memoryEntryPool e := by
    split_ifs at hback
    · exact hset hback.2
    · rw [hback.2]
      exact ⟨fun _ _ => rfl, rfl⟩
  split_ifs at hfront
  · obtain ⟨hother, hnext⟩ := hset hfront.2
    exact ⟨fun i hi => (hother i hi).trans (h₁.1 i hi), hnext.trans h₁.2⟩
  · rw [hfront.2]
    exact h₁

theorem growNext_eq_some {p processed : Bool}
    (h : a.growNext n start last p = some (processed, a')) :
    ((a.memoryEntryPool n).start = last + 1 ∧ processed = true ∧
        ∃ a₁, a.setEntryRange n start (a.memoryEntryPool n).endAddress = some a₁ ∧
          a₁.chainEntry n (some (a.memoryEntryPool n).size) = some a') ∨
      ((a.memoryEntryPool n).start ≠ last + 1 ∧ processed = p ∧ a' = a) := by
  simp only [growNext, bind, Option.bind_eq_some_iff] at h
  obtain ⟨after, hafter, h⟩ := h
  obtain ⟨-, rfl⟩ := Checked.add_eq_some.1 hafter
  split_ifs at h with hstart
  · simp only [pure, Option.bind_eq_some_iff, Option.some.injEq, Prod.mk.injEq] at h
    obtain ⟨oldSize, hold, a₁, hset, a₂, hchain, rfl, rfl⟩ := h
    rw [MemoryEntry.getSize_eq hold] at hchain
    exact .inl ⟨hstart, rfl, a₁, hset, hchain⟩
  · obtain ⟨rfl, rfl⟩ := Prod.mk.injEq .. ▸ Option.some.inj h
    exact .inr ⟨hstart, rfl, rfl⟩

theorem mergeNext_eq_some {after : ℕ} {processed : Bool}
    (h : a.mergeNext e n after processed = some a') :
    if (a.memoryEntryPool n).start = (a.memoryEntryPool e).endAddress + 1 ∨
        processed ∧ (a.memoryEntryPool n).start ≤ after then
      ∃ a₁ a₂, a.setEntryRange e (a.memoryEntryPool e).start
          (max (a.memoryEntryPool e).endAddress (a.memoryEntryPool n).endAddress) = some a₁ ∧
        a₁.unchainEntry n = some a₂ ∧
        a' = { a₂ with memoryEntryPool := delete a₂.memoryEntryPool n }
    else a' = a := by
  simp only [mergeNext, bind, Option.bind_eq_some_iff] at h
  obtain ⟨addressAfter, hafter, h⟩ := h
  obtain ⟨-, rfl⟩ := Checked.add_eq_some.1 hafter
  split_ifs at h ⊢ with hmeet
  · simp only [pure, Option.bind_eq_some_iff, Option.some.injEq] at h
    obtain ⟨a₁, hset, a₂, hunchain, rfl⟩ := h
    exact ⟨a₁, a₂, hset, hunchain, rfl⟩
  · exact (Option.some.inj h).symm

/-- A new entry with the freed range, not linked yet. -/
theorem newEntry_spec (hcreate : createMemoryEntry a.memoryEntryPool = .ok (n, pool))
    (hset : ({ a with memoryEntryPool := pool } : MemoryAllocator).setEntryRange n start last =
      some a₁) :
    n < poolSize ∧ (a.memoryEntryPool n).enabled = false ∧ start < last ∧
      (∀ i, i ≠ n → a₁.memoryEntryPool i = a.memoryEntryPool i) ∧
      a₁.memoryEntryPool n = { MemoryEntry.new with
        id := n, enabled := true, start := start, endAddress := last } ∧
      a₁.freeList = a.freeList ∧ a₁.firstEntry = a.firstEntry ∧ a₁.freeSize = a.freeSize := by
  obtain ⟨hn, hdis, rfl⟩ := createMemoryEntry_ok hcreate
  obtain ⟨hlt, hpool, hlist, hfirst, hfree⟩ := setEntryRange_spec hset
  refine ⟨hn, hdis, hlt, fun i hi => ?_, ?_, hlist, hfirst, hfree⟩
  · simp [hpool, hi]
  · simp [hpool]

/-! ## The range in front of the first entry -/

theorem Rep.newFirst (h : Rep a (e :: l)) (hfront : last + 1 < (a.memoryEntryPool e).start)
    (hsize : last - start + 1 = size)
    (hcreate : createMemoryEntry a.memoryEntryPool = .ok (n, pool))
    (hset : ({ a with memoryEntryPool := pool } : MemoryAllocator).setEntryRange n start last =
      some a₁)
    {before : ℕ} (hchain : a₁.chainBefore e n before = some a₂)
    (hfinish : a₂.finishNew e n size (a.memoryEntryPool e).size = some r) :
    Gave a (Set.Icc start last) r := by
  obtain ⟨hn, hdis, hlt, hkept, hfresh, hlist, hfirst, hfree⟩ := newEntry_spec hcreate hset
  have hne : n ≠ e := fun hne => h.chain.not_mem_of_disabled hn hdis (by simp [hne])
  have hprev : getPrevEntry a₁.memoryEntryPool e = none := by
    rw [getPrevEntry, hkept e (Ne.symm hne), ← getPrevEntry]
    exact h.chain.first_neighbours.2
  rw [chainBefore, hprev] at hchain
  have hlinked := Option.some.inj hchain
  have hpool : chainAfterMe a₁.memoryEntryPool n e = a₂.memoryEntryPool := by rw [← hlinked]
  obtain ⟨hsame, hen, hnx, hpv, hnn, hpn⟩ := linkBefore_spec hne
    (by rw [hkept e (Ne.symm hne)]; exact (h.chain.valid e (by simp)).2) (by rw [hfresh])
    (by rw [hfresh]; rfl) hpool
  refine Rep.inserted [] (e :: l) h hn hdis
    (Inserted.of_links hkept hfresh hsame hen hnx hpv hnn hpn) (by rw [← hlinked, hfresh]; rfl)
    (by rw [← hlinked]; exact hlist) (by rw [← hlinked]; exact hfree) (by simp) hlt (by simp)
    (fun i hi => ?_) hsize hfinish
  obtain rfl | hi := List.mem_cons.1 hi
  · exact hfront
  · have := h.chain.apart.behind_first i hi
    have := h.chain.range e (by simp)
    omega

/-- The first entry is behind the range and grows over it. -/
theorem Rep.grownFront (h : Rep a (e :: l)) (hlt : start ≤ last)
    (htouch : (a.memoryEntryPool e).start = last + 1) (hsize : last - start + 1 = size)
    (hset : a.setEntryRange e start (a.memoryEntryPool e).endAddress = some a₁)
    (hfinish : a₁.finishGrown e size (a.memoryEntryPool e).size = some r) :
    Gave a (Set.Icc start last) r := by
  obtain ⟨a₂, hchain, rfl⟩ := finishGrown_eq_some hfinish
  have hrange := h.chain.range e (by simp)
  rw [(setEntryRange_spec hset).2.2.2.2]
  refine Rep.grown [] h (by omega) le_rfl (by simp)
    h.chain.apart.behind_first (fun x => ?_) ?_ hset hchain
  · simp only [range, Set.mem_Icc]
    omega
  · rw [MemoryEntry.size]
    omega

theorem Rep.freeAtEnd_front (h : Rep a [e]) {processed : Bool} (hlt : start ≤ last)
    (hbefore : last < (a.memoryEntryPool e).start) (hsize : last - start + 1 = size)
    (hgrow : a.growEntry e start last = some (processed, a₁))
    (htail : a₁.freeAtEnd e start last size (a.memoryEntryPool e).size processed = some r) :
    Gave a (Set.Icc start last) r := by
  have hrange := h.chain.range e (by simp)
  obtain ⟨htouch, rfl, hset⟩ | ⟨htouch, rfl, rfl⟩ :=
    growEntry_front h.chain.first_neighbours.1 (by omega) hgrow
  · exact h.grownFront hlt htouch hsize hset htail
  · rw [freeAtEnd, if_neg (by simp)] at htail
    split at htail
    · obtain rfl := Option.some.inj htail
      exact rfl
    rename_i n pool hcreate
    obtain ⟨a₂, hset, htail⟩ := Option.bind_eq_some_iff.1 htail
    obtain ⟨hn, hdis, -, hkept, hfresh, -⟩ := newEntry_spec hcreate hset
    have hne : e ≠ n := fun hne => h.chain.not_mem_of_disabled hn hdis (by simp [hne])
    rw [if_neg (by rw [hkept e hne, hfresh]; dsimp only; omega)] at htail
    obtain ⟨a₃, hchain, htail⟩ := Option.bind_eq_some_iff.1 htail
    exact h.newFirst (by omega) hsize hcreate hset hchain htail

theorem Rep.freeBeforeNext_front {m : ℕ} (h : Rep a (e :: m :: l)) {processed : Bool}
    (hlt : start ≤ last)
    (hbefore : last < (a.memoryEntryPool e).start) (hsize : last - start + 1 = size)
    (hgrow : a.growEntry e start last = some (processed, a₁))
    (htail : a₁.freeBeforeNext e m start last size (a.memoryEntryPool e).size
      ((a.memoryEntryPool e).endAddress + 1) processed = some r) :
    Gave a (Set.Icc start last) r := by
  have hrange := h.chain.range e (by simp)
  have hgap := h.chain.apart.behind_first m (by simp)
  have hme : m ≠ e := fun hme => by
    have := h.chain.nodup
    simp [hme] at this
  have hkept := (growEntry_kept hgrow).1 m hme
  -- the entry behind the first one is out of reach, so it neither grows nor merges
  simp only [freeBeforeNext, bind, Option.bind_eq_some_iff] at htail
  obtain ⟨⟨p, a₂⟩, hnext, a₃, hmerge, htail⟩ := htail
  obtain ⟨hcon, -⟩ | ⟨-, rfl, rfl⟩ := growNext_eq_some hnext
  · rw [hkept] at hcon
    omega
  have hfront := growEntry_front h.chain.first_neighbours.1 (by omega) hgrow
  have hend : (a₂.memoryEntryPool e).endAddress = (a.memoryEntryPool e).endAddress := by
    obtain ⟨-, -, hset⟩ | ⟨-, -, rfl⟩ := hfront
    · rw [(setEntryRange_spec hset).2.1, if_pos rfl]
    · rfl
  have hmerge := mergeNext_eq_some hmerge
  rw [hkept, hend, if_neg (by omega)] at hmerge
  subst hmerge
  obtain ⟨htouch, rfl, hset⟩ | ⟨htouch, rfl, rfl⟩ := hfront
  · exact h.grownFront hlt htouch hsize hset htail
  · rw [if_neg (by simp)] at htail
    split at htail
    · obtain rfl := Option.some.inj htail
      exact rfl
    rename_i n pool hcreate
    obtain ⟨a₄, hset, htail⟩ := Option.bind_eq_some_iff.1 htail
    obtain ⟨hn, hdis, -, hother, hfresh, -⟩ := newEntry_spec hcreate hset
    have hne : e ≠ n := fun hne => h.chain.not_mem_of_disabled hn hdis (by simp [hne])
    rw [if_pos (by rw [hother e hne, hfresh]; exact hbefore)] at htail
    obtain ⟨a₅, hchain, htail⟩ := Option.bind_eq_some_iff.1 htail
    exact h.newFirst (by omega) hsize hcreate hset hchain htail

/-! ## The range behind an entry -/

theorem Rep.newBehind (h : Rep a (l₁ ++ e :: l₂))
    (hbehind : (a.memoryEntryPool e).endAddress + 1 < start)
    (hnext : ∀ i ∈ l₂, last + 1 < (a.memoryEntryPool i).start) (hsize : last - start + 1 = size)
    (hcreate : createMemoryEntry a.memoryEntryPool = .ok (n, pool))
    (hset : ({ a with memoryEntryPool := pool } : MemoryAllocator).setEntryRange n start last =
      some a₁)
    (hlinked : a₂ = { a₁ with
      memoryEntryPool := chainAfterMe (chainBeforeNext a₁.memoryEntryPool n l₂.head?) e n })
    (hfinish : a₂.finishNew e n size (a.memoryEntryPool e).size = some r) :
    Gave a (Set.Icc start last) r := by
  obtain ⟨hn, hdis, hlt, hkept, hfresh, hlist, hfirst, hfree⟩ := newEntry_spec hcreate hset
  have hassoc : (l₁ ++ [e]) ++ l₂ = l₁ ++ e :: l₂ := by simp
  have hnot := h.chain.not_mem_of_disabled hn hdis
  have hne : n ≠ e := fun hne => hnot (by simp [hne])
  have hrange := h.chain.range e (by simp)
  obtain ⟨hsame, hen, hnx, hpv, hnn, hpn⟩ := linkAfter_spec (Q := a₁.memoryEntryPool) l₂.head? hne
    (fun x hx => by
      have hx := List.mem_of_head? hx
      have hxn : x ≠ n := fun hxn => hnot (by simp [← hxn, hx])
      rw [hkept x hxn]
      exact ⟨hxn, fun hxe => not_mem_middle h.chain.nodup (by simp [← hxe, hx]),
        (h.chain.valid x (by simp [hx])).2⟩)
    (by rw [hkept e (Ne.symm hne)]; exact (h.chain.valid e (by simp)).2) (by rw [hfresh])
    (by rw [hfresh]; rfl) (congrArg memoryEntryPool hlinked).symm
  have hins := Inserted.of_links hkept hfresh hsame hen hnx hpv hnn hpn
  have hlast : (l₁ ++ [e]).getLast? = some e := by simp
  refine Rep.inserted (l₁ ++ [e]) l₂ (hassoc ▸ h) hn hdis (hlast ▸ hins) ?_
    (by rw [hlinked]; exact hlist) (by rw [hlinked]; exact hfree) (by simp) hlt (fun i hi => ?_)
    hnext hsize hfinish
  · rw [hlinked]
    exact hfirst.trans (by rw [h.chain.first]; simp)
  · obtain hi | hi := List.mem_append.1 hi
    · have := h.chain.apart.around.1 i hi
      omega
    · rw [List.mem_singleton.1 hi]
      exact hbehind

/-- The entry before the range grows over it. -/
theorem Rep.grownBehind (h : Rep a (l₁ ++ e :: l₂)) (hlt : start ≤ last)
    (htouch : (a.memoryEntryPool e).endAddress + 1 = start)
    (hnext : ∀ i ∈ l₂, last + 1 < (a.memoryEntryPool i).start) (hsize : last - start + 1 = size)
    (hset : a.setEntryRange e (a.memoryEntryPool e).start last = some a₁)
    (hfinish : a₁.finishGrown e size (a.memoryEntryPool e).size = some r) :
    Gave a (Set.Icc start last) r := by
  obtain ⟨a₂, hchain, rfl⟩ := finishGrown_eq_some hfinish
  have hrange := h.chain.range e (by simp)
  rw [(setEntryRange_spec hset).2.2.2.2]
  refine h.grown l₁ le_rfl (by omega) h.chain.apart.around.1 hnext (fun x => ?_) ?_ hset hchain
  · simp only [range, Set.mem_Icc]
    omega
  · rw [MemoryEntry.size]
    omega

theorem Rep.freeAtEnd_behind (h : Rep a (l₁ ++ [e])) {processed : Bool} (hlt : start ≤ last)
    (hbehind : (a.memoryEntryPool e).endAddress < start) (hsize : last - start + 1 = size)
    (hgrow : a.growEntry e start last = some (processed, a₁))
    (htail : a₁.freeAtEnd e start last size (a.memoryEntryPool e).size processed = some r) :
    Gave a (Set.Icc start last) r := by
  have hrange := h.chain.range e (by simp)
  obtain ⟨htouch, rfl, hset⟩ | ⟨htouch, rfl, rfl⟩ := growEntry_behind (by omega) hgrow
  · exact h.grownBehind hlt htouch (by simp) hsize hset htail
  · rw [freeAtEnd, if_neg (by simp)] at htail
    split at htail
    · obtain rfl := Option.some.inj htail
      exact rfl
    rename_i n pool hcreate
    obtain ⟨a₂, hset, htail⟩ := Option.bind_eq_some_iff.1 htail
    obtain ⟨hn, hdis, -, hkept, hfresh, -⟩ := newEntry_spec hcreate hset
    have hne : e ≠ n := fun hne => h.chain.not_mem_of_disabled hn hdis (by simp [hne])
    rw [if_pos (by rw [hkept e hne, hfresh]; exact hbehind)] at htail
    exact h.newBehind (by omega) (by simp) hsize hcreate hset rfl htail

theorem setNext_setPrev_eq {m : ℕ} (hne : m ≠ n) :
    setNextEntry (setPrevEntry pool m n) n m = chainBeforeNext pool n (some m) := by
  funext i
  rw [chainBeforeNext, chainAfterMe_apply pool n m i (Ne.symm hne)]
  simp only [setNextEntry, setPrevEntry, modifyEntry_apply]
  by_cases hin : i = n
  · simp [hin, Ne.symm hne]
  · by_cases him : i = m <;> simp [hin, him, hne]

/-- Moving an entry whose range was changed only touches list links. -/
theorem Rep.chainEntry_sameButLists (h : Rep a l) {first : Option ℕ} (he : e ∈ l)
    (hlinks : Links a₁.memoryEntryPool first l)
    (hlists : ∀ i, (a₁.memoryEntryPool i).listNext = (a.memoryEntryPool i).listNext ∧
      (a₁.memoryEntryPool i).listPrev = (a.memoryEntryPool i).listPrev)
    (hlist : a₁.freeList = a.freeList)
    (hchain : a₁.chainEntry e (some (a.memoryEntryPool e).size) = some a₂) :
    SameButLists a₁.memoryEntryPool a₂.memoryEntryPool ∧ a₂.freeSize = a₁.freeSize := by
  obtain ⟨pool, freeList, hfile, rfl⟩ := chainEntry_eq_some hchain
  obtain ⟨B, hB, -⟩ := h.filed
  obtain ⟨-, -, hsame, -⟩ :=
    (hB.congr fun i _ => hlists i).rechain hlinks.validSlots he rfl (hlist ▸ hfile)
  exact ⟨hsame, rfl⟩

/-- `set_range` does not touch the list links. -/
theorem setEntryRange_lists (h : a.setEntryRange e s t = some a₁) (i : ℕ) :
    (a₁.memoryEntryPool i).listNext = (a.memoryEntryPool i).listNext ∧
      (a₁.memoryEntryPool i).listPrev = (a.memoryEntryPool i).listPrev := by
  rw [(setEntryRange_spec h).2.1]
  by_cases hie : i = e <;> simp [hie]

/-- The range reaches from an entry, which may have grown over it, up to the next one. -/
theorem Rep.freeBeforeNext_meeting {m : ℕ} (h : Rep a (l₁ ++ e :: m :: l₂)) {p : Bool}
    (hlow : (a.memoryEntryPool e).start ≤ start)
    (hbehind : start ≤ (a.memoryEntryPool e).endAddress + 1)
    (hfront : (a.memoryEntryPool m).start = last + 1) (hsize : last - start + 1 = size)
    (ht : t ≤ last) (hset : a.setEntryRange e (a.memoryEntryPool e).start t = some a₁)
    (htail : a₁.freeBeforeNext e m start last size (a.memoryEntryPool e).size
      ((a.memoryEntryPool e).endAddress + 1) p = some r) :
    Gave a (Set.Icc start last) r := by
  have hme : m ≠ e := fun hme => not_mem_middle h.chain.nodup (by simp [hme])
  have hm₁ : a₁.memoryEntryPool m = a.memoryEntryPool m := by
    rw [(setEntryRange_spec hset).2.1, if_neg hme]
  simp only [freeBeforeNext, bind, Option.bind_eq_some_iff] at htail
  obtain ⟨⟨p, a₂⟩, hnext, a₃, hmerge, htail⟩ := htail
  have hmerge := mergeNext_eq_some hmerge
  dsimp only at hmerge htail
  obtain ⟨-, rfl, a₁', hset', hchain⟩ | ⟨hfar, -⟩ := growNext_eq_some hnext
  · have hlists : ∀ i, (a₁'.memoryEntryPool i).listNext = (a.memoryEntryPool i).listNext ∧
        (a₁'.memoryEntryPool i).listPrev = (a.memoryEntryPool i).listPrev := fun i => by
      rw [(setEntryRange_lists hset' i).1, (setEntryRange_lists hset' i).2]
      exact setEntryRange_lists hset i
    obtain ⟨hsame, hfree₂⟩ := h.chainEntry_sameButLists (by simp)
      ((h.chain.toLinks.setRange (setRange_eq hset)).setRange (setRange_eq hset')) hlists
      ((setEntryRange_spec hset').2.2.1.trans (setEntryRange_spec hset).2.2.1) (hm₁ ▸ hchain)
    have hm₂ : (a₂.memoryEntryPool m).start = start := by
      rw [hsame.start, (setEntryRange_spec hset').2.1, if_pos rfl]
    rw [if_pos (.inr ⟨rfl, by omega⟩)] at hmerge
    obtain ⟨a₄, a₅, hset₄, hunchain, rfl⟩ := hmerge
    obtain ⟨a₆, hchain₆, rfl⟩ := finishGrown_eq_some htail
    have hfree : a₅.freeSize = a.freeSize := by
      obtain ⟨_, -, rfl⟩ := Option.map_eq_some_iff.1 hunchain
      change a₄.freeSize = _
      rw [(setEntryRange_spec hset₄).2.2.2.2, hfree₂, (setEntryRange_spec hset').2.2.2.2,
        (setEntryRange_spec hset).2.2.2.2]
    dsimp only
    rw [hfree]
    exact h.merged hlow hbehind hfront hsize ht hset hset' hchain hset₄ hunchain hchain₆
  · exact absurd (hm₁ ▸ hfront) hfar

theorem Rep.freeBeforeNext_behind {m : ℕ} (h : Rep a (l₁ ++ e :: m :: l₂)) {processed : Bool}
    (hlt : start ≤ last) (hbehind : (a.memoryEntryPool e).endAddress < start)
    (hbefore : last < (a.memoryEntryPool m).start) (hsize : last - start + 1 = size)
    (hgrow : a.growEntry e start last = some (processed, a₁))
    (htail : a₁.freeBeforeNext e m start last size (a.memoryEntryPool e).size
      ((a.memoryEntryPool e).endAddress + 1) processed = some r) :
    Gave a (Set.Icc start last) r := by
  have hassoc : l₁ ++ e :: m :: l₂ = (l₁ ++ [e]) ++ m :: l₂ := by simp
  have hrange := h.chain.range e (by simp)
  have hrangem := h.chain.range m (by simp)
  have hme : m ≠ e := fun hme => not_mem_middle h.chain.nodup (by simp [hme])
  have hfar : (a.memoryEntryPool m).start ≠ last + 1 →
      ∀ i ∈ m :: l₂, last + 1 < (a.memoryEntryPool i).start := by
    intro hne i hi
    obtain rfl | hi := List.mem_cons.1 hi
    · omega
    · have := (hassoc ▸ h.chain.apart).around.2 i hi
      omega
  simp only [freeBeforeNext, bind, Option.bind_eq_some_iff] at htail
  obtain ⟨⟨p, a₂⟩, hnextcall, a₃, hmergecall, htail⟩ := htail
  have hmerge := mergeNext_eq_some hmergecall
  dsimp only at hmerge htail
  have hnext := growNext_eq_some hnextcall
  obtain ⟨htouch, rfl, hset⟩ | ⟨htouch, rfl, rfl⟩ := growEntry_behind (by omega) hgrow
  · obtain ⟨-, hpool₁, -⟩ := setEntryRange_spec hset
    have hm₁ : a₁.memoryEntryPool m = a.memoryEntryPool m := by rw [hpool₁, if_neg hme]
    obtain ⟨htouch', rfl, a₁', hset', hchain⟩ | ⟨htouch', rfl, rfl⟩ := hnext
    · refine h.freeBeforeNext_meeting (by omega) (by omega) (hm₁ ▸ htouch') hsize le_rfl hset
        (p := true) ?_
      simp only [freeBeforeNext, bind, Option.bind_eq_some_iff]
      exact ⟨_, hnextcall, _, hmergecall, htail⟩
    · rw [hm₁] at htouch'
      rw [hm₁, hpool₁, if_pos rfl] at hmerge
      rw [if_neg (by dsimp only; omega)] at hmerge
      subst hmerge
      exact h.grownBehind hlt htouch (hfar htouch') hsize hset htail
  · obtain ⟨htouch', rfl, a₁', hset', hchain⟩ | ⟨htouch', rfl, rfl⟩ := hnext
    · obtain ⟨-, hpool, hlist, -, hfree⟩ := setEntryRange_spec hset'
      obtain ⟨hsame, hfree₂⟩ := h.chainEntry_sameButLists (by simp)
        (h.chain.toLinks.setRange (setRange_eq hset')) (setEntryRange_lists hset') hlist hchain
      have hm₂ : (a₂.memoryEntryPool m).start = start := by rw [hsame.start, hpool, if_pos rfl]
      have he : a₁'.memoryEntryPool e = a₁.memoryEntryPool e := by rw [hpool, if_neg (Ne.symm hme)]
      have he₂ : (a₂.memoryEntryPool e).endAddress = (a₁.memoryEntryPool e).endAddress := by
        rw [hsame.endAddress, he]
      rw [if_neg (by omega)] at hmerge
      subst hmerge
      obtain ⟨a₄, hchain₄, rfl⟩ := finishGrown_eq_some htail
      have hsize₂ : (a₃.memoryEntryPool e).size = (a₁.memoryEntryPool e).size := by
        rw [hsame.size, he]
      rw [← hsize₂] at hchain₄
      obtain rfl := chainEntry_same hchain₄
      rw [hfree₂, hfree]
      refine Rep.grown (l₁ ++ [e]) (hassoc ▸ h) (by omega) le_rfl (fun i hi => ?_)
        (hassoc ▸ h.chain.apart).around.2 (fun x => ?_) ?_ hset' hchain
      · obtain hi | hi := List.mem_append.1 hi
        · have := h.chain.apart.around.1 i hi
          omega
        · rw [List.mem_singleton.1 hi]
          omega
      · simp only [range, Set.mem_Icc]
        omega
      · rw [MemoryEntry.size]
        omega
    · rw [if_neg (by simp; omega)] at hmerge
      subst hmerge
      rw [if_neg (by simp)] at htail
      split at htail
      · obtain rfl := Option.some.inj htail
        exact rfl
      rename_i n pool hcreate
      obtain ⟨a₄, hset, htail⟩ := Option.bind_eq_some_iff.1 htail
      obtain ⟨hn, hdis, -, hother, hfresh, -⟩ := newEntry_spec hcreate hset
      have hnot := h.chain.not_mem_of_disabled hn hdis
      have hne : e ≠ n := fun hne => hnot (by simp [hne])
      have hmn : m ≠ n := fun hmn => hnot (by simp [hmn])
      rw [if_neg (by rw [hother e hne, hfresh]; dsimp only; omega), setNext_setPrev_eq hmn] at htail
      exact h.newBehind (by omega) (hfar htouch') hsize hcreate hset rfl htail

/-! ## The operations -/

theorem getEndAddress_eq_some (h : getEndAddress start size = some last) (hpos : 0 < size) :
    start ≤ last ∧ last - start + 1 = size ∧ Set.Ico start (start + size) = Set.Icc start last := by
  obtain ⟨s, hs, hlast⟩ := Option.bind_eq_some_iff.1 h
  obtain ⟨-, rfl⟩ := Checked.add_eq_some.1 hs
  obtain ⟨-, rfl⟩ := Checked.sub_eq_some.1 hlast
  refine ⟨by omega, by omega, ?_⟩
  ext x
  simp only [Set.mem_Ico, Set.mem_Icc]
  omega

/-- An entry whose first byte is before a range that is not free ends before it. -/
theorem Rep.before_or_behind (h : Rep a l)
    (hfree : Disjoint (Set.Icc start last) a.freeBytes) (hlt : start ≤ last) {i : ℕ} (hi : i ∈ l) :
    ((a.memoryEntryPool i).start < start → (a.memoryEntryPool i).endAddress < start) ∧
      (start ≤ (a.memoryEntryPool i).start → last < (a.memoryEntryPool i).start) := by
  have hrange := h.chain.range i hi
  rw [h.freeBytes_eq] at hfree
  have hnot : ∀ x ∈ Set.Icc start last, ¬((a.memoryEntryPool i).start ≤ x ∧
      x ≤ (a.memoryEntryPool i).endAddress) := fun x hx hcov =>
    Set.disjoint_left.1 hfree hx ⟨i, hi, hcov⟩
  refine ⟨fun hlow => ?_, fun hhigh => ?_⟩
  · by_contra hcon
    exact hnot start ⟨le_rfl, hlt⟩ ⟨hlow.le, not_lt.1 hcon⟩
  · by_contra hcon
    exact hnot _ ⟨hhigh, not_lt.1 hcon⟩ ⟨le_rfl, hrange.le⟩

/-- The tail of `define_free_memory` after the entry `e` had its chance to grow. -/
def freeTail (a : MemoryAllocator) (e : ℕ) (next : Option ℕ) (start last size oldSize after : ℕ)
    (processed : Bool) : Option (Reply Unit) :=
  match next with
  | some m => a.freeBeforeNext e m start last size oldSize after processed
  | none => a.freeAtEnd e start last size oldSize processed

/-- The branch of `define_free_memory` for a range that overlaps neither the entry
it starts from nor the next one. -/
theorem defineFreeMemory_eq_some {fuel : ℕ} {next : Option ℕ} (hpos : size ≠ 0)
    (hfound : a.previousOrFirst start = some (.ok e)) (hlast : getEndAddress start size = some last)
    (hcovers : ¬((a.memoryEntryPool e).start ≤ start ∧ last ≤ (a.memoryEntryPool e).endAddress))
    (hoverlap : ¬(start ≤ (a.memoryEntryPool e).endAddress ∧
      (a.memoryEntryPool e).previous ≠ none))
    (hends : (a.memoryEntryPool e).endAddress ≠ last)
    (hnext : getNextEntry a.memoryEntryPool e = next)
    (hbeyond : ∀ m, next = some m → m ≠ e ∧ start < (a.memoryEntryPool m).start)
    (hdefine : defineFreeMemory (fuel + 1) a start size = some r) :
    ∃ processed a₁, a.growEntry e start last = some (processed, a₁) ∧
      a₁.freeTail e next start last size (a.memoryEntryPool e).size
        ((a.memoryEntryPool e).endAddress + 1) processed = some r := by
  have hfirst : ¬(start ≤ (a.memoryEntryPool e).endAddress ∧
      (!(a.memoryEntryPool e).isFirstEntry) = true) := by
    rintro ⟨hle, hnot⟩
    refine hoverlap ⟨hle, fun hprev => ?_⟩
    rw [isFirstEntry_iff.2 hprev] at hnot
    exact absurd hnot (by simp)
  rw [MemoryAllocator.defineFreeMemory, if_neg hpos, hfound, Option.bind_some] at hdefine
  dsimp only at hdefine
  rw [hlast, Option.bind_some, if_neg hcovers, if_neg hfirst, if_neg hends] at hdefine
  simp only [bind, Option.bind_eq_some_iff] at hdefine
  obtain ⟨oldSize, hold, after, hafter, ⟨processed, a₁⟩, hgrow, htail⟩ := hdefine
  obtain rfl := MemoryEntry.getSize_eq hold
  obtain ⟨-, rfl⟩ := Checked.add_eq_some.1 hafter
  obtain ⟨hkept, hnext₁⟩ := growEntry_kept hgrow
  dsimp only at htail
  rw [hnext₁, hnext] at htail
  refine ⟨processed, a₁, hgrow, ?_⟩
  cases next with
  | none => exact htail
  | some m =>
    obtain ⟨hme, hm⟩ := hbeyond m rfl
    dsimp only at htail
    rwa [hkept m hme, if_neg (not_le.2 hm)] at htail

/-- A range that is not free lies before the first entry of the chain, or behind the
entry `e` and before all later ones. -/
structure Gap (pool : MemoryEntryPool) (l₁ : List ℕ) (e : ℕ) (l₂ : List ℕ) (start last : ℕ) :
    Prop where
  le : start ≤ last
  here : l₁ = [] ∧ last < (pool e).start ∨ (pool e).endAddress < start
  later : ∀ m ∈ l₂, last < (pool m).start

/-- The entry that `define_free_memory` starts from, with what is before and behind it. -/
theorem Rep.located (h : Rep a l) (hne : l ≠ []) (hle : start ≤ last)
    (hfree : Disjoint (Set.Icc start last) a.freeBytes) {prev : Option ℕ}
    (hprev : searchEntryPreviousAddress a.memoryEntryPool a.firstEntry start = some prev) :
    ∃ l₁ e l₂, l = l₁ ++ e :: l₂ ∧ a.previousOrFirst start = some (.ok e) ∧
      Gap a.memoryEntryPool l₁ e l₂ start last := by
  have hstart : start ∉ coveredBy a.memoryEntryPool l := by
    rw [← h.freeBytes_eq]
    exact Set.disjoint_left.1 hfree ⟨le_rfl, hle⟩
  obtain ⟨l₁, l₂, rfl, hlow, hhigh, rfl⟩ := h.chain.searchEntryPreviousAddress hstart hprev
  rcases l₁.eq_nil_or_concat with rfl | ⟨l₁, e, rfl⟩
  · cases l₂ with
    | nil => exact absurd rfl hne
    | cons e l₂ =>
      have he : getMemoryEntry e = .ok e := if_pos (h.chain.valid e (by simp)).1
      have hbefore := (h.before_or_behind hfree hle (i := e) (by simp)).2 (hhigh e (by simp))
      have hrange := h.chain.range e (by simp)
      refine ⟨[], e, l₂, rfl, ?_, hle, .inl ⟨rfl, hbefore⟩, fun m hm => ?_⟩
      · rw [previousOrFirst, hprev, h.chain.first]
        exact congrArg some he
      · have := h.chain.apart.behind_first m hm
        omega
  · rw [List.concat_eq_append, List.append_assoc, List.singleton_append] at h
    rw [List.concat_eq_append] at hlow hprev
    refine ⟨l₁, e, l₂, by simp, ?_, hle,
      .inr ((h.before_or_behind hfree hle (i := e) (by simp)).1 (hlow e (by simp))), fun m hm =>
        (h.before_or_behind hfree hle (by simp [hm])).2 (hhigh m hm)⟩
    rw [previousOrFirst, hprev, List.getLast?_concat]
    rfl

/-- The range overlaps neither the entry nor the next one. -/
theorem Rep.clear (h : Rep a (l₁ ++ e :: l₂)) (hgap : Gap a.memoryEntryPool l₁ e l₂ start last) :
    ¬((a.memoryEntryPool e).start ≤ start ∧ last ≤ (a.memoryEntryPool e).endAddress) ∧
      ¬(start ≤ (a.memoryEntryPool e).endAddress ∧ (a.memoryEntryPool e).previous ≠ none) ∧
      (a.memoryEntryPool e).endAddress ≠ last ∧
      ∀ m, l₂.head? = some m → m ≠ e ∧ start < (a.memoryEntryPool m).start := by
  have hle := hgap.le
  have hrange := h.chain.range e (by simp)
  have hnext : ∀ m, l₂.head? = some m → m ≠ e ∧ start < (a.memoryEntryPool m).start := by
    intro m hm
    have hm := List.mem_of_head? hm
    have := hgap.later m hm
    exact ⟨fun hme => not_mem_middle h.chain.nodup (by simp [← hme, hm]), by omega⟩
  obtain ⟨rfl, hbefore⟩ | hbehind := hgap.here
  · have hfirst := h.chain.first_neighbours.1
    exact ⟨by omega, fun hcon => hcon.2 hfirst, by omega, hnext⟩
  · exact ⟨by omega, fun hcon => absurd hcon.1 (by omega), by omega, hnext⟩

theorem Rep.defineFreeMemory_tail (h : Rep a l) (hne : l ≠ []) {fuel : ℕ} (hpos : size ≠ 0)
    (hfree : Disjoint (Set.Ico start (start + size)) a.freeBytes)
    (hdefine : defineFreeMemory (fuel + 1) a start size = some r) :
    ∃ l₁ e l₂ last processed a₁, l = l₁ ++ e :: l₂ ∧ getEndAddress start size = some last ∧
      Gap a.memoryEntryPool l₁ e l₂ start last ∧
      a.growEntry e start last = some (processed, a₁) ∧
      a₁.freeTail e l₂.head? start last size (a.memoryEntryPool e).size
        ((a.memoryEntryPool e).endAddress + 1) processed = some r := by
  have hrest : Set.Ico start (start + size) = Set.Icc start (start + size - 1) := by
    ext x
    simp only [Set.mem_Ico, Set.mem_Icc]
    omega
  have hunfold := hdefine
  rw [MemoryAllocator.defineFreeMemory, if_neg hpos] at hunfold
  obtain ⟨found, hfound, hunfold⟩ := Option.bind_eq_some_iff.1 hunfold
  obtain ⟨prev, hprev, -⟩ := Option.bind_eq_some_iff.1 hfound
  obtain ⟨l₁, e, l₂, rfl, hentry, hgap⟩ := h.located hne (by omega) (hrest ▸ hfree) hprev
  obtain rfl : .ok e = found := Option.some.inj (hentry.symm.trans hfound)
  obtain ⟨last, hlast, -⟩ := Option.bind_eq_some_iff.1 hunfold
  obtain ⟨hle, hsize, -⟩ := getEndAddress_eq_some hlast (Nat.pos_of_ne_zero hpos)
  obtain rfl : start + size - 1 = last := by omega
  obtain ⟨hcovers, hoverlap, hends, hbeyond⟩ := h.clear hgap
  obtain ⟨processed, a₁, hgrow, htail⟩ := defineFreeMemory_eq_some hpos hentry hlast hcovers
    hoverlap hends h.chain.neighbours.2.2.2 hbeyond hdefine
  exact ⟨l₁, e, l₂, _, processed, a₁, rfl, hlast, hgap, hgrow, htail⟩

theorem Rep.defineFreeMemory (h : Rep a l) (hne : l ≠ []) {fuel : ℕ}
    (hfree : Disjoint (Set.Ico start (start + size)) a.freeBytes)
    (hdefine : defineFreeMemory (fuel + 1) a start size = some r) :
    Gave a (Set.Ico start (start + size)) r := by
  by_cases hzero : size = 0
  · rw [MemoryAllocator.defineFreeMemory, if_pos hzero] at hdefine
    obtain rfl := Option.some.inj hdefine
    exact rfl
  obtain ⟨l₁, e, l₂, last, processed, a₁, rfl, hlast, hgap, hgrow, htail⟩ :=
    h.defineFreeMemory_tail hne hzero hfree hdefine
  obtain ⟨hlt, hsize, hset⟩ := getEndAddress_eq_some hlast (Nat.pos_of_ne_zero hzero)
  rw [hset]
  obtain ⟨rfl, hbefore⟩ | hbehind := hgap.here
  · cases l₂ with
    | nil => exact h.freeAtEnd_front hlt hbefore hsize hgrow htail
    | cons m l₂ => exact h.freeBeforeNext_front hlt hbefore hsize hgrow htail
  · cases l₂ with
    | nil => exact h.freeAtEnd_behind hlt hbehind hsize hgrow htail
    | cons m l₂ =>
      exact h.freeBeforeNext_behind hlt hbehind (hgap.later m (by simp)) hsize hgrow htail

/-- With no free bytes counted there is no entry. -/
theorem Rep.eq_nil (h : Rep a l) (hzero : a.freeSize = 0) : l = [] := by
  cases l with
  | nil => rfl
  | cons e l =>
    have := h.total_le
    rw [total, List.map_cons, List.sum_cons, MemoryEntry.size] at this
    omega

/-- The first range that the allocator gets. -/
theorem Rep.freeFirst (h : Rep a []) (hpos : 0 < size)
    (hcreate : createMemoryEntry a.memoryEntryPool = .ok (n, pool))
    (hlast : getEndAddress start size = some last)
    (hset : ({ a with memoryEntryPool := pool } : MemoryAllocator).setEntryRange n start last =
      some a₁)
    (hchain : a₁.chainEntry n none = some a₂) :
    Gave a (Set.Ico start (start + size)) (.ok (), { a₂ with
      firstEntry := some (a₂.memoryEntryPool n).id, freeSize := size }) := by
  obtain ⟨-, hsize, hR⟩ := getEndAddress_eq_some hlast hpos
  obtain ⟨hn, hdis, hlt, hkept, hfresh, hlist, -, -⟩ := newEntry_spec hcreate hset
  obtain ⟨P, fl, hfile, rfl⟩ := chainEntry_eq_some hchain
  have hfiled : Filed a₁.memoryEntryPool a.freeList {i | i ∈ ([] : List ℕ)} :=
    h.filed.congr (by simp) (by simp)
  obtain ⟨hfiled', hsame⟩ := hfiled.chainNew (by simp [ValidSlots]) (by simp) (by rw [hfresh])
    (hlist ▸ hfile)
  have hlinks : Links a₁.memoryEntryPool (some n) [n] := by
    refine Links.insert [] [] h.chain.toLinks hn hdis ⟨fun i hi => ?_,
      fun i hi => ?_, ?_, ?_, fun i hi => ?_, ?_, fun i hi => ?_, ?_⟩ rfl
    · simp [hkept i hi]
    · simp [hkept i hi]
    · rw [hfresh]; rfl
    · rw [hfresh]; rfl
    · rw [hkept i hi]
    · rw [hfresh]
    · rw [hkept i hi]
    · rw [hfresh]
  have hset' : insert n {i | i ∈ ([] : List ℕ)} = {i | i ∈ [n]} := by
    ext i
    simp
  have hid : (P n).id = n := by rw [hsame.id, hfresh]
  have hrange : (P n).start = start ∧ (P n).endAddress = last := by
    rw [hsame.start, hsame.endAddress, hfresh]
    exact ⟨rfl, rfl⟩
  have hrep : Rep ({ a₁ with
      freeList := fl, memoryEntryPool := P, firstEntry := some (P n).id, freeSize := size } :
      MemoryAllocator) [n] := by
    refine ⟨?_, hset' ▸ hfiled', ?_, by simp⟩
    · dsimp only
      rw [hid]
      refine (show Chain a₁.memoryEntryPool (some n) [n] from ⟨hlinks, ?_, ?_⟩).sameButLists hsame
      · simpa [hfresh] using hlt
      · exact List.pairwise_singleton _ _
    · simp only [List.map_cons, List.map_nil, List.sum_cons, List.sum_nil, MemoryEntry.size,
        hrange.1, hrange.2]
      omega
  refine ⟨?_, [n], by simp, hrep⟩
  rw [hrep.freeBytes_eq, h.freeBytes_eq, hR]
  ext x
  simp [coveredBy, hrange.1, hrange.2]

/-- `free` counts the range once more behind `define_free_memory`. -/
theorem gave_of_define {R : Set ℕ} (hcounted : a.freeSize ≠ 0)
    (hdefine : ∀ r, defineFreeMemory poolSize a start size = some r → Gave a R r)
    (hcall : a.free start size = some r) : Gave a R r := by
  rw [MemoryAllocator.free, if_neg hcounted] at hcall
  obtain ⟨⟨result, a₁⟩, hcalled, hcall⟩ := Option.bind_eq_some_iff.1 hcall
  have hgave := hdefine _ hcalled
  cases result with
  | error e =>
    obtain rfl := Option.some.inj hcall
    exact hgave
  | ok _ =>
    obtain ⟨a₂, hadd, rfl⟩ := Option.map_eq_some_iff.1 hcall
    rw [addSize_eq_some hadd]
    obtain ⟨hbytes, l', hne, hrep⟩ := hgave
    exact ⟨hbytes, l', hne, hrep.chain, hrep.filed, hrep.size_le.trans (Nat.le_add_right _ _),
      fun hnil => absurd hnil hne⟩

theorem Rep.free (h : Rep a l) (hfree : Disjoint (Set.Ico start (start + size)) a.freeBytes)
    (hcall : a.free start size = some r) : Gave a (Set.Ico start (start + size)) r := by
  by_cases hzero : a.freeSize = 0
  · obtain rfl := h.eq_nil hzero
    rw [MemoryAllocator.free, if_pos hzero] at hcall
    split at hcall
    · obtain rfl := Option.some.inj hcall
      exact rfl
    rename_i n pool hcreate
    simp only [bind, Option.bind_eq_some_iff, pure, Option.some.injEq] at hcall
    obtain ⟨last, hlast, a₁, hset, a₂, hchain, rfl⟩ := hcall
    have hpos : 0 < size := by
      by_contra hcon
      obtain ⟨s, hs, hsub⟩ := Option.bind_eq_some_iff.1 hlast
      have := (Checked.sub_eq_some.1 hsub).2
      have := (Checked.add_eq_some.1 hs).2
      have := (setEntryRange_spec hset).1
      omega
    exact h.freeFirst hpos hcreate hlast hset hchain
  · exact gave_of_define hzero
      (fun r => h.defineFreeMemory (fun hnil => hzero (h.empty hnil)) hfree) hcall

end MemoryAllocator

end MiniVisor
