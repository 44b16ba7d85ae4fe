import MiniVisor.AllocatorBuckets

/-!
# The address chain and the representation invariant

`Chain` relates the first entry and the chain links to the list of enabled slots
in address order, with a gap of at least one byte between neighbours. `Filed`
says that every entry of the chain is in the bucket of its size. Both are given
as lemmas about one change of the pool at a time, so that the many shapes of the
allocator operations only have to say what they change.
-/
namespace MiniVisor

open DoublyLinked

namespace MemoryAllocator

variable {pool pool' pool'' : MemoryEntryPool} {freeList freeList' : FreeList}
  {first first' : Option ℕ} {l l₁ l₂ : List ℕ} {e n : ℕ}

/-! ## Entries in the bucket of their size -/

/-- Every slot of `S` is in the bucket of its size and the buckets are sorted. -/
def Filed (pool : MemoryEntryPool) (freeList : FreeList) (S : Set ℕ) : Prop :=
  ∃ B, Buckets pool freeList S (fun i => sizeToPageOrder (pool i).size) B ∧
    ∀ o < numOfFreeList, Sorted pool (B o)

theorem Buckets.congr_order {S : Set ℕ} {order order' : ℕ → ℕ} {B : ℕ → List ℕ}
    (h : Buckets pool freeList S order B) (hord : ∀ i ∈ S, order' i = order i) :
    Buckets pool freeList S order' B where
  head := h.head
  linked := h.linked
  nodup := h.nodup
  mem o ho i := by
    rw [h.mem o ho i]
    exact and_congr_right fun hi => by rw [hord i hi]

section Filed

variable {S : Set ℕ}

theorem Filed.congr (h : Filed pool freeList S)
    (hlinks : ∀ i ∈ S, (pool' i).listNext = (pool i).listNext ∧
      (pool' i).listPrev = (pool i).listPrev)
    (hsize : ∀ i ∈ S, (pool' i).size = (pool i).size) : Filed pool' freeList S := by
  obtain ⟨B, hB, hsorted⟩ := h
  exact ⟨B, (hB.congr hlinks).congr_order fun i hi => by rw [hsize i hi],
    fun o ho => (hsorted o ho).congr fun i hi => hsize i ((hB.mem o ho i).1 hi).1⟩

/-- One entry changed its range and is moved; the others are as before. -/
theorem Filed.rechain (h : Filed pool freeList S) (hS : ValidSlots pool' S) (he : e ∈ S)
    (hlinks : ∀ i ∈ S, (pool' i).listNext = (pool i).listNext ∧
      (pool' i).listPrev = (pool i).listPrev)
    (hsize : ∀ i ∈ S, i ≠ e → (pool' i).size = (pool i).size)
    (hchain : chainEntryToFreeList pool' freeList e (some (pool e).size) =
      some (pool'', freeList')) :
    Filed pool'' freeList' S ∧ SameButLists pool' pool'' := by
  obtain ⟨B, hB, hsorted⟩ := h
  obtain ⟨B', hB', hsame, -, hsorted'⟩ := (hB.congr hlinks).rechain hS he rfl hchain
  refine ⟨⟨B', hB'.congr_order fun i hi => ?_, fun o ho => ?_⟩, hsame⟩
  · by_cases hie : i = e
    · rw [hie, Function.update_self, hsame.size]
    · rw [Function.update_of_ne hie, hsame.size, hsize i hi hie]
  · refine (hsorted' o ho ?_ fun heq => ?_).congr fun i _ => hsame.size i
    · have hrest : Sorted pool ((B o).erase e) := (hsorted o ho).sublist List.erase_sublist
      refine hrest.congr fun i hi => ?_
      obtain ⟨hie, hi⟩ := (hB.nodup o ho).mem_erase_iff.1 hi
      exact hsize i ((hB.mem o ho i).1 hi).1 hie
    · refine (hsorted o ho).congr fun i hi => ?_
      by_cases hie : i = e
      · rw [hie, heq]
      · exact hsize i ((hB.mem o ho i).1 hi).1 hie

theorem Filed.chainNew (h : Filed pool freeList S) (hS : ValidSlots pool S) (hn : n ∉ S)
    (hid : (pool n).id = n)
    (hchain : chainEntryToFreeList pool freeList n none = some (pool', freeList')) :
    Filed pool' freeList' (insert n S) ∧ SameButLists pool pool' := by
  obtain ⟨B, hB, hsorted⟩ := h
  obtain ⟨B', hB', hsame, hsorted'⟩ := hB.chainNew hS hn hid hchain
  refine ⟨⟨B', hB'.congr_order fun i _ => ?_, fun o ho => ?_⟩, hsame⟩
  · by_cases hin : i = n
    · rw [hin, Function.update_self, hsame.size]
    · rw [Function.update_of_ne hin, hsame.size]
  · exact (hsorted' o ho (hsorted o ho)).congr fun i _ => hsame.size i

theorem Filed.unchain (h : Filed pool freeList S) (hS : ValidSlots pool S) (he : e ∈ S)
    (hchain : unchainEntryFromFreeList pool freeList e = some (pool', freeList')) :
    Filed pool' freeList' (S \ {e}) ∧ SameButLists pool pool' := by
  obtain ⟨B, hB, hsorted⟩ := h
  obtain ⟨hB', hsame⟩ := hB.unchain hS he rfl hchain
  refine ⟨⟨_, hB'.congr_order fun i _ => by rw [hsame.size], fun o ho => ?_⟩, hsame⟩
  have hrest : Sorted pool ((B o).erase e) := (hsorted o ho).sublist List.erase_sublist
  exact hrest.congr fun i _ => hsame.size i

end Filed

/-! ## The chain -/

/-- Between any two ranges, the earlier one first, there is at least one byte. -/
def Apart (pool : MemoryEntryPool) (l : List ℕ) : Prop :=
  l.Pairwise fun i j => (pool i).endAddress + 1 < (pool j).start

/-- The links of the chain visit the enabled entries. -/
structure Links (pool : MemoryEntryPool) (first : Option ℕ) (l : List ℕ) : Prop where
  first : first = l.head?
  linked : Linked (fun i => (pool i).next) (fun i => (pool i).previous) none l none
  nodup : l.Nodup
  valid : ∀ i ∈ l, i < poolSize ∧ (pool i).id = i
  enabled : ∀ i < poolSize, (pool i).enabled = true ↔ i ∈ l

/-- The chain of the enabled entries, in address order. -/
structure Chain (pool : MemoryEntryPool) (first : Option ℕ) (l : List ℕ) : Prop extends
    Links pool first l where
  range : ∀ i ∈ l, (pool i).start < (pool i).endAddress
  apart : Apart pool l

/-- The representation invariant. `l` is the chain. -/
structure Rep (a : MemoryAllocator) (l : List ℕ) : Prop where
  chain : Chain a.memoryEntryPool a.firstEntry l
  filed : Filed a.memoryEntryPool a.freeList {i | i ∈ l}
  size_le : (l.map fun i => (a.memoryEntryPool i).size).sum ≤ a.freeSize
  empty : l = [] → a.freeSize = 0

/-- The bytes that the enabled entries cover. -/
def freeBytes (a : MemoryAllocator) : Set ℕ :=
  {x | ∃ i < poolSize, (a.memoryEntryPool i).enabled = true ∧
    (a.memoryEntryPool i).start ≤ x ∧ x ≤ (a.memoryEntryPool i).endAddress}

/-- The bytes that the entries of a list cover. -/
def coveredBy (pool : MemoryEntryPool) (l : List ℕ) : Set ℕ :=
  {x | ∃ i ∈ l, (pool i).start ≤ x ∧ x ≤ (pool i).endAddress}

theorem Chain.coveredBy_eq (h : Chain pool first l) :
    {x | ∃ i < poolSize, (pool i).enabled = true ∧ (pool i).start ≤ x ∧ x ≤ (pool i).endAddress} =
      coveredBy pool l := by
  ext x
  constructor
  · rintro ⟨i, hi, hen, hx⟩
    exact ⟨i, (h.enabled i hi).1 hen, hx⟩
  · rintro ⟨i, hi, hx⟩
    exact ⟨i, (h.valid i hi).1, (h.enabled i (h.valid i hi).1).2 hi, hx⟩

theorem Rep.freeBytes_eq {a : MemoryAllocator} (h : Rep a l) :
    a.freeBytes = coveredBy a.memoryEntryPool l := h.chain.coveredBy_eq

theorem coveredBy_congr (hstart : ∀ i ∈ l, (pool' i).start = (pool i).start)
    (hend : ∀ i ∈ l, (pool' i).endAddress = (pool i).endAddress) :
    coveredBy pool' l = coveredBy pool l := by
  ext x
  constructor
  · rintro ⟨i, hi, hx⟩
    exact ⟨i, hi, by rwa [hstart i hi, hend i hi] at hx⟩
  · rintro ⟨i, hi, hx⟩
    exact ⟨i, hi, by rwa [hstart i hi, hend i hi]⟩

theorem Links.validSlots (h : Links pool first l) : ValidSlots pool {i | i ∈ l} := h.valid

theorem Links.congr (h : Links pool first l) (hnext : ∀ i, (pool' i).next = (pool i).next)
    (hprev : ∀ i, (pool' i).previous = (pool i).previous) (hid : ∀ i, (pool' i).id = (pool i).id)
    (hen : ∀ i, (pool' i).enabled = (pool i).enabled) : Links pool' first l where
  first := h.first
  linked := h.linked.congr (fun i _ => hnext i) fun i _ => hprev i
  nodup := h.nodup
  valid i hi := by rw [hid]; exact h.valid i hi
  enabled i hi := by rw [hen]; exact h.enabled i hi

/-- Only list links changed. -/
theorem Chain.sameButLists (h : Chain pool first l) (hsame : SameButLists pool pool') :
    Chain pool' first l where
  toLinks := h.toLinks.congr hsame.next hsame.previous hsame.id hsame.enabled
  range i hi := by rw [hsame.start, hsame.endAddress]; exact h.range i hi
  apart := List.Pairwise.imp (fun hij => by rw [hsame.start, hsame.endAddress]; exact hij) h.apart

/-- The neighbours of an entry of the chain, as the code finds them. -/
theorem Links.neighbours (h : Links pool first (l₁ ++ e :: l₂)) :
    (pool e).previous = l₁.getLast? ∧ (pool e).next = l₂.head? ∧
      getPrevEntry pool e = l₁.getLast? ∧ getNextEntry pool e = l₂.head? := by
  obtain ⟨hprev, hnext⟩ := h.linked.at_node
  refine ⟨hprev, hnext, ?_, ?_⟩
  · rw [getPrevEntry, hprev]
    exact follow_eq fun i hi => (h.valid i (by simp [List.mem_of_getLast? hi])).1
  · rw [getNextEntry, hnext]
    exact follow_eq fun i hi => (h.valid i (by simp [List.mem_of_head? hi])).1

/-- Only the range of one entry of the chain changed. -/
theorem Apart.update (h : Apart pool (l₁ ++ e :: l₂)) (hnodup : (l₁ ++ e :: l₂).Nodup)
    (hother : ∀ i ∈ l₁ ++ l₂, i ≠ e →
      (pool' i).start = (pool i).start ∧ (pool' i).endAddress = (pool i).endAddress)
    (hlow : ∀ i ∈ l₁, (pool i).endAddress + 1 < (pool' e).start)
    (hhigh : ∀ i ∈ l₂, (pool' e).endAddress + 1 < (pool i).start) :
    Apart pool' (l₁ ++ e :: l₂) := by
  obtain ⟨h₁, h₂, h₁₂⟩ := List.pairwise_append.1 h
  obtain ⟨-, h₂⟩ := List.pairwise_cons.1 h₂
  have he : e ∉ l₁ ++ l₂ := (List.nodup_cons.1 (List.nodup_middle.1 hnodup)).1
  have hsame₁ : ∀ i ∈ l₁, (pool' i).start = (pool i).start ∧
      (pool' i).endAddress = (pool i).endAddress := fun i hi =>
    hother i (by simp [hi]) fun hie => he (by simp [← hie, hi])
  have hsame₂ : ∀ i ∈ l₂, (pool' i).start = (pool i).start ∧
      (pool' i).endAddress = (pool i).endAddress := fun i hi =>
    hother i (by simp [hi]) fun hie => he (by simp [← hie, hi])
  refine List.pairwise_append.2 ⟨?_, List.pairwise_cons.2 ⟨fun j hj => ?_, ?_⟩, fun i hi j hj => ?_⟩
  · refine List.Pairwise.imp_of_mem (fun hi hj hij => ?_) h₁
    rwa [(hsame₁ _ hi).2, (hsame₁ _ hj).1]
  · rw [(hsame₂ j hj).1]
    exact hhigh j hj
  · refine List.Pairwise.imp_of_mem (fun hi hj hij => ?_) h₂
    rwa [(hsame₂ _ hi).2, (hsame₂ _ hj).1]
  · rw [(hsame₁ i hi).2]
    obtain rfl | hj := List.mem_cons.1 hj
    · exact hlow i hi
    · rw [(hsame₂ j hj).1]
      exact h₁₂ i hi j (by simp [hj])

/-- Entries before and after a given one. -/
theorem Links.first_neighbours (h : Links pool first (e :: l)) :
    (pool e).previous = none ∧ getPrevEntry pool e = none := by
  have hlist : Links pool first ([] ++ e :: l) := h
  exact ⟨hlist.neighbours.1, hlist.neighbours.2.2.1⟩

theorem Apart.around (h : Apart pool (l₁ ++ e :: l₂)) :
    (∀ i ∈ l₁, (pool i).endAddress + 1 < (pool e).start) ∧
      ∀ i ∈ l₂, (pool e).endAddress + 1 < (pool i).start := by
  obtain ⟨-, h₂, h₁₂⟩ := List.pairwise_append.1 h
  exact ⟨fun i hi => h₁₂ i hi e (by simp), (List.pairwise_cons.1 h₂).1⟩

theorem Apart.behind_first (h : Apart pool (e :: l)) :
    ∀ i ∈ l, (pool e).endAddress + 1 < (pool i).start :=
  (List.pairwise_cons.1 h).1

/-- `set_range` does not touch the links. -/
theorem Links.setRange (h : Links pool first l) {s t : ℕ}
    (hset : setRange pool e s t = some pool') : Links pool' first l := by
  obtain ⟨_, -, rfl⟩ := Option.map_eq_some_iff.1 hset
  apply h.congr <;> intro i <;> by_cases hie : i = e <;> simp [hie]

/-- `set_range` on an entry of the chain. -/
theorem Chain.setRange (h : Chain pool first (l₁ ++ e :: l₂)) {s t : ℕ}
    (hset : setRange pool e s t = some pool')
    (hlow : ∀ i ∈ l₁, (pool i).endAddress + 1 < s) (hhigh : ∀ i ∈ l₂, t + 1 < (pool i).start) :
    Chain pool' first (l₁ ++ e :: l₂) := by
  refine ⟨h.toLinks.setRange hset, ?_, ?_⟩ <;>
    obtain ⟨_, hlt, rfl⟩ := Option.map_eq_some_iff.1 hset
  · have hlt := Checked.require_eq_some.1 hlt
    intro i hi
    have := h.range i hi
    by_cases hie : i = e <;> simp_all
  · refine h.apart.update h.nodup (fun i _ hie => by simp [hie]) ?_ ?_
    · simpa using hlow
    · simpa using hhigh

/-! ## Searches -/

/-- The entry that `search_entry_containing_address_mut` finds covers the address. -/
theorem Chain.searchContainingLoop (h : Chain pool first l) {address fuel c : ℕ} (hc : c ∈ l)
    (hfound : searchContainingLoop pool address fuel c = some (some e)) :
    e ∈ l ∧ (pool e).start ≤ address ∧ address ≤ (pool e).endAddress := by
  induction fuel generalizing c with
  | zero => exact absurd hfound (by simp [MemoryAllocator.searchContainingLoop])
  | succ fuel ih =>
    unfold MemoryAllocator.searchContainingLoop at hfound
    split_ifs at hfound with hbefore hin
    · obtain ⟨m, rest, hl⟩ := List.append_of_mem hc
      have hnext := (hl ▸ h).neighbours.2.2.2
      rw [hnext] at hfound
      cases rest with
      | nil => exact absurd hfound (by simp)
      | cons d rest => exact ih (by simp [hl]) hfound
    · obtain rfl : c = e := by simpa using hfound
      exact ⟨hc, hin⟩
    · exact absurd hfound (by simp)

theorem Chain.searchEntryContainingAddress (h : Chain pool first l) {address : ℕ}
    (hfound : searchEntryContainingAddress pool first address = some (some e)) :
    e ∈ l ∧ (pool e).start ≤ address ∧ address ≤ (pool e).endAddress := by
  unfold MemoryAllocator.searchEntryContainingAddress at hfound
  rw [h.first, follow_eq fun i hi => (h.valid i (List.mem_of_head? hi)).1] at hfound
  cases l with
  | nil => exact absurd hfound (by simp)
  | cons c l => exact h.searchContainingLoop (by simp) hfound

/-- For an address that no entry covers, `search_entry_previous_address_mut`
finds the last entry before it. -/
theorem Chain.searchPreviousLoop (h : Chain pool first l) {address fuel c : ℕ} {m rest : List ℕ}
    (hl : l = m ++ c :: rest) (hm : ∀ i ∈ m, (pool i).start < address)
    (hfree : address ∉ coveredBy pool l) {found : Option ℕ}
    (hfound : searchPreviousLoop pool address fuel c = some found) :
    ∃ l₁ l₂, l = l₁ ++ l₂ ∧ (∀ i ∈ l₁, (pool i).start < address) ∧
      (∀ i ∈ l₂, address ≤ (pool i).start) ∧ found = l₁.getLast? := by
  induction fuel generalizing c m rest with
  | zero => exact absurd hfound (by simp [MemoryAllocator.searchPreviousLoop])
  | succ fuel ih =>
    obtain ⟨-, -, hprev, hnext⟩ := (hl ▸ h).neighbours
    have hm' : ∀ {x}, (pool c).start < x → (∀ i ∈ m, (pool i).start < x) →
        ∀ i ∈ m ++ [c], (pool i).start < x := by
      intro x hc hm i hi
      obtain hi | hi := List.mem_append.1 hi
      · exact hm i hi
      · rw [List.mem_singleton.1 hi]
        exact hc
    unfold MemoryAllocator.searchPreviousLoop at hfound
    rw [hprev, hnext] at hfound
    by_cases hstart : (pool c).start < address
    · rw [if_pos hstart] at hfound
      cases rest with
      | nil =>
        rw [List.head?_nil] at hfound
        dsimp only at hfound
        by_cases hend : (pool c).endAddress ≤ address
        · rw [if_pos hend] at hfound
          obtain rfl : some c = found := by simpa using hfound
          exact ⟨m ++ [c], [], by simp [hl], hm' hstart hm, by simp, by simp⟩
        · exact absurd ⟨c, by simp [hl], hstart.le, (not_le.1 hend).le⟩ hfree
      | cons d rest => exact ih (show l = (m ++ [c]) ++ d :: rest by simp [hl]) (hm' hstart hm) hfound
    · rw [if_neg hstart] at hfound
      refine ⟨m, c :: rest, hl, hm, fun i hi => ?_, by simpa using hfound.symm⟩
      obtain rfl | hi := List.mem_cons.1 hi
      · exact not_lt.1 hstart
      · have happart := (hl ▸ h.apart).around.2 i hi
        have hrange := h.range c (by simp [hl])
        omega

theorem Chain.searchEntryPreviousAddress (h : Chain pool first l) {address : ℕ}
    (hfree : address ∉ coveredBy pool l) {found : Option ℕ}
    (hfound : searchEntryPreviousAddress pool first address = some found) :
    ∃ l₁ l₂, l = l₁ ++ l₂ ∧ (∀ i ∈ l₁, (pool i).start < address) ∧
      (∀ i ∈ l₂, address ≤ (pool i).start) ∧ found = l₁.getLast? := by
  unfold MemoryAllocator.searchEntryPreviousAddress at hfound
  rw [h.first, follow_eq fun i hi => (h.valid i (List.mem_of_head? hi)).1] at hfound
  cases l with
  | nil =>
    obtain rfl : none = found := by simpa using hfound
    exact ⟨[], [], by simp, by simp, by simp, by simp⟩
  | cons c l => exact h.searchPreviousLoop (m := []) rfl (by simp) hfree hfound

/-! ## Taking entries out of the chain and putting new ones in -/

/-- Every field but the chain links and the enabled flag is the same. -/
structure SameButChain (pool pool' : MemoryEntryPool) : Prop where
  listPrev : ∀ i, (pool' i).listPrev = (pool i).listPrev
  listNext : ∀ i, (pool' i).listNext = (pool i).listNext
  start : ∀ i, (pool' i).start = (pool i).start
  endAddress : ∀ i, (pool' i).endAddress = (pool i).endAddress
  id : ∀ i, (pool' i).id = (pool i).id

theorem SameButChain.size (h : SameButChain pool pool') (i : ℕ) :
    (pool' i).size = (pool i).size := by
  rw [MemoryEntry.size, MemoryEntry.size, h.start, h.endAddress]

theorem chainAfterMe_apply (pool : MemoryEntryPool) (e n a : ℕ) (hne : e ≠ n) :
    chainAfterMe pool e n a =
      if a = e then { pool e with next := some (pool n).id }
      else if a = n then { pool n with previous := some (pool e).id } else pool a := by
  unfold chainAfterMe setPrevEntry setNextEntry
  by_cases hae : a = e
  · subst hae
    simp [hne]
  · by_cases han : a = n
    · subst han
      simp [Ne.symm hne]
    · simp [hae, han]

/-- What `delete` does to the links of the other entries. -/
theorem delete_spec (hprev : ∀ i, (pool e).previous = some i → i < poolSize ∧ i ≠ e ∧ (pool i).id = i)
    (hnext : ∀ i, (pool e).next = some i → i < poolSize ∧ i ≠ e ∧ (pool i).id = i)
    (hdistinct : ∀ i, (pool e).previous = some i → (pool e).next ≠ some i) :
    SameButChain pool (delete pool e) ∧ (delete pool e e).enabled = false ∧
      (∀ a, a ≠ e → (delete pool e a).enabled = (pool a).enabled) ∧
      (∀ a, a ≠ e → (delete pool e a).next =
        if (pool e).previous = some a then (pool e).next else (pool a).next) ∧
      ∀ a, a ≠ e → (delete pool e a).previous =
        if (pool e).next = some a then (pool e).previous else (pool a).previous := by
  have hp : getPrevEntry pool e = (pool e).previous := follow_eq fun i hi => (hprev i hi).1
  have hn : getNextEntry pool e = (pool e).next := follow_eq fun i hi => (hnext i hi).1
  unfold delete
  rw [hp, hn]
  cases hpe : (pool e).previous with
  | none =>
    cases hne : (pool e).next <;>
      refine ⟨?_, ?_, fun a ha => ?_, fun a ha => ?_, fun a ha => ?_⟩ <;>
        first | (constructor <;> intro i <;> grind [modifyEntry_apply]) | grind [modifyEntry_apply]
  | some p =>
    obtain ⟨-, hpne, hpid⟩ := hprev p hpe
    cases hne : (pool e).next with
    | none =>
      refine ⟨?_, ?_, fun a ha => ?_, fun a ha => ?_, fun a ha => ?_⟩ <;>
        first | (constructor <;> intro i <;> grind [modifyEntry_apply]) | grind [modifyEntry_apply]
    | some n =>
      obtain ⟨-, hnne, hnid⟩ := hnext n hne
      have hpn : p ≠ n := fun hpn => hdistinct p hpe (hpn ▸ hne)
      have hchain := fun a => chainAfterMe_apply pool p n a hpn
      refine ⟨?_, ?_, fun a ha => ?_, fun a ha => ?_, fun a ha => ?_⟩ <;>
        first
          | (constructor <;> intro i <;> grind [modifyEntry_apply])
          | grind [modifyEntry_apply]

theorem Links.delete (l₁ : List ℕ) (h : Links pool first (l₁ ++ e :: l₂)) :
    Links (delete pool e) (l₁ ++ l₂).head? (l₁ ++ l₂) ∧
      SameButChain pool (MemoryAllocator.delete pool e) := by
  obtain ⟨hp, hn, -⟩ := h.neighbours
  obtain ⟨hnd₁, hnd₂, hdisj⟩ := List.nodup_append.1 h.nodup
  obtain ⟨he₂, hnd₂⟩ := List.nodup_cons.1 hnd₂
  have hmem : ∀ i ∈ l₁ ++ l₂, i ∈ l₁ ++ e :: l₂ ∧ i ≠ e := by
    intro i hi
    obtain hi | hi := List.mem_append.1 hi
    · exact ⟨by simp [hi], hdisj i hi e (by simp)⟩
    · exact ⟨by simp [hi], fun hie => he₂ (hie ▸ hi)⟩
  obtain ⟨hsame, hdis, hen, hnx, hpv⟩ := delete_spec (e := e)
    (fun i hi => by
      have hi₁ := List.mem_of_getLast? (hp ▸ hi)
      exact ⟨(h.valid i (by simp [hi₁])).1, hdisj i hi₁ e (by simp), (h.valid i (by simp [hi₁])).2⟩)
    (fun i hi => by
      have hi₂ := List.mem_of_head? (hn ▸ hi)
      exact ⟨(h.valid i (by simp [hi₂])).1, fun hie => he₂ (hie ▸ hi₂),
        (h.valid i (by simp [hi₂])).2⟩)
    fun i hi hi' => hdisj i (List.mem_of_getLast? (hp ▸ hi)) i
      (by simp [List.mem_of_head? (hn ▸ hi')]) rfl
  refine ⟨⟨rfl, h.linked.unlink h.nodup hnx hpv, ?_, ?_, ?_⟩, hsame⟩
  · exact (List.nodup_middle.1 h.nodup).of_cons
  · intro i hi
    rw [hsame.id]
    exact h.valid i (hmem i hi).1
  · intro i hi
    by_cases hie : i = e
    · subst hie
      rw [hdis]
      exact ⟨fun hf => absurd hf (by simp), fun hi' => absurd rfl (hmem i hi').2⟩
    · rw [hen i hie, h.enabled i hi]
      simp [hie]

theorem Chain.delete (h : Chain pool first (l₁ ++ e :: l₂)) :
    Chain (delete pool e) (l₁ ++ l₂).head? (l₁ ++ l₂) ∧
      SameButChain pool (MemoryAllocator.delete pool e) := by
  obtain ⟨hlinks, hsame⟩ := h.toLinks.delete l₁
  have hsub : List.Sublist (l₁ ++ l₂) (l₁ ++ e :: l₂) :=
    List.Sublist.append_left (List.sublist_cons_self e l₂) l₁
  refine ⟨⟨hlinks, fun i hi => ?_, ?_⟩, hsame⟩
  · rw [hsame.start, hsame.endAddress]
    exact h.range i (hsub.subset hi)
  · refine List.Pairwise.imp (fun hij => ?_) (List.Pairwise.sublist hsub h.apart)
    rw [hsame.start, hsame.endAddress]
    exact hij

/-- A slot that `create_memory_entry` returns was disabled. -/
theorem createMemoryEntry_ok (h : createMemoryEntry pool = .ok (n, pool')) :
    n < poolSize ∧ (pool n).enabled = false ∧
      pool' = modifyEntry pool n fun _ => { MemoryEntry.new with id := n, enabled := true } := by
  unfold createMemoryEntry at h
  split at h
  · rename_i i hfind
    obtain ⟨rfl, rfl⟩ : i = n ∧ _ = pool' := by simpa using h
    have hmem := List.mem_of_find?_eq_some hfind
    have hdis := List.find?_some hfind
    exact ⟨List.mem_range.1 hmem, by simpa using hdis, rfl⟩
  · exact absurd h (by simp)

theorem Links.not_mem_of_disabled (h : Links pool first l) (hn : n < poolSize)
    (hdis : (pool n).enabled = false) : n ∉ l := fun hmem => by
  rw [(h.enabled n hn).2 hmem] at hdis
  exact absurd hdis (by simp)

/-- The pool after a new entry was linked between the two parts of the chain. -/
structure ChainSpliced (pool pool' : MemoryEntryPool) (n : ℕ) (before after : Option ℕ) : Prop where
  next : ∀ a, a ≠ n → (pool' a).next = if before = some a then some n else (pool a).next
  previous : ∀ a, a ≠ n →
    (pool' a).previous = if after = some a then some n else (pool a).previous
  next_self : (pool' n).next = after
  previous_self : (pool' n).previous = before
  enabled : ∀ a, a ≠ n → (pool' a).enabled = (pool a).enabled
  enabled_self : (pool' n).enabled = true
  id : ∀ a, a ≠ n → (pool' a).id = (pool a).id
  id_self : (pool' n).id = n

/-- A new entry joins the chain. -/
theorem Links.insert (l₁ l₂ : List ℕ) (h : Links pool first (l₁ ++ l₂)) (hn : n < poolSize)
    (hdis : (pool n).enabled = false)
    (hsplice : ChainSpliced pool pool' n l₁.getLast? l₂.head?)
    (hfirst : first' = (l₁ ++ n :: l₂).head?) : Links pool' first' (l₁ ++ n :: l₂) := by
  have hnot := h.not_mem_of_disabled hn hdis
  have hmem : ∀ i, i ∈ l₁ ++ n :: l₂ ↔ i = n ∨ i ∈ l₁ ++ l₂ := by
    intro i
    simp only [List.mem_append, List.mem_cons]
    tauto
  refine ⟨hfirst, h.linked.link h.nodup hnot hsplice.next hsplice.previous hsplice.next_self
    hsplice.previous_self, ?_, ?_, ?_⟩
  · rw [List.nodup_middle]
    exact List.nodup_cons.2 ⟨hnot, h.nodup⟩
  · intro i hi
    by_cases hin : i = n
    · rw [hin]
      exact ⟨hn, hsplice.id_self⟩
    · rw [hsplice.id i hin]
      exact h.valid i (((hmem i).1 hi).resolve_left hin)
  · intro i hi
    rw [hmem]
    by_cases hin : i = n
    · rw [hin, hsplice.enabled_self]
      simp
    · rw [hsplice.enabled i hin, h.enabled i hi]
      simp [hin]

/-- Ranges of a chain with one more entry between its two parts. -/
theorem Apart.insert (h : Apart pool (l₁ ++ l₂)) (hn : n ∉ l₁ ++ l₂)
    (hstart : ∀ i ∈ l₁ ++ l₂, (pool' i).start = (pool i).start)
    (hend : ∀ i ∈ l₁ ++ l₂, (pool' i).endAddress = (pool i).endAddress)
    (hlow : ∀ i ∈ l₁, (pool i).endAddress + 1 < (pool' n).start)
    (hhigh : ∀ i ∈ l₂, (pool' n).endAddress + 1 < (pool i).start) :
    Apart pool' (l₁ ++ n :: l₂) := by
  obtain ⟨h₁, h₂, h₁₂⟩ := List.pairwise_append.1 h
  refine List.pairwise_append.2 ⟨?_, List.pairwise_cons.2 ⟨fun j hj => ?_, ?_⟩, fun i hi j hj => ?_⟩
  · refine List.Pairwise.imp_of_mem (fun hi hj hij => ?_) h₁
    rwa [hend _ (by simp [hi]), hstart _ (by simp [hj])]
  · rw [hstart j (by simp [hj])]
    exact hhigh j hj
  · refine List.Pairwise.imp_of_mem (fun hi hj hij => ?_) h₂
    rwa [hend _ (by simp [hi]), hstart _ (by simp [hj])]
  · rw [hend i (by simp [hi])]
    obtain rfl | hj := List.mem_cons.1 hj
    · exact hlow i hi
    · rw [hstart j (by simp [hj])]
      exact h₁₂ i hi j hj

end MemoryAllocator

end MiniVisor
