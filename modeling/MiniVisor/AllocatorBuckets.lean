import MiniVisor.Library.DoublyLinked
import MiniVisor.MemoryAllocator

/-!
# The buckets of the allocator

`Buckets` relates the bucket heads and the list links in the pool to one list of
slots for each bucket. Which slot is in which bucket is a parameter, since an
entry changes its size before it is moved. Taking an entry out and chaining it
back in change only list links, and the order within a bucket is by size.
-/
namespace MiniVisor

open DoublyLinked

/-- Number of bytes of the range. -/
def MemoryEntry.size (e : MemoryEntry) : ℕ := e.endAddress - e.start + 1

theorem MemoryEntry.getSize_eq {e : MemoryEntry} {n : ℕ} (h : e.getSize = some n) : n = e.size := by
  obtain ⟨d, hd, hn⟩ := Option.bind_eq_some_iff.1 h
  rw [(Checked.add_eq_some.1 hn).2, (Checked.sub_eq_some.1 hd).2]
  rfl

namespace MemoryAllocator

@[simp] theorem modifyEntry_apply (pool : MemoryEntryPool) (i : ℕ)
    (f : MemoryEntry → MemoryEntry) (j : ℕ) :
    modifyEntry pool i f j = if j = i then f (pool i) else pool j := by
  rw [modifyEntry, Function.update_apply]

theorem follow_eq {link : Option ℕ} (h : ∀ i, link = some i → i < poolSize) :
    follow link = link := by
  cases link with
  | none => rfl
  | some i => simp [follow, getMemoryEntry, h i rfl, Except.toOption]

theorem sizeToPageOrderLoop_le (size remaining order : ℕ) :
    sizeToPageOrderLoop size remaining order ≤ order + remaining := by
  induction remaining generalizing order with
  | zero => exact le_rfl
  | succ remaining ih =>
    unfold sizeToPageOrderLoop
    split_ifs
    · have := ih (order + 1)
      omega
    · omega

theorem sizeToPageOrder_lt (size : ℕ) : sizeToPageOrder size < numOfFreeList := by
  have h := sizeToPageOrderLoop_le size (numOfFreeList - 1) 0
  have hpos : 0 < numOfFreeList := by decide
  unfold sizeToPageOrder
  omega

/-- Every field but the list links is the same. -/
structure SameButLists (pool pool' : MemoryEntryPool) : Prop where
  previous : ∀ i, (pool' i).previous = (pool i).previous
  next : ∀ i, (pool' i).next = (pool i).next
  start : ∀ i, (pool' i).start = (pool i).start
  endAddress : ∀ i, (pool' i).endAddress = (pool i).endAddress
  enabled : ∀ i, (pool' i).enabled = (pool i).enabled
  id : ∀ i, (pool' i).id = (pool i).id

namespace SameButLists

variable {pool pool' pool'' : MemoryEntryPool}

theorem refl (pool : MemoryEntryPool) : SameButLists pool pool :=
  ⟨fun _ => rfl, fun _ => rfl, fun _ => rfl, fun _ => rfl, fun _ => rfl, fun _ => rfl⟩

theorem trans (h : SameButLists pool pool') (h' : SameButLists pool' pool'') :
    SameButLists pool pool'' where
  previous i := (h'.previous i).trans (h.previous i)
  next i := (h'.next i).trans (h.next i)
  start i := (h'.start i).trans (h.start i)
  endAddress i := (h'.endAddress i).trans (h.endAddress i)
  enabled i := (h'.enabled i).trans (h.enabled i)
  id i := (h'.id i).trans (h.id i)

theorem size (h : SameButLists pool pool') (i : ℕ) : (pool' i).size = (pool i).size := by
  rw [MemoryEntry.size, MemoryEntry.size, h.start, h.endAddress]

end SameButLists

/-- The slots of `S` are slots of the pool and carry their own number. -/
def ValidSlots (pool : MemoryEntryPool) (S : Set ℕ) : Prop :=
  ∀ i ∈ S, i < poolSize ∧ (pool i).id = i

/-- The bucket lists `B` are what the heads and the list links spell out; slot
`i` of `S` is in bucket `order i`. -/
structure Buckets (pool : MemoryEntryPool) (freeList : FreeList) (S : Set ℕ) (order : ℕ → ℕ)
    (B : ℕ → List ℕ) : Prop where
  head : ∀ o < numOfFreeList, freeList o = (B o).head?
  linked : ∀ o < numOfFreeList,
    Linked (fun i => (pool i).listNext) (fun i => (pool i).listPrev) none (B o) none
  nodup : ∀ o < numOfFreeList, (B o).Nodup
  mem : ∀ o < numOfFreeList, ∀ i, i ∈ B o ↔ i ∈ S ∧ order i = o

section Links

variable {pool pool' : MemoryEntryPool} {freeList : FreeList} {S : Set ℕ} {order : ℕ → ℕ}
  {B : ℕ → List ℕ} {e : ℕ}

theorem Buckets.congr (h : Buckets pool freeList S order B)
    (hlinks : ∀ i ∈ S, (pool' i).listNext = (pool i).listNext ∧
      (pool' i).listPrev = (pool i).listPrev) : Buckets pool' freeList S order B where
  head := h.head
  linked o ho := (h.linked o ho).congr (fun i hi => (hlinks i ((h.mem o ho i).1 hi).1).1)
    fun i hi => (hlinks i ((h.mem o ho i).1 hi).1).2
  nodup := h.nodup
  mem := h.mem

/-- A bucket cut at one of its entries. -/
theorem Buckets.split (h : Buckets pool freeList S order B) (he : e ∈ S)
    (ho : order e < numOfFreeList) :
    ∃ l₁ l₂, B (order e) = l₁ ++ e :: l₂ ∧ (pool e).listPrev = l₁.getLast? ∧
      (pool e).listNext = l₂.head? := by
  obtain ⟨l₁, l₂, hl⟩ := List.append_of_mem ((h.mem _ ho e).2 ⟨he, rfl⟩)
  have hlinked := h.linked _ ho
  rw [hl] at hlinked
  exact ⟨l₁, l₂, hl, hlinked.at_node⟩

/-- What `unchain_from_freelist` does to the links of the other entries. -/
theorem unchainFromFreelist_spec (hnext : ∀ i, (pool e).listNext = some i → i < poolSize ∧ i ≠ e)
    (hprev : ∀ i, (pool e).listPrev = some i → i < poolSize ∧ i ≠ e) :
    SameButLists pool (unchainFromFreelist pool e) ∧
      (unchainFromFreelist pool e e).listNext = none ∧
      (unchainFromFreelist pool e e).listPrev = none ∧
      (∀ a, a ≠ e → (unchainFromFreelist pool e a).listNext =
        if (pool e).listPrev = some a then (pool e).listNext else (pool a).listNext) ∧
      ∀ a, a ≠ e → (unchainFromFreelist pool e a).listPrev =
        if (pool e).listNext = some a then (pool e).listPrev else (pool a).listPrev := by
  have hfollow : follow (pool e).listPrev = (pool e).listPrev :=
    follow_eq fun i hi => (hprev i hi).1
  have hfollow' : follow (pool e).listNext = (pool e).listNext :=
    follow_eq fun i hi => (hnext i hi).1
  unfold unchainFromFreelist
  rw [hfollow]
  cases hp : (pool e).listPrev with
  | none =>
    dsimp only
    rw [hfollow']
    cases hn : (pool e).listNext <;>
      refine ⟨?_, ?_, ?_, fun a ha => ?_, fun a ha => ?_⟩ <;>
        first | (constructor <;> intro i <;> grind [modifyEntry_apply]) | grind [modifyEntry_apply]
  | some p =>
    have hpe := (hprev p hp).2
    have hsame : (modifyEntry pool p fun m => { m with listNext := (pool e).listNext }) e =
        pool e := by simp [Ne.symm hpe]
    dsimp only
    rw [hsame, hfollow']
    cases hn : (pool e).listNext <;>
      refine ⟨?_, ?_, ?_, fun a ha => ?_, fun a ha => ?_⟩ <;>
        first | (constructor <;> intro i <;> grind [modifyEntry_apply]) | grind [modifyEntry_apply]

theorem Buckets.links_lt (h : Buckets pool freeList S order B) (hS : ValidSlots pool S)
    (he : e ∈ S) (ho : order e < numOfFreeList) :
    (∀ i, (pool e).listNext = some i → i < poolSize ∧ i ≠ e) ∧
      ∀ i, (pool e).listPrev = some i → i < poolSize ∧ i ≠ e := by
  obtain ⟨l₁, l₂, hl, hprev, hnext⟩ := h.split he ho
  have hnodup := hl ▸ h.nodup _ ho
  have hmem : ∀ i ∈ l₁ ++ e :: l₂, i < poolSize := fun i hi =>
    (hS i ((h.mem _ ho i).1 (hl ▸ hi)).1).1
  obtain ⟨-, hnd₂, hdisj⟩ := List.nodup_append.1 hnodup
  refine ⟨fun i hi => ?_, fun i hi => ?_⟩
  · rw [hnext] at hi
    have hi₂ := List.mem_of_head? hi
    exact ⟨hmem i (by simp [hi₂]), fun hie => (List.nodup_cons.1 hnd₂).1 (hie ▸ hi₂)⟩
  · rw [hprev] at hi
    have hi₁ := List.mem_of_getLast? hi
    exact ⟨hmem i (by simp [hi₁]), hdisj i hi₁ e (by simp)⟩

/-- An entry leaves its bucket. -/
theorem Buckets.remove (h : Buckets pool freeList S order B) (hS : ValidSlots pool S)
    (he : e ∈ S) (ho : order e < numOfFreeList) :
    Buckets (unchainFromFreelist pool e) (dropHead pool freeList (order e) e) (S \ {e}) order
        (fun o => (B o).erase e) ∧
      SameButLists pool (unchainFromFreelist pool e) ∧
      (unchainFromFreelist pool e e).listNext = none ∧
      (unchainFromFreelist pool e e).listPrev = none := by
  obtain ⟨l₁, l₂, hl, hprev, hnext⟩ := h.split he ho
  obtain ⟨hlt₁, hlt₂⟩ := h.links_lt hS he ho
  obtain ⟨hsame, hnone₁, hnone₂, hnx, hpv⟩ := unchainFromFreelist_spec hlt₁ hlt₂
  refine ⟨?_, hsame, hnone₁, hnone₂⟩
  have hnodup := hl ▸ h.nodup _ ho
  have he₁ : e ∉ l₁ := fun he₁ => (List.nodup_append.1 hnodup).2.2 e he₁ e (by simp) rfl
  have herase : (B (order e)).erase e = l₁ ++ l₂ := by
    rw [hl, List.erase_append_right _ he₁, List.erase_cons_head]
  have hother : ∀ {o}, o < numOfFreeList → o ≠ order e → e ∉ B o := fun ho' hne hmem =>
    hne ((h.mem _ ho' e).1 hmem).2.symm
  constructor
  · intro o ho'
    by_cases hoe : o = order e
    · subst hoe
      rw [herase, dropHead, (hS e he).2, h.head _ ho, hl]
      cases l₁ with
      | nil => simp [hnext]
      | cons a l₁ =>
        have hae : a ≠ e := fun hae => he₁ (by simp [hae])
        simp [hae, h.head _ ho, hl]
    · rw [List.erase_of_not_mem (hother ho' hoe), dropHead]
      split_ifs
      · rw [Function.update_of_ne hoe, h.head o ho']
      · rw [h.head o ho']
  · intro o ho'
    by_cases hoe : o = order e
    · subst hoe
      rw [herase]
      exact (hl ▸ h.linked _ ho).unlink hnodup hnx hpv
    · rw [List.erase_of_not_mem (hother ho' hoe)]
      -- a neighbour of `e` is in the bucket of `e`
      have hforeign : ∀ {a}, a ∈ B o → a ∉ B (order e) := fun ha ha' =>
        hoe (((h.mem _ ho' _).1 ha).2.symm.trans ((h.mem _ ho _).1 ha').2)
      refine (h.linked o ho').congr (fun a ha => ?_) fun a ha => ?_
      · have hae : a ≠ e := fun hae => hother ho' hoe (hae ▸ ha)
        rw [hnx a hae, if_neg]
        rw [hprev]
        exact fun hlast => hforeign ha (by simp [hl, List.mem_of_getLast? hlast])
      · have hae : a ≠ e := fun hae => hother ho' hoe (hae ▸ ha)
        rw [hpv a hae, if_neg]
        rw [hnext]
        exact fun hhead => hforeign ha (by simp [hl, List.mem_of_head? hhead])
  · exact fun o ho' => (h.nodup o ho').erase e
  · intro o ho' i
    rw [(h.nodup o ho').mem_erase_iff, h.mem o ho']
    simp only [Set.mem_sdiff, Set.mem_singleton_iff]
    tauto

/-- The links after `e` was put between `prev` and `next`. -/
structure Spliced (pool pool' : MemoryEntryPool) (e : ℕ) (prev next : Option ℕ) : Prop where
  same : SameButLists pool pool'
  listNext : ∀ a, a ≠ e →
    (pool' a).listNext = if prev = some a then some e else (pool a).listNext
  listPrev : ∀ a, a ≠ e →
    (pool' a).listPrev = if next = some a then some e else (pool a).listPrev
  next_self : (pool' e).listNext = next
  prev_self : (pool' e).listPrev = prev

/-- An entry joins a bucket. -/
theorem Buckets.insert (h : Buckets pool freeList S order B) (he : e ∉ S) {o : ℕ}
    (ho : o < numOfFreeList) (l₁ l₂ : List ℕ) (hl : B o = l₁ ++ l₂)
    (hsplice : Spliced pool pool' e l₁.getLast? l₂.head?) {freeList' : FreeList}
    (hhead : freeList' = Function.update freeList o (l₁ ++ e :: l₂).head?) :
    Buckets pool' freeList' (Insert.insert e S) (Function.update order e o)
      (Function.update B o (l₁ ++ e :: l₂)) := by
  have hmem : ∀ {i}, i ∈ l₁ ++ l₂ → i ∈ S ∧ order i = o := fun hi => (h.mem o ho _).1 (hl ▸ hi)
  have heB : e ∉ l₁ ++ l₂ := fun hi => he (hmem hi).1
  have hnodup : (l₁ ++ l₂).Nodup := hl ▸ h.nodup o ho
  constructor
  · intro o' ho'
    rw [hhead]
    by_cases hoo : o' = o
    · simp [hoo]
    · rw [Function.update_of_ne hoo, Function.update_of_ne hoo, h.head o' ho']
  · intro o' ho'
    by_cases hoo : o' = o
    · subst hoo
      rw [Function.update_self]
      exact (hl ▸ h.linked _ ho).link hnodup heB hsplice.listNext hsplice.listPrev
        hsplice.next_self hsplice.prev_self
    · rw [Function.update_of_ne hoo]
      have hforeign : ∀ {a}, a ∈ B o' → a ∉ l₁ ++ l₂ ∧ a ≠ e := fun ha =>
        ⟨fun ha' => hoo (((h.mem o' ho' _).1 ha).2.symm.trans (hmem ha').2),
          fun hae => he (hae ▸ ((h.mem o' ho' _).1 ha).1)⟩
      refine (h.linked o' ho').congr (fun a ha => ?_) fun a ha => ?_
      · rw [hsplice.listNext a (hforeign ha).2, if_neg]
        exact fun hlast => (hforeign ha).1 (by simp [List.mem_of_getLast? hlast])
      · rw [hsplice.listPrev a (hforeign ha).2, if_neg]
        exact fun hhead' => (hforeign ha).1 (by simp [List.mem_of_head? hhead'])
  · intro o' ho'
    by_cases hoo : o' = o
    · subst hoo
      rw [Function.update_self, List.nodup_middle]
      exact List.nodup_cons.2 ⟨heB, hnodup⟩
    · rw [Function.update_of_ne hoo]
      exact h.nodup o' ho'
  · intro o' ho' i
    have hold := h.mem o' ho' i
    by_cases hie : i = e
    · subst hie
      by_cases hoo : o' = o
      · simp [hoo]
      · have hnot : i ∉ B o' := fun hi => he (hold.1 hi).1
        simp [Function.update_of_ne hoo, hnot, Ne.symm hoo]
    · by_cases hoo : o' = o
      · subst hoo
        rw [hl] at hold
        simpa [hie] using hold
      · simp [Function.update_of_ne hoo, hie, hold]

/-! ## Chaining by size -/

/-- Where `chain_entry_to_free_list` puts an entry of the given size in a bucket. -/
def Placed (pool : MemoryEntryPool) (size : ℕ) (l₁ l₂ : List ℕ) : Prop :=
  (∀ i ∈ l₁, (pool i).size < size) ∧ ∀ i, l₂.head? = some i → size ≤ (pool i).size

theorem chainLoop_spec {size fuel c : ℕ} {m rest : List ℕ}
    (hlinked : Linked (fun i => (pool i).listNext) (fun i => (pool i).listPrev) none
      (m ++ c :: rest) none)
    (hvalid : ∀ i ∈ m ++ c :: rest, i < poolSize ∧ (pool i).id = i) (hid : (pool e).id = e)
    (he : e ∉ m ++ c :: rest) (hnodup : (m ++ c :: rest).Nodup)
    (hnone : (pool e).listNext = none) (hsmall : ∀ i ∈ m ++ [c], (pool i).size < size)
    (hloop : chainLoop e size fuel pool c = some pool') :
    ∃ l₁ l₂, m ++ c :: rest = l₁ ++ l₂ ∧ l₁ ≠ [] ∧ Placed pool size l₁ l₂ ∧
      Spliced pool pool' e l₁.getLast? l₂.head? := by
  induction fuel generalizing m c rest with
  | zero => exact absurd hloop (by simp [chainLoop])
  | succ fuel ih =>
    unfold chainLoop at hloop
    have hnext := hlinked.at_node.2
    have hfollow : follow (pool c).listNext = rest.head? := by
      rw [hnext]
      exact follow_eq fun i hi => (hvalid i (by simp [List.mem_of_head? hi])).1
    have hce : c ≠ e := fun hce => he (by simp [hce])
    have hc := (hvalid c (by simp)).2
    rw [hfollow] at hloop
    cases rest with
    | nil =>
      obtain rfl := Option.some.inj hloop
      refine ⟨m ++ [c], [], by simp, by simp, ⟨hsmall, by simp⟩, ?_⟩
      rw [List.getLast?_append, List.getLast?_singleton, Option.some_or, List.head?_nil]
      refine ⟨?_, fun a ha => ?_, fun a ha => ?_, ?_, ?_⟩
      · constructor <;> intro i <;> grind [modifyEntry_apply]
      all_goals grind [modifyEntry_apply]
    | cons n rest =>
      obtain ⟨nextSize, hsize, hloop⟩ := Option.bind_eq_some_iff.1 hloop
      obtain rfl := MemoryEntry.getSize_eq hsize
      have hne : n ≠ e := fun hne => he (by simp [hne])
      have hn := (hvalid n (by simp)).2
      have hcn : c ≠ n := by
        have hnd := (List.nodup_append.1 hnodup).2.1
        exact fun hcn => (List.nodup_cons.1 hnd).1 (by simp [hcn])
      by_cases hle : size ≤ (pool n).size
      · rw [if_pos hle] at hloop
        obtain rfl := Option.some.inj hloop
        refine ⟨m ++ [c], n :: rest, by simp, by simp, ⟨hsmall, ?_⟩, ?_⟩
        · intro i hi
          obtain rfl : n = i := by simpa using hi
          exact hle
        · rw [List.getLast?_append, List.getLast?_singleton, Option.some_or, List.head?_cons]
          refine ⟨?_, fun a ha => ?_, fun a ha => ?_, ?_, ?_⟩
          · constructor <;> intro i <;> grind [modifyEntry_apply]
          all_goals grind [modifyEntry_apply]
      · rw [if_neg hle] at hloop
        have hassoc : m ++ c :: n :: rest = (m ++ [c]) ++ n :: rest := by simp
        rw [hassoc] at hlinked hvalid he hnodup ⊢
        refine ih hlinked hvalid he hnodup (fun i hi => ?_) hloop
        obtain hi | hi := List.mem_append.1 hi
        · exact hsmall i hi
        · rw [List.mem_singleton.1 hi]
          omega

/-- `chain_entry_to_free_list` puts an unlinked entry into bucket `o`. -/
theorem Buckets.chainInto (h : Buckets pool freeList S order B) (hS : ValidSlots pool S)
    (he : e ∉ S) (hid : (pool e).id = e) (hnext : (pool e).listNext = none)
    (hprev : (pool e).listPrev = none) {size o : ℕ} (ho : o < numOfFreeList)
    {freeList' : FreeList}
    (hchain : chainInto pool freeList e size o = some (pool', freeList')) :
    ∃ l₁ l₂, B o = l₁ ++ l₂ ∧ Placed pool size l₁ l₂ ∧
      Spliced pool pool' e l₁.getLast? l₂.head? ∧
      Buckets pool' freeList' (Insert.insert e S) (Function.update order e o)
        (Function.update B o (l₁ ++ e :: l₂)) := by
  have hvalid : ∀ i ∈ B o, i < poolSize ∧ (pool i).id = i := fun i hi =>
    hS i ((h.mem o ho i).1 hi).1
  have heB : e ∉ B o := fun hi => he ((h.mem o ho e).1 hi).1
  have hfollow : follow (freeList o) = (B o).head? := by
    rw [h.head o ho]
    exact follow_eq fun i hi => (hvalid i (List.mem_of_head? hi)).1
  unfold MemoryAllocator.chainInto at hchain
  rw [hfollow] at hchain
  cases hB : B o with
  | nil =>
    rw [hB] at hchain
    obtain ⟨rfl, rfl⟩ := Prod.mk.injEq .. ▸ Option.some.inj hchain
    have hsplice : Spliced pool pool e none none := ⟨.refl _, by simp, by simp, hnext, hprev⟩
    exact ⟨[], [], rfl, ⟨by simp, by simp⟩, hsplice,
      h.insert he ho [] [] hB hsplice (by simp [hid])⟩
  | cons c rest =>
    rw [hB] at hchain heB
    have hvalid' := hvalid
    rw [hB] at hvalid'
    have hce : c ≠ e := fun hce => heB (by simp [hce])
    have hc := (hvalid' c (by simp)).2
    obtain ⟨listSize, hsize, hchain⟩ := Option.bind_eq_some_iff.1 hchain
    obtain rfl := MemoryEntry.getSize_eq hsize
    by_cases hle : size ≤ (pool c).size
    · rw [if_pos hle] at hchain
      obtain ⟨hpool, hfree⟩ := Prod.mk.injEq .. ▸ Option.some.inj hchain
      have hsplice : Spliced pool pool' e none (some c) := by
        subst hpool
        refine ⟨?_, fun a ha => ?_, fun a ha => ?_, ?_, ?_⟩
        · constructor <;> intro i <;> grind [modifyEntry_apply]
        all_goals grind [modifyEntry_apply]
      refine ⟨[], c :: rest, rfl, ⟨by simp, ?_⟩, hsplice,
        h.insert he ho [] (c :: rest) hB hsplice ?_⟩
      · intro i hi
        obtain rfl : c = i := by simpa using hi
        exact hle
      · rw [← hfree]
        simp [hid, Ne.symm hce]
    · rw [if_neg hle] at hchain
      obtain ⟨pool₁, hloop, heq⟩ := Option.map_eq_some_iff.1 hchain
      obtain ⟨rfl, rfl⟩ := Prod.mk.injEq .. ▸ heq
      have hlinked := h.linked o ho
      rw [hB] at hlinked
      obtain ⟨l₁, l₂, hl, hne, hplaced, hsplice⟩ := chainLoop_spec (m := []) hlinked hvalid' hid heB
        (hB ▸ h.nodup o ho) hnext (by simpa using not_le.1 hle) hloop
      refine ⟨l₁, l₂, hl, hplaced, hsplice, h.insert he ho l₁ l₂ (hB.trans hl) hsplice ?_⟩
      obtain ⟨a, l₁', rfl⟩ := List.exists_cons_of_ne_nil hne
      have hca : c = a := by simpa using congrArg List.head? hl
      rw [List.cons_append, List.head?_cons, ← hca, ← List.head?_cons (l := rest), ← hB,
        ← h.head o ho, Function.update_eq_self]

/-- A bucket in non-decreasing order of size. -/
def Sorted (pool : MemoryEntryPool) (l : List ℕ) : Prop :=
  l.Pairwise fun i j => (pool i).size ≤ (pool j).size

theorem Sorted.congr {l : List ℕ} (h : Sorted pool l)
    (hsize : ∀ i ∈ l, (pool' i).size = (pool i).size) : Sorted pool' l :=
  List.Pairwise.imp_of_mem (fun hi hj hij => by rw [hsize _ hi, hsize _ hj]; exact hij) h

theorem Placed.sorted {l₁ l₂ : List ℕ} (h : Placed pool (pool e).size l₁ l₂)
    (hl : Sorted pool (l₁ ++ l₂)) : Sorted pool (l₁ ++ e :: l₂) := by
  obtain ⟨h₁, h₂, h₁₂⟩ := List.pairwise_append.1 hl
  have hge : ∀ j ∈ l₂, (pool e).size ≤ (pool j).size := by
    cases l₂ with
    | nil => simp
    | cons a l₂ =>
      intro j hj
      have ha := h.2 a rfl
      obtain rfl | hj := List.mem_cons.1 hj
      · exact ha
      · exact ha.trans ((List.pairwise_cons.1 h₂).1 j hj)
  refine List.pairwise_append.2 ⟨h₁, List.pairwise_cons.2 ⟨hge, h₂⟩, fun i hi j hj => ?_⟩
  obtain rfl | hj := List.mem_cons.1 hj
  · exact (h.1 i hi).le
  · exact h₁₂ i hi j hj

/-- A new entry is chained into the bucket of its size. -/
theorem Buckets.chainNew (h : Buckets pool freeList S order B) (hS : ValidSlots pool S)
    (he : e ∉ S) (hid : (pool e).id = e) {freeList' : FreeList}
    (hchain : chainEntryToFreeList pool freeList e none = some (pool', freeList')) :
    ∃ B', Buckets pool' freeList' (Insert.insert e S)
        (Function.update order e (sizeToPageOrder (pool e).size)) B' ∧
      SameButLists pool pool' ∧
      ∀ o < numOfFreeList, Sorted pool (B o) → Sorted pool (B' o) := by
  obtain ⟨size, hsize, hchain⟩ := Option.bind_eq_some_iff.1 hchain
  obtain rfl := MemoryEntry.getSize_eq hsize
  rw [if_neg (by simp)] at hchain
  obtain ⟨_, hnone, hchain⟩ := Option.bind_eq_some_iff.1 hchain
  obtain ⟨hnext, hprev⟩ := Checked.require_eq_some.1 hnone
  obtain ⟨l₁, l₂, hl, hplaced, hsplice, hbuckets⟩ :=
    h.chainInto hS he hid hnext hprev (sizeToPageOrder_lt _) hchain
  refine ⟨_, hbuckets, hsplice.same, fun o ho hsorted => ?_⟩
  by_cases hoo : o = sizeToPageOrder (pool e).size
  · subst hoo
    rw [Function.update_self]
    exact hplaced.sorted (hl ▸ hsorted)
  · rw [Function.update_of_ne hoo]
    exact hsorted

/-- An entry whose size changed moves to the bucket of its new size. The other
entries keep their order, so it is enough that they are sorted among themselves. -/
theorem Buckets.rechain (h : Buckets pool freeList S order B) (hS : ValidSlots pool S)
    (he : e ∈ S) {oldSize : ℕ} (hold : order e = sizeToPageOrder oldSize) {freeList' : FreeList}
    (hchain : chainEntryToFreeList pool freeList e (some oldSize) = some (pool', freeList')) :
    ∃ B', Buckets pool' freeList' S
        (Function.update order e (sizeToPageOrder (pool e).size)) B' ∧
      SameButLists pool pool' ∧ (∀ o < numOfFreeList, (B' o).erase e = (B o).erase e) ∧
      ∀ o < numOfFreeList, Sorted pool ((B o).erase e) →
        (oldSize = (pool e).size → Sorted pool (B o)) → Sorted pool (B' o) := by
  obtain ⟨size, hsize, hchain⟩ := Option.bind_eq_some_iff.1 hchain
  obtain rfl := MemoryEntry.getSize_eq hsize
  by_cases hsame : oldSize = (pool e).size
  · rw [if_pos (by rw [hsame])] at hchain
    obtain ⟨rfl, rfl⟩ := Prod.mk.injEq .. ▸ Option.some.inj hchain
    refine ⟨B, ?_, .refl _, fun _ _ => rfl, fun _ _ _ hsorted => hsorted hsame⟩
    rwa [← hsame, ← hold, Function.update_eq_self]
  · rw [if_neg (by simpa using hsame)] at hchain
    obtain ⟨-, -, hchain⟩ := Option.bind_eq_some_iff.1 hchain
    have ho : order e < numOfFreeList := hold ▸ sizeToPageOrder_lt oldSize
    obtain ⟨hremoved, hsame₁, hnext, hprev⟩ := h.remove hS he ho
    rw [hold] at hremoved
    have hS' : ValidSlots (unchainFromFreelist pool e) (S \ {e}) := fun i hi => by
      rw [hsame₁.id]
      exact hS i hi.1
    obtain ⟨l₁, l₂, hl, hplaced, hsplice, hbuckets⟩ := hremoved.chainInto hS' (by simp)
      ((hsame₁.id e).trans (hS e he).2) hnext hprev (sizeToPageOrder_lt _) hchain
    rw [Set.insert_sdiff_singleton, Set.insert_eq_of_mem he] at hbuckets
    have hnotin : ∀ o < numOfFreeList, e ∉ (B o).erase e := fun o ho' hi =>
      ((h.nodup o ho').mem_erase_iff.1 hi).1 rfl
    refine ⟨_, hbuckets, hsame₁.trans hsplice.same, fun o ho' => ?_, fun o ho' hsorted _ => ?_⟩
    · by_cases hoo : o = sizeToPageOrder (pool e).size
      · subst hoo
        have hnot := hnotin _ ho'
        rw [hl] at hnot ⊢
        rw [Function.update_self, List.erase_append_right _ fun hi => hnot (by simp [hi]),
          List.erase_cons_head]
      · rw [Function.update_of_ne hoo, List.erase_of_not_mem (hnotin o ho')]
    · by_cases hoo : o = sizeToPageOrder (pool e).size
      · subst hoo
        rw [Function.update_self]
        rw [hl] at hsorted
        refine Placed.sorted ⟨fun i hi => ?_, fun i hi => ?_⟩ hsorted
        · rw [← hsame₁.size]
          exact hplaced.1 i hi
        · rw [← hsame₁.size i]
          exact hplaced.2 i hi
      · rw [Function.update_of_ne hoo]
        exact hsorted

/-- The links of entries that are in no bucket stay as they are. -/
theorem Buckets.rechain_outside (h : Buckets pool freeList S order B) (hS : ValidSlots pool S)
    (he : e ∈ S) {oldSize : ℕ} (hold : order e = sizeToPageOrder oldSize) {freeList' : FreeList}
    (hchain : chainEntryToFreeList pool freeList e (some oldSize) = some (pool', freeList'))
    {i : ℕ} (hi : i ∉ S) : (pool' i).listNext = (pool i).listNext ∧
      (pool' i).listPrev = (pool i).listPrev := by
  obtain ⟨size, hsize, hchain⟩ := Option.bind_eq_some_iff.1 hchain
  split_ifs at hchain with hsame
  · obtain ⟨rfl, rfl⟩ := Prod.mk.injEq .. ▸ Option.some.inj hchain
    exact ⟨rfl, rfl⟩
  obtain ⟨-, -, hchain⟩ := Option.bind_eq_some_iff.1 hchain
  have ho : order e < numOfFreeList := hold ▸ sizeToPageOrder_lt oldSize
  have hie : i ≠ e := fun hie => hi (hie ▸ he)
  obtain ⟨m₁, m₂, hm, hprev, hnext⟩ := h.split he ho
  have hm' : ∀ j ∈ m₁ ++ e :: m₂, j ≠ i := fun j hj hji =>
    hi (hji ▸ ((h.mem _ ho j).1 (hm ▸ hj)).1)
  obtain ⟨hlt₁, hlt₂⟩ := h.links_lt hS he ho
  obtain ⟨-, -, -, hnx, hpv⟩ := unchainFromFreelist_spec hlt₁ hlt₂
  obtain ⟨hremoved, hsame₁, hnone₁, hnone₂⟩ := h.remove hS he ho
  rw [hold] at hremoved
  have hS' : ValidSlots (unchainFromFreelist pool e) (S \ {e}) := fun j hj => by
    rw [hsame₁.id]
    exact hS j hj.1
  obtain ⟨l₁, l₂, hl, -, hsplice, -⟩ := hremoved.chainInto hS' (by simp)
    ((hsame₁.id e).trans (hS e he).2) hnone₁ hnone₂ (sizeToPageOrder_lt _) hchain
  have hl' : ∀ j ∈ l₁ ++ l₂, j ≠ i := fun j hj hji =>
    hi (hji ▸ ((hremoved.mem _ (sizeToPageOrder_lt _) j).1 (hl ▸ hj)).1.1)
  rw [hsplice.listNext i hie, hsplice.listPrev i hie, hnx i hie, hpv i hie, hprev, hnext]
  rw [if_neg fun hj => hl' i (by simp [List.mem_of_getLast? hj]) rfl,
    if_neg fun hj => hm' i (by simp [List.mem_of_getLast? hj]) rfl,
    if_neg fun hj => hl' i (by simp [List.mem_of_head? hj]) rfl,
    if_neg fun hj => hm' i (by simp [List.mem_of_head? hj]) rfl]
  exact ⟨rfl, rfl⟩

/-- `unchain_entry_from_free_list` finds the bucket by the size of the entry. -/
theorem Buckets.unchain (h : Buckets pool freeList S order B) (hS : ValidSlots pool S)
    (he : e ∈ S) (hold : order e = sizeToPageOrder (pool e).size) {freeList' : FreeList}
    (hchain : unchainEntryFromFreeList pool freeList e = some (pool', freeList')) :
    Buckets pool' freeList' (S \ {e}) order (fun o => (B o).erase e) ∧
      SameButLists pool pool' := by
  obtain ⟨size, hsize, heq⟩ := Option.map_eq_some_iff.1 hchain
  obtain rfl := MemoryEntry.getSize_eq hsize
  obtain ⟨rfl, rfl⟩ := Prod.mk.injEq .. ▸ heq
  rw [← hold]
  obtain ⟨hremoved, hsame, -⟩ := h.remove hS he (hold ▸ sizeToPageOrder_lt _)
  exact ⟨hremoved, hsame⟩

end Links

end MemoryAllocator

end MiniVisor
