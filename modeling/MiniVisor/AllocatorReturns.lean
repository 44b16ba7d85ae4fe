import MiniVisor.AllocatorTotals

/-!
# Which blocks can be given back

`free` of a range that is not free neither loops nor fails an assertion. It returns
`Ok` unless the range needs an entry of its own and the pool has none left; the only
overflow on the way is that of `free_size`.
-/
namespace MiniVisor

open DoublyLinked

namespace MemoryAllocator

variable {a a' a₁ a₂ a₃ : MemoryAllocator} {pool pool' : MemoryEntryPool} {freeList : FreeList}
  {S : Set ℕ} {order : ℕ → ℕ} {B : ℕ → List ℕ} {l l₁ l₂ : List ℕ}
  {e n m s t start last size : ℕ}

/-! ## Buckets -/

/-- The ends of the entries, and so their sizes, are machine words. -/
def Sized (pool : MemoryEntryPool) (S : Set ℕ) : Prop :=
  ∀ i ∈ S, (pool i).start ≤ (pool i).endAddress ∧ (pool i).endAddress + 1 < 2 ^ 64

theorem Sized.getSize (h : Sized pool S) (he : e ∈ S) :
    (pool e).getSize = some (pool e).size := by
  obtain ⟨hle, hlt⟩ := h e he
  have hsub : Checked.sub (pool e).endAddress (pool e).start =
      some ((pool e).endAddress - (pool e).start) := Checked.sub_eq_some.2 ⟨hle, rfl⟩
  rw [MemoryEntry.getSize, hsub, Option.bind_some]
  exact Checked.add_eq_some.2 ⟨by omega, rfl⟩

theorem Sized.congr (h : Sized pool S) (hstart : ∀ i ∈ S, (pool' i).start = (pool i).start)
    (hend : ∀ i ∈ S, (pool' i).endAddress = (pool i).endAddress) : Sized pool' S := by
  intro i hi
  rw [hstart i hi, hend i hi]
  exact h i hi

theorem Sized.sameButLists (h : Sized pool S) (hsame : SameButLists pool pool') : Sized pool' S :=
  h.congr (fun i _ => hsame.start i) fun i _ => hsame.endAddress i

theorem Sized.setRange (h : Sized pool S) (hlt : s < t) (ht : t + 1 < 2 ^ 64)
    (hpool : ∀ i, pool' i = if i = e then { pool e with start := s, endAddress := t } else pool i) :
    Sized pool' S := by
  intro i hi
  rw [hpool]
  split_ifs
  · exact ⟨hlt.le, ht⟩
  · exact h i hi

theorem chainLoop_returns (size : ℕ) {fuel c : ℕ} {m rest : List ℕ}
    (hlinked : Linked (fun i => (pool i).listNext) (fun i => (pool i).listPrev) none
      (m ++ c :: rest) none)
    (hvalid : ∀ i ∈ m ++ c :: rest, i < poolSize) (hsized : Sized pool {i | i ∈ rest})
    (hfuel : rest.length < fuel) : ∃ pool', chainLoop e size fuel pool c = some pool' := by
  induction fuel generalizing m c rest with
  | zero => omega
  | succ fuel ih =>
    have hfollow : follow (pool c).listNext = rest.head? := by
      rw [hlinked.at_node.2]
      exact follow_eq fun i hi => hvalid i (by simp [List.mem_of_head? hi])
    unfold chainLoop
    rw [hfollow]
    cases rest with
    | nil => exact ⟨_, rfl⟩
    | cons n rest =>
      rw [List.head?_cons]
      dsimp only
      rw [hsized.getSize (by simp), Option.bind_some]
      split_ifs
      · exact ⟨_, rfl⟩
      · have hassoc : m ++ c :: n :: rest = (m ++ [c]) ++ n :: rest := by simp
        rw [hassoc] at hlinked hvalid
        exact ih hlinked hvalid (fun i hi => hsized i (List.mem_cons_of_mem n hi))
          (by simpa using hfuel)

/-- A bucket has no more entries than the pool has slots. -/
theorem Buckets.length_le (h : Buckets pool freeList S order B) (hS : ValidSlots pool S) {o : ℕ}
    (ho : o < numOfFreeList) : (B o).length ≤ poolSize := by
  have hsub : B o ⊆ List.range poolSize := fun i hi =>
    List.mem_range.2 (hS i ((h.mem o ho i).1 hi).1).1
  simpa using (List.subperm_of_subset (h.nodup o ho) hsub).length_le

theorem Buckets.chainInto_returns (h : Buckets pool freeList S order B) (hS : ValidSlots pool S)
    (hsized : Sized pool S) {o : ℕ} (ho : o < numOfFreeList) :
    ∃ r, MemoryAllocator.chainInto pool freeList e size o = some r := by
  have hmem : ∀ i ∈ B o, i ∈ S := fun i hi => ((h.mem o ho i).1 hi).1
  have hfollow : follow (freeList o) = (B o).head? := by
    rw [h.head o ho]
    exact follow_eq fun i hi => (hS i (hmem i (List.mem_of_head? hi))).1
  unfold MemoryAllocator.chainInto
  rw [hfollow]
  cases hB : B o with
  | nil => exact ⟨_, rfl⟩
  | cons c rest =>
    have hlinked := h.linked o ho
    have hlength := h.length_le hS ho
    rw [hB] at hlinked hmem hlength
    rw [List.head?_cons]
    dsimp only
    rw [hsized.getSize (hmem c (by simp)), Option.bind_some]
    split_ifs
    · exact ⟨_, rfl⟩
    · obtain ⟨pool', hloop⟩ := chainLoop_returns (m := []) (e := e) size hlinked
        (fun i hi => (hS i (hmem i hi)).1) (fun i hi => hsized i (hmem i (by simp [hi.out])))
        (by simpa using hlength : rest.length < poolSize)
      rw [hloop]
      exact ⟨_, rfl⟩

theorem Buckets.chainNew_returns (h : Buckets pool freeList S order B) (hS : ValidSlots pool S)
    (hsized : Sized pool S) (hsize : (pool e).getSize = some (pool e).size)
    (hnext : (pool e).listNext = none) (hprev : (pool e).listPrev = none) :
    ∃ r, chainEntryToFreeList pool freeList e none = some r := by
  rw [chainEntryToFreeList, hsize, Option.bind_some, if_neg (by simp)]
  rw [Checked.require_eq_some (u := ()).2 ⟨hnext, hprev⟩, Option.bind_some]
  exact h.chainInto_returns hS hsized (sizeToPageOrder_lt _)

theorem Buckets.rechain_returns (h : Buckets pool freeList S order B) (hS : ValidSlots pool S)
    (hsized : Sized pool S) (he : e ∈ S) {oldSize : ℕ} (hold : order e = sizeToPageOrder oldSize) :
    ∃ r, chainEntryToFreeList pool freeList e (some oldSize) = some r := by
  rw [chainEntryToFreeList, hsized.getSize he, Option.bind_some]
  split_ifs
  · exact ⟨_, rfl⟩
  · have ho : order e < numOfFreeList := hold ▸ sizeToPageOrder_lt oldSize
    obtain ⟨hremoved, hsame, hnext, hprev⟩ := h.remove hS he ho
    rw [hold] at hremoved
    rw [Checked.require_eq_some (u := ()).2 ⟨hnext, hprev⟩, Option.bind_some]
    refine hremoved.chainInto_returns (fun i hi => ?_) (fun i hi => ?_) (sizeToPageOrder_lt _)
    · rw [hsame.id]
      exact hS i hi.1
    · exact hsized.sameButLists hsame i hi.1

theorem Filed.rechain_returns (h : Filed pool freeList S) (hS : ValidSlots pool' S)
    (hsized : Sized pool' S) (he : e ∈ S)
    (hlinks : ∀ i ∈ S, (pool' i).listNext = (pool i).listNext ∧
      (pool' i).listPrev = (pool i).listPrev) :
    ∃ r, chainEntryToFreeList pool' freeList e (some (pool e).size) = some r := by
  obtain ⟨B, hB, -⟩ := h
  exact (hB.congr hlinks).rechain_returns hS hsized he rfl

/-! ## Entries -/

theorem setEntryRange_returns (h : s < t) : ∃ a', a.setEntryRange e s t = some a' :=
  ⟨_, by rw [setEntryRange, setRange, Checked.require_eq_some (u := ()).2 h]; rfl⟩

theorem createMemoryEntry_returns (h : ¬a.Full) :
    ∃ n pool, createMemoryEntry a.memoryEntryPool = .ok (n, pool) := by
  rw [MemoryAllocator.createMemoryEntry]
  cases hfind : (List.range poolSize).find? fun i => !(a.memoryEntryPool i).enabled with
  | some i => exact ⟨_, _, rfl⟩
  | none =>
    refine absurd (fun i hi => ?_) h
    simpa using List.find?_eq_none.1 hfind i (List.mem_range.2 hi)

theorem chainEntry_returns {oldSize : Option ℕ}
    (h : ∃ r, chainEntryToFreeList a.memoryEntryPool a.freeList e oldSize = some r) :
    ∃ a', a.chainEntry e oldSize = some a' := by
  obtain ⟨r, hr⟩ := h
  exact ⟨_, by rw [chainEntry, hr]; rfl⟩

theorem addSize_returns (h : a.freeSize + size < 2 ^ 64) :
    a.addSize size = some { a with freeSize := a.freeSize + size } := by
  rw [addSize, Checked.add_eq_some.2 ⟨h, rfl⟩]
  rfl

theorem finishGrown_returns {oldSize : ℕ} (hcount : a.freeSize + size < 2 ^ 64)
    (hchain : ∃ a₁, a.chainEntry e (some oldSize) = some a₁) :
    ∃ a', a.finishGrown e size oldSize = some (.ok (), a') := by
  obtain ⟨a₁, hchain⟩ := hchain
  refine ⟨{ a₁ with freeSize := a.freeSize + size }, ?_⟩
  simp only [finishGrown, bind, addSize_returns hcount, Option.bind_some, chainEntry_freeSize,
    hchain, Option.map_some, pure]

theorem finishNew_returns {oldSize : ℕ} (hcount : a.freeSize + size < 2 ^ 64)
    (hold : a.chainEntry e (some oldSize) = some a₁) (hnew : ∃ a₂, a₁.chainEntry n none = some a₂) :
    ∃ a', a.finishNew e n size oldSize = some (.ok (), a') := by
  obtain ⟨a₂, hnew⟩ := hnew
  refine ⟨{ a₂ with freeSize := a.freeSize + size }, ?_⟩
  simp only [finishNew, bind, addSize_returns hcount, Option.bind_some, chainEntry_freeSize, hold,
    hnew, Option.map_some, pure]

section Steps

variable (h : Rep a l) (hsized : Sized a.memoryEntryPool {i | i ∈ l})
  (hcount : a.freeSize + size < 2 ^ 64)

include h hsized

/-- An entry whose range was changed goes to its bucket. -/
theorem Rep.resize_returns (he : e ∈ l) (hset : a.setEntryRange e s t = some a₁)
    (ht : t + 1 < 2 ^ 64) :
    ∃ a₂, a₁.chainEntry e (some (a.memoryEntryPool e).size) = some a₂ := by
  obtain ⟨hlt, hpool, hlist, -⟩ := setEntryRange_spec hset
  refine chainEntry_returns ?_
  rw [hlist]
  exact h.filed.rechain_returns (h.chain.toLinks.setRange (setRange_eq hset)).validSlots
    (hsized.setRange hlt ht hpool) he fun i _ => setEntryRange_lists hset i

include hcount

theorem Rep.grown_returns (he : e ∈ l) (hset : a.setEntryRange e s t = some a₁)
    (ht : t + 1 < 2 ^ 64) :
    ∃ a', a₁.finishGrown e size (a.memoryEntryPool e).size = some (.ok (), a') := by
  refine finishGrown_returns ?_ (h.resize_returns hsized he hset ht)
  rw [setEntryRange_counter hset]
  exact hcount

/-- A new entry goes to its bucket once it is linked. -/
theorem Rep.new_returns (he : e ∈ l) (hn : n < poolSize)
    (hdis : (a.memoryEntryPool n).enabled = false)
    (hkept : ∀ i, i ≠ n → a₁.memoryEntryPool i = a.memoryEntryPool i)
    (hfresh : a₁.memoryEntryPool n = { MemoryEntry.new with
      id := n, enabled := true, start := s, endAddress := t })
    (hlt : s < t) (ht : t + 1 < 2 ^ 64) (hsame : SameButChain a₁.memoryEntryPool a₂.memoryEntryPool)
    (hlist : a₂.freeList = a.freeList) (hfree : a₂.freeSize = a.freeSize) :
    ∃ a', a₂.finishNew e n size (a.memoryEntryPool e).size = some (.ok (), a') := by
  have hnot := h.chain.not_mem_of_disabled hn hdis
  have hmem : ∀ i ∈ l, i ≠ n := fun i hi hin => hnot (hin ▸ hi)
  have hsized₂ : Sized a₂.memoryEntryPool {i | i ∈ l} := hsized.congr
    (fun i hi => by rw [hsame.start, hkept i (hmem i hi)])
    (fun i hi => by rw [hsame.endAddress, hkept i (hmem i hi)])
  have hvalid : ValidSlots a₂.memoryEntryPool {i | i ∈ l} := fun i hi => by
    rw [hsame.id, hkept i (hmem i hi)]
    exact h.chain.valid i hi
  have hfiled : Filed a₂.memoryEntryPool a.freeList {i | i ∈ l} := h.filed.congr
    (fun i hi => by
      rw [hsame.listNext, hsame.listPrev, hkept i (hmem i hi)]
      exact ⟨rfl, rfl⟩)
    (fun i hi => by rw [hsame.size, hkept i (hmem i hi)])
  have hold : a₂.chainEntry e (some (a.memoryEntryPool e).size) = some a₂ := by
    have hsize : (a₂.memoryEntryPool e).size = (a.memoryEntryPool e).size := by
      rw [hsame.size, hkept e (hmem e he)]
    rw [chainEntry, chainEntryToFreeList, hsized₂.getSize he, Option.bind_some, hsize, if_pos rfl]
    rfl
  refine finishNew_returns (by rw [hfree]; exact hcount) hold (chainEntry_returns ?_)
  obtain ⟨B, hB, -⟩ := hfiled
  rw [hlist]
  refine hB.chainNew_returns hvalid hsized₂ (Sized.getSize (S := {n}) ?_ rfl) ?_ ?_
  · rintro i rfl
    rw [hsame.start, hsame.endAddress, hfresh]
    exact ⟨hlt.le, ht⟩
  · rw [hsame.listNext, hfresh]
    rfl
  · rw [hsame.listPrev, hfresh]
    rfl

end Steps

/-! ## The steps of `define_free_memory` -/

theorem growEntry_returns (hrange : (a.memoryEntryPool e).start < (a.memoryEntryPool e).endAddress)
    (hend : (a.memoryEntryPool e).endAddress + 1 < 2 ^ 64) (hle : start ≤ last)
    (hlast : last + 1 < 2 ^ 64) :
    ∃ processed a₁, a.growEntry e start last = some (processed, a₁) := by
  -- what follows the growth to the back, from any state it leaves
  have hfront : ∀ (b : Bool) (a₁ : MemoryAllocator),
      (a₁.memoryEntryPool e).start < (a₁.memoryEntryPool e).endAddress →
      ∃ processed a₂, (if (a₁.memoryEntryPool e).isFirstEntry = true then
        (Checked.add 64 last 1).bind fun after =>
          if (a₁.memoryEntryPool e).start = after then
            (a₁.setEntryRange e start (a₁.memoryEntryPool e).endAddress).map fun a => (true, a)
          else some (b, a₁)
      else some (b, a₁)) = some (processed, a₂) := by
    intro b a₁ hrange₁
    split_ifs
    · rw [Checked.add_eq_some.2 ⟨hlast, rfl⟩, Option.bind_some]
      split_ifs with hstart
      · obtain ⟨a₂, hset⟩ := setEntryRange_returns (a := a₁) (e := e)
          (by omega : start < (a₁.memoryEntryPool e).endAddress)
        exact ⟨true, a₂, by rw [hset]; rfl⟩
      · exact ⟨b, a₁, rfl⟩
    · exact ⟨b, a₁, rfl⟩
  rw [growEntry, Checked.add_eq_some.2 ⟨hend, rfl⟩]
  by_cases htouch : (a.memoryEntryPool e).endAddress + 1 = start
  · obtain ⟨a₁, hset⟩ := setEntryRange_returns (a := a) (e := e)
      (by omega : (a.memoryEntryPool e).start < last)
    have hrange₁ : (a₁.memoryEntryPool e).start < (a₁.memoryEntryPool e).endAddress := by
      rw [(setEntryRange_spec hset).2.1, if_pos rfl]
      exact (setEntryRange_spec hset).1
    obtain ⟨processed, a₂, hgrow⟩ := hfront true a₁ hrange₁
    refine ⟨processed, a₂, Eq.trans ?_ hgrow⟩
    simp only [bind, Option.bind_some, if_pos htouch, hset, Option.map_some]
    rfl
  · obtain ⟨processed, a₂, hgrow⟩ := hfront false a hrange
    refine ⟨processed, a₂, Eq.trans ?_ hgrow⟩
    simp only [bind, Option.bind_some, if_neg htouch]
    rfl

theorem growNext_far {p : Bool} (hlast : last + 1 < 2 ^ 64)
    (hfar : (a.memoryEntryPool n).start ≠ last + 1) :
    a.growNext n start last p = some (p, a) := by
  simp only [growNext, bind, Checked.add_eq_some.2 ⟨hlast, rfl⟩, Option.bind_some, if_neg hfar, pure]

theorem growNext_touching {p : Bool} (hlast : last + 1 < 2 ^ 64)
    (htouch : (a.memoryEntryPool n).start = last + 1)
    (hsize : (a.memoryEntryPool n).getSize = some (a.memoryEntryPool n).size)
    (hset : a.setEntryRange n start (a.memoryEntryPool n).endAddress = some a₁)
    (hchain : a₁.chainEntry n (some (a.memoryEntryPool n).size) = some a₂) :
    a.growNext n start last p = some (true, a₂) := by
  simp only [growNext, bind, Checked.add_eq_some.2 ⟨hlast, rfl⟩, Option.bind_some, if_pos htouch,
    hsize, hset, hchain, pure]

theorem mergeNext_far {after : ℕ} {p : Bool} (hend : (a.memoryEntryPool e).endAddress + 1 < 2 ^ 64)
    (hfar : ¬((a.memoryEntryPool n).start = (a.memoryEntryPool e).endAddress + 1 ∨
      p ∧ (a.memoryEntryPool n).start ≤ after)) :
    a.mergeNext e n after p = some a := by
  simp only [mergeNext, bind, Checked.add_eq_some.2 ⟨hend, rfl⟩, Option.bind_some, if_neg hfar, pure]

theorem mergeNext_meeting (after : ℕ) (hend : (a.memoryEntryPool e).endAddress + 1 < 2 ^ 64)
    (hmeet : (a.memoryEntryPool n).start ≤ after)
    (hset : a.setEntryRange e (a.memoryEntryPool e).start
      (max (a.memoryEntryPool e).endAddress (a.memoryEntryPool n).endAddress) = some a₁)
    (hunchain : a₁.unchainEntry n = some a₂) :
    a.mergeNext e n after true =
      some { a₂ with memoryEntryPool := delete a₂.memoryEntryPool n } := by
  simp only [mergeNext, bind, Checked.add_eq_some.2 ⟨hend, rfl⟩, Option.bind_some, hmeet, true_and,
    or_true, if_true, hset, hunchain, pure]

/-! ## The range in front of the first entry -/

section Front

variable (h : Rep a (e :: l)) (hsized : Sized a.memoryEntryPool {i | i ∈ e :: l})
  (hcount : a.freeSize + size < 2 ^ 64) (hle : start ≤ last) (hlast : last + 1 < 2 ^ 64)
  (hbefore : last < (a.memoryEntryPool e).start)

include h hsized hcount hlast

theorem Rep.newFirst_returns (hcreate : createMemoryEntry a.memoryEntryPool = .ok (n, pool))
    (hset : ({ a with memoryEntryPool := pool } : MemoryAllocator).setEntryRange n start last =
      some a₁) (before : ℕ) :
    ∃ a₂ a', a₁.chainBefore e n before = some a₂ ∧
      a₂.finishNew e n size (a.memoryEntryPool e).size = some (.ok (), a') := by
  obtain ⟨hn, hdis, hlt, hkept, hfresh, hlist, -, hfree⟩ := newEntry_spec hcreate hset
  have hne : n ≠ e := fun hne => h.chain.not_mem_of_disabled hn hdis (by simp [hne])
  have hprev : getPrevEntry a₁.memoryEntryPool e = none := by
    rw [getPrevEntry, hkept e (Ne.symm hne), ← getPrevEntry]
    exact h.chain.first_neighbours.2
  obtain ⟨hsame, -⟩ := linkBefore_spec (Q := a₁.memoryEntryPool) hne
    (by rw [hkept e (Ne.symm hne)]; exact (h.chain.valid e (by simp)).2) (by rw [hfresh])
    (by rw [hfresh]; rfl) rfl
  obtain ⟨a', hfinish⟩ := h.new_returns (e := e) hsized hcount (by simp) hn hdis hkept hfresh hlt
    hlast (show SameButChain _ ({ a₁ with
      firstEntry := some (a₁.memoryEntryPool n).id
      memoryEntryPool := chainAfterMe a₁.memoryEntryPool n e } : MemoryAllocator).memoryEntryPool
      from hsame) hlist hfree
  exact ⟨_, a', by rw [chainBefore, hprev], hfinish⟩

include hle hbefore

theorem Rep.freeTail_front_returns {processed : Bool}
    (hnew : (a.memoryEntryPool e).start ≠ last + 1 → ¬a.Full ∧ start < last)
    (hgrow : a.growEntry e start last = some (processed, a₁)) :
    ∃ a', a₁.freeTail e l.head? start last size (a.memoryEntryPool e).size
      ((a.memoryEntryPool e).endAddress + 1) processed = some (.ok (), a') := by
  have hrange := h.chain.range e (by simp)
  have hend := (hsized e (by simp)).2
  have hkept := (growEntry_kept hgrow).1
  have hfront := growEntry_front h.chain.first_neighbours.1 (by omega) hgrow
  cases l with
  | nil =>
    rw [List.head?_nil, freeTail]
    obtain ⟨-, rfl, hset⟩ | ⟨hstart, rfl, rfl⟩ := hfront
    · exact h.grown_returns hsized hcount (by simp) hset hend
    · obtain ⟨n, pool, hcreate⟩ := createMemoryEntry_returns (hnew hstart).1
      obtain ⟨a₂, hset⟩ := setEntryRange_returns (a := { a₁ with memoryEntryPool := pool }) (e := n)
        (hnew hstart).2
      obtain ⟨hn, hdis, -, hkept, hfresh, -⟩ := newEntry_spec hcreate hset
      have hne : e ≠ n := fun hne => h.chain.not_mem_of_disabled hn hdis (by simp [hne])
      obtain ⟨a₃, a', hchain, hfinish⟩ :=
        h.newFirst_returns hsized hcount hlast hcreate hset e
      refine ⟨a', ?_⟩
      have hcond : ¬(a₂.memoryEntryPool e).endAddress < (a₂.memoryEntryPool n).start := by
        rw [hkept e hne, hfresh]
        dsimp only
        omega
      rw [freeAtEnd, if_neg (by simp), hcreate]
      simp only [bind, hset, Option.bind_some, if_neg hcond, hchain, hfinish]
  | cons m l =>
    have hgap := h.chain.apart.behind_first m (by simp)
    have hme : m ≠ e := fun hme => by
      have := h.chain.nodup
      simp [hme] at this
    have hm : a₁.memoryEntryPool m = a.memoryEntryPool m := hkept m hme
    have hend₁ : (a₁.memoryEntryPool e).endAddress = (a.memoryEntryPool e).endAddress := by
      obtain ⟨-, -, hset⟩ | ⟨-, -, rfl⟩ := hfront
      · rw [(setEntryRange_spec hset).2.1, if_pos rfl]
      · rfl
    have hgrowNext : ∀ p, a₁.growNext m start last p = some (p, a₁) := fun p =>
      growNext_far hlast (by rw [hm]; omega)
    have hmerge : ∀ p, a₁.mergeNext e m ((a.memoryEntryPool e).endAddress + 1) p = some a₁ :=
      fun p => mergeNext_far (by rw [hend₁]; exact hend) (by rw [hend₁, hm]; omega)
    rw [List.head?_cons, freeTail]
    simp only [freeBeforeNext, bind, hgrowNext, hmerge, Option.bind_some]
    obtain ⟨-, rfl, hset⟩ | ⟨hstart, rfl, rfl⟩ := hfront
    · exact h.grown_returns hsized hcount (by simp) hset hend
    · obtain ⟨n, pool, hcreate⟩ := createMemoryEntry_returns (hnew hstart).1
      obtain ⟨a₂, hset⟩ := setEntryRange_returns (a := { a₁ with memoryEntryPool := pool }) (e := n)
        (hnew hstart).2
      obtain ⟨hn, hdis, -, hkept, hfresh, -⟩ := newEntry_spec hcreate hset
      have hne : e ≠ n := fun hne => h.chain.not_mem_of_disabled hn hdis (by simp [hne])
      obtain ⟨a₃, a', hchain, hfinish⟩ :=
        h.newFirst_returns hsized hcount hlast hcreate hset n
      refine ⟨a', ?_⟩
      have hcond : (a₂.memoryEntryPool n).endAddress < (a₂.memoryEntryPool e).start := by
        rw [hkept e hne, hfresh]
        exact hbefore
      rw [if_neg (by simp), hcreate]
      simp only [hset, Option.bind_some, if_pos hcond, hchain, hfinish]

end Front

/-! ## The range behind an entry -/

section Behind

variable (h : Rep a (l₁ ++ e :: l₂)) (hsized : Sized a.memoryEntryPool {i | i ∈ l₁ ++ e :: l₂})
  (hcount : a.freeSize + size < 2 ^ 64) (hle : start ≤ last) (hlast : last + 1 < 2 ^ 64)

include h hsized hcount hlast

theorem Rep.newBehind_returns (hcreate : createMemoryEntry a.memoryEntryPool = .ok (n, pool))
    (hset : ({ a with memoryEntryPool := pool } : MemoryAllocator).setEntryRange n start last =
      some a₁) :
    ∃ a', ({ a₁ with
      memoryEntryPool := chainAfterMe (chainBeforeNext a₁.memoryEntryPool n l₂.head?) e n } :
      MemoryAllocator).finishNew e n size (a.memoryEntryPool e).size = some (.ok (), a') := by
  obtain ⟨hn, hdis, hlt, hkept, hfresh, hlist, -, hfree⟩ := newEntry_spec hcreate hset
  have hnot := h.chain.not_mem_of_disabled hn hdis
  have hne : n ≠ e := fun hne => hnot (by simp [hne])
  obtain ⟨hsame, -⟩ := linkAfter_spec (Q := a₁.memoryEntryPool) l₂.head? hne
    (fun x hx => by
      have hx := List.mem_of_head? hx
      have hxn : x ≠ n := fun hxn => hnot (by simp [← hxn, hx])
      rw [hkept x hxn]
      exact ⟨hxn, fun hxe => not_mem_middle h.chain.nodup (by simp [← hxe, hx]),
        (h.chain.valid x (by simp [hx])).2⟩)
    (by rw [hkept e (Ne.symm hne)]; exact (h.chain.valid e (by simp)).2) (by rw [hfresh])
    (by rw [hfresh]; rfl) rfl
  exact h.new_returns hsized hcount (by simp) hn hdis hkept hfresh hlt hlast hsame hlist hfree

include hle

theorem Rep.freeAtEnd_behind_returns (hend : l₂ = []) {processed : Bool}
    (hbehind : (a.memoryEntryPool e).endAddress < start)
    (hnew : (a.memoryEntryPool e).endAddress + 1 ≠ start → ¬a.Full ∧ start < last)
    (hgrow : a.growEntry e start last = some (processed, a₁)) :
    ∃ a', a₁.freeAtEnd e start last size (a.memoryEntryPool e).size processed =
      some (.ok (), a') := by
  have hrange := h.chain.range e (by simp)
  obtain ⟨-, rfl, hset⟩ | ⟨htouch, rfl, rfl⟩ := growEntry_behind (by omega) hgrow
  · exact h.grown_returns hsized hcount (by simp) hset hlast
  · obtain ⟨n, pool, hcreate⟩ := createMemoryEntry_returns (hnew htouch).1
    obtain ⟨a₂, hset⟩ := setEntryRange_returns (a := { a₁ with memoryEntryPool := pool }) (e := n)
      (hnew htouch).2
    obtain ⟨hn, hdis, -, hkept, hfresh, -⟩ := newEntry_spec hcreate hset
    have hne : e ≠ n := fun hne => h.chain.not_mem_of_disabled hn hdis (by simp [hne])
    obtain ⟨a', hfinish⟩ := h.newBehind_returns hsized hcount hlast hcreate hset
    rw [hend, List.head?_nil] at hfinish
    refine ⟨a', ?_⟩
    have hcond : (a₂.memoryEntryPool e).endAddress < (a₂.memoryEntryPool n).start := by
      rw [hkept e hne, hfresh]
      exact hbehind
    rw [freeAtEnd, if_neg (by simp), hcreate]
    simp only [bind, hset, Option.bind_some, if_pos hcond]
    exact hfinish

/-- The range reaches from the entry, which may have grown over it, up to the next one. -/
theorem Rep.meeting_returns {m : ℕ} {l₃ : List ℕ} (hl : l₂ = m :: l₃) {p : Bool}
    (hbehind : start ≤ (a.memoryEntryPool e).endAddress + 1)
    (hfront : (a.memoryEntryPool m).start = last + 1) (ht : t ≤ last)
    (hset : a.setEntryRange e (a.memoryEntryPool e).start t = some a₁) :
    ∃ a', a₁.freeBeforeNext e m start last size (a.memoryEntryPool e).size
      ((a.memoryEntryPool e).endAddress + 1) p = some (.ok (), a') := by
  subst hl
  have hm : m ∈ l₁ ++ e :: m :: l₃ := by simp
  have hme : m ≠ e := fun hme => not_mem_middle h.chain.nodup (by simp [hme])
  have hrange := h.chain.range m hm
  have hend := (hsized m hm).2
  obtain ⟨hlt₁, hP₁, hl₁, -, hc₁⟩ := setEntryRange_spec hset
  have hm₁ : a₁.memoryEntryPool m = a.memoryEntryPool m := by rw [hP₁, if_neg hme]
  have hsized₁ := hsized.setRange hlt₁ (by omega) hP₁
  -- the next entry grows to the front and moves to its bucket
  obtain ⟨a₂, hset₂⟩ := setEntryRange_returns (a := a₁) (e := m)
    (by rw [hm₁]; omega : start < (a₁.memoryEntryPool m).endAddress)
  obtain ⟨hlt₂, hP₂, hl₂, -, hc₂⟩ := setEntryRange_spec hset₂
  have hlinks₂ := (h.chain.toLinks.setRange (setRange_eq hset)).setRange (setRange_eq hset₂)
  have hsized₂ := hsized₁.setRange hlt₂ (by rw [hm₁]; exact hend) hP₂
  have hlists₂ : ∀ i, (a₂.memoryEntryPool i).listNext = (a.memoryEntryPool i).listNext ∧
      (a₂.memoryEntryPool i).listPrev = (a.memoryEntryPool i).listPrev := fun i => by
    rw [(setEntryRange_lists hset₂ i).1, (setEntryRange_lists hset₂ i).2]
    exact setEntryRange_lists hset i
  obtain ⟨⟨P₃, fl₃⟩, hfile₃⟩ := h.filed.rechain_returns hlinks₂.validSlots hsized₂ hm
    fun i _ => hlists₂ i
  have hchain₃ : a₂.chainEntry m (some (a₁.memoryEntryPool m).size) =
      some { a₂ with memoryEntryPool := P₃, freeList := fl₃ } := by
    rw [chainEntry, hl₂, hl₁, hm₁, hfile₃]
    rfl
  have hgrow := growNext_touching (p := p) hlast (hm₁.symm ▸ hfront) (hsized₁.getSize hm) hset₂
    hchain₃
  -- the entry takes the range of both and the next one leaves
  obtain ⟨hsame₃, -⟩ := h.chainEntry_sameButLists hm hlinks₂ hlists₂ (hl₂.trans hl₁) (hm₁ ▸ hchain₃)
  dsimp only at hsame₃
  have he₃ : (P₃ e).start = (a.memoryEntryPool e).start ∧ (P₃ e).endAddress = t := by
    rw [hsame₃.start, hsame₃.endAddress, hP₂, if_neg (Ne.symm hme), hP₁, if_pos rfl]
    exact ⟨rfl, rfl⟩
  have hm₃ : (P₃ m).start = start ∧ (P₃ m).endAddress = (a.memoryEntryPool m).endAddress := by
    rw [hsame₃.start, hsame₃.endAddress, hP₂, if_pos rfl, hm₁]
    exact ⟨rfl, rfl⟩
  obtain ⟨a₄, hset₄⟩ := setEntryRange_returns
    (a := { a₂ with memoryEntryPool := P₃, freeList := fl₃ }) (e := e)
    (by rw [he₃.1, he₃.2]; omega : (P₃ e).start < max (P₃ e).endAddress (P₃ m).endAddress)
  obtain ⟨hlt₄, hP₄, hl₄, -, hc₄⟩ := setEntryRange_spec hset₄
  dsimp only at hP₄ hl₄ hc₄
  have hsized₄ := (hsized₂.sameButLists hsame₃).setRange hlt₄
    (by rw [he₃.2, hm₃.2]; omega) hP₄
  obtain ⟨⟨P₅, fl₅⟩, hfile₅⟩ : ∃ r, unchainEntryFromFreeList a₄.memoryEntryPool fl₃ m = some r :=
    ⟨_, by rw [unchainEntryFromFreeList, hsized₄.getSize hm]; rfl⟩
  have hunchain : a₄.unchainEntry m =
      some { a₄ with memoryEntryPool := P₅, freeList := fl₅ } := by
    rw [unchainEntry, hl₄, hfile₅]
    rfl
  have hmerge := mergeNext_meeting ((a.memoryEntryPool e).endAddress + 1)
    (by dsimp only; rw [he₃.2]; omega) (by dsimp only; omega) hset₄ hunchain
  simp only [freeBeforeNext, bind, hgrow, hmerge, Option.bind_some, if_true]
  refine finishGrown_returns ?_ (chainEntry_returns ?_)
  · change a₄.freeSize + size < 2 ^ 64
    rw [hc₄, hc₂, hc₁]
    exact hcount
  -- what is left is in its buckets
  obtain ⟨-, hsame₅, Q, hQ, hQsize, hQlinks⟩ := h.filed.leave hlinks₂.validSlots hm hlists₂ hfile₃
    (fun i => by rw [hP₄]; grind) (fun i => by rw [hP₄]; grind)
    (by rw [hP₄, if_neg hme]) hfile₅
  have hassoc : l₁ ++ e :: m :: l₃ = (l₁ ++ [e]) ++ m :: l₃ := by simp
  obtain ⟨hlinks₆, hsame₆⟩ := Links.delete (l₁ ++ [e]) <| hassoc ▸
    ((hlinks₂.congr hsame₃.next hsame₃.previous hsame₃.id hsame₃.enabled).setRange
      (setRange_eq hset₄)).congr hsame₅.next hsame₅.previous hsame₅.id hsame₅.enabled
  rw [← hQsize]
  have hsub : {i | i ∈ l₁ ++ e :: m :: l₃} \ {m} = {i | i ∈ (l₁ ++ [e]) ++ l₃} := by
    rw [hassoc, setOf_mem_middle_sdiff (hassoc ▸ h.chain.nodup)]
  rw [hsub] at hQ
  refine hQ.rechain_returns hlinks₆.validSlots (fun i hi => ?_) (by simp) fun i _ =>
    ⟨(hsame₆.listNext i).trans (hQlinks i).1, (hsame₆.listPrev i).trans (hQlinks i).2⟩
  rw [hsame₆.start, hsame₆.endAddress]
  refine hsized₄.sameButLists hsame₅ i ?_
  have hi : i ∈ (l₁ ++ [e]) ++ l₃ := hi
  rw [hassoc]
  simp only [Set.mem_ofPred_eq, List.mem_append, List.mem_cons] at hi ⊢
  tauto

theorem Rep.freeBeforeNext_behind_returns {m : ℕ} {l₃ : List ℕ} (hl : l₂ = m :: l₃)
    {processed : Bool} (hbehind : (a.memoryEntryPool e).endAddress < start)
    (hbefore : last < (a.memoryEntryPool m).start)
    (hnew : (a.memoryEntryPool e).endAddress + 1 ≠ start →
      (a.memoryEntryPool m).start ≠ last + 1 → ¬a.Full ∧ start < last)
    (hgrow : a.growEntry e start last = some (processed, a₁)) :
    ∃ a', a₁.freeBeforeNext e m start last size (a.memoryEntryPool e).size
      ((a.memoryEntryPool e).endAddress + 1) processed = some (.ok (), a') := by
  have he : e ∈ l₁ ++ e :: l₂ := by simp
  have hm : m ∈ l₁ ++ e :: l₂ := by simp [hl]
  have hme : m ≠ e := fun hme => not_mem_middle h.chain.nodup (by simp [hl, hme])
  have hrange := h.chain.range e he
  have hrangem := h.chain.range m hm
  have hend := (hsized e he).2
  have hendm := (hsized m hm).2
  have hkept := (growEntry_kept hgrow).1 m hme
  obtain ⟨htouch, rfl, hset⟩ | ⟨htouch, rfl, rfl⟩ := growEntry_behind (by omega) hgrow
  · by_cases hfront : (a.memoryEntryPool m).start = last + 1
    · exact h.meeting_returns hsized hcount hle hlast hl (by omega) hfront le_rfl hset
    · have hend₁ : (a₁.memoryEntryPool e).endAddress = last := by
        rw [(setEntryRange_spec hset).2.1, if_pos rfl]
      have hgrowNext : a₁.growNext m start last true = some (true, a₁) :=
        growNext_far hlast (by rw [hkept]; exact hfront)
      have hmerge : a₁.mergeNext e m ((a.memoryEntryPool e).endAddress + 1) true = some a₁ :=
        mergeNext_far (by rw [hend₁]; exact hlast) (by rw [hend₁, hkept]; omega)
      simp only [freeBeforeNext, bind, hgrowNext, hmerge, Option.bind_some, if_true]
      exact h.grown_returns hsized hcount he hset hlast
  · by_cases hfront : (a₁.memoryEntryPool m).start = last + 1
    · obtain ⟨a₂, hset₂⟩ := setEntryRange_returns (a := a₁) (e := m)
        (by omega : start < (a₁.memoryEntryPool m).endAddress)
      obtain ⟨hlt₂, hP₂, hl₂, -, hc₂⟩ := setEntryRange_spec hset₂
      obtain ⟨a₃, hchain⟩ := h.resize_returns hsized hm hset₂ hendm
      obtain ⟨hsame, hc₃⟩ := h.chainEntry_sameButLists hm
        (h.chain.toLinks.setRange (setRange_eq hset₂)) (setEntryRange_lists hset₂) hl₂ hchain
      have he₂ : a₂.memoryEntryPool e = a₁.memoryEntryPool e := by rw [hP₂, if_neg (Ne.symm hme)]
      have he₃ : (a₃.memoryEntryPool e).endAddress = (a₁.memoryEntryPool e).endAddress := by
        rw [hsame.endAddress, he₂]
      have hm₃ : (a₃.memoryEntryPool m).start = start := by rw [hsame.start, hP₂, if_pos rfl]
      have hmerge : a₃.mergeNext e m ((a₁.memoryEntryPool e).endAddress + 1) true = some a₃ :=
        mergeNext_far (by rw [he₃]; exact hend) (by rw [he₃, hm₃]; omega)
      simp only [freeBeforeNext, bind,
        growNext_touching hlast hfront (hsized.getSize hm) hset₂ hchain, hmerge, Option.bind_some,
        if_true]
      refine finishGrown_returns (by rw [hc₃, hc₂]; exact hcount) ⟨a₃, ?_⟩
      -- the entry kept its size
      have hsized₃ := (hsized.setRange hlt₂ hendm hP₂).sameButLists hsame
      have hsize : (a₃.memoryEntryPool e).size = (a₁.memoryEntryPool e).size := by
        rw [hsame.size, he₂]
      rw [chainEntry, chainEntryToFreeList, hsized₃.getSize he, Option.bind_some, hsize, if_pos rfl]
      rfl
    · have hgrowNext : a₁.growNext m start last false = some (false, a₁) :=
        growNext_far hlast hfront
      have hmerge : a₁.mergeNext e m ((a₁.memoryEntryPool e).endAddress + 1) false = some a₁ :=
        mergeNext_far hend (by simp; omega)
      obtain ⟨n, pool, hcreate⟩ := createMemoryEntry_returns (hnew htouch hfront).1
      obtain ⟨a₂, hset⟩ := setEntryRange_returns (a := { a₁ with memoryEntryPool := pool }) (e := n)
        (hnew htouch hfront).2
      obtain ⟨hn, hdis, -, hkept, hfresh, -⟩ := newEntry_spec hcreate hset
      have hnot := h.chain.not_mem_of_disabled hn hdis
      have hne : e ≠ n := fun hne => hnot (hne ▸ he)
      have hmn : m ≠ n := fun hmn => hnot (hmn ▸ hm)
      obtain ⟨a', hfinish⟩ := h.newBehind_returns hsized hcount hlast hcreate hset
      have hcond : ¬(a₂.memoryEntryPool n).endAddress < (a₂.memoryEntryPool e).start := by
        rw [hkept e hne, hfresh]
        dsimp only
        omega
      refine ⟨a', ?_⟩
      simp only [freeBeforeNext, bind, hgrowNext, hmerge, Option.bind_some, Bool.false_eq_true,
        if_false, hcreate, hset, if_neg hcond, setNext_setPrev_eq hmn]
      rw [hl, List.head?_cons] at hfinish
      exact hfinish

end Behind

/-! ## The search -/

theorem Chain.searchPreviousLoop_returns {first : Option ℕ} (h : Chain pool first l)
    {address fuel c : ℕ} {m rest : List ℕ} (hl : l = m ++ c :: rest) (hfuel : rest.length < fuel) :
    ∃ found, MemoryAllocator.searchPreviousLoop pool address fuel c = some found := by
  induction fuel generalizing c m rest with
  | zero => omega
  | succ fuel ih =>
    obtain ⟨-, -, hprev, hnext⟩ := (hl ▸ h).neighbours
    unfold MemoryAllocator.searchPreviousLoop
    rw [hprev, hnext]
    split_ifs
    · cases rest with
      | nil => exact ⟨_, rfl⟩
      | cons d rest => exact ih (show l = (m ++ [c]) ++ d :: rest by simp [hl]) (by simpa using hfuel)
    · cases rest with
      | nil => exact ⟨_, rfl⟩
      | cons d rest => exact ih (show l = (m ++ [c]) ++ d :: rest by simp [hl]) (by simpa using hfuel)
    · exact ⟨_, rfl⟩

theorem Rep.searchEntryPreviousAddress_returns (h : Rep a l) (address : ℕ) :
    ∃ found, searchEntryPreviousAddress a.memoryEntryPool a.firstEntry address = some found := by
  have hlength := h.chain.length_le
  have hfollow : follow a.firstEntry = l.head? := by
    rw [h.chain.first]
    exact follow_eq fun i hi => (h.chain.valid i (List.mem_of_head? hi)).1
  unfold MemoryAllocator.searchEntryPreviousAddress
  rw [hfollow]
  cases l with
  | nil => exact ⟨_, rfl⟩
  | cons c l =>
    exact h.chain.searchPreviousLoop_returns (m := []) rfl (by simpa using hlength)



/-- The branch of `define_free_memory` for a range that overlaps nothing. -/
theorem defineFreeMemory_eq_tail {fuel : ℕ} {next : Option ℕ} {processed : Bool} (hpos : size ≠ 0)
    (hfound : a.previousOrFirst start = some (.ok e)) (hlast : getEndAddress start size = some last)
    (hcovers : ¬((a.memoryEntryPool e).start ≤ start ∧ last ≤ (a.memoryEntryPool e).endAddress))
    (hoverlap : ¬(start ≤ (a.memoryEntryPool e).endAddress ∧
      (a.memoryEntryPool e).previous ≠ none))
    (hends : (a.memoryEntryPool e).endAddress ≠ last)
    (hnext : getNextEntry a.memoryEntryPool e = next)
    (hbeyond : ∀ m, next = some m → m ≠ e ∧ start < (a.memoryEntryPool m).start)
    (hsize : (a.memoryEntryPool e).getSize = some (a.memoryEntryPool e).size)
    (hend : (a.memoryEntryPool e).endAddress + 1 < 2 ^ 64)
    (hgrow : a.growEntry e start last = some (processed, a₁)) :
    defineFreeMemory (fuel + 1) a start size =
      a₁.freeTail e next start last size (a.memoryEntryPool e).size
        ((a.memoryEntryPool e).endAddress + 1) processed := by
  have hfirst : ¬(start ≤ (a.memoryEntryPool e).endAddress ∧
      (!(a.memoryEntryPool e).isFirstEntry) = true) := by
    rintro ⟨hle, hnot⟩
    refine hoverlap ⟨hle, fun hprev => ?_⟩
    rw [isFirstEntry_iff.2 hprev] at hnot
    exact absurd hnot (by simp)
  obtain ⟨hkept, hnext₁⟩ := growEntry_kept hgrow
  rw [MemoryAllocator.defineFreeMemory, if_neg hpos, hfound, Option.bind_some]
  dsimp only
  rw [hlast, Option.bind_some, if_neg hcovers, if_neg hfirst, if_neg hends]
  simp only [bind, hsize, Option.bind_some, Checked.add_eq_some.2 ⟨hend, rfl⟩, hgrow, hnext₁, hnext]
  cases next with
  | none => rfl
  | some m =>
    obtain ⟨hme, hm⟩ := hbeyond m rfl
    dsimp only
    rw [hkept m hme, if_neg (not_le.2 hm)]
    rfl

theorem Rep.isolated (h : Rep a l) (hlast : last + 1 = start + size)
    (hapart : ∀ i ∈ l, (a.memoryEntryPool i).endAddress + 1 < start ∨
      last + 1 < (a.memoryEntryPool i).start) : a.Isolated start size := by
  rw [Isolated, h.freeBytes_eq]
  refine ⟨?_, fun x hx => ?_⟩ <;> rintro ⟨i, hi, hcov⟩ <;>
  · have := hapart i hi
    omega

/-- Where the range touches neither the entry nor the next one. -/
theorem Rep.isolated_of_gap (h : Rep a (l₁ ++ e :: l₂)) (hlast : last + 1 = start + size)
    (hgap : Gap a.memoryEntryPool l₁ e l₂ start last)
    (hentry : (a.memoryEntryPool e).endAddress + 1 < start ∨ last + 1 < (a.memoryEntryPool e).start)
    (hnext : ∀ m, l₂.head? = some m → (a.memoryEntryPool m).start ≠ last + 1) :
    a.Isolated start size := by
  have hrange := h.chain.range e (by simp)
  refine h.isolated hlast fun i hi => ?_
  obtain hi | hi := List.mem_append.1 hi
  · have := h.chain.apart.around.1 i hi
    obtain ⟨rfl, -⟩ | hbehind := hgap.here
    · exact absurd hi (by simp)
    · exact .inl (by omega)
  obtain rfl | hi := List.mem_cons.1 hi
  · exact hentry
  · refine .inr ?_
    cases l₂ with
    | nil => exact absurd hi (by simp)
    | cons m l₃ =>
      have hm := hnext m rfl
      have hlater := hgap.later m (by simp)
      have hassoc : l₁ ++ e :: m :: l₃ = (l₁ ++ [e]) ++ m :: l₃ := by simp
      have hrangem := h.chain.range m (by simp)
      obtain rfl | hi := List.mem_cons.1 hi
      · omega
      · have := (hassoc ▸ h.chain.apart).around.2 i hi
        omega

theorem Rep.freeTail_returns (h : Rep a (l₁ ++ e :: l₂))
    (hsized : Sized a.memoryEntryPool {i | i ∈ l₁ ++ e :: l₂})
    (hcount : a.freeSize + size < 2 ^ 64) (hlast : last + 1 = start + size)
    (hbound : last + 1 < 2 ^ 64) (hgap : Gap a.memoryEntryPool l₁ e l₂ start last)
    (hroom : a.Isolated start size → ¬a.Full ∧ start < last) {processed : Bool}
    (hgrow : a.growEntry e start last = some (processed, a₁)) :
    ∃ a', a₁.freeTail e l₂.head? start last size (a.memoryEntryPool e).size
      ((a.memoryEntryPool e).endAddress + 1) processed = some (.ok (), a') := by
  have hrange := h.chain.range e (by simp)
  obtain ⟨rfl, hbefore⟩ | hbehind := hgap.here
  · refine Rep.freeTail_front_returns h hsized hcount hgap.le hbound hbefore (fun hstart => ?_)
      hgrow
    refine hroom (h.isolated_of_gap hlast hgap (.inr (by omega)) fun m hm => ?_)
    have := h.chain.apart.around.2 m (List.mem_of_head? hm)
    omega
  · cases l₂ with
    | nil =>
      exact h.freeAtEnd_behind_returns hsized hcount hgap.le hbound rfl hbehind (fun htouch =>
        hroom (h.isolated_of_gap hlast hgap (.inl (by omega)) (by simp))) hgrow
    | cons m l₃ =>
      refine h.freeBeforeNext_behind_returns hsized hcount hgap.le hbound rfl hbehind
        (hgap.later m (by simp)) (fun htouch hstart => ?_) hgrow
      exact hroom (h.isolated_of_gap hlast hgap (.inl (by omega)) (by simpa using hstart))

theorem getEndAddress_returns (hpos : 0 < size) (hbound : start + size < 2 ^ 64) :
    getEndAddress start size = some (start + size - 1) := by
  rw [getEndAddress, Checked.add_eq_some.2 ⟨hbound, rfl⟩, Option.bind_some]
  exact Checked.sub_eq_some.2 ⟨by omega, rfl⟩

theorem Rep.sized (h : Rep a l) (hbytes : ∀ x ∈ a.freeBytes, x + 1 < 2 ^ 64) :
    Sized a.memoryEntryPool {i | i ∈ l} := fun i hi =>
  ⟨(h.chain.range i hi).le, hbytes _ (h.mem_freeBytes hi (h.chain.range i hi).le le_rfl)⟩

theorem Rep.defineFreeMemory_returns (h : Rep a l) (hne : l ≠ [])
    (hbytes : ∀ x ∈ a.freeBytes, x + 1 < 2 ^ 64) {fuel : ℕ}
    (hfree : Disjoint (Set.Ico start (start + size)) a.freeBytes) (hpos : 0 < size)
    (hbound : start + size < 2 ^ 64) (hroom : a.Isolated start size → ¬a.Full ∧ 1 < size)
    (hcount : a.freeSize + size < 2 ^ 64) :
    ∃ a', MemoryAllocator.defineFreeMemory (fuel + 1) a start size = some (.ok (), a') := by
  have hgetEnd := getEndAddress_returns hpos hbound
  obtain ⟨hle, -, hset⟩ := getEndAddress_eq_some hgetEnd hpos
  have hsized := h.sized hbytes
  obtain ⟨prev, hprev⟩ := h.searchEntryPreviousAddress_returns start
  obtain ⟨l₁, e, l₂, rfl, hfound, hgap⟩ := h.located hne hle (hset ▸ hfree) hprev
  have he := hsized e (by simp)
  obtain ⟨processed, a₁, hgrow⟩ := growEntry_returns (h.chain.range e (by simp)) he.2 hle
    (by omega : start + size - 1 + 1 < 2 ^ 64)
  obtain ⟨hcovers, hoverlap, hends, hbeyond⟩ := h.clear hgap
  obtain ⟨a₂, htail⟩ := h.freeTail_returns hsized hcount (by omega) (by omega) hgap
    (fun hisolated => ⟨(hroom hisolated).1, by have := (hroom hisolated).2; omega⟩) hgrow
  exact ⟨a₂, (defineFreeMemory_eq_tail (by omega) hfound hgetEnd hcovers hoverlap hends
    h.chain.neighbours.2.2.2 hbeyond (hsized.getSize (by simp)) he.2 hgrow).trans htail⟩

/-- What `free` returns when the range was given to `define_free_memory`. -/
theorem free_eq_ok (hcounted : a.freeSize ≠ 0)
    (hdefine : defineFreeMemory poolSize a start size = some (.ok (), a₂))
    (hcount : a₂.freeSize + size < 2 ^ 64) :
    a.free start size = some (.ok (), { a₂ with freeSize := a₂.freeSize + size }) := by
  rw [MemoryAllocator.free, if_neg hcounted, hdefine, Option.bind_some]
  dsimp only
  rw [addSize_returns hcount]
  rfl

/-- A range that is not free can be given back unless it needs an entry and there is
none left, or the counter overflows. -/
theorem Rep.free_returns (h : Rep a l) (hcounted : a.freeSize ≠ 0)
    (hbytes : ∀ x ∈ a.freeBytes, x + 1 < 2 ^ 64)
    (hfree : Disjoint (Set.Ico start (start + size)) a.freeBytes) (hsize : 1 < size)
    (hbound : start + size < 2 ^ 64) (hroom : ¬(a.Full ∧ a.Isolated start size))
    (hcount : a.freeSize + size + size < 2 ^ 64) :
    ∃ a', a.free start size = some (.ok (), a') := by
  have hne : l ≠ [] := fun hnil => hcounted (h.empty hnil)
  obtain ⟨a₂, hdefine⟩ := h.defineFreeMemory_returns hne hbytes hfree (by omega) hbound
    (fun hisolated => ⟨fun hfull => hroom ⟨hfull, hisolated⟩, hsize⟩) (by omega)
  have hcounter := h.defineFreeMemory_counter hne hfree hdefine
  exact ⟨_, free_eq_ok hcounted hdefine (by omega)⟩

/-- The converse: a range that was given back had room. -/
theorem Rep.room_of_free (h : Rep a l) (hcounted : a.freeSize ≠ 0)
    (hfree : Disjoint (Set.Ico start (start + size)) a.freeBytes)
    (hcall : a.free start size = some (.ok (), a')) :
    ¬(a.Full ∧ a.Isolated start size) ∧ a.freeSize + size + size < 2 ^ 64 := by
  refine ⟨fun hrefuses => ?_, ?_⟩
  · obtain ⟨error, herror⟩ := h.free_refused hfree hcounted (.inr hrefuses) hcall
    exact absurd (congrArg Prod.fst herror) (by simp)
  · rw [MemoryAllocator.free, if_neg hcounted] at hcall
    obtain ⟨⟨result, a₁⟩, hdefine, hcall⟩ := Option.bind_eq_some_iff.1 hcall
    cases result with
    | error e => exact absurd hcall (by simp [fail])
    | ok _ =>
      obtain ⟨a₂, hadd, -⟩ := Option.map_eq_some_iff.1 hcall
      obtain ⟨freeSize, hsum, -⟩ := Option.map_eq_some_iff.1 hadd
      have hcounter :=
        h.defineFreeMemory_counter (fun hnil => hcounted (h.empty hnil)) hfree hdefine
      rw [← hcounter]
      exact (Checked.add_eq_some.1 hsum).1

/-! ## Blocks that callers hold -/

/-- The allocator with the address and size of every block that a caller holds. -/
structure Held where
  allocator : MemoryAllocator
  blocks : List (ℕ × ℕ)

inductive Request where
  | allocate (size alignOrder : ℕ)
  | free (address size : ℕ)

namespace Held

/-- The callers of `free` drop its result, so the block is gone for them either way. -/
def step (h : Held) : Request → Option Held
  | .allocate size alignOrder =>
    (h.allocator.allocate size alignOrder).map fun (r, a) =>
      match r with
      | .ok address => ⟨a, (address, size) :: h.blocks⟩
      | .error _ => ⟨a, h.blocks⟩
  | .free address size =>
    (h.allocator.free address size).map fun (_, a) => ⟨a, h.blocks.erase (address, size)⟩

def Step (h : Held) (r : Request) (h' : Held) : Prop := h.step r = some h'

/-- Whole pages are asked for, and only blocks that are held are given back. -/
def Proper (h : Held) : Request → Prop
  | .allocate size _ => 2 ^ pageShift ∣ size
  | .free address size => (address, size) ∈ h.blocks

/-- The allocator has an entry for the block, or a neighbour that grows over it, and
`free_size` can take the block twice. -/
def Room (h : Held) (address size : ℕ) : Prop :=
  ¬(h.allocator.Full ∧ h.allocator.Isolated address size) ∧
    h.allocator.freeSize + size + size < 2 ^ 64

/-- One range of RAM was given to the empty allocator. -/
def Seeded (ramStart ramSize : ℕ) (h : Held) : Prop :=
  MemoryAllocator.new.free ramStart ramSize = some (.ok (), h.allocator) ∧ h.blocks = []

/-- The blocks are apart from each other and from the free bytes, all inside RAM. -/
structure Owned (ramStart ramSize : ℕ) (h : Held) : Prop where
  rep : ∃ l, Rep h.allocator l
  counted : h.allocator.freeSize ≠ 0
  bound : ramStart + ramSize < 2 ^ 64
  free_ram : h.allocator.freeBytes ⊆ Set.Ico ramStart (ramStart + ramSize)
  block_ram : ∀ b ∈ h.blocks, Set.Ico b.1 (b.1 + b.2) ⊆ Set.Ico ramStart (ramStart + ramSize)
  block_taken : ∀ b ∈ h.blocks, Disjoint (Set.Ico b.1 (b.1 + b.2)) h.allocator.freeBytes
  block_size : ∀ b ∈ h.blocks, 1 < b.2
  disjoint : h.blocks.Pairwise fun b c => Disjoint (Set.Ico b.1 (b.1 + b.2)) (Set.Ico c.1 (c.1 + c.2))

variable {h h' : Held} {ramStart ramSize address : ℕ}

theorem Seeded.owned (hseed : Seeded ramStart ramSize h) : Owned ramStart ramSize h := by
  obtain ⟨hcall, hblocks⟩ := hseed
  obtain ⟨hbytes, l, hne, hrep⟩ := rep_new.free (freesTaken_new _ _) hcall
  have hpos : h.allocator.freeSize ≠ 0 := fun hzero => hne (hrep.eq_nil hzero)
  have hbound : ramStart + ramSize < 2 ^ 64 := by
    have hzero : MemoryAllocator.new.freeSize = 0 := rfl
    rw [MemoryAllocator.free, if_pos hzero] at hcall
    split at hcall
    · exact absurd hcall (by simp [fail])
    · simp only [bind, Option.bind_eq_some_iff] at hcall
      obtain ⟨last, hlast, -⟩ := hcall
      obtain ⟨sum, hsum, -⟩ := Option.bind_eq_some_iff.1 hlast
      exact (Checked.add_eq_some.1 hsum).1
  refine ⟨⟨l, hrep⟩, hpos, hbound, ?_, ?_, ?_, ?_, ?_⟩
  · rw [hbytes, freeBytes_new, Set.empty_union]
  all_goals simp [hblocks]

/-- A block that is held can be given back exactly when there is room for it. -/
theorem Owned.free_iff (hown : Owned ramStart ramSize h) (hblock : (address, size) ∈ h.blocks) :
    (∃ a', h.allocator.free address size = some (.ok (), a') ∧
      a'.freeBytes = h.allocator.freeBytes ∪ Set.Ico address (address + size)) ↔
      h.Room address size := by
  obtain ⟨l, hrep⟩ := hown.rep
  have hfree := hown.block_taken _ hblock
  constructor
  · rintro ⟨a', hcall, -⟩
    exact hrep.room_of_free hown.counted hfree hcall
  · rintro ⟨hroom, hcount⟩
    have hsize : 1 < size := hown.block_size _ hblock
    have hbound := hown.bound
    have hlast := (hown.block_ram _ hblock
      (show address + size - 1 ∈ Set.Ico address (address + size) from ⟨by omega, by omega⟩)).2
    obtain ⟨a', hcall⟩ := hrep.free_returns hown.counted
      (fun x hx => by have := (hown.free_ram hx).2; omega) hfree hsize (by omega) hroom hcount
    exact ⟨a', hcall, (hrep.free hfree hcall).1⟩

theorem Owned.allocate {alignOrder : ℕ} {a' : MemoryAllocator} (hown : Owned ramStart ramSize h)
    (hpages : 2 ^ pageShift ∣ size)
    (hcall : h.allocator.allocate size alignOrder = some (.ok address, a')) :
    Owned ramStart ramSize ⟨a', (address, size) :: h.blocks⟩ := by
  obtain ⟨l, hrep⟩ := hown.rep
  obtain ⟨-, hsub, hbytes, l', hrep'⟩ := hrep.allocate hcall
  have hcounts : a'.freeSize + size = h.allocator.freeSize := allocate_counts hcall
  obtain ⟨hpos, hless⟩ : size ≠ 0 ∧ size < h.allocator.freeSize := by
    unfold MemoryAllocator.allocate at hcall
    split_ifs at hcall with hzero hle
    · exact absurd hcall (by simp [fail])
    · exact absurd hcall (by simp [fail])
    · exact ⟨hzero, not_le.1 hle⟩
  have hpage : 2 ^ pageShift ≤ size := Nat.le_of_dvd (Nat.pos_of_ne_zero hpos) hpages
  have hkept : a'.freeBytes ⊆ h.allocator.freeBytes := hbytes ▸ Set.sdiff_subset
  refine ⟨⟨l', hrep'⟩, ?_, hown.bound, hkept.trans hown.free_ram, ?_, ?_, ?_, ?_⟩
  · change a'.freeSize ≠ 0
    omega
  · exact List.forall_mem_cons.2 ⟨hsub.trans hown.free_ram, hown.block_ram⟩
  · refine List.forall_mem_cons.2 ⟨?_, fun b hb => (hown.block_taken b hb).mono_right hkept⟩
    change Disjoint _ a'.freeBytes
    rw [hbytes]
    exact Set.disjoint_sdiff_right
  · refine List.forall_mem_cons.2 ⟨?_, hown.block_size⟩
    rw [pageShift] at hpage
    dsimp only
    omega
  · exact List.pairwise_cons.2
      ⟨fun b hb => ((hown.block_taken b hb).mono_right hsub).symm, hown.disjoint⟩

theorem Owned.forget (hown : Owned ramStart ramSize h) (b : ℕ × ℕ) :
    Owned ramStart ramSize ⟨h.allocator, h.blocks.erase b⟩ where
  rep := hown.rep
  counted := hown.counted
  bound := hown.bound
  free_ram := hown.free_ram
  block_ram c hc := hown.block_ram c (List.mem_of_mem_erase hc)
  block_taken c hc := hown.block_taken c (List.mem_of_mem_erase hc)
  block_size c hc := hown.block_size c (List.mem_of_mem_erase hc)
  disjoint := hown.disjoint.sublist List.erase_sublist

theorem Owned.free {a' : MemoryAllocator} (hown : Owned ramStart ramSize h)
    (hblock : (address, size) ∈ h.blocks)
    (hcall : h.allocator.free address size = some (.ok (), a')) :
    Owned ramStart ramSize ⟨a', h.blocks.erase (address, size)⟩ := by
  obtain ⟨l, hrep⟩ := hown.rep
  have hfree := hown.block_taken _ hblock
  obtain ⟨hbytes, l', hne, hrep'⟩ := hrep.free hfree hcall
  have hrest := hown.forget (address, size)
  have hothers : ∀ b ∈ h.blocks.erase (address, size),
      Disjoint (Set.Ico address (address + size)) (Set.Ico b.1 (b.1 + b.2)) :=
    (List.pairwise_cons.1 <| ((List.perm_cons_erase hblock).pairwise_iff fun hbc =>
      hbc.symm).1 hown.disjoint).1
  refine { hrest with
    rep := ⟨l', hrep'⟩
    counted := fun hzero => hne (hrep'.eq_nil hzero)
    free_ram := ?_
    block_taken := fun b hb => ?_ }
  · change a'.freeBytes ⊆ _
    rw [hbytes]
    exact Set.union_subset hown.free_ram (hown.block_ram _ hblock)
  · change Disjoint _ a'.freeBytes
    rw [hbytes]
    exact (hrest.block_taken b hb).union_right (hothers b hb).symm

theorem Owned.step {r : Request} (hown : Owned ramStart ramSize h) (hguard : h.Proper r)
    (hstep : h.Step r h') : Owned ramStart ramSize h' := by
  obtain ⟨l, hrep⟩ := hown.rep
  cases r with
  | allocate size alignOrder =>
    obtain ⟨⟨result, a'⟩, hcall, rfl⟩ := Option.map_eq_some_iff.1 hstep
    cases result with
    | ok address => exact hown.allocate hguard hcall
    | error e =>
      obtain rfl : a' = h.allocator := hrep.allocate hcall
      exact hown
  | free address size =>
    obtain ⟨⟨result, a'⟩, hcall, rfl⟩ := Option.map_eq_some_iff.1 hstep
    cases result with
    | ok _ => exact hown.free hguard hcall
    | error e =>
      -- the block is lost: it is neither free nor held
      obtain rfl : a' = h.allocator := hrep.free (hown.block_taken _ hguard) hcall
      exact hown.forget (address, size)

/-- In every state of a run a block that is held can be given back, and is free
again, exactly when there is room for it. -/
theorem returns_of_run {h₀ : Held} (hseed : Seeded ramStart ramSize h₀)
    (hrun : Runs.GuardedRun Step Proper h₀ h) :
    ∀ address size, (address, size) ∈ h.blocks →
      ((∃ a', h.allocator.free address size = some (.ok (), a') ∧
        a'.freeBytes = h.allocator.freeBytes ∪ Set.Ico address (address + size)) ↔
        h.Room address size) := by
  have hown := hrun.invariant (I := Owned ramStart ramSize)
    (fun _ _ _ hown hguard hstep => hown.step hguard hstep) hseed.owned
  exact fun address size hblock => hown.free_iff hblock

/-- One range of RAM is given to the empty allocator. -/
def seed (ramStart ramSize : ℕ) : Option Held :=
  (MemoryAllocator.new.free ramStart ramSize).bind fun (r, a) =>
    match r with
    | .ok _ => some ⟨a, []⟩
    | .error _ => none

theorem seeded_of_seed (hseed : seed ramStart ramSize = some h) : Seeded ramStart ramSize h := by
  obtain ⟨⟨r, a⟩, hcall, hr⟩ := Option.bind_eq_some_iff.1 hseed
  cases r with
  | ok _ =>
    obtain rfl := Option.some.inj hr
    exact ⟨hcall, rfl⟩
  | error e => exact absurd hr (by simp)

/-- A page of eight is allocated; it can be given back. -/
theorem sample_returns : ∃ h₀ h : Held, Seeded 0x1000 0x8000 h₀ ∧
    Runs.GuardedRun Step Proper h₀ h ∧ (0x1000, 0x1000) ∈ h.blocks ∧
    ∃ a', h.allocator.free 0x1000 0x1000 = some (.ok (), a') ∧
      a'.freeBytes = h.allocator.freeBytes ∪ Set.Ico 0x1000 (0x1000 + 0x1000) := by
  have heval : ((seed 0x1000 0x8000).bind fun h => (h.step (.allocate 0x1000 12)).map fun h =>
      (h.blocks, decide h.allocator.Full, h.allocator.freeSize)) =
      some ([(0x1000, 0x1000)], false, 0x7000) := by
    decide +kernel
  obtain ⟨h₀, hseed, heval⟩ := Option.bind_eq_some_iff.1 heval
  obtain ⟨h, hstep, heval⟩ := Option.map_eq_some_iff.1 heval
  simp only [Prod.mk.injEq, decide_eq_false_iff_not] at heval
  obtain ⟨hblocks, hroom, hcount⟩ := heval
  have hseeded := seeded_of_seed hseed
  have hguard : h₀.Proper (.allocate 0x1000 12) := ⟨1, rfl⟩
  have hrun : Runs.GuardedRun Step Proper h₀ h := .cons hguard hstep (.refl h)
  have hblock : (0x1000, 0x1000) ∈ h.blocks := by simp [hblocks]
  refine ⟨h₀, h, hseeded, hrun, hblock, (returns_of_run hseeded hrun _ _ hblock).2 ⟨?_, ?_⟩⟩
  · exact fun hcon => hroom hcon.1
  · rw [hcount]
    decide

/-- Two pages, then 63 blocks that end one page before an aligned address. -/
def splittingRequests : List Request :=
  List.replicate 2 (.allocate 0x1000 0) ++ List.replicate 63 (.allocate 0xfff000 24)

/-- Each of the 63 blocks leaves a page behind, which takes the last entry of the
pool; the first page, which has no free neighbour, cannot be given back. -/
theorem held_page_refused : ∃ h₀ h : Held, Seeded 0x40001000 0x40000000 h₀ ∧
    Runs.GuardedRun Step Proper h₀ h ∧ (0x40001000, 0x1000) ∈ h.blocks ∧
    ∃ a', h.allocator.free 0x40001000 0x1000 = some (.error .noEntry, a') := by
  have heval : ((seed 0x40001000 0x40000000).bind fun h =>
      (splittingRequests.foldlM step h).bind fun h =>
        (h.allocator.free 0x40001000 0x1000).map fun (r, _) =>
          (decide ((0x40001000, 0x1000) ∈ h.blocks), decide (r = .error .noEntry))) =
      some (true, true) := by
    decide +kernel
  obtain ⟨h₀, hseed, heval⟩ := Option.bind_eq_some_iff.1 heval
  obtain ⟨h, hsteps, heval⟩ := Option.bind_eq_some_iff.1 heval
  obtain ⟨⟨r, a'⟩, hcall, heval⟩ := Option.map_eq_some_iff.1 heval
  simp only [Prod.mk.injEq, decide_eq_true_eq] at heval
  obtain ⟨hblock, rfl⟩ := heval
  refine ⟨h₀, h, seeded_of_seed hseed, Runs.GuardedRun.of_foldlM (fun r hr h => ?_) hsteps, hblock,
    a', hcall⟩
  simp only [splittingRequests, List.mem_append, List.mem_replicate] at hr
  obtain ⟨-, rfl⟩ | ⟨-, rfl⟩ := hr <;> rw [Proper] <;> decide

end Held

end MemoryAllocator

end MiniVisor
