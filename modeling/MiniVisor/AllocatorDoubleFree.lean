import MiniVisor.AllocatorOverlap

/-!
# Which ranges can be given back

Giving back a range that overlaps free memory frees exactly its bytes, or is refused, in
some of the ways in which it can lie; in all others the entries overlap afterwards, bytes
are lost or bytes are freed that were not asked for. `Handled` lists the ways that go well.
-/
namespace MiniVisor

namespace MemoryAllocator

variable {a a' : MemoryAllocator} {l l₁ l₂ : List ℕ} {e m start last size : ℕ} {r : Reply Unit}

/-- The ways of a range that `free` treats right, by the chain of free entries. -/
inductive Handled (a : MemoryAllocator) (start size : ℕ) : List ℕ → Prop
  /-- The range is inside an entry and is refused. -/
  | covered (l₁ : List ℕ) (e : ℕ) (l₂ : List ℕ) (hlow : (a.memoryEntryPool e).start ≤ start)
      (hhigh : start + size ≤ (a.memoryEntryPool e).endAddress + 1) :
      Handled a start size (l₁ ++ e :: l₂)
  /-- No byte of it is free, there is an entry for it and `free_size` takes it twice. -/
  | apart (l : List ℕ) (hfree : Disjoint (Set.Ico start (start + size)) a.freeBytes)
      (hroom : ¬(a.Full ∧ a.Isolated start size)) (hcount : a.freeSize + size + size < 2 ^ 64) :
      Handled a start size l
  /-- No byte of it is free but there is no entry for it: it is refused. -/
  | refused (l : List ℕ) (hfree : Disjoint (Set.Ico start (start + size)) a.freeBytes)
      (hfull : a.Full) (hisolated : a.Isolated start size) : Handled a start size l
  /-- It starts before the first entry and ends with it. -/
  | endsWithFirst (e : ℕ) (l : List ℕ) (hlow : start < (a.memoryEntryPool e).start)
      (hhigh : start + size = (a.memoryEntryPool e).endAddress + 1)
      (hcount : a.freeSize + ((a.memoryEntryPool e).start - start) + size < 2 ^ 64) :
      Handled a start size (e :: l)
  /-- It starts in the first entry and ends where the second one starts. -/
  | fillsFirstGap (e m : ℕ) (l : List ℕ) (hlow : (a.memoryEntryPool e).start ≤ start)
      (hhigh : start ≤ (a.memoryEntryPool e).endAddress)
      (hend : start + size = (a.memoryEntryPool m).start)
      (hcount : a.freeSize + size + size < 2 ^ 64) : Handled a start size (e :: m :: l)
  /-- It starts with an entry that is not the first and ends before the next one. -/
  | extendsEntry (l₁ : List ℕ) (e m : ℕ) (l₂ : List ℕ) (hlow : (a.memoryEntryPool m).start = start)
      (hhigh : (a.memoryEntryPool m).endAddress + 1 < start + size)
      (hnext : ∀ n, l₂.head? = some n → start + size ≤ (a.memoryEntryPool n).start)
      (hcount : a.freeSize + (start + size - ((a.memoryEntryPool m).endAddress + 1)) + size <
        2 ^ 64) : Handled a start size (l₁ ++ e :: m :: l₂)
  /-- It starts inside the last entry, which is not the first, and ends behind it. -/
  | extendsLast (l₁ : List ℕ) (e m : ℕ) (hlow : (a.memoryEntryPool m).start < start)
      (hin : start < (a.memoryEntryPool m).endAddress)
      (hhigh : (a.memoryEntryPool m).endAddress + 1 < start + size)
      (hcount : a.freeSize + (start + size - ((a.memoryEntryPool m).endAddress + 1)) + size <
        2 ^ 64) : Handled a start size (l₁ ++ [e, m])
  /-- It overlaps the first entry, needs an entry of its own and is refused. -/
  | refusedAtFirst (e m : ℕ) (l : List ℕ) (hfull : a.Full)
      (hlow : start ≤ (a.memoryEntryPool e).endAddress)
      (hhigh : (a.memoryEntryPool e).start < start + size)
      (hend : (a.memoryEntryPool e).endAddress + 1 ≠ start + size)
      (hnext : (a.memoryEntryPool m).start ≠ start + size) : Handled a start size (e :: m :: l)
  /-- It starts between two entries, next to neither, overlaps the second and is refused. -/
  | refusedInGap (l₁ : List ℕ) (e m : ℕ) (l₂ : List ℕ) (hfull : a.Full)
      (hlow : (a.memoryEntryPool e).endAddress + 1 < start)
      (hhigh : start < (a.memoryEntryPool m).start)
      (hnext : (a.memoryEntryPool m).start < start + size) :
      Handled a start size (l₁ ++ e :: m :: l₂)

/-! ## From `free` to `define_free_memory` -/

/-- `define_free_memory` frees the range as asked, and `free_size` has room to count it again. -/
def Defines (a : MemoryAllocator) (start size : ℕ) : Prop :=
  ∃ r, defineFreeMemory poolSize a start size = some r ∧ a.FreesExactly start size r ∧
    ∀ a', r = (.ok (), a') → a'.freeSize + size < 2 ^ 64

theorem defines_iff (hcounted : a.freeSize ≠ 0) :
    (∃ r, a.free start size = some r ∧ a.FreesExactly start size r) ↔ a.Defines start size := by
  constructor
  · rintro ⟨r, hfree, hexact⟩
    rw [MemoryAllocator.free, if_neg hcounted] at hfree
    obtain ⟨⟨result, b⟩, hdefine, hfree⟩ := Option.bind_eq_some_iff.1 hfree
    refine ⟨_, hdefine, ?_⟩
    cases result with
    | error err =>
      obtain rfl := Option.some.inj hfree
      exact ⟨hexact, by simp⟩
    | ok u =>
      obtain ⟨c, hadd, rfl⟩ := Option.map_eq_some_iff.1 hfree
      obtain ⟨count, hsum, rfl⟩ := Option.map_eq_some_iff.1 hadd
      refine ⟨hexact, fun a' ha' => ?_⟩
      obtain rfl : b = a' := congrArg Prod.snd ha'
      exact (Checked.add_eq_some.1 hsum).1
  · rintro ⟨⟨result, b⟩, hdefine, hexact, hcount⟩
    cases result with
    | error err =>
      refine ⟨(.error err, b), ?_, hexact⟩
      rw [MemoryAllocator.free, if_neg hcounted, hdefine]
      rfl
    | ok u => exact ⟨_, free_eq_ok hcounted hdefine (hcount b rfl), hexact⟩

/-- A range that `define_free_memory` looks at ends below `2 ^ 64`. -/
theorem bound_of_define (h : Rep a l) (hne : l ≠ []) (hpos : size ≠ 0)
    (hdefine : defineFreeMemory poolSize a start size = some r) : start + size < 2 ^ 64 := by
  obtain ⟨l₁, e, l₂, rfl, hfound, -⟩ := exists_located h.chain hne start
  rw [show poolSize = 63 + 1 from rfl, defineFreeMemory, if_neg hpos, hfound,
    Option.bind_some] at hdefine
  obtain ⟨last, hlast, -⟩ := Option.bind_eq_some_iff.1 hdefine
  obtain ⟨s, hs, -⟩ := Option.bind_eq_some_iff.1 hlast
  exact (Checked.add_eq_some.1 hs).1

/-- The same with a state that keeps the whole representation. -/
def DefinesWell (a : MemoryAllocator) (start size : ℕ) : Prop :=
  ∃ r, defineFreeMemory poolSize a start size = some r ∧ Gave a (Set.Ico start (start + size)) r ∧
    ∀ a', r = (.ok (), a') → a'.freeSize + size < 2 ^ 64

theorem DefinesWell.defines (h : a.DefinesWell start size) : a.Defines start size := by
  obtain ⟨r, hdefine, hgave, hcount⟩ := h
  exact ⟨r, hdefine, hgave.freesExactly, hcount⟩

/-- A way that `define_free_memory` refuses. -/
theorem defines_of_error {err : MemoryError}
    (h : defineFreeMemory poolSize a start size = some (.error err, a)) : a.DefinesWell start size :=
  ⟨_, h, rfl, by simp⟩

/-- A part of the range was given back, and the rest of it was free already. -/
theorem defines_of_part {R : Set ℕ}
    (h : defineFreeMemory poolSize a start size = some (.ok (), a')) (hgave : Gave a R (.ok (), a'))
    (hR : a.freeBytes ∪ R = a.freeBytes ∪ Set.Ico start (start + size))
    (hcount : a'.freeSize + size < 2 ^ 64) : a.DefinesWell start size := by
  obtain ⟨hbytes, l, hne, hrep⟩ := hgave
  refine ⟨_, h, ⟨hbytes.trans hR, l, hne, hrep⟩, fun b hb => ?_⟩
  obtain rfl : a' = b := congrArg Prod.snd hb
  exact hcount

section Placed

variable (hbytes : ∀ x ∈ a.freeBytes, x + 1 < 2 ^ 64) (hpos : 0 < size)
  (hbound : start + size < 2 ^ 64)

include hpos hbound

/-- The search ends at an entry that covers the range. -/
theorem define_coveredHere (h : Rep a (l₁ ++ e :: l₂)) {fuel : ℕ}
    (hlocated : Located a.memoryEntryPool start l₁ e l₂)
    (hlow : (a.memoryEntryPool e).start ≤ start)
    (hhigh : start + size ≤ (a.memoryEntryPool e).endAddress + 1) :
    defineFreeMemory (fuel + 1) a start size = some (.error .invalidRequest, a) := by
  have hlast := getEndAddress_returns hpos hbound
  exact defineFreeMemory_covered (by omega) (previousOrFirst_of_located h.chain hlocated) hlast
    ⟨hlow, by omega⟩

include hbytes

/-- The search ends before an entry that the range starts in: the range is refused, or its
part behind that entry is left. -/
theorem define_inNext (fuel : ℕ) (h : Rep a (l₁ ++ e :: m :: l₂))
    (hlocated : Located a.memoryEntryPool start l₁ e (m :: l₂))
    (hlow : (a.memoryEntryPool m).start ≤ start) :
    defineFreeMemory (fuel + 1) a start size =
      if start + size ≤ (a.memoryEntryPool m).endAddress + 1 then
        some (.error .invalidRequest, a)
      else defineFreeMemory fuel a ((a.memoryEntryPool m).endAddress + 1)
        (start + size - ((a.memoryEntryPool m).endAddress + 1)) := by
  have hlast := getEndAddress_returns hpos hbound
  have hfound := previousOrFirst_of_located h.chain hlocated
  have hsized := h.sized hbytes
  have hrange := h.chain.range e (by simp)
  have hgap := h.chain.apart.around.2 m (by simp)
  have hend := (hsized e (by simp)).2
  have hendm := (hsized m (by simp)).2
  have hgrow := growEntry_far hrange hend (by omega : start ≤ start + size - 1) (by omega)
    (by omega) fun _ => by omega
  split_ifs with hcovered
  · exact defineFreeMemory_nextCovers (by omega) hfound hlast (by omega) (by omega) (by omega)
      (hsized.getSize (by simp)) hend hgrow h.chain.neighbours.2.2.2 hlow (by omega)
  · rw [defineFreeMemory_beyondNext (by omega) hfound hlast (by omega) (by omega) (by omega)
      (hsized.getSize (by simp)) hend hgrow h.chain.neighbours.2.2.2 hlow (by omega) hendm]
    congr 1
    omega

/-- A range inside an entry is refused. -/
theorem defines_covered (h : Rep a (l₁ ++ e :: l₂)) (hlow : (a.memoryEntryPool e).start ≤ start)
    (hhigh : start + size ≤ (a.memoryEntryPool e).endAddress + 1) : a.DefinesWell start size := by
  have hrange := h.chain.range e (by simp)
  have hnext : ∀ m, l₂.head? = some m → start ≤ (a.memoryEntryPool m).start := fun m hm => by
    have := h.chain.apart.around.2 m (List.mem_of_head? hm)
    omega
  -- the search ends at the entry, or before it when it starts there or is the last one
  by_cases hhere : (a.memoryEntryPool e).start < start ∧
      (l₂ ≠ [] ∨ (a.memoryEntryPool e).endAddress ≤ start)
  · exact defines_of_error (define_coveredHere hpos hbound h
      (.behind l₁ e l₂ hhere.1 hnext fun hnil => hhere.2.resolve_left (not_not.2 hnil)) hlow hhigh)
  have hlater : (a.memoryEntryPool e).start < start →
      l₂ = [] ∧ start < (a.memoryEntryPool e).endAddress := fun hstart => by
    obtain ⟨hnil, hin⟩ := not_or.1 fun hor => hhere ⟨hstart, hor⟩
    exact ⟨not_not.1 hnil, not_le.1 hin⟩
  rcases l₁.eq_nil_or_concat with rfl | ⟨l₁, p, rfl⟩
  · refine defines_of_error (define_coveredHere hpos hbound h ?_ hlow hhigh)
    by_cases hsame : start ≤ (a.memoryEntryPool e).start
    · exact .front e l₂ hsame
    · obtain ⟨rfl, hin⟩ := hlater (by omega)
      exact .insideSole e (by omega) hin
  · have hassoc : (l₁ ++ [p]) ++ e :: l₂ = l₁ ++ p :: e :: l₂ := by simp
    rw [List.concat_eq_append, hassoc] at h
    have hgap := h.chain.apart.around.2 e (by simp)
    have hrangep := h.chain.range p (by simp)
    have hlocated : Located a.memoryEntryPool start l₁ p (e :: l₂) := by
      by_cases hsame : start ≤ (a.memoryEntryPool e).start
      · exact .behind l₁ p _ (by omega) (fun i hi => by
          obtain rfl : e = i := by simpa using hi
          exact hsame) (by simp)
      · obtain ⟨rfl, hin⟩ := hlater (by omega)
        exact .insideLast l₁ p e (by omega) hin
    have hstep := define_inNext hbytes hpos hbound 63 h hlocated hlow
    rw [if_pos hhigh] at hstep
    exact defines_of_error hstep

/-- The range starts before the first entry and ends with it. -/
theorem define_endsWithFirst (h : Rep a (e :: l)) {fuel : ℕ}
    (hlow : start < (a.memoryEntryPool e).start)
    (hhigh : start + size = (a.memoryEntryPool e).endAddress + 1) :
    defineFreeMemory (fuel + 1) a start size =
      defineFreeMemory fuel a start ((a.memoryEntryPool e).start - start) := by
  have hlast := getEndAddress_returns hpos hbound
  have hrange := h.chain.range e (by simp)
  have hchain : Chain a.memoryEntryPool a.firstEntry ([] ++ e :: l) := h.chain
  have hfound := previousOrFirst_of_located hchain (.front e l hlow.le)
  rw [defineFreeMemory_endsWith (by omega) hfound hlast (by omega)
    (fun hov => hov.2 h.chain.first_neighbours.1) (by omega)
    ((h.sized hbytes).getSize (by simp)) (by rw [MemoryEntry.size]; omega), MemoryEntry.size]
  congr 1
  omega

end Placed

theorem disjoint_front (h : Rep a (e :: l)) :
    Disjoint (Set.Ico start (a.memoryEntryPool e).start) a.freeBytes := by
  rw [h.freeBytes_eq, Set.disjoint_left]
  rintro x ⟨-, hhigh⟩ ⟨i, hi, hcov⟩
  obtain rfl | hi := List.mem_cons.1 hi
  · omega
  · have := h.chain.apart.behind_first i hi
    have := h.chain.range e (by simp)
    omega

theorem disjoint_between (h : Rep a (l₁ ++ e :: l₂))
    (hlow : (a.memoryEntryPool e).endAddress < start)
    (hnext : ∀ m, l₂.head? = some m → start + size ≤ (a.memoryEntryPool m).start) :
    Disjoint (Set.Ico start (start + size)) a.freeBytes := by
  have hdisjoint : Disjoint (Set.Ico ((a.memoryEntryPool e).endAddress + 1)
      ((a.memoryEntryPool e).endAddress + 1 +
        (start + size - ((a.memoryEntryPool e).endAddress + 1)))) a.freeBytes := by
    refine disjoint_behind h fun m hm => ?_
    have := hnext m hm
    have := h.chain.apart.around.2 m (List.mem_of_head? hm)
    omega
  exact hdisjoint.mono_left (Set.Ico_subset_Ico (by omega) (by omega))

/-! ## The ways that go well -/

section Well

variable (hbytes : ∀ x ∈ a.freeBytes, x + 1 < 2 ^ 64) (hsize : 2 ≤ size)
  (hbound : start + size < 2 ^ 64)

include hbytes hsize hbound

theorem defines_refused (h : Rep a l) (hne : l ≠ [])
    (hfree : Disjoint (Set.Ico start (start + size)) a.freeBytes) (hfull : a.Full)
    (hisolated : a.Isolated start size) : a.DefinesWell start size := by
  have hlast := getEndAddress_returns (by omega : 0 < size) hbound
  obtain ⟨hle, hlength, hset⟩ := getEndAddress_eq_some hlast (by omega)
  obtain ⟨prev, hprev⟩ := h.searchEntryPreviousAddress_returns start
  obtain ⟨l₁, e, l₂, rfl, hfound, hgap⟩ := h.located hne hle (hset ▸ hfree) hprev
  have hrange := h.chain.range e (by simp)
  have hsized := h.sized hbytes
  have htouch : ∀ i ∈ l₁ ++ e :: l₂, (a.memoryEntryPool i).endAddress + 1 ≠ start ∧
      (a.memoryEntryPool i).start ≠ start + size := fun i hi => by
    have hi' := h.chain.range i hi
    refine ⟨fun hs => hisolated.2 _ hs (h.mem_freeBytes hi hi'.le le_rfl), fun hs => ?_⟩
    exact hisolated.1 (hs ▸ h.mem_freeBytes hi le_rfl hi'.le)
  have hentry := htouch e (by simp)
  obtain ⟨hcovers, hoverlap, hends, hbeyond⟩ := h.clear hgap
  refine defines_of_error (define_refused h hsized (by omega) hfound hlast (by omega) hfull hcovers
    (fun hov => ?_) hends hentry.1 (fun _ => by omega) fun m hm => ⟨(hbeyond m hm).2, ?_⟩)
  · obtain ⟨rfl, -⟩ | hbehind := hgap.here
    · exact hov.2 rfl
    · omega
  · have := (htouch m (by simp [List.mem_of_head? hm])).2
    omega

theorem defines_endsWithFirst (h : Rep a (e :: l)) (hlow : start < (a.memoryEntryPool e).start)
    (hhigh : start + size = (a.memoryEntryPool e).endAddress + 1)
    (hcount : a.freeSize + ((a.memoryEntryPool e).start - start) + size < 2 ^ 64) :
    a.DefinesWell start size := by
  have hrange := h.chain.range e (by simp)
  have hpart : start + ((a.memoryEntryPool e).start - start) = (a.memoryEntryPool e).start := by omega
  have hfree : Disjoint (Set.Ico start (start + ((a.memoryEntryPool e).start - start)))
      a.freeBytes := by
    rw [hpart]
    exact disjoint_front h
  have hmem : ∀ x, (a.memoryEntryPool e).start ≤ x → x ≤ (a.memoryEntryPool e).endAddress →
      x ∈ a.freeBytes := fun x => h.mem_freeBytes (by simp)
  obtain ⟨a', hdefine⟩ : ∃ a', defineFreeMemory (62 + 1) a start
      ((a.memoryEntryPool e).start - start) = some (.ok (), a') :=
    h.defineFreeMemory_returns (by simp) hbytes hfree (by omega) (by omega)
      (fun hisolated => absurd (hmem _ hpart.ge (hpart.le.trans hrange.le)) hisolated.1) (by omega)
  have hcounter := h.defineFreeMemory_counter (by simp) hfree hdefine
  refine defines_of_part ((define_endsWithFirst hbytes (by omega) hbound h hlow hhigh).trans hdefine)
    (h.defineFreeMemory (by simp) hfree hdefine) ?_ (by omega)
  rw [hpart]
  ext x
  simp only [Set.mem_union, Set.mem_Ico]
  constructor
  · rintro (hx | hx)
    · exact .inl hx
    · exact .inr (by omega)
  · rintro (hx | hx)
    · exact .inl hx
    · by_cases hxe : x < (a.memoryEntryPool e).start
      · exact .inr ⟨hx.1, hxe⟩
      · exact .inl (hmem x (by omega) (by omega))

theorem defines_fillsFirstGap (h : Rep a (e :: m :: l)) (hlow : (a.memoryEntryPool e).start ≤ start)
    (hhigh : start ≤ (a.memoryEntryPool e).endAddress)
    (hend : start + size = (a.memoryEntryPool m).start)
    (hcount : a.freeSize + size + size < 2 ^ 64) : a.DefinesWell start size := by
  have hlast := getEndAddress_returns (by omega : 0 < size) hbound
  have hgap := h.chain.apart.behind_first m (by simp)
  have hchain : Chain a.memoryEntryPool a.firstEntry ([] ++ e :: m :: l) := h.chain
  have hlocated : Located a.memoryEntryPool start [] e (m :: l) := by
    by_cases hsame : start ≤ (a.memoryEntryPool e).start
    · exact .front e _ hsame
    · exact .behind [] e _ (by omega) (fun i hi => by
        obtain rfl : m = i := by simpa using hi
        omega) (by simp)
  obtain ⟨a', hdefine, hgave, hcounter⟩ := define_fillsGap h (h.sized hbytes) (by omega)
    (previousOrFirst_of_located hchain hlocated) hlast (by omega) hhigh (by omega) hlow
    (by omega : a.freeSize + size < 2 ^ 64)
  exact defines_of_part hdefine hgave rfl (by omega)

/-- The part of the range behind an entry is what the entry grows over. -/
theorem defines_extends (h : Rep a (l₁ ++ e :: m :: l₂))
    (hlocated : Located a.memoryEntryPool start l₁ e (m :: l₂))
    (hlow : (a.memoryEntryPool m).start ≤ start) (hin : start ≤ (a.memoryEntryPool m).endAddress)
    (hhigh : (a.memoryEntryPool m).endAddress + 1 < start + size)
    (hnext : ∀ n, l₂.head? = some n → start + size ≤ (a.memoryEntryPool n).start)
    (hcount : a.freeSize + (start + size - ((a.memoryEntryPool m).endAddress + 1)) + size <
      2 ^ 64) : a.DefinesWell start size := by
  have hassoc : l₁ ++ e :: m :: l₂ = (l₁ ++ [e]) ++ m :: l₂ := by simp
  have hrange := h.chain.range m (by simp)
  have hpart : (a.memoryEntryPool m).endAddress + 1 +
      (start + size - ((a.memoryEntryPool m).endAddress + 1)) = start + size := by omega
  obtain ⟨a', hdefine, hgave, hcounter⟩ := define_extends (hassoc ▸ h)
    (by omega : 0 < start + size - ((a.memoryEntryPool m).endAddress + 1)) 62 hbytes
    (fun n hn => by have := hnext n hn; omega) (by omega) (by omega)
  have hstep := define_inNext hbytes (by omega) hbound 63 h hlocated hlow
  rw [if_neg (by omega)] at hstep
  refine defines_of_part (hstep.trans hdefine) hgave ?_ (by omega)
  rw [hpart]
  ext x
  simp only [Set.mem_union, Set.mem_Ico]
  constructor
  · rintro (hx | hx)
    · exact .inl hx
    · by_cases hxs : start ≤ x
      · exact .inr ⟨hxs, hx.2⟩
      · omega
  · rintro (hx | hx)
    · exact .inl hx
    · by_cases hxm : x ≤ (a.memoryEntryPool m).endAddress
      · exact .inl (h.mem_freeBytes (by simp : m ∈ l₁ ++ e :: m :: l₂) (by omega) hxm)
      · exact .inr ⟨by omega, hx.2⟩

end Well

theorem Handled.defines (hhandled : Handled a start size l) (h : Rep a l) (hne : l ≠ [])
    (hbytes : ∀ x ∈ a.freeBytes, x + 1 < 2 ^ 64) (hsize : 2 ≤ size)
    (hbound : start + size < 2 ^ 64) : a.DefinesWell start size := by
  have hlast := getEndAddress_returns (by omega : 0 < size) hbound
  have hsized := h.sized hbytes
  cases hhandled with
  | covered l₁ e l₂ hlow hhigh => exact defines_covered hbytes (by omega) hbound h hlow hhigh
  | apart l hfree hroom hcount =>
    obtain ⟨a', hdefine⟩ : ∃ a', defineFreeMemory (63 + 1) a start size = some (.ok (), a') :=
      h.defineFreeMemory_returns hne hbytes hfree (by omega) hbound
        (fun hisolated => ⟨fun hfull => hroom ⟨hfull, hisolated⟩, hsize⟩) (by omega)
    have hcounter := h.defineFreeMemory_counter hne hfree hdefine
    exact defines_of_part hdefine (h.defineFreeMemory hne hfree hdefine) rfl (by omega)
  | refused l hfree hfull hisolated =>
    exact defines_refused hbytes hsize hbound h hne hfree hfull hisolated
  | endsWithFirst e l hlow hhigh hcount =>
    exact defines_endsWithFirst hbytes hsize hbound h hlow hhigh hcount
  | fillsFirstGap e m l hlow hhigh hend hcount =>
    exact defines_fillsFirstGap hbytes hsize hbound h hlow hhigh hend hcount
  | extendsEntry l₁ e m l₂ hlow hhigh hnext hcount =>
    have hgap := h.chain.apart.around.2 m (by simp)
    have hrange := h.chain.range e (by simp)
    have hrangem := h.chain.range m (by simp)
    refine defines_extends hbytes hsize hbound h (.behind l₁ e _ (by omega) (fun i hi => ?_)
      (by simp)) hlow.le (by omega) hhigh hnext hcount
    obtain rfl : m = i := by simpa using hi
    exact hlow.ge
  | extendsLast l₁ e m hlow hin hhigh hcount =>
    exact defines_extends hbytes hsize hbound h (.insideLast l₁ e m hlow hin) hlow.le hin.le hhigh
      (by simp) hcount
  | refusedAtFirst e m l hfull hlow hhigh hend hnext =>
    have hrange := h.chain.range e (by simp)
    have hgap := h.chain.apart.behind_first m (by simp)
    have hrep : Rep a ([] ++ e :: m :: l) := h
    by_cases hcovered : (a.memoryEntryPool e).start ≤ start ∧
        start + size ≤ (a.memoryEntryPool e).endAddress + 1
    · exact defines_covered hbytes (by omega) hbound hrep hcovered.1 hcovered.2
    have hlocated : Located a.memoryEntryPool start [] e (m :: l) := by
      by_cases hsame : start ≤ (a.memoryEntryPool e).start
      · exact .front e _ hsame
      · exact .behind [] e _ (by omega) (fun i hi => by
          obtain rfl : m = i := by simpa using hi
          omega) (by simp)
    refine defines_of_error (define_refused hrep hsized (by omega)
      (previousOrFirst_of_located hrep.chain hlocated) hlast (by omega) hfull (by omega)
      (fun hov => hov.2 rfl) (by omega) (by omega) (fun _ => by omega) fun i hi => ?_)
    obtain rfl : m = i := by simpa using hi
    omega
  | refusedInGap l₁ e m l₂ hfull hlow hhigh hnext =>
    have hrange := h.chain.range e (by simp)
    have hlocated : Located a.memoryEntryPool start l₁ e (m :: l₂) :=
      .behind l₁ e _ (by omega) (fun i hi => by
        obtain rfl : m = i := by simpa using hi
        omega) (by simp)
    refine defines_of_error (define_refused h hsized (by omega)
      (previousOrFirst_of_located h.chain hlocated) hlast (by omega) hfull (by omega)
      (fun hov => by omega) (by omega) (by omega) (fun _ => by omega) fun i hi => ?_)
    obtain rfl : m = i := by simpa using hi
    omega

/-! ## All other ways go wrong -/

theorem not_full_sole (h : Rep a [e]) : ¬a.Full := by
  intro hfull
  have hzero := (h.chain.enabled 0 (by decide)).1 (hfull 0 (by decide))
  have hone := (h.chain.enabled 1 (by decide)).1 (hfull 1 (by decide))
  rw [List.mem_singleton] at hzero hone
  omega

theorem Defines.not_breaks (hdefines : a.Defines start size)
    (hbreaks : ∀ r, defineFreeMemory poolSize a start size = some r → Breaks r) : False := by
  obtain ⟨r, hdefine, hexact, -⟩ := hdefines
  exact (hbreaks r hdefine).not_freesExactly hexact

section Wrong

variable (hdefines : a.Defines start size) (hbytes : ∀ x ∈ a.freeBytes, x + 1 < 2 ^ 64)
  (hsize : 2 ≤ size) (hbound : start + size < 2 ^ 64)

include hdefines hbytes hsize hbound

omit hbytes hbound in
theorem handled_apart (h : Rep a l) (hne : l ≠ [])
    (hfree : Disjoint (Set.Ico start (start + size)) a.freeBytes) : Handled a start size l := by
  by_cases hrefuses : a.Full ∧ a.Isolated start size
  · exact .refused l hfree hrefuses.1 hrefuses.2
  obtain ⟨⟨result, a'⟩, hdefine, -, hcount⟩ := hdefines
  cases result with
  | error err => exact absurd (define_apart_error h hne (by omega) hfree hdefine) hrefuses
  | ok u =>
    have hcounter := h.defineFreeMemory_counter hne hfree hdefine
    have := hcount a' rfl
    exact .apart l hfree hrefuses (by omega)

theorem handled_endsWithFirst (h : Rep a (e :: l)) (hlow : start < (a.memoryEntryPool e).start)
    (hhigh : start + size = (a.memoryEntryPool e).endAddress + 1) :
    Handled a start size (e :: l) := by
  have hrange := h.chain.range e (by simp)
  have hpart : start + ((a.memoryEntryPool e).start - start) = (a.memoryEntryPool e).start := by omega
  have hfree : Disjoint (Set.Ico start (start + ((a.memoryEntryPool e).start - start)))
      a.freeBytes := by
    rw [hpart]
    exact disjoint_front h
  obtain ⟨⟨result, a'⟩, hdefine, -, hcount⟩ := hdefines
  have hdefine := (define_endsWithFirst hbytes (by omega) hbound h hlow hhigh).symm.trans hdefine
  cases result with
  | error err =>
    obtain ⟨-, hisolated⟩ := define_apart_error h (by simp) (by omega) hfree hdefine
    refine absurd ?_ hisolated.1
    rw [hpart]
    exact h.mem_freeBytes (by simp) le_rfl hrange.le
  | ok u =>
    have hcounter := h.defineFreeMemory_counter (by simp) hfree hdefine
    have := hcount a' rfl
    exact .endsWithFirst e l hlow hhigh (by omega)

/-- The range overlaps the first entry and does not end with it. -/
theorem handled_atFirst (h : Rep a (e :: l)) (hlocated : Located a.memoryEntryPool start [] e l)
    (hlow : start ≤ (a.memoryEntryPool e).endAddress)
    (hhigh : (a.memoryEntryPool e).start < start + size)
    (hcovers : ¬((a.memoryEntryPool e).start ≤ start ∧
      start + size ≤ (a.memoryEntryPool e).endAddress + 1))
    (hend : start + size ≠ (a.memoryEntryPool e).endAddress + 1) :
    Handled a start size (e :: l) := by
  have hlast := getEndAddress_returns (by omega : 0 < size) hbound
  have hsized := h.sized hbytes
  have hrange := h.chain.range e (by simp)
  have hrep : Rep a ([] ++ e :: l) := h
  have hfound := previousOrFirst_of_located hrep.chain hlocated
  -- an entry of its own for the range breaks the chain, so the pool is full
  have hfull : (∀ m, l.head? = some m → start < (a.memoryEntryPool m).start ∧
      (a.memoryEntryPool m).start ≠ start + size) → a.Full := by
    intro hnext
    by_contra hnot
    refine hdefines.not_breaks fun r hdefine => ?_
    obtain ⟨hfull, -⟩ | ⟨-, hbreaks⟩ := define_stacked hrep hsized (by omega) hfound hlast (by omega)
      (by simp : e ∈ [] ++ e :: l) (by omega) hlow (by omega) (fun hov => hov.2 rfl) (by omega)
      (by omega) (fun _ => by omega) (fun m hm => ⟨(hnext m hm).1, by have := hnext m hm; omega⟩)
      hdefine
    · exact absurd hfull hnot
    · exact hbreaks
  cases l with
  | nil => exact absurd (hfull (by simp)) (not_full_sole h)
  | cons m l =>
    have hgap := h.chain.apart.behind_first m (by simp)
    by_cases hnext : (a.memoryEntryPool m).start = start + size
    · obtain ⟨r, hdefine, hexact, hcount⟩ := hdefines
      by_cases hstart : (a.memoryEntryPool e).start ≤ start
      · obtain ⟨a', rfl, hcounter⟩ := define_upToSecond_ok h hsized (by omega) hfound hlast
          (by omega) hlow (by omega) hdefine
        have := hcount a' rfl
        exact .fillsFirstGap e m l hstart hlow hnext.symm (by omega)
      · obtain ⟨a', rfl, hlost⟩ := define_losesFront h hsized (by omega) hfound hlast (by omega) hlow
          (by omega) (by omega) hdefine
        refine absurd ?_ hlost
        rw [hexact.1]
        exact .inr ⟨le_rfl, by omega⟩
    · refine .refusedAtFirst e m l (hfull fun i hi => ?_) hlow hhigh hend.symm hnext
      obtain rfl : m = i := by simpa using hi
      exact ⟨by omega, hnext⟩

omit hbytes in
/-- The range starts in an entry that is neither the first nor covers it, which the search
returns: two bytes too many are freed. -/
theorem not_overshoot (h : Rep a (l₁ ++ e :: l₂)) (hfirst : l₁ ≠ [])
    (hlocated : Located a.memoryEntryPool start l₁ e l₂)
    (hlow : start ≤ (a.memoryEntryPool e).endAddress)
    (hhigh : (a.memoryEntryPool e).endAddress + 1 < start + size) : False := by
  have hlast := getEndAddress_returns (by omega : 0 < size) hbound
  have hrange := h.chain.range e (by simp)
  have hprev : (a.memoryEntryPool e).previous ≠ none := by
    rw [h.chain.neighbours.1, ne_eq, List.getLast?_eq_none_iff]
    exact hfirst
  obtain ⟨r, hdefine, hexact, -⟩ := hdefines
  obtain ⟨-, hrest⟩ := defineFreeMemory_overshoot (by omega)
    (previousOrFirst_of_located h.chain hlocated) hlast (by omega) hlow hprev hdefine
  obtain hbreaks | ⟨a', rfl, ⟨hgave, -⟩, -, hnext⟩ := define_behind h (by omega) hrest
  · exact hbreaks.not_freesExactly hexact
  · have hnot := Set.disjoint_left.1 (disjoint_behind h hnext)
    have hmem : start + size ∈ a'.freeBytes := by
      rw [hgave]
      exact .inr ⟨by omega, by omega⟩
    rw [hexact.1] at hmem
    obtain hmem | hmem := hmem
    · exact hnot ⟨by omega, by omega⟩ hmem
    · exact absurd hmem.2 (by omega)

/-- The range starts in the entry behind the one that the search returns. -/
theorem extends_of_defines (h : Rep a (l₁ ++ e :: m :: l₂))
    (hlocated : Located a.memoryEntryPool start l₁ e (m :: l₂))
    (hlow : (a.memoryEntryPool m).start ≤ start)
    (hhigh : (a.memoryEntryPool m).endAddress + 1 < start + size) :
    (∀ n, l₂.head? = some n → start + size ≤ (a.memoryEntryPool n).start) ∧
      a.freeSize + (start + size - ((a.memoryEntryPool m).endAddress + 1)) + size < 2 ^ 64 := by
  have hassoc : l₁ ++ e :: m :: l₂ = (l₁ ++ [e]) ++ m :: l₂ := by simp
  obtain ⟨r, hdefine, hexact, hcount⟩ := hdefines
  have hstep := define_inNext hbytes (by omega) hbound 63 h hlocated hlow
  rw [if_neg (by omega)] at hstep
  obtain hbreaks | ⟨a', rfl, -, hcounter, hnext⟩ := define_behind (hassoc ▸ h) (by omega)
    (hstep.symm.trans hdefine)
  · exact absurd hexact hbreaks.not_freesExactly
  · have := hcount a' rfl
    exact ⟨fun n hn => by have := hnext n hn; omega, by omega⟩

/-- The range starts between two entries and overlaps the second. -/
theorem handled_inGap (h : Rep a (l₁ ++ e :: m :: l₂))
    (hlocated : Located a.memoryEntryPool start l₁ e (m :: l₂))
    (hlow : (a.memoryEntryPool e).endAddress < start) (hhigh : start < (a.memoryEntryPool m).start)
    (hinto : (a.memoryEntryPool m).start < start + size) :
    Handled a start size (l₁ ++ e :: m :: l₂) := by
  have hlast := getEndAddress_returns (by omega : 0 < size) hbound
  have hfound := previousOrFirst_of_located h.chain hlocated
  have hrange := h.chain.range e (by simp)
  have hrangem := h.chain.range m (by simp)
  by_cases htouch : (a.memoryEntryPool e).endAddress + 1 = start
  · exact (hdefines.not_breaks fun r hdefine =>
      define_grownInto h (by omega) hfound hlast rfl htouch (by omega) hdefine).elim
  · refine .refusedInGap l₁ e m l₂ (by_contra fun hnot => ?_) (by omega) hhigh hinto
    refine hdefines.not_breaks fun r hdefine => ?_
    obtain ⟨hfull, -⟩ | ⟨-, hbreaks⟩ := define_stacked h (h.sized hbytes) (by omega) hfound hlast
      (by omega) (by simp : m ∈ l₁ ++ e :: m :: l₂) (by omega) (by omega) (by omega)
      (fun hov => by omega) (by omega) htouch (fun _ => by omega) (fun i hi => by
        obtain rfl : m = i := by simpa using hi
        omega) hdefine
    · exact absurd hfull hnot
    · exact hbreaks

/-- The search returns the last entry that starts before the range. -/
theorem handled_behind (h : Rep a (l₁ ++ e :: l₂))
    (hlocated : Located a.memoryEntryPool start l₁ e l₂) (hlow : (a.memoryEntryPool e).start < start)
    (hnext : ∀ m, l₂.head? = some m → start ≤ (a.memoryEntryPool m).start) :
    Handled a start size (l₁ ++ e :: l₂) := by
  by_cases hcovered : start + size ≤ (a.memoryEntryPool e).endAddress + 1
  · exact .covered l₁ e l₂ hlow.le hcovered
  by_cases hstart : start ≤ (a.memoryEntryPool e).endAddress
  · by_cases hfirst : l₁ = []
    · subst hfirst
      exact handled_atFirst hdefines hbytes hsize hbound h hlocated hstart (by omega) (by omega)
        (by omega)
    · exact (not_overshoot hdefines hsize hbound h hfirst hlocated hstart (by omega)).elim
  cases l₂ with
  | nil =>
    exact handled_apart hdefines hsize h (by simp) (disjoint_between h (by omega) (by simp))
  | cons m l₃ =>
    have hm := hnext m rfl
    have hrangem := h.chain.range m (by simp)
    by_cases hstartm : (a.memoryEntryPool m).start = start
    · by_cases hcoveredm : start + size ≤ (a.memoryEntryPool m).endAddress + 1
      · have hassoc : l₁ ++ e :: m :: l₃ = (l₁ ++ [e]) ++ m :: l₃ := by simp
        rw [hassoc]
        exact .covered _ m l₃ hstartm.le hcoveredm
      · obtain ⟨hbefore, hcount⟩ := extends_of_defines hdefines hbytes hsize hbound h hlocated
          hstartm.le (by omega)
        exact .extendsEntry l₁ e m l₃ hstartm (by omega) hbefore hcount
    · by_cases hinto : (a.memoryEntryPool m).start < start + size
      · exact handled_inGap hdefines hbytes hsize hbound h hlocated (by omega) (by omega) hinto
      · refine handled_apart hdefines hsize h (by simp) (disjoint_between h (by omega) fun i hi => ?_)
        obtain rfl : m = i := by simpa using hi
        omega

theorem Defines.handled (h : Rep a l) (hne : l ≠ []) : Handled a start size l := by
  obtain ⟨l₁, e, l₂, rfl, -, hlocated⟩ := exists_located h.chain hne start
  have hlocated' := hlocated
  cases hlocated with
  | front e l₂ hstart =>
    have hrange := h.chain.range e (by simp)
    by_cases hcovered : (a.memoryEntryPool e).start ≤ start ∧
        start + size ≤ (a.memoryEntryPool e).endAddress + 1
    · exact .covered [] e l₂ hcovered.1 hcovered.2
    by_cases hbefore : start + size ≤ (a.memoryEntryPool e).start
    · exact handled_apart hdefines hsize h (by simp)
        ((disjoint_front h).mono_left (Set.Ico_subset_Ico_right hbefore))
    by_cases hend : start + size = (a.memoryEntryPool e).endAddress + 1
    · exact handled_endsWithFirst hdefines hbytes hsize hbound h (by omega) hend
    · exact handled_atFirst hdefines hbytes hsize hbound h hlocated' (by omega) (by omega) hcovered
        hend
  | behind l₁ e l₂ hlow hnext hend =>
    exact handled_behind hdefines hbytes hsize hbound h hlocated' hlow hnext
  | insideLast l₁ e m hlow hend =>
    by_cases hcovered : start + size ≤ (a.memoryEntryPool m).endAddress + 1
    · have hassoc : l₁ ++ [e, m] = (l₁ ++ [e]) ++ m :: [] := by simp
      rw [hassoc]
      exact .covered _ m [] hlow.le hcovered
    · obtain ⟨-, hcount⟩ := extends_of_defines hdefines hbytes hsize hbound h hlocated' hlow.le
        (by omega)
      exact .extendsLast l₁ e m hlow hend (by omega) hcount
  | insideSole e hlow hend =>
    by_cases hcovered : start + size ≤ (a.memoryEntryPool e).endAddress + 1
    · exact .covered [] e [] hlow.le hcovered
    · exact handled_atFirst hdefines hbytes hsize hbound h hlocated' hend.le (by omega) (by omega)
        (by omega)

end Wrong

/-- Giving back a range of at least two bytes is refused without an effect, or frees exactly
its bytes and leaves a chain, if and only if it ends below `2 ^ 64` and lies in one of the
ways that are handled. -/
theorem frees_exactly_iff (h : Rep a l) (hne : l ≠ []) (hbytes : ∀ x ∈ a.freeBytes, x + 1 < 2 ^ 64)
    (hsize : 2 ≤ size) :
    (∃ r, a.free start size = some r ∧ a.FreesExactly start size r) ↔
      start + size < 2 ^ 64 ∧ Handled a start size l := by
  have hcounted : a.freeSize ≠ 0 := fun hzero => hne (h.eq_nil hzero)
  rw [defines_iff hcounted]
  constructor
  · intro hdefines
    have hbound : start + size < 2 ^ 64 := by
      obtain ⟨r, hdefine, -⟩ := hdefines
      exact bound_of_define h hne (by omega) hdefine
    exact ⟨hbound, hdefines.handled hbytes hsize hbound h hne⟩
  · rintro ⟨hbound, hhandled⟩
    exact (hhandled.defines h hne hbytes hsize hbound).defines

/-- Two pages are free. -/
theorem twoPages : ∃ (a : MemoryAllocator) (l : List ℕ), Rep a l ∧ l ≠ [] ∧
    (∀ x ∈ a.freeBytes, x + 1 < 2 ^ 64) ∧ new.free 0x1000 0x2000 = some (.ok (), a) := by
  obtain ⟨⟨result, a⟩, hfree, rfl⟩ := Option.map_eq_some_iff.1
    (rfl : (new.free 0x1000 0x2000).map Prod.fst = some (.ok ()))
  have hdisjoint : Disjoint (Set.Ico 0x1000 (0x1000 + 0x2000)) new.freeBytes := by
    rw [freeBytes_new]
    exact Set.disjoint_empty _
  obtain ⟨hbytes, l, hne, hrep⟩ := rep_new.free hdisjoint hfree
  refine ⟨a, l, hrep, hne, fun x hx => ?_, hfree⟩
  rw [hbytes, freeBytes_new, Set.empty_union] at hx
  have := hx.2
  omega

/-- A range that starts at address 0 and ends with the two free pages. -/
theorem sample_frees_exactly : ∃ (a : MemoryAllocator) (l : List ℕ), Rep a l ∧ l ≠ [] ∧
    ∃ r, a.free 0 0x3000 = some r ∧ a.FreesExactly 0 0x3000 r := by
  obtain ⟨a, l, hrep, hne, hbytes, hfree⟩ := twoPages
  have heval : (new.free 0x1000 0x2000).map (fun r => (r.2.firstEntry,
      (r.2.memoryEntryPool 0).start, (r.2.memoryEntryPool 0).endAddress, r.2.freeSize)) =
      some (some 0, 0x1000, 0x2fff, 0x2000) := rfl
  rw [hfree] at heval
  simp only [Option.map_some, Option.some.injEq, Prod.mk.injEq] at heval
  obtain ⟨hfirst, hstart, hend, hcount⟩ := heval
  obtain ⟨l', rfl⟩ : ∃ l', l = 0 :: l' := by
    have hhead := hfirst.symm.trans hrep.chain.first
    cases l with
    | nil => exact absurd rfl hne
    | cons e l' => exact ⟨l', by rw [Option.some.inj hhead]⟩
  exact ⟨a, _, hrep, hne, (frees_exactly_iff hrep hne hbytes (by decide)).2
    ⟨by decide, .endsWithFirst 0 l' (by omega) (by omega) (by omega)⟩⟩

/-- The second of two free pages is given back together with the page behind it: afterwards
two entries cover that page. -/
theorem overlapping_free_breaks : ∃ (a : MemoryAllocator) (l : List ℕ), Rep a l ∧ l ≠ [] ∧
    (∀ x ∈ a.freeBytes, x + 1 < 2 ^ 64) ∧
      ¬∃ r, a.free 0x2000 0x2000 = some r ∧ a.FreesExactly 0x2000 0x2000 r := by
  obtain ⟨a, l, hrep, hne, hbytes, hfree⟩ := twoPages
  refine ⟨a, l, hrep, hne, hbytes, ?_⟩
  have heval : (new.free 0x1000 0x2000).bind (fun r => (r.2.free 0x2000 0x2000).map fun r =>
      (r.1, (r.2.memoryEntryPool 0).enabled, (r.2.memoryEntryPool 0).start,
        (r.2.memoryEntryPool 0).endAddress, (r.2.memoryEntryPool 1).enabled,
        (r.2.memoryEntryPool 1).start, (r.2.memoryEntryPool 1).endAddress)) =
      some (.ok (), true, 0x1000, 0x2fff, true, 0x2000, 0x3fff) := rfl
  rw [hfree, Option.bind_some] at heval
  rintro ⟨r, hcall, hexact⟩
  rw [hcall] at heval
  simp only [Option.map_some, Option.some.injEq, Prod.mk.injEq] at heval
  obtain ⟨hr, hen₀, hs₀, ht₀, hen₁, hs₁, ht₁⟩ := heval
  obtain ⟨result, a'⟩ := r
  obtain rfl := hr
  obtain ⟨-, l', hchain⟩ := hexact
  have hlow : (a'.memoryEntryPool 0).start ≤ 0x2000 ∧ 0x2000 ≤ (a'.memoryEntryPool 0).endAddress := by
    dsimp only at hs₀ ht₀
    omega
  have hhigh : (a'.memoryEntryPool 1).start ≤ 0x2000 ∧ 0x2000 ≤ (a'.memoryEntryPool 1).endAddress := by
    dsimp only at hs₁ ht₁
    omega
  exact not_chain_of_overlap (by decide) (by decide) (by decide) hen₀ hen₁ hlow hhigh hchain

end MemoryAllocator

end MiniVisor
