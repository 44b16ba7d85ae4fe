import MiniVisor.AllocatorSearch
import MiniVisor.AllocatorReturns

/-!
# Freeing memory that is free already

`define_free_memory` has branches for a range that overlaps free memory. They start from
the entry that the predecessor search returns, which is another one for the first, a
middle and the last entry of the chain. Errors leave the allocator as it was whatever the
range; a success is right only for some of the ways in which a range can overlap.
-/
namespace MiniVisor

open DoublyLinked

namespace MemoryAllocator

variable {a a' a₁ a₂ : MemoryAllocator} {pool pool' pool'' : MemoryEntryPool} {l l₁ l₂ : List ℕ}
  {first : Option ℕ} {e m n start last size : ℕ} {r : Reply Unit}

/-! ## Errors -/

theorem growEntry_false (h : a.growEntry e start last = some (false, a')) : a' = a := by
  obtain ⟨b, a₁, hback, hfront⟩ := growEntry_eq_some h
  split_ifs at hfront with hfirst
  · exact absurd hfront.1 (by simp)
  · obtain ⟨rfl, rfl⟩ := hfront
    split_ifs at hback with htouch
    · exact absurd hback.1 (by simp)
    · exact hback.2

theorem growEntry_far (hrange : (a.memoryEntryPool e).start < (a.memoryEntryPool e).endAddress)
    (hend : (a.memoryEntryPool e).endAddress + 1 < 2 ^ 64) (hle : start ≤ last)
    (hlast : last + 1 < 2 ^ 64) (hbehind : (a.memoryEntryPool e).endAddress + 1 ≠ start)
    (hfront : (a.memoryEntryPool e).previous = none → (a.memoryEntryPool e).start ≠ last + 1) :
    a.growEntry e start last = some (false, a) := by
  obtain ⟨processed, a₁, hgrow⟩ := growEntry_returns hrange hend hle hlast
  obtain ⟨b, a₂, hback, hforth⟩ := growEntry_eq_some hgrow
  rw [if_neg hbehind] at hback
  obtain ⟨rfl, rfl⟩ := hback
  rw [if_neg fun hif => hfront hif.1 hif.2] at hforth
  obtain ⟨rfl, rfl⟩ := hforth
  exact hgrow

theorem growNext_false {p : Bool} (h : a.growNext n start last p = some (false, a')) :
    p = false ∧ a' = a := by
  obtain ⟨-, htrue, -⟩ | ⟨-, rfl, rfl⟩ := growNext_eq_some h
  · exact absurd htrue (by simp)
  · exact ⟨rfl, rfl⟩

theorem finishNew_ne_error {oldSize : ℕ} {err : MemoryError} :
    a.finishNew e n size oldSize ≠ some (.error err, a') := by
  intro h
  obtain ⟨_, _, -, -, hr⟩ := finishNew_eq_some h
  exact absurd (congrArg Prod.fst hr) (by simp)

theorem finishGrown_ne_error {oldSize : ℕ} {err : MemoryError} :
    a.finishGrown e size oldSize ≠ some (.error err, a') := by
  intro h
  obtain ⟨_, -, hr⟩ := finishGrown_eq_some h
  exact absurd (congrArg Prod.fst hr) (by simp)

theorem freeAtEnd_error {oldSize : ℕ} {processed : Bool} {err : MemoryError}
    (h : a.freeAtEnd e start last size oldSize processed = some (.error err, a')) :
    processed = false ∧ a' = a ∧ ∃ err, createMemoryEntry a.memoryEntryPool = .error err := by
  unfold freeAtEnd at h
  split_ifs at h with hprocessed
  · exact absurd h finishGrown_ne_error
  · split at h
    · rename_i e' hcreate
      exact ⟨by simpa using hprocessed, (congrArg Prod.snd (Option.some.inj h)).symm, e', hcreate⟩
    · obtain ⟨b, -, h⟩ := Option.bind_eq_some_iff.1 h
      dsimp only at h
      split_ifs at h with hbehind
      · exact absurd h finishNew_ne_error
      · obtain ⟨c, -, h⟩ := Option.bind_eq_some_iff.1 h
        exact absurd h finishNew_ne_error

/-- Entries that do not meet are not merged, so the pool is as it was when no entry is left. -/
theorem freeBeforeNext_error {oldSize after : ℕ} {processed : Bool} {err : MemoryError}
    (hgap : processed = false →
      (a.memoryEntryPool n).start ≠ (a.memoryEntryPool e).endAddress + 1)
    (h : a.freeBeforeNext e n start last size oldSize after processed = some (.error err, a')) :
    processed = false ∧ a' = a ∧ ∃ err, createMemoryEntry a.memoryEntryPool = .error err := by
  simp only [freeBeforeNext, bind, Option.bind_eq_some_iff] at h
  obtain ⟨⟨p, a₁⟩, hnext, a₂, hmerge, h⟩ := h
  dsimp only at hmerge h
  split_ifs at h with hp
  · exact absurd h finishGrown_ne_error
  · obtain rfl : p = false := by simpa using hp
    obtain ⟨rfl, rfl⟩ := growNext_false hnext
    have hmerge := mergeNext_eq_some hmerge
    rw [if_neg (by simpa using hgap rfl)] at hmerge
    subst hmerge
    split at h
    · rename_i e' hcreate
      exact ⟨rfl, (congrArg Prod.snd (Option.some.inj h)).symm, e', hcreate⟩
    · simp only [Option.bind_eq_some_iff] at h
      obtain ⟨b, -, h⟩ := h
      split_ifs at h with hfront
      · obtain ⟨c, -, h⟩ := Option.bind_eq_some_iff.1 h
        exact absurd h finishNew_ne_error
      · exact absurd h finishNew_ne_error

/-! ## The entry that the search returns -/

/-- Where the search for the entry before `start` ends, in a chain that is split at the
entry it returns. -/
inductive Located (pool : MemoryEntryPool) (start : ℕ) : List ℕ → ℕ → List ℕ → Prop
  /-- No entry starts before the range: the first one is taken. -/
  | front (e : ℕ) (l₂ : List ℕ) (h : start ≤ (pool e).start) : Located pool start [] e l₂
  /-- The last entry that starts before the range. -/
  | behind (l₁ : List ℕ) (e : ℕ) (l₂ : List ℕ) (h : (pool e).start < start)
      (hnext : ∀ m, l₂.head? = some m → start ≤ (pool m).start)
      (hend : l₂ = [] → (pool e).endAddress ≤ start) : Located pool start l₁ e l₂
  /-- The range starts inside the last entry: the one before it is taken. -/
  | insideLast (l₁ : List ℕ) (e m : ℕ) (h : (pool m).start < start)
      (hend : start < (pool m).endAddress) : Located pool start l₁ e [m]
  /-- The same with no entry before it. -/
  | insideSole (e : ℕ) (h : (pool e).start < start) (hend : start < (pool e).endAddress) :
      Located pool start [] e []

/-- The entry that a search which stopped at `c`, behind the entries of `l₁`, leads to. -/
theorem located_of_stop {c : ℕ} (h : Chain a.memoryEntryPool a.firstEntry (l₁ ++ c :: l₂))
    (hlow : ∀ i ∈ l₁, (a.memoryEntryPool i).start < start)
    (hfound : searchEntryPreviousAddress a.memoryEntryPool a.firstEntry start = some l₁.getLast?)
    (hstop : start ≤ (a.memoryEntryPool c).start ∨
      l₂ = [] ∧ (a.memoryEntryPool c).start < start ∧ start < (a.memoryEntryPool c).endAddress) :
    ∃ l₁' e l₂', l₁ ++ c :: l₂ = l₁' ++ e :: l₂' ∧ a.previousOrFirst start = some (.ok e) ∧
      Located a.memoryEntryPool start l₁' e l₂' := by
  rcases l₁.eq_nil_or_concat with rfl | ⟨l₁, e, rfl⟩
  · have hc : getMemoryEntry c = .ok c := if_pos (h.valid c (by simp)).1
    refine ⟨[], c, l₂, rfl, ?_, ?_⟩
    · rw [previousOrFirst, hfound, h.first]
      simp [hc]
    · obtain hstop | ⟨rfl, hlow, hhigh⟩ := hstop
      · exact .front c l₂ hstop
      · exact .insideSole c hlow hhigh
  · refine ⟨l₁, e, c :: l₂, by simp, ?_, ?_⟩
    · rw [previousOrFirst, hfound]
      simp
    · obtain hstop | ⟨rfl, hlow, hhigh⟩ := hstop
      · refine .behind l₁ e _ (hlow e (by simp)) (fun m hm => ?_) (by simp)
        obtain rfl : c = m := by simpa using hm
        exact hstop
      · exact .insideLast l₁ e c hlow hhigh

theorem exists_located (h : Chain a.memoryEntryPool a.firstEntry l) (hne : l ≠ []) (start : ℕ) :
    ∃ l₁ e l₂, l = l₁ ++ e :: l₂ ∧ a.previousOrFirst start = some (.ok e) ∧
      Located a.memoryEntryPool start l₁ e l₂ := by
  -- the loop from `c` on, behind entries that start before the range
  have hloop : ∀ fuel c m rest, l = m ++ c :: rest → rest.length < fuel →
      (∀ i ∈ m, (a.memoryEntryPool i).start < start) →
      (searchPreviousLoop a.memoryEntryPool start fuel c =
        searchEntryPreviousAddress a.memoryEntryPool a.firstEntry start) →
      ∃ l₁ e l₂, l = l₁ ++ e :: l₂ ∧ a.previousOrFirst start = some (.ok e) ∧
        Located a.memoryEntryPool start l₁ e l₂ := by
    intro fuel
    induction fuel with
    | zero => intro c m rest _ hfuel; omega
    | succ fuel ih =>
      intro c m rest hl hfuel hlow hsearch
      obtain ⟨-, -, hprev, hnext⟩ := (hl ▸ h).neighbours
      rw [searchPreviousLoop, hprev, hnext] at hsearch
      by_cases hbefore : (a.memoryEntryPool c).start < start
      · rw [if_pos hbefore] at hsearch
        cases rest with
        | nil =>
          rw [List.head?_nil] at hsearch
          dsimp only at hsearch
          by_cases hend : (a.memoryEntryPool c).endAddress ≤ start
          · rw [if_pos hend] at hsearch
            refine ⟨m, c, [], hl, ?_, .behind m c [] hbefore (by simp) fun _ => hend⟩
            rw [previousOrFirst, ← hsearch]
            simp
          · rw [if_neg hend] at hsearch
            rw [hl]
            exact located_of_stop (hl ▸ h) hlow hsearch.symm (.inr ⟨rfl, hbefore, not_le.1 hend⟩)
        | cons d rest =>
          refine ih d (m ++ [c]) rest (by simp [hl]) (by simpa using hfuel) (fun i hi => ?_) hsearch
          obtain hi | hi := List.mem_append.1 hi
          · exact hlow i hi
          · obtain rfl := List.mem_singleton.1 hi
            exact hbefore
      · rw [if_neg hbefore] at hsearch
        rw [hl]
        exact located_of_stop (hl ▸ h) hlow hsearch.symm (.inl (not_lt.1 hbefore))
  cases l with
  | nil => exact absurd rfl hne
  | cons c rest =>
    have hlength := h.length_le
    refine hloop poolSize c [] rest rfl (by simpa using hlength) (by simp) ?_
    have hc : follow a.firstEntry = some c := by
      rw [h.first]
      exact follow_eq fun i hi => (h.valid i (List.mem_of_head? hi)).1
    rw [searchEntryPreviousAddress, hc]

/-- Of two places where the search could end, neither is behind the other. -/
theorem Located.not_behind {l₁' l₂' : List ℕ} {e' : ℕ} (hl : l₁ ++ e :: l₂ = l₁' ++ e' :: l₂')
    (hapart : Apart pool (l₁ ++ e :: l₂))
    (hrange : ∀ i ∈ l₁ ++ e :: l₂, (pool i).start < (pool i).endAddress)
    (h : Located pool start l₁ e l₂) (h' : Located pool start l₁' e' l₂') : e ∉ l₂' := by
  intro he
  have he' : e' ∈ l₁ ++ e :: l₂ := hl ▸ (by simp : e' ∈ l₁' ++ e' :: l₂')
  have hrangee' := hrange e' he'
  obtain ⟨hlow, hhigh⟩ := hapart.around
  obtain ⟨hlow', hhigh'⟩ := (hl ▸ hapart).around
  have hafter := hhigh' e he
  have hrangee := hrange e (by simp)
  -- so `e` is not the first entry
  have hfirst : l₁ ≠ [] := by
    rintro rfl
    obtain rfl | hin := List.mem_cons.1 he'
    · omega
    · have := hhigh e' hin
      omega
  cases h' with
  | front _ _ hle =>
    cases h with
    | front _ _ _ => exact hfirst rfl
    | behind _ _ _ hbefore _ _ => omega
    | insideLast _ _ m hbefore _ =>
      have := hhigh m (by simp)
      omega
    | insideSole _ _ _ => exact hfirst rfl
  | behind _ _ _ hbefore' hnext' _ =>
    have hstart : start ≤ (pool e).start := by
      cases l₂' with
      | nil => exact absurd he (by simp)
      | cons m l₃ =>
        have hm := hnext' m rfl
        obtain rfl | hin := List.mem_cons.1 he
        · exact hm
        · have hassoc : l₁' ++ e' :: m :: l₃ = (l₁' ++ [e']) ++ m :: l₃ := by simp
          have := (hassoc ▸ hl ▸ hapart).around.2 e hin
          have := hrange m (hl ▸ by simp)
          omega
    cases h with
    | front _ _ _ => exact hfirst rfl
    | behind _ _ _ hbefore _ _ => omega
    | insideLast _ _ m hbefore _ =>
      have := hhigh m (by simp)
      omega
    | insideSole _ _ _ => exact hfirst rfl
  | insideLast _ _ m hbefore' hend' =>
    obtain rfl := List.mem_singleton.1 he
    -- `e` is the last entry
    have hlast : l₂ = [] := by
      refine List.eq_nil_iff_forall_not_mem.2 fun i hi => ?_
      have hbehind := hhigh i hi
      have hi' : i ∈ l₁' ++ [e', e] := hl ▸ (by simp [hi] : i ∈ l₁ ++ e :: l₂)
      have hrangei := hrange i (by simp [hi])
      obtain hin | hin := List.mem_append.1 hi'
      · have := hlow' i hin
        omega
      · obtain rfl | hin := List.mem_cons.1 hin
        · omega
        · obtain rfl := List.mem_singleton.1 hin
          omega
    cases h with
    | front _ _ _ => exact hfirst rfl
    | behind _ _ _ _ _ hend =>
      have := hend hlast
      omega
    | insideLast _ _ m hbefore _ => exact absurd hlast (by simp)
    | insideSole _ _ _ => exact hfirst rfl
  | insideSole _ _ _ => exact absurd he (by simp)

theorem previousOrFirst_of_located (h : Chain a.memoryEntryPool a.firstEntry (l₁ ++ e :: l₂))
    (hlocated : Located a.memoryEntryPool start l₁ e l₂) :
    a.previousOrFirst start = some (.ok e) := by
  obtain ⟨l₁', e', l₂', hl, hfound, hlocated'⟩ := exists_located h (by simp) start
  suffices he : e' = e by rw [hfound, he]
  have hnot := hlocated.not_behind hl h.apart h.range hlocated'
  have hnot' := hlocated'.not_behind hl.symm (hl ▸ h.apart) (hl ▸ h.range) hlocated
  have he : e ∈ l₁' ++ e' :: l₂' := hl ▸ (by simp : e ∈ l₁ ++ e :: l₂)
  have he' : e' ∈ l₁ ++ e :: l₂ := hl ▸ (by simp : e' ∈ l₁' ++ e' :: l₂')
  have hrange := h.range e (by simp)
  have hrange' := h.range e' he'
  obtain hin | hin := List.mem_append.1 he
  · have hbefore := (hl ▸ h.apart).around.1 e hin
    obtain hin' | hin' := List.mem_append.1 he'
    · have := h.apart.around.1 e' hin'
      omega
    · obtain rfl | hin' := List.mem_cons.1 hin'
      · rfl
      · exact absurd hin' hnot'
  · obtain rfl | hin := List.mem_cons.1 hin
    · rfl
    · exact absurd hin hnot

/-- The search for what follows an entry directly returns that entry. -/
theorem previousOrFirst_behind (h : Rep a (l₁ ++ e :: l₂)) :
    a.previousOrFirst ((a.memoryEntryPool e).endAddress + 1) = some (.ok e) := by
  have hrange := h.chain.range e (by simp)
  refine previousOrFirst_of_located h.chain (.behind l₁ e l₂ (by omega) (fun m hm => ?_)
    fun _ => by omega)
  have := h.chain.apart.around.2 m (List.mem_of_head? hm)
  omega

/-! ## The branches of `define_free_memory` -/

section Branches

variable {fuel : ℕ} (hpos : size ≠ 0) (hfound : a.previousOrFirst start = some (.ok e))
  (hlast : getEndAddress start size = some last)

include hpos hfound hlast

theorem defineFreeMemory_covered
    (h : (a.memoryEntryPool e).start ≤ start ∧ last ≤ (a.memoryEntryPool e).endAddress) :
    defineFreeMemory (fuel + 1) a start size = some (.error .invalidRequest, a) := by
  rw [defineFreeMemory, if_neg hpos, hfound, Option.bind_some]
  dsimp only
  rw [hlast, Option.bind_some, if_pos h]
  rfl

variable (hcovers : ¬((a.memoryEntryPool e).start ≤ start ∧
  last ≤ (a.memoryEntryPool e).endAddress))

include hcovers

/-- The rest of the range behind the entry, with two bytes too many. -/
theorem defineFreeMemory_overshoot (hoverlap : start ≤ (a.memoryEntryPool e).endAddress)
    (hnot : (a.memoryEntryPool e).previous ≠ none)
    (h : defineFreeMemory (fuel + 1) a start size = some r) :
    (a.memoryEntryPool e).endAddress ≤ last ∧
      defineFreeMemory fuel a ((a.memoryEntryPool e).endAddress + 1)
        (last - (a.memoryEntryPool e).endAddress + 2) = some r := by
  have hfirst : (!(a.memoryEntryPool e).isFirstEntry) = true := by
    simpa [← isFirstEntry_iff] using hnot
  rw [defineFreeMemory, if_neg hpos, hfound, Option.bind_some] at h
  dsimp only at h
  rw [hlast, Option.bind_some, if_neg hcovers, if_pos ⟨hoverlap, hfirst⟩] at h
  simp only [bind, Option.bind_eq_some_iff, Checked.add_eq_some, Checked.sub_eq_some] at h
  obtain ⟨_, ⟨-, rfl⟩, _, ⟨hle, rfl⟩, _, ⟨-, rfl⟩, h⟩ := h
  exact ⟨hle, h⟩

variable (hoverlap : ¬(start ≤ (a.memoryEntryPool e).endAddress ∧
  (a.memoryEntryPool e).previous ≠ none))

include hoverlap

/-- The range ends with the entry: its part before the entry is left. -/
theorem defineFreeMemory_endsWith (hends : (a.memoryEntryPool e).endAddress = last)
    (hsize : (a.memoryEntryPool e).getSize = some (a.memoryEntryPool e).size)
    (hle : (a.memoryEntryPool e).size ≤ size) :
    defineFreeMemory (fuel + 1) a start size =
      defineFreeMemory fuel a start (size - (a.memoryEntryPool e).size) := by
  rw [defineFreeMemory, if_neg hpos, hfound, Option.bind_some]
  dsimp only
  rw [hlast, Option.bind_some, if_neg hcovers,
    if_neg (by simpa [← isFirstEntry_iff] using hoverlap), if_pos hends]
  simp only [bind, hsize, Option.bind_some, Checked.sub_eq_some.2 ⟨hle, rfl⟩]

variable (hends : (a.memoryEntryPool e).endAddress ≠ last)
  (hsize : (a.memoryEntryPool e).getSize = some (a.memoryEntryPool e).size)
  (hend : (a.memoryEntryPool e).endAddress + 1 < 2 ^ 64)
  (hgrow : a.growEntry e start last = some (false, a))
  (hnext : getNextEntry a.memoryEntryPool e = some m)
  (hstart : (a.memoryEntryPool m).start ≤ start)

include hends hsize hend hgrow hnext hstart

theorem defineFreeMemory_nextCovers (h : last ≤ (a.memoryEntryPool m).endAddress) :
    defineFreeMemory (fuel + 1) a start size = some (.error .invalidRequest, a) := by
  rw [defineFreeMemory, if_neg hpos, hfound, Option.bind_some]
  dsimp only
  rw [hlast, Option.bind_some, if_neg hcovers,
    if_neg (by simpa [← isFirstEntry_iff] using hoverlap), if_neg hends]
  simp only [bind, hsize, Option.bind_some, Checked.add_eq_some.2 ⟨hend, rfl⟩, hgrow, hnext,
    if_pos hstart, if_pos h]
  rfl

/-- The rest of the range behind the next entry. -/
theorem defineFreeMemory_beyondNext (h : ¬last ≤ (a.memoryEntryPool m).endAddress)
    (hendm : (a.memoryEntryPool m).endAddress + 1 < 2 ^ 64) :
    defineFreeMemory (fuel + 1) a start size =
      defineFreeMemory fuel a ((a.memoryEntryPool m).endAddress + 1)
        (last - (a.memoryEntryPool m).endAddress) := by
  rw [defineFreeMemory, if_neg hpos, hfound, Option.bind_some]
  dsimp only
  rw [hlast, Option.bind_some, if_neg hcovers,
    if_neg (by simpa [← isFirstEntry_iff] using hoverlap), if_neg hends]
  simp only [bind, hsize, Option.bind_some, Checked.add_eq_some.2 ⟨hend, rfl⟩, hgrow, hnext,
    if_pos hstart, if_neg h, Checked.add_eq_some.2 ⟨hendm, rfl⟩,
    Checked.sub_eq_some.2 ⟨le_of_not_ge h, rfl⟩]
  rfl

end Branches

/-! ## Errors leave the state alone -/

theorem defineFreeMemory_error (h : Chain a.memoryEntryPool a.firstEntry l) {fuel : ℕ}
    {err : MemoryError} (hcall : defineFreeMemory fuel a start size = some (.error err, a')) :
    a' = a := by
  induction fuel generalizing start size with
  | zero => exact absurd hcall (by simp [defineFreeMemory])
  | succ fuel ih =>
    rw [defineFreeMemory] at hcall
    split_ifs at hcall with hzero
    · exact (congrArg Prod.snd (Option.some.inj hcall)).symm
    by_cases hne : l = []
    · rw [previousOrFirst, searchEntryPreviousAddress, h.first, hne] at hcall
      simp [follow] at hcall
    obtain ⟨l₁, e, l₂, rfl, hfound, -⟩ := exists_located h hne start
    obtain ⟨-, -, -, hnext⟩ := h.neighbours
    rw [hfound, Option.bind_some] at hcall
    obtain ⟨last, -, hcall⟩ := Option.bind_eq_some_iff.1 hcall
    dsimp only at hcall
    split_ifs at hcall with hcovers hoverlap hends
    · exact (congrArg Prod.snd (Option.some.inj hcall)).symm
    · simp only [bind, Option.bind_eq_some_iff] at hcall
      obtain ⟨_, -, _, -, _, -, hcall⟩ := hcall
      exact ih hcall
    · simp only [bind, Option.bind_eq_some_iff] at hcall
      obtain ⟨_, -, _, -, hcall⟩ := hcall
      exact ih hcall
    · simp only [bind, Option.bind_eq_some_iff] at hcall
      obtain ⟨oldSize, -, after, -, ⟨processed, a₁⟩, hgrow, htail⟩ := hcall
      obtain ⟨hkept, hnext₁⟩ := growEntry_kept hgrow
      dsimp only at htail
      rw [hnext₁, hnext] at htail
      cases l₂ with
      | nil =>
        obtain ⟨rfl, rfl, -⟩ := freeAtEnd_error htail
        exact growEntry_false hgrow
      | cons m l₂ =>
        rw [List.head?_cons] at htail
        dsimp only at htail
        split_ifs at htail with hstart hcovered
        · obtain ⟨_, hrequire, hfail⟩ := Option.bind_eq_some_iff.1 htail
          obtain rfl := Checked.require_eq_some.1 hrequire
          obtain rfl := growEntry_false hgrow
          exact (congrArg Prod.snd (Option.some.inj hfail)).symm
        · obtain ⟨_, hrequire, hrest⟩ := Option.bind_eq_some_iff.1 htail
          obtain rfl := Checked.require_eq_some.1 hrequire
          obtain rfl := growEntry_false hgrow
          simp only [Option.bind_eq_some_iff] at hrest
          obtain ⟨_, -, _, -, hrest⟩ := hrest
          exact ih hrest
        · have hgap := h.apart.around.2 m (by simp)
          obtain ⟨rfl, rfl, -⟩ := freeBeforeNext_error (fun hp => by
            subst hp
            rw [growEntry_false hgrow]
            omega) htail
          exact growEntry_false hgrow

theorem defineUsedMemoryUnaligned_error {target : Option ℕ} {err : MemoryError}
    (h : a.defineUsedMemoryUnaligned start size target = some (.error err, a')) : a' = a := by
  unfold defineUsedMemoryUnaligned at h
  split_ifs at h with hzero hless
  · exact (congrArg Prod.snd (Option.some.inj h)).symm
  · exact (congrArg Prod.snd (Option.some.inj h)).symm
  · split at h
    · exact (takeFrom_error h).1
    · obtain ⟨found, -, h⟩ := Option.bind_eq_some_iff.1 h
      split at h
      · exact (takeFrom_error h).1
      · exact (congrArg Prod.snd (Option.some.inj h)).symm

theorem defineUsedMemory_error {alignOrder : ℕ} {target : Option ℕ} {err : MemoryError}
    (h : a.defineUsedMemory start size alignOrder target = some (.error err, a')) : a' = a := by
  unfold defineUsedMemory at h
  by_cases hzero : size = 0
  · rw [if_pos hzero] at h
    exact (congrArg Prod.snd (Option.some.inj h)).symm
  rw [if_neg hzero] at h
  by_cases hless : a.freeSize < size
  · rw [if_pos hless] at h
    exact (congrArg Prod.snd (Option.some.inj h)).symm
  rw [if_neg hless] at h
  by_cases horder : alignOrder ≠ 0
  · rw [if_pos horder] at h
    obtain ⟨⟨s, z⟩, -, h⟩ := Option.bind_eq_some_iff.1 h
    exact defineUsedMemoryUnaligned_error h
  · rw [if_neg horder] at h
    exact defineUsedMemoryUnaligned_error h

theorem allocateLoop_error {alignOrder remaining order : ℕ} {err : MemoryError}
    (h : a.allocateLoop size alignOrder remaining order = some (.error err, a')) : a' = a := by
  induction remaining generalizing order with
  | zero => exact (congrArg Prod.snd (Option.some.inj h)).symm
  | succ remaining ih =>
    unfold allocateLoop at h
    split at h
    · exact ih h
    · split at h
      · exact (congrArg Prod.snd (Option.some.inj h)).symm
      · obtain ⟨found, -, h⟩ := Option.bind_eq_some_iff.1 h
        split at h
        · obtain ⟨⟨result, b⟩, huse, hr⟩ := Option.map_eq_some_iff.1 h
          cases result with
          | ok u => exact absurd (congrArg Prod.fst hr) (by simp [Except.map])
          | error err' =>
            obtain rfl : b = a' := congrArg Prod.snd hr
            exact defineUsedMemory_error huse
        · exact ih h

theorem free_error (h : Chain a.memoryEntryPool a.firstEntry l) {err : MemoryError}
    (hcall : a.free start size = some (.error err, a')) : a' = a := by
  unfold MemoryAllocator.free at hcall
  split_ifs at hcall with hzero
  · split at hcall
    · exact (congrArg Prod.snd (Option.some.inj hcall)).symm
    · simp only [bind, Option.bind_eq_some_iff] at hcall
      obtain ⟨_, -, _, -, _, -, hok⟩ := hcall
      exact absurd (congrArg Prod.fst (Option.some.inj hok)) (by simp)
  · obtain ⟨⟨result, b⟩, hdefine, hcall⟩ := Option.bind_eq_some_iff.1 hcall
    cases result with
    | error err' =>
      obtain rfl : b = a' := congrArg Prod.snd (Option.some.inj hcall)
      exact defineFreeMemory_error h hdefine
    | ok u =>
      obtain ⟨c, -, hok⟩ := Option.map_eq_some_iff.1 hcall
      exact absurd (congrArg Prod.fst hok) (by simp)

/-- A call that returns an error leaves the whole allocator as it was. -/
theorem error_keeps_state (h : Chain a.memoryEntryPool a.firstEntry l) {c : Call}
    {err : MemoryError} (hcall : a.call c = some (.error err, a')) : a' = a := by
  have hresult : ∀ {α : Type} {f : α → Option ℕ} {r : Except MemoryError α} {b : MemoryAllocator},
      ((r.map f, b) : CallResult × MemoryAllocator) = (.error err, a') →
        r = .error err ∧ b = a' := by
    intro α f r b heq
    obtain ⟨hr, hb⟩ := Prod.mk.injEq _ _ _ _ ▸ heq
    cases r with
    | ok x => exact absurd hr (by simp [Except.map])
    | error e => exact ⟨congrArg Except.error (Except.error.inj hr), hb⟩
  cases c with
  | free start size =>
    obtain ⟨⟨r, b⟩, hfree, heq⟩ := Option.map_eq_some_iff.1 hcall
    obtain ⟨rfl, rfl⟩ := hresult heq
    exact free_error h hfree
  | allocate size alignOrder =>
    obtain ⟨⟨r, b⟩, hallocate, heq⟩ := Option.map_eq_some_iff.1 hcall
    obtain ⟨rfl, rfl⟩ := hresult heq
    unfold MemoryAllocator.allocate at hallocate
    split_ifs at hallocate with hzero hless
    · exact (congrArg Prod.snd (Option.some.inj hallocate)).symm
    · exact (congrArg Prod.snd (Option.some.inj hallocate)).symm
    · exact allocateLoop_error hallocate
  | reserveMemory startAddress size alignOrder =>
    obtain ⟨⟨r, b⟩, hreserve, heq⟩ := Option.map_eq_some_iff.1 hcall
    obtain ⟨rfl, rfl⟩ := hresult heq
    exact defineUsedMemory_error hreserve

/-- Giving back two pages of eight free ones is refused and changes nothing. -/
theorem sample_refused_free : ∃ a a' : MemoryAllocator,
    (∃ l, Chain a.memoryEntryPool a.firstEntry l) ∧
      a.call (.free 0x2000 0x2000) = some (.error .invalidRequest, a') ∧ a' = a := by
  have heval : ((new.afterCall (.free 0x1000 0x8000)).bind fun a =>
      (a.call (.free 0x2000 0x2000)).map Prod.fst) = some (.error .invalidRequest) := rfl
  obtain ⟨a, hfirst, hcall⟩ := Option.bind_eq_some_iff.1 heval
  obtain ⟨⟨r, a'⟩, hcall, rfl⟩ := Option.map_eq_some_iff.1 hcall
  obtain ⟨l, hrep⟩ := rep_of_run ((Runs.GuardedRun.refl new).snoc (freesTaken_new _ _) hfirst)
  exact ⟨a, a', ⟨l, hrep.chain⟩, hcall, error_keeps_state hrep.chain hcall⟩

/-! ## What is left of the ranges -/

/-- Ranges and use of every entry are the same. -/
structure SameRanges (pool pool' : MemoryEntryPool) : Prop where
  start : ∀ i, (pool' i).start = (pool i).start
  endAddress : ∀ i, (pool' i).endAddress = (pool i).endAddress
  enabled : ∀ i, (pool' i).enabled = (pool i).enabled

theorem SameRanges.refl (pool : MemoryEntryPool) : SameRanges pool pool :=
  ⟨fun _ => rfl, fun _ => rfl, fun _ => rfl⟩

theorem SameRanges.trans (h : SameRanges pool pool') (h' : SameRanges pool' pool'') :
    SameRanges pool pool'' where
  start i := (h'.start i).trans (h.start i)
  endAddress i := (h'.endAddress i).trans (h.endAddress i)
  enabled i := (h'.enabled i).trans (h.enabled i)

/-- A write to one entry that keeps these fields. -/
theorem SameRanges.modify (h : SameRanges pool pool') {i : ℕ} {f : MemoryEntry → MemoryEntry}
    (hf : ∀ e, (f e).start = e.start ∧ (f e).endAddress = e.endAddress ∧
      (f e).enabled = e.enabled) : SameRanges pool (modifyEntry pool' i f) where
  start j := by
    rw [← h.start j]
    by_cases hij : j = i <;> simp [hij, hf]
  endAddress j := by
    rw [← h.endAddress j]
    by_cases hij : j = i <;> simp [hij, hf]
  enabled j := by
    rw [← h.enabled j]
    by_cases hij : j = i <;> simp [hij, hf]

theorem sameRanges_setPrevEntry (pool : MemoryEntryPool) (e n : ℕ) :
    SameRanges pool (setPrevEntry pool e n) :=
  (SameRanges.refl pool).modify fun _ => ⟨rfl, rfl, rfl⟩

theorem sameRanges_setNextEntry (pool : MemoryEntryPool) (e n : ℕ) :
    SameRanges pool (setNextEntry pool e n) :=
  (SameRanges.refl pool).modify fun _ => ⟨rfl, rfl, rfl⟩

theorem sameRanges_chainAfterMe (pool : MemoryEntryPool) (e n : ℕ) :
    SameRanges pool (chainAfterMe pool e n) :=
  (sameRanges_setNextEntry pool e n).trans (sameRanges_setPrevEntry _ n e)

theorem sameRanges_unchainFromFreelist (pool : MemoryEntryPool) (e : ℕ) :
    SameRanges pool (unchainFromFreelist pool e) := by
  unfold unchainFromFreelist
  refine SameRanges.modify ?_ fun _ => ⟨rfl, rfl, rfl⟩
  split
  · refine SameRanges.modify ?_ fun _ => ⟨rfl, rfl, rfl⟩
    split
    · exact (SameRanges.refl pool).modify fun _ => ⟨rfl, rfl, rfl⟩
    · exact .refl pool
  · split
    · exact (SameRanges.refl pool).modify fun _ => ⟨rfl, rfl, rfl⟩
    · exact .refl pool

theorem sameRanges_chainLoop {fuel c : ℕ} (h : chainLoop e size fuel pool c = some pool') :
    SameRanges pool pool' := by
  induction fuel generalizing c with
  | zero => exact absurd h (by simp [chainLoop])
  | succ fuel ih =>
    unfold chainLoop at h
    split at h
    · obtain ⟨nextSize, -, h⟩ := Option.bind_eq_some_iff.1 h
      split_ifs at h with hsize
      · obtain rfl := Option.some.inj h
        refine SameRanges.modify (SameRanges.modify (SameRanges.modify (.refl pool) ?_) ?_) ?_ <;>
          exact fun _ => ⟨rfl, rfl, rfl⟩
      · exact ih h
    · obtain rfl := Option.some.inj h
      refine SameRanges.modify (SameRanges.modify (.refl pool) ?_) ?_ <;>
        exact fun _ => ⟨rfl, rfl, rfl⟩

theorem sameRanges_chainEntryToFreeList {freeList freeList' : FreeList} {oldSize : Option ℕ}
    (h : chainEntryToFreeList pool freeList e oldSize = some (pool', freeList')) :
    SameRanges pool pool' := by
  obtain ⟨size, -, h⟩ := Option.bind_eq_some_iff.1 h
  have hinto : ∀ {pool : MemoryEntryPool} {freeList : FreeList} {order : ℕ},
      chainInto pool freeList e size order = some (pool', freeList') → SameRanges pool pool' := by
    intro pool freeList order h
    unfold chainInto at h
    split at h
    · obtain ⟨listSize, -, h⟩ := Option.bind_eq_some_iff.1 h
      split_ifs at h with hsize
      · obtain rfl := congrArg Prod.fst (Option.some.inj h)
        dsimp only
        refine SameRanges.modify (SameRanges.modify (.refl pool) ?_) ?_ <;>
          exact fun _ => ⟨rfl, rfl, rfl⟩
      · obtain ⟨pool'', hloop, heq⟩ := Option.map_eq_some_iff.1 h
        obtain rfl : pool'' = pool' := congrArg Prod.fst heq
        exact sameRanges_chainLoop hloop
    · obtain rfl := congrArg Prod.fst (Option.some.inj h)
      exact .refl pool
  split_ifs at h with hsize
  · obtain rfl := congrArg Prod.fst (Option.some.inj h)
    exact .refl pool
  · cases oldSize with
    | none =>
      obtain ⟨_, -, h⟩ := Option.bind_eq_some_iff.1 h
      exact hinto h
    | some oldSize =>
      obtain ⟨_, -, h⟩ := Option.bind_eq_some_iff.1 h
      exact (sameRanges_unchainFromFreelist pool e).trans (hinto h)

theorem sameRanges_chainEntry {oldSize : Option ℕ} (h : a.chainEntry e oldSize = some a') :
    SameRanges a.memoryEntryPool a'.memoryEntryPool := by
  obtain ⟨P, fl, hchain, rfl⟩ := chainEntry_eq_some h
  exact sameRanges_chainEntryToFreeList hchain

theorem sameRanges_unchainEntry {freeList freeList' : FreeList}
    (h : unchainEntryFromFreeList pool freeList e = some (pool', freeList')) :
    SameRanges pool pool' := by
  obtain ⟨size, -, heq⟩ := Option.map_eq_some_iff.1 h
  obtain rfl : unchainFromFreelist pool e = pool' := congrArg Prod.fst heq
  exact sameRanges_unchainFromFreelist pool e

/-- A deleted entry is not in use any more; the ranges of the others stay. -/
theorem delete_ranges (pool : MemoryEntryPool) (e : ℕ) :
    (delete pool e e).enabled = false ∧ ∀ i, i ≠ e →
      (delete pool e i).start = (pool i).start ∧
        (delete pool e i).endAddress = (pool i).endAddress ∧
        (delete pool e i).enabled = (pool i).enabled := by
  refine ⟨by simp [delete], fun i hi => ?_⟩
  obtain ⟨Q, hQ, hlinks⟩ : ∃ Q, delete pool e = modifyEntry Q e
      (fun m => { m with previous := none, next := none, enabled := false }) ∧ SameRanges pool Q := by
    refine ⟨_, rfl, ?_⟩
    split
    · exact sameRanges_chainAfterMe _ _ _
    · exact (SameRanges.refl pool).modify fun _ => ⟨rfl, rfl, rfl⟩
    · exact (SameRanges.refl pool).modify fun _ => ⟨rfl, rfl, rfl⟩
    · exact .refl pool
  simp only [hQ, modifyEntry_apply, if_neg hi]
  exact ⟨hlinks.start i, hlinks.endAddress i, hlinks.enabled i⟩

theorem finishGrown_ranges {oldSize : ℕ} (h : a.finishGrown e size oldSize = some r) :
    ∃ a', r = (.ok (), a') ∧ SameRanges a.memoryEntryPool a'.memoryEntryPool := by
  obtain ⟨a₁, hchain, rfl⟩ := finishGrown_eq_some h
  have hsame := sameRanges_chainEntry hchain
  exact ⟨_, rfl, hsame⟩

theorem finishNew_ranges {oldSize : ℕ} (h : a.finishNew e n size oldSize = some r) :
    ∃ a', r = (.ok (), a') ∧ SameRanges a.memoryEntryPool a'.memoryEntryPool := by
  obtain ⟨a₁, a₂, hold, hnew, rfl⟩ := finishNew_eq_some h
  have hsame := (sameRanges_chainEntry hold).trans (sameRanges_chainEntry hnew)
  exact ⟨_, rfl, hsame⟩

theorem chainBefore_ranges {before : ℕ} (h : a.chainBefore e n before = some a') :
    SameRanges a.memoryEntryPool a'.memoryEntryPool := by
  unfold chainBefore at h
  dsimp only at h
  split at h
  · obtain ⟨_, -, rfl⟩ := Option.map_eq_some_iff.1 h
    exact (sameRanges_chainAfterMe _ _ _).trans (sameRanges_chainAfterMe _ _ _)
  · obtain rfl := Option.some.inj h
    exact sameRanges_chainAfterMe _ _ _

/-- A slot that was not in use has the range; nothing else is different. -/
structure Added (pool pool' : MemoryEntryPool) (n start last : ℕ) : Prop where
  lt : n < poolSize
  disabled : (pool n).enabled = false
  fresh : (pool' n).start = start ∧ (pool' n).endAddress = last ∧ (pool' n).enabled = true
  others : ∀ i, i ≠ n → (pool' i).start = (pool i).start ∧
    (pool' i).endAddress = (pool i).endAddress ∧ (pool' i).enabled = (pool i).enabled

theorem Added.sameRanges (h : Added pool pool' n start last) (hsame : SameRanges pool' pool'') :
    Added pool pool'' n start last where
  lt := h.lt
  disabled := h.disabled
  fresh := by
    rw [hsame.start, hsame.endAddress, hsame.enabled]
    exact h.fresh
  others i hi := by
    rw [hsame.start, hsame.endAddress, hsame.enabled]
    exact h.others i hi

theorem added_newEntry (hcreate : createMemoryEntry a.memoryEntryPool = .ok (n, pool))
    (hset : ({ a with memoryEntryPool := pool } : MemoryAllocator).setEntryRange n start last =
      some a₁) : Added a.memoryEntryPool a₁.memoryEntryPool n start last := by
  obtain ⟨hn, hdis, -, hkept, hfresh, -⟩ := newEntry_spec hcreate hset
  refine ⟨hn, hdis, by rw [hfresh]; exact ⟨rfl, rfl, rfl⟩, fun i hi => ?_⟩
  rw [hkept i hi]
  exact ⟨rfl, rfl, rfl⟩

/-- A range that no entry grew over gets an entry of its own. -/
theorem freeTail_unprocessed {next : Option ℕ} {oldSize after : ℕ}
    (hgap : ∀ m, next = some m → (a.memoryEntryPool m).start ≠ last + 1 ∧
      (a.memoryEntryPool m).start ≠ (a.memoryEntryPool e).endAddress + 1)
    (h : a.freeTail e next start last size oldSize after false = some r) :
    a.Full ∧ r = (.error .noEntry, a) ∨ ∃ n a', r = (.ok (), a') ∧
      Added a.memoryEntryPool a'.memoryEntryPool n start last := by
  have hfull : ∀ {err : MemoryError}, createMemoryEntry a.memoryEntryPool = .error err →
      a.fail err = some r → a.Full ∧ r = (.error .noEntry, a) := by
    intro err hcreate hr
    obtain rfl := createMemoryEntry_error hcreate
    refine ⟨by_contra fun hnot => ?_, (Option.some.inj hr).symm⟩
    obtain ⟨n, pool, hok⟩ := createMemoryEntry_returns hnot
    exact absurd (hcreate.symm.trans hok) (by simp)
  have hadded : ∀ {n : ℕ} {pool : MemoryEntryPool} {b c : MemoryAllocator} {oldSize : ℕ},
      createMemoryEntry a.memoryEntryPool = .ok (n, pool) →
      ({ a with memoryEntryPool := pool } : MemoryAllocator).setEntryRange n start last = some b →
      SameRanges b.memoryEntryPool c.memoryEntryPool →
      c.finishNew e n size oldSize = some r →
      ∃ n a', r = (.ok (), a') ∧ Added a.memoryEntryPool a'.memoryEntryPool n start last := by
    intro n pool b c oldSize hcreate hset hsame hfinish
    obtain ⟨a', hr, hsame'⟩ := finishNew_ranges hfinish
    exact ⟨n, a', hr, (added_newEntry hcreate hset).sameRanges (hsame.trans hsame')⟩
  cases next with
  | none =>
    rw [freeTail, freeAtEnd, if_neg (by simp)] at h
    split at h
    · rename_i hcreate
      exact .inl (hfull hcreate h)
    · rename_i n pool hcreate
      obtain ⟨b, hset, h⟩ := Option.bind_eq_some_iff.1 h
      dsimp only at h
      split_ifs at h with hbehind
      · exact .inr (hadded hcreate hset (sameRanges_chainAfterMe _ _ _) h)
      · obtain ⟨c, hchain, h⟩ := Option.bind_eq_some_iff.1 h
        exact .inr (hadded hcreate hset (chainBefore_ranges hchain) h)
  | some m =>
    obtain ⟨hfar, hapart⟩ := hgap m rfl
    simp only [freeTail, freeBeforeNext, bind, Option.bind_eq_some_iff] at h
    obtain ⟨⟨p, a₁⟩, hnext, a₂, hmerge, h⟩ := h
    obtain ⟨htouch, -⟩ | ⟨-, rfl, rfl⟩ := growNext_eq_some hnext
    · exact absurd htouch hfar
    have hmerge := mergeNext_eq_some hmerge
    rw [if_neg (by simpa using hapart)] at hmerge
    subst hmerge
    rw [if_neg (by simp)] at h
    split at h
    · rename_i hcreate
      exact .inl (hfull hcreate h)
    · rename_i n pool hcreate
      simp only [Option.bind_eq_some_iff] at h
      obtain ⟨b, hset, h⟩ := h
      split_ifs at h with hfront
      · obtain ⟨c, hchain, h⟩ := Option.bind_eq_some_iff.1 h
        exact .inr (hadded hcreate hset (chainBefore_ranges hchain) h)
      · exact .inr (hadded hcreate hset (((sameRanges_setPrevEntry _ _ _).trans
          (sameRanges_setNextEntry _ _ _)).trans (sameRanges_chainAfterMe _ _ _)) h)

theorem freeTail_full {next : Option ℕ} {oldSize after : ℕ} (hfull : a.Full)
    (hend : (a.memoryEntryPool e).endAddress + 1 < 2 ^ 64) (hlast : last + 1 < 2 ^ 64)
    (hgap : ∀ m, next = some m → (a.memoryEntryPool m).start ≠ last + 1 ∧
      (a.memoryEntryPool m).start ≠ (a.memoryEntryPool e).endAddress + 1) :
    a.freeTail e next start last size oldSize after false = some (.error .noEntry, a) := by
  cases next with
  | none =>
    rw [freeTail, freeAtEnd, if_neg (by simp), hfull.createMemoryEntry]
    rfl
  | some m =>
    obtain ⟨hfar, hapart⟩ := hgap m rfl
    simp only [freeTail, freeBeforeNext, bind, growNext_far hlast hfar, Option.bind_some,
      mergeNext_far hend (p := false) (by simpa using hapart), hfull.createMemoryEntry]
    rfl

/-- In a chain no two entries share a byte. -/
theorem not_chain_of_overlap {i j x : ℕ} (hi : i < poolSize) (hj : j < poolSize) (hij : i ≠ j)
    (heni : (pool i).enabled = true) (henj : (pool j).enabled = true)
    (hxi : (pool i).start ≤ x ∧ x ≤ (pool i).endAddress)
    (hxj : (pool j).start ≤ x ∧ x ≤ (pool j).endAddress) : ¬Chain pool first l := by
  intro h
  have hil := (h.enabled i hi).1 heni
  have hjl := (h.enabled j hj).1 henj
  obtain ⟨l₁, l₂, rfl⟩ := List.append_of_mem hil
  obtain hj | hj := List.mem_append.1 hjl
  · have := h.apart.around.1 j hj
    omega
  · obtain rfl | hj := List.mem_cons.1 hj
    · exact hij rfl
    · have := h.apart.around.2 j hj
      omega

/-! ## The ways a range can lie -/

/-- What giving back a range should do: change nothing and say so, or make exactly its
bytes free and leave a chain. -/
def FreesExactly (a : MemoryAllocator) (start size : ℕ) : Reply Unit → Prop
  | (.error _, a') => a' = a
  | (.ok _, a') => a'.freeBytes = a.freeBytes ∪ Set.Ico start (start + size) ∧
      ∃ l, Chain a'.memoryEntryPool a'.firstEntry l

/-- A success that leaves no chain. -/
def Breaks : Reply Unit → Prop
  | (.error _, _) => False
  | (.ok _, a') => ∀ l, ¬Chain a'.memoryEntryPool a'.firstEntry l

theorem Breaks.not_freesExactly (h : Breaks r) : ¬a.FreesExactly start size r := by
  obtain ⟨result, a'⟩ := r
  cases result with
  | error err => exact absurd h id
  | ok u => exact fun hexact => hexact.2.elim h

theorem Gave.freesExactly (h : Gave a (Set.Ico start (start + size)) r) :
    a.FreesExactly start size r := by
  obtain ⟨result, a'⟩ := r
  cases result with
  | error err => exact h
  | ok u => exact ⟨h.1, h.2.imp fun _ hl => hl.2.chain⟩

section Ways

variable (h : Rep a (l₁ ++ e :: l₂)) (hsized : Sized a.memoryEntryPool {i | i ∈ l₁ ++ e :: l₂})
  {fuel : ℕ} (hpos : size ≠ 0) (hfound : a.previousOrFirst start = some (.ok e))
  (hlast : getEndAddress start size = some last) (hbound : last + 1 < 2 ^ 64)

include h hsized hpos hfound hlast hbound

/-- No entry grows over the range. -/
theorem define_unprocessed
    (hcovers : ¬((a.memoryEntryPool e).start ≤ start ∧ last ≤ (a.memoryEntryPool e).endAddress))
    (hoverlap : ¬(start ≤ (a.memoryEntryPool e).endAddress ∧ l₁ ≠ []))
    (hends : (a.memoryEntryPool e).endAddress ≠ last)
    (hbehind : (a.memoryEntryPool e).endAddress + 1 ≠ start)
    (hfront : l₁ = [] → (a.memoryEntryPool e).start ≠ last + 1)
    (hnext : ∀ m, l₂.head? = some m → start < (a.memoryEntryPool m).start) :
    defineFreeMemory (fuel + 1) a start size =
      a.freeTail e l₂.head? start last size (a.memoryEntryPool e).size
        ((a.memoryEntryPool e).endAddress + 1) false := by
  obtain ⟨hprev, -, -, hnextEntry⟩ := h.chain.neighbours
  have hfirst : (a.memoryEntryPool e).previous = none ↔ l₁ = [] := by
    rw [hprev, List.getLast?_eq_none_iff]
  obtain ⟨hle, -⟩ := getEndAddress_eq_some hlast (Nat.pos_of_ne_zero hpos)
  have hend := (hsized e (by simp)).2
  have hgrow := growEntry_far (h.chain.range e (by simp)) hend hle hbound hbehind
    fun hnone => hfront (hfirst.1 hnone)
  refine defineFreeMemory_eq_tail hpos hfound hlast hcovers
    (fun hov => hoverlap ⟨hov.1, fun hnil => hov.2 (hfirst.2 hnil)⟩) hends hnextEntry
    (fun m hm => ⟨fun hme => ?_, hnext m hm⟩) (hsized.getSize (by simp)) hend hgrow
  exact not_mem_middle h.chain.nodup (by simp [← hme, List.mem_of_head? hm])

/-- A range that meets an entry but gets an entry of its own: the chain is broken, unless
the pool has no entry left. -/
theorem define_stacked {i : ℕ} (hi : i ∈ l₁ ++ e :: l₂) (hilow : (a.memoryEntryPool i).start ≤ last)
    (hihigh : start ≤ (a.memoryEntryPool i).endAddress)
    (hcovers : ¬((a.memoryEntryPool e).start ≤ start ∧ last ≤ (a.memoryEntryPool e).endAddress))
    (hoverlap : ¬(start ≤ (a.memoryEntryPool e).endAddress ∧ l₁ ≠ []))
    (hends : (a.memoryEntryPool e).endAddress ≠ last)
    (hbehind : (a.memoryEntryPool e).endAddress + 1 ≠ start)
    (hfront : l₁ = [] → (a.memoryEntryPool e).start ≠ last + 1)
    (hnext : ∀ m, l₂.head? = some m → start < (a.memoryEntryPool m).start ∧
      (a.memoryEntryPool m).start ≠ last + 1)
    (hdefine : defineFreeMemory (fuel + 1) a start size = some r) :
    a.Full ∧ r = (.error .noEntry, a) ∨ ¬a.Full ∧ Breaks r := by
  obtain ⟨hle, -⟩ := getEndAddress_eq_some hlast (Nat.pos_of_ne_zero hpos)
  have hrange := h.chain.range i hi
  rw [define_unprocessed h hsized hpos hfound hlast hbound hcovers hoverlap hends hbehind hfront
    fun m hm => (hnext m hm).1] at hdefine
  have hgap : ∀ m, l₂.head? = some m → (a.memoryEntryPool m).start ≠ last + 1 ∧
      (a.memoryEntryPool m).start ≠ (a.memoryEntryPool e).endAddress + 1 := fun m hm => by
    have := h.chain.apart.around.2 m (List.mem_of_head? hm)
    exact ⟨(hnext m hm).2, by omega⟩
  obtain hfull | ⟨n, a', rfl, hadded⟩ := freeTail_unprocessed hgap hdefine
  · exact .inl hfull
  · refine .inr ⟨fun hfull => absurd (hfull n hadded.lt) (by simp [hadded.disabled]), ?_⟩
    have hin : i ≠ n := fun hin => h.chain.not_mem_of_disabled hadded.lt hadded.disabled (hin ▸ hi)
    obtain ⟨hs, ht, hen⟩ := hadded.others i hin
    have hilt := (h.chain.valid i hi).1
    intro l
    refine not_chain_of_overlap hilt hadded.lt hin (hen.trans ((h.chain.enabled i hilt).2 hi))
      hadded.fresh.2.2 (x := max start (a.memoryEntryPool i).start) ?_ ?_
    · rw [hs, ht]
      omega
    · rw [hadded.fresh.1, hadded.fresh.2.1]
      omega

/-- The same with a full pool: the range is refused. -/
theorem define_refused (hfull : a.Full)
    (hcovers : ¬((a.memoryEntryPool e).start ≤ start ∧ last ≤ (a.memoryEntryPool e).endAddress))
    (hoverlap : ¬(start ≤ (a.memoryEntryPool e).endAddress ∧ l₁ ≠ []))
    (hends : (a.memoryEntryPool e).endAddress ≠ last)
    (hbehind : (a.memoryEntryPool e).endAddress + 1 ≠ start)
    (hfront : l₁ = [] → (a.memoryEntryPool e).start ≠ last + 1)
    (hnext : ∀ m, l₂.head? = some m → start < (a.memoryEntryPool m).start ∧
      (a.memoryEntryPool m).start ≠ last + 1) :
    defineFreeMemory (fuel + 1) a start size = some (.error .noEntry, a) := by
  rw [define_unprocessed h hsized hpos hfound hlast hbound hcovers hoverlap hends hbehind hfront
    fun m hm => (hnext m hm).1]
  refine freeTail_full hfull (hsized e (by simp)).2 hbound fun m hm => ⟨(hnext m hm).2, ?_⟩
  have := h.chain.apart.around.2 m (List.mem_of_head? hm)
  omega

omit hsized hbound in
/-- The entry grows over the range and into the next entry. -/
theorem define_grownInto {m : ℕ} {l₃ : List ℕ} (hl : l₂ = m :: l₃)
    (hbehind : (a.memoryEntryPool e).endAddress + 1 = start)
    (hinto : (a.memoryEntryPool m).start ≤ last)
    (hdefine : defineFreeMemory (fuel + 1) a start size = some r) : Breaks r := by
  subst hl
  have hrange := h.chain.range e (by simp)
  have hrangem := h.chain.range m (by simp)
  have hgap := h.chain.apart.around.2 m (by simp)
  have hme : m ≠ e := fun hme => not_mem_middle h.chain.nodup (by simp [hme])
  obtain ⟨hle, -⟩ := getEndAddress_eq_some hlast (Nat.pos_of_ne_zero hpos)
  obtain ⟨processed, a₁, hgrow, htail⟩ := defineFreeMemory_eq_some hpos hfound hlast (by omega)
    (by omega) (by omega) h.chain.neighbours.2.2.2
    (fun i hi => by
      obtain rfl : m = i := by simpa using hi
      exact ⟨hme, by omega⟩) hdefine
  obtain ⟨-, rfl, hset⟩ | ⟨hfar, -⟩ := growEntry_behind (by omega) hgrow
  swap
  · exact absurd hbehind hfar
  obtain ⟨-, hP, -⟩ := setEntryRange_spec hset
  have hm : a₁.memoryEntryPool m = a.memoryEntryPool m := by rw [hP, if_neg hme]
  have he : a₁.memoryEntryPool e = { a.memoryEntryPool e with endAddress := last } := by
    rw [hP, if_pos rfl]
  simp only [List.head?_cons, freeTail, freeBeforeNext, bind, Option.bind_eq_some_iff] at htail
  obtain ⟨⟨p, a₂⟩, hnext, a₃, hmerge, htail⟩ := htail
  obtain ⟨htouch, -⟩ | ⟨-, rfl, rfl⟩ := growNext_eq_some hnext
  · exact absurd htouch (by rw [hm]; omega)
  have hmerge := mergeNext_eq_some hmerge
  rw [hm, he, if_neg (by dsimp only; omega)] at hmerge
  subst hmerge
  rw [if_pos rfl] at htail
  obtain ⟨a', rfl, hsame⟩ := finishGrown_ranges htail
  intro l
  have hvalide := (h.chain.valid e (by simp)).1
  have hvalidm := (h.chain.valid m (by simp)).1
  refine not_chain_of_overlap hvalide hvalidm (Ne.symm hme) ?_ ?_
    (x := (a.memoryEntryPool m).start) ?_ ?_
  · rw [hsame.enabled, he]
    exact (h.chain.enabled e hvalide).2 (by simp)
  · rw [hsame.enabled, hm]
    exact (h.chain.enabled m hvalidm).2 (by simp)
  · rw [hsame.start, hsame.endAddress, he]
    dsimp only
    omega
  · rw [hsame.start, hsame.endAddress, hm]
    omega

end Ways

/-! ## Ranges behind and around the first entry -/

section First

variable {l₃ : List ℕ} (h : Rep a (e :: m :: l₃))
  (hsized : Sized a.memoryEntryPool {i | i ∈ e :: m :: l₃}) {fuel : ℕ} (hpos : size ≠ 0)
  (hfound : a.previousOrFirst start = some (.ok e))
  (hlast : getEndAddress start size = some last) (hbound : last + 1 < 2 ^ 64)
  (hstart : start ≤ (a.memoryEntryPool e).endAddress)
  (hfront : (a.memoryEntryPool m).start = last + 1)

include h hsized hpos hfound hlast hbound hstart hfront

theorem define_upToSecond : defineFreeMemory (fuel + 1) a start size =
    a.freeBeforeNext e m start last size (a.memoryEntryPool e).size
      ((a.memoryEntryPool e).endAddress + 1) false := by
  have hrange := h.chain.range e (by simp)
  have hgap := h.chain.apart.behind_first m (by simp)
  have hrep : Rep a ([] ++ e :: m :: l₃) := h
  exact define_unprocessed hrep hsized hpos hfound hlast hbound (by omega)
    (fun hov => hov.2 rfl) (by omega) (by omega) (fun _ => by omega) (fun i hi => by
      obtain rfl : m = i := by simpa using hi
      omega)

/-- The second entry takes the range, so no entry is missing. -/
theorem define_upToSecond_ok (hdefine : defineFreeMemory (fuel + 1) a start size = some r) :
    ∃ a', r = (.ok (), a') ∧ a'.freeSize = a.freeSize + size := by
  rw [define_upToSecond h hsized hpos hfound hlast hbound hstart hfront] at hdefine
  obtain ⟨result, a'⟩ := r
  cases result with
  | ok u => exact ⟨a', rfl, freeBeforeNext_counter hdefine⟩
  | error err =>
    simp only [freeBeforeNext, bind, Option.bind_eq_some_iff] at hdefine
    obtain ⟨⟨p, a₂⟩, hnext, a₃, -, hrest⟩ := hdefine
    obtain ⟨-, rfl, -⟩ | ⟨hfar, -⟩ := growNext_eq_some hnext
    · exact absurd hrest finishGrown_ne_error
    · exact absurd hfront hfar

/-- The range starts in the first entry and ends where the second one starts. -/
theorem define_fillsGap (hlow : (a.memoryEntryPool e).start ≤ start)
    (hcount : a.freeSize + size < 2 ^ 64) :
    ∃ a', defineFreeMemory (fuel + 1) a start size = some (.ok (), a') ∧
      Gave a (Set.Ico start (start + size)) (.ok (), a') ∧ a'.freeSize = a.freeSize + size := by
  obtain ⟨hle, hsize, hset⟩ := getEndAddress_eq_some hlast (Nat.pos_of_ne_zero hpos)
  have hgap := h.chain.apart.behind_first m (by simp)
  have hid : a.setEntryRange e (a.memoryEntryPool e).start (a.memoryEntryPool e).endAddress =
      some a := by
    obtain ⟨a₁, hset⟩ := setEntryRange_returns (a := a) (e := e) (h.chain.range e (by simp))
    rw [hset, (setEntryRange_eq_some hset).2]
    simp [modifyEntry]
  have hrep : Rep a ([] ++ e :: m :: l₃) := h
  obtain ⟨a', htail⟩ := hrep.meeting_returns (p := false) hsized hcount hle hbound rfl (by omega)
    hfront (by omega) hid
  refine ⟨a', ?_, ?_, freeBeforeNext_counter htail⟩
  · rw [define_upToSecond h hsized hpos hfound hlast hbound hstart hfront]
    exact htail
  · rw [hset]
    exact hrep.freeBeforeNext_meeting hlow (by omega) hfront hsize (by omega) hid htail

/-- The range starts before the first entry and ends where the second one starts: its part
before the first entry is lost. -/
theorem define_losesFront (hlow : start < (a.memoryEntryPool e).start)
    (hdefine : defineFreeMemory (fuel + 1) a start size = some r) :
    ∃ a', r = (.ok (), a') ∧ start ∉ a'.freeBytes := by
  have hrange := h.chain.range e (by simp)
  have hrangem := h.chain.range m (by simp)
  have hgap := h.chain.apart.behind_first m (by simp)
  have hme : m ≠ e := fun hme => by
    have := h.chain.nodup
    simp [hme] at this
  rw [define_upToSecond h hsized hpos hfound hlast hbound hstart hfront] at hdefine
  simp only [freeBeforeNext, bind, Option.bind_eq_some_iff] at hdefine
  obtain ⟨⟨p, a₂⟩, hnext, a₃, hmerge, hfinish⟩ := hdefine
  obtain ⟨-, rfl, a₁, hset, hchain⟩ | ⟨hfar, -⟩ := growNext_eq_some hnext
  swap
  · exact absurd hfront hfar
  obtain ⟨-, hP₁, -⟩ := setEntryRange_spec hset
  have hsame₂ := sameRanges_chainEntry hchain
  have hmerge := mergeNext_eq_some hmerge
  rw [if_pos (.inr ⟨rfl, by rw [hsame₂.start, hP₁, if_pos rfl]; dsimp only; omega⟩)] at hmerge
  obtain ⟨a₄, a₅, hset₄, hunchain, rfl⟩ := hmerge
  obtain ⟨-, hP₄, -⟩ := setEntryRange_spec hset₄
  obtain ⟨⟨P₅, fl₅⟩, hu₅, rfl⟩ := Option.map_eq_some_iff.1 hunchain
  have hsame₅ := sameRanges_unchainEntry hu₅
  rw [if_pos rfl] at hfinish
  obtain ⟨a', rfl, hsame⟩ := finishGrown_ranges hfinish
  refine ⟨a', rfl, ?_⟩
  rintro ⟨i, hi, hen, hcov⟩
  rw [hsame.enabled] at hen
  rw [hsame.start, hsame.endAddress] at hcov
  obtain ⟨hdm, hdelete⟩ := delete_ranges P₅ m
  dsimp only at hen hcov
  by_cases him : i = m
  · subst him
    rw [hdm] at hen
    exact absurd hen (by simp)
  obtain ⟨hs, -, hen'⟩ := hdelete i him
  rw [hen', hsame₅.enabled, hP₄] at hen
  rw [hs, hsame₅.start, hP₄] at hcov
  by_cases hie : i = e
  · subst hie
    rw [if_pos rfl] at hcov
    dsimp only at hcov
    rw [hsame₂.start, hP₁, if_neg him] at hcov
    omega
  · rw [if_neg hie, hsame₂.enabled, hP₁, if_neg him] at hen
    rw [if_neg hie, hsame₂.start, hP₁, if_neg him] at hcov
    have hil := (h.chain.enabled i hi).1 hen
    have hbehind := h.chain.apart.behind_first i (by
      obtain rfl | hil := List.mem_cons.1 hil
      · exact absurd rfl hie
      · exact hil)
    omega

end First

/-! ## Ranges behind an entry -/

/-- A range that is not free is refused only when it needs an entry and there is none. -/
theorem define_apart_error (h : Rep a l) (hne : l ≠ []) {fuel : ℕ} (hpos : size ≠ 0)
    (hfree : Disjoint (Set.Ico start (start + size)) a.freeBytes) {err : MemoryError}
    (hdefine : defineFreeMemory (fuel + 1) a start size = some (.error err, a')) :
    a.Full ∧ a.Isolated start size := by
  obtain ⟨l₁, e, l₂, last, processed, a₁, rfl, hlast, hgap, hgrow, htail⟩ :=
    h.defineFreeMemory_tail hne hpos hfree hdefine
  obtain ⟨hle, hsize, -⟩ := getEndAddress_eq_some hlast (Nat.pos_of_ne_zero hpos)
  have hrange := h.chain.range e (by simp)
  obtain ⟨hprev, -⟩ := h.chain.neighbours
  -- no entry grew
  have hunprocessed : processed = false ∧ ∃ err, createMemoryEntry a₁.memoryEntryPool = .error err ∧
      ∀ m, l₂.head? = some m → (a.memoryEntryPool m).start ≠ last + 1 := by
    cases hl : l₂.head? with
    | none =>
      rw [hl] at htail
      obtain ⟨hp, -, err, hcreate⟩ := freeAtEnd_error htail
      exact ⟨hp, err, hcreate, by simp⟩
    | some m =>
      rw [hl] at htail
      have hgapm := h.chain.apart.around.2 m (List.mem_of_head? hl)
      obtain ⟨rfl, -, err, hcreate⟩ := freeBeforeNext_error (fun hp => by
        subst hp
        rw [growEntry_false hgrow]
        omega) htail
      obtain rfl := growEntry_false hgrow
      refine ⟨rfl, err, hcreate, fun i hi => ?_⟩
      obtain rfl := Option.some.inj hi
      simp only [freeTail, freeBeforeNext, bind, Option.bind_eq_some_iff] at htail
      obtain ⟨⟨p, a₂⟩, hnext, a₃, -, hrest⟩ := htail
      obtain ⟨-, rfl, -⟩ | ⟨hfar, -⟩ := growNext_eq_some hnext
      · exact absurd hrest finishGrown_ne_error
      · exact hfar
  obtain ⟨rfl, err', hcreate, hnext⟩ := hunprocessed
  obtain rfl := growEntry_false hgrow
  refine ⟨by_contra fun hnot => ?_, h.isolated_of_gap (by omega) hgap ?_ hnext⟩
  · obtain ⟨n, pool, hok⟩ := createMemoryEntry_returns hnot
    exact absurd (hcreate.symm.trans hok) (by simp)
  · obtain ⟨rfl, hbefore⟩ | hbehind := hgap.here
    · obtain ⟨-, htrue, -⟩ | ⟨hfar, -⟩ := growEntry_front hprev (by omega) hgrow
      · exact absurd htrue (by simp)
      · exact .inr (by omega)
    · obtain ⟨-, htrue, -⟩ | ⟨hfar, -⟩ := growEntry_behind (by omega) hgrow
      · exact absurd htrue (by simp)
      · exact .inl (by omega)

section Behind

variable (h : Rep a (l₁ ++ e :: l₂)) {fuel : ℕ} (hpos : 0 < size)

include h

/-- A range directly behind an entry, up to the next one, is not free. -/
theorem disjoint_behind (hnext : ∀ m, l₂.head? = some m →
      (a.memoryEntryPool e).endAddress + size < (a.memoryEntryPool m).start) :
    Disjoint (Set.Ico ((a.memoryEntryPool e).endAddress + 1)
      ((a.memoryEntryPool e).endAddress + 1 + size)) a.freeBytes := by
  rw [h.freeBytes_eq, Set.disjoint_left]
  rintro x ⟨hlow, hhigh⟩ ⟨i, hi, hcov⟩
  obtain ⟨hbefore, hbehind⟩ := h.chain.apart.around
  have hrange := h.chain.range e (by simp)
  obtain hi | hi := List.mem_append.1 hi
  · have := hbefore i hi
    omega
  obtain rfl | hi := List.mem_cons.1 hi
  · omega
  cases l₂ with
  | nil => exact absurd hi (by simp)
  | cons m l₃ =>
    have hm := hnext m rfl
    obtain rfl | hi := List.mem_cons.1 hi
    · omega
    · have hassoc : l₁ ++ e :: m :: l₃ = (l₁ ++ [e]) ++ m :: l₃ := by simp
      have := (hassoc ▸ h.chain.apart).around.2 i hi
      have := h.chain.range m (by simp)
      omega

include hpos

/-- The entry grows over a range directly behind it that ends before the next one. -/
theorem define_extends (fuel : ℕ) (hbytes : ∀ x ∈ a.freeBytes, x + 1 < 2 ^ 64)
    (hnext : ∀ m, l₂.head? = some m →
      (a.memoryEntryPool e).endAddress + size < (a.memoryEntryPool m).start)
    (hbound : (a.memoryEntryPool e).endAddress + 1 + size < 2 ^ 64)
    (hcount : a.freeSize + size < 2 ^ 64) :
    ∃ a', defineFreeMemory (fuel + 1) a ((a.memoryEntryPool e).endAddress + 1) size =
        some (.ok (), a') ∧
      Gave a (Set.Ico ((a.memoryEntryPool e).endAddress + 1)
        ((a.memoryEntryPool e).endAddress + 1 + size)) (.ok (), a') ∧
      a'.freeSize = a.freeSize + size := by
  have hfree := disjoint_behind h hnext
  obtain ⟨a', hdefine⟩ : ∃ a', defineFreeMemory (fuel + 1) a
      ((a.memoryEntryPool e).endAddress + 1) size = some (.ok (), a') :=
    h.defineFreeMemory_returns (by simp) hbytes hfree hpos hbound
      (fun hisolated => absurd (h.mem_freeBytes (by simp) (h.chain.range e (by simp)).le le_rfl)
        (hisolated.2 _ rfl)) hcount
  exact ⟨a', hdefine, h.defineFreeMemory (by simp) hfree hdefine,
    h.defineFreeMemory_counter (by simp) hfree hdefine⟩

/-- The same for a call that is known to return: it gives back the range, or it runs into
the next entry. -/
theorem define_behind (hdefine : defineFreeMemory (fuel + 1) a
      ((a.memoryEntryPool e).endAddress + 1) size = some r) :
    Breaks r ∨ ∃ a', r = (.ok (), a') ∧ Gave a (Set.Ico ((a.memoryEntryPool e).endAddress + 1)
        ((a.memoryEntryPool e).endAddress + 1 + size)) r ∧
      a'.freeSize = a.freeSize + size ∧
      ∀ m, l₂.head? = some m →
        (a.memoryEntryPool e).endAddress + size < (a.memoryEntryPool m).start := by
  by_cases hnext : ∀ m, l₂.head? = some m →
      (a.memoryEntryPool e).endAddress + size < (a.memoryEntryPool m).start
  · have hfree := disjoint_behind h hnext
    refine .inr ?_
    obtain ⟨result, a'⟩ := r
    cases result with
    | error err =>
      obtain ⟨-, hisolated⟩ := define_apart_error h (by simp) (by omega) hfree hdefine
      exact absurd (h.mem_freeBytes (by simp) (h.chain.range e (by simp)).le le_rfl)
        (hisolated.2 _ rfl)
    | ok u =>
      exact ⟨a', rfl, h.defineFreeMemory (by simp) hfree hdefine,
        h.defineFreeMemory_counter (by simp) hfree hdefine, hnext⟩
  · refine .inl ?_
    push Not at hnext
    obtain ⟨m, hm, hinto⟩ := hnext
    obtain ⟨l₃, rfl⟩ : ∃ l₃, l₂ = m :: l₃ := by
      cases l₂ with
      | nil => exact absurd hm (by simp)
      | cons c l₃ => exact ⟨l₃, by rw [Option.some.inj hm]⟩
    cases hlast : getEndAddress ((a.memoryEntryPool e).endAddress + 1) size with
    | none =>
      rw [defineFreeMemory, if_neg (by omega), previousOrFirst_behind h, hlast] at hdefine
      exact absurd hdefine (by simp)
    | some last =>
      obtain ⟨hle, hsize, -⟩ := getEndAddress_eq_some hlast hpos
      exact define_grownInto h (by omega) (previousOrFirst_behind h) hlast rfl rfl (by omega)
        hdefine

end Behind

end MemoryAllocator

end MiniVisor
