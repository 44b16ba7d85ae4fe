import MiniVisor.Fat32Links
import MiniVisor.Library.Chains

/-!
# The stretches of a call

What the inner loops of `read` and `write` come to on any table, and which stretches the outer
loops go through if the requests are served. A place is where a stretch begins. The loops
return with a bounded number of links exactly if the numbers of all places fit and no
stretch follows more links.
-/
namespace MiniVisor

open Effects

namespace Fat32

section Chain

variable {f : Fat32} {c e k : ℕ}

theorem nextCluster_eq_ok : f.nextCluster c = .ok k ↔ f.getNextCluster c = some k := by
  unfold nextCluster
  cases f.getNextCluster c <;> simp

theorem nextCluster_eq_error : f.nextCluster c = .error .err ↔ f.getNextCluster c = none := by
  unfold nextCluster
  cases f.getNextCluster c <;> simp

/-- Links lead to cluster numbers of 28 bits. -/
theorem getNextCluster_mem (c k : ℕ) (h : f.getNextCluster c = some k) :
    k ∈ Finset.range 0x0FFFFFF8 :=
  Finset.mem_range.2 (Consecutive.next_lt (nextCluster_eq_ok.2 h))

/-- Consecutive clusters are a part of the chain. -/
theorem Consecutive.after (h : f.Consecutive c k) {j : ℕ} (hj : j ≤ k) :
    Chains.after f.getNextCluster j c = some (c + j) := by
  induction j with
  | zero => rfl
  | succ j ih =>
    rw [Chains.after_succ, ih (by omega), Option.bind_some]
    exact nextCluster_eq_ok.1 (h j (by omega))

end Chain

/-! ## The inner loop -/

/-- From a start `d` bytes into the cluster `c`, the inner loop gets to cluster number `i`. -/
structure Gets (f : Fat32) (isWrite : Bool) (n d c i : ℕ) : Prop where
  run : f.Consecutive c i
  inside : i = 0 ∨ i * f.bytesPerCluster < n + f.rest d
  left : ∀ j < i, f.leastBytes isWrite ≤ n - (f.mid d c j).bytes

/-- How the inner loop ends, and the number of links that it has followed. -/
inductive Ending (f : Fat32) (isWrite : Bool) (n d c : ℕ) : ℕ → Except Fault Stretch → Prop
  /-- Less than a sector is left. -/
  | short {i : ℕ} (h : f.Gets isWrite n d c i)
      (hshort : n - (f.mid d c i).bytes < f.leastBytes isWrite) :
      Ending f isWrite n d c i (.error .err)
  /-- The stretch ends with the length. -/
  | full {i : ℕ} (h : f.Gets isWrite n d c i)
      (hleft : f.leastBytes isWrite ≤ n - (f.mid d c i).bytes)
      (hend : n + f.rest d ≤ (i + 1) * f.bytesPerCluster) :
      Ending f isWrite n d c i (.ok (f.full n d c i))
  /-- The chain ends. -/
  | last {i : ℕ} (h : f.Gets isWrite n d c i)
      (hleft : f.leastBytes isWrite ≤ n - (f.mid d c i).bytes)
      (hmore : (i + 1) * f.bytesPerCluster < n + f.rest d)
      (hnext : f.nextCluster (c + i) = .error .err) :
      Ending f isWrite n d c i (.error .err)
  /-- The chain goes on at another place. -/
  | broken {i next : ℕ} (h : f.Gets isWrite n d c i)
      (hleft : f.leastBytes isWrite ≤ n - (f.mid d c i).bytes)
      (hmore : (i + 1) * f.bytesPerCluster < n + f.rest d)
      (hnext : f.nextCluster (c + i) = .ok next) (hne : next ≠ c + i + 1)
      (hword : c + i + 1 < 2 ^ 32) :
      Ending f isWrite n d c i (.ok (f.broken d c i))
  /-- The cluster has the greatest number of 32 bits. -/
  | overflow {i next : ℕ} (h : f.Gets isWrite n d c i)
      (hleft : f.leastBytes isWrite ≤ n - (f.mid d c i).bytes)
      (hmore : (i + 1) * f.bytesPerCluster < n + f.rest d)
      (hnext : f.nextCluster (c + i) = .ok next) (hne : next ≠ c + i + 1)
      (hword : ¬c + i + 1 < 2 ^ 32) :
      Ending f isWrite n d c i (.error .panic)

section Inner

variable {f : Fat32} {isWrite : Bool} {n d c i j : ℕ} {x y : Except Fault Stretch}
  {s : Host}

theorem Ending.gets (h : f.Ending isWrite n d c i x) : f.Gets isWrite n d c i := by
  cases h <;> assumption

/-- The loop does not go past its end. -/
theorem Ending.le (h : f.Ending isWrite n d c i x) (hj : f.Gets isWrite n d c j) : j ≤ i := by
  by_contra hlt
  have hlink := hj.run i (by omega)
  have hleft := hj.left i (by omega)
  have hinside := hj.inside
  have hmul : (i + 1) * f.bytesPerCluster ≤ j * f.bytesPerCluster :=
    Nat.mul_le_mul_right _ (by omega)
  cases h with
  | short _ hshort => omega
  | full _ _ hend => omega
  | last _ _ _ hnext => rw [hnext] at hlink; exact absurd hlink (by simp)
  | broken _ _ _ hnext hne => rw [hnext] at hlink; exact hne (Except.ok.inj hlink)
  | overflow _ _ _ hnext hne => rw [hnext] at hlink; exact hne (Except.ok.inj hlink)

/-- The loop ends in one way only. -/
theorem Ending.unique (h : f.Ending isWrite n d c i x) (h' : f.Ending isWrite n d c j y) :
    i = j ∧ x = y := by
  obtain rfl : i = j := Nat.le_antisymm (h'.le h.gets) (h.le h'.gets)
  refine ⟨rfl, ?_⟩
  cases h <;> cases h' <;> first | rfl | omega | simp_all

/-- At most the clusters of the length. -/
theorem Gets.le_links (h : f.Gets isWrite n d c i) (hf : f.Sized) :
    i ≤ (n + f.rest d - 1) / f.bytesPerCluster := by
  rcases h.inside with rfl | hin
  · exact Nat.zero_le _
  · exact (Nat.le_div_iff_mul_le hf.cluster_pos).2 (by omega)

theorem mid_bytes (f : Fat32) (d c i : ℕ) :
    (f.mid d c i).bytes = i * f.bytesPerCluster - f.rest d := rfl

/-- The inner loop from cluster number `i` on. -/
theorem followStretch_mid (hf : f.Sized) (hn : n < 2 ^ 32) (hfew : f.sectorCount n d < 2 ^ 32)
    {k : ℕ} : ∀ {fuel i : ℕ} {r : Stretch}, f.skipSectors r = f.mid d c i →
      f.Gets isWrite n d c i →
      (∃ j x, f.Ending isWrite n d c j x ∧
        f.followStretch isWrite n fuel r (s, k + i) = (x, (s, k + j))) ∨
      ((f.followStretch isWrite n fuel r (s, k + i)).1 = .error .stuck ∧
        (fuel + i) * f.bytesPerCluster < n + f.rest d + f.bytesPerCluster)
  | 0, i, r, _, hi => by
    refine .inr ⟨rfl, ?_⟩
    have hpos := hf.cluster_pos
    rw [Nat.zero_add]
    rcases hi.inside with rfl | hin
    · omega
    · omega
  | fuel + 1, i, r, hr, hi => by
    have hbytes : r.bytes = (f.mid d c i).bytes := by rw [← hr, skipSectors_bytes]
    have hsub : Checked.sub n r.bytes = some (n - (f.mid d c i).bytes) := by
      rw [hbytes]
      exact Checked.sub_eq_some.2 ⟨(mid_left hf hi.inside).1, rfl⟩
    rw [followStretch, hsub, Effect.checked_bind, hr]
    by_cases hshort : n - (f.mid d c i).bytes < f.leastBytes isWrite
    · rw [if_pos hshort]
      exact .inl ⟨i, _, .short hi hshort, rfl⟩
    rw [if_neg hshort]
    have hleft := Nat.le_of_not_lt hshort
    by_cases hend : n + f.rest d ≤ (i + 1) * f.bytesPerCluster
    · rw [hf.extend_full hn hfew hi.inside hend]
      exact .inl ⟨i, _, .full hi hleft hend, rfl⟩
    have hmore := Nat.lt_of_not_le hend
    cases hnext : f.nextCluster (c + i) with
    | error e =>
      rw [hf.extend_whole hn hfew hmore, hnext]
      obtain rfl := nextCluster_error hnext
      exact .inl ⟨i, _, .last hi hleft hmore hnext, rfl⟩
    | ok next =>
      by_cases hne : next = c + i + 1
      · subst hne
        rw [hf.extend_next hn hfew hmore hnext]
        have hgets : f.Gets isWrite n d c (i + 1) :=
          { run := fun m hm => by
              rcases Nat.lt_succ_iff_lt_or_eq.1 hm with hlt | rfl
              · exact hi.run m hlt
              · exact hnext
            inside := .inr hmore
            left := fun m hm => by
              rcases Nat.lt_succ_iff_lt_or_eq.1 hm with hlt | rfl
              · exact hi.left m hlt
              · exact hleft }
        rw [show fuel + 1 + i = fuel + (i + 1) by omega]
        exact followStretch_mid hf hn hfew (skipSectors_mid hf.sector) hgets
      · by_cases hword : c + i + 1 < 2 ^ 32
        · rw [hf.extend_break hn hfew hmore hnext hne hword]
          exact .inl ⟨i, _, .broken hi hleft hmore hnext hne hword, rfl⟩
        · have hadd : Checked.add 32 (c + i) 1 = none := by
            rw [Checked.add, if_neg hword]
          rw [hf.extend_whole hn hfew hmore, hnext, ok_bind, hadd]
          exact .inl ⟨i, _, .overflow hi hleft hmore hnext hne hword, rfl⟩

theorem gets_zero : f.Gets isWrite n d c 0 where
  run _ hj := absurd hj (by omega)
  inside := .inl rfl
  left _ hj := absurd hj (by omega)

theorem followStretch_start (hf : f.Sized) (hn : n < 2 ^ 32) (hfew : f.sectorCount n d < 2 ^ 32)
    (isWrite : Bool) (c : ℕ) (s : Host) (fuel k : ℕ) :
    (∃ i x, f.Ending isWrite n d c i x ∧
      f.followStretch isWrite n fuel (.start d c) (s, k) = (x, (s, k + i))) ∨
    ((f.followStretch isWrite n fuel (.start d c) (s, k)).1 = .error .stuck ∧
      fuel ≤ n + f.rest d) := by
  rcases followStretch_mid (s := s) (k := k) hf hn hfew (skipSectors_start f d c) gets_zero
    with hend | ⟨hstuck, hfuel⟩
  · exact .inl hend
  · refine .inr ⟨hstuck, ?_⟩
    by_contra hlong
    have hpos := hf.cluster_pos
    have hmul : (n + f.rest d + 1) * f.bytesPerCluster ≤ fuel * f.bytesPerCluster :=
      Nat.mul_le_mul_right _ (by omega)
    have hone : n + f.rest d ≤ (n + f.rest d) * f.bytesPerCluster :=
      Nat.le_mul_of_pos_right _ hpos
    rw [Nat.succ_mul] at hmul
    rw [Nat.add_zero] at hfuel
    omega

theorem exists_ending (hf : f.Sized) (hn : n < 2 ^ 32) (hfew : f.sectorCount n d < 2 ^ 32)
    (isWrite : Bool) (c : ℕ) : ∃ i x, f.Ending isWrite n d c i x := by
  rcases followStretch_start hf hn hfew isWrite c
    ⟨fun _ => 0, ⟨fun _ => 0, fun _ => true, 0, 0, 0, [], 0⟩, 0⟩ (n + f.rest d + 1) 0
    with ⟨i, x, h, -⟩ | ⟨-, hfuel⟩
  · exact ⟨i, x, h⟩
  · exact absurd hfuel (by omega)

/-- The stretch of an iteration that is not refused. -/
theorem Ending.stretch {r : Stretch} (h : f.Ending isWrite n d c i (.ok r)) :
    r.cluster = c + i ∧ r.dataOffsetBackup = f.rest d ∧ r.sectorOffset = f.skipped d := by
  cases h <;> exact ⟨rfl, rfl, rfl⟩

theorem Ending.sectors_le {r : Stretch} (h : f.Ending isWrite n d c i (.ok r)) (hf : f.Sized)
    (hfew : f.sectorCount n d < 2 ^ 32) : r.sectors ≤ 2 ^ 32 := by
  cases h with
  | full => exact hfew.le
  | broken _ _ hmore =>
    have hquot : (i + 1) * f.sectorsPerCluster ≤ (n + f.rest d - 1) / f.bytesPerSector := by
      rw [Nat.le_div_iff_mul_le hf.sector, Nat.mul_assoc, ← bytesPerCluster]
      omega
    rw [sectorCount] at hfew
    change (i + 1) * f.sectorsPerCluster ≤ 2 ^ 32
    omega

/-- The bytes of a stretch, of the clusters that it goes through. -/
theorem Ending.bytes_le {r : Stretch} (h : f.Ending isWrite n d c i (.ok r)) :
    r.bytes ≤ (i + 1) * f.bytesPerCluster := by
  cases h with
  | full _ _ hend =>
    change n ≤ _
    omega
  | broken => exact Nat.sub_le _ _

/-- The chain at the end of the inner loop. -/
theorem Ending.after {x : Except Fault Stretch} {k entry : ℕ} (h : f.Ending isWrite n d c i x)
    (hc : Chains.after f.getNextCluster k entry = some c) (hj : j ≤ i) :
    Chains.after f.getNextCluster (k + j) entry = some (c + j) := by
  rw [Chains.after_add, hc]
  exact h.gets.run.after hj

end Inner

/-! ## The outer loop -/

/-- Where the outer loop begins a stretch, and the links that have led there. -/
structure Place where
  links : ℕ
  dataOffset : ℕ
  cluster : ℕ
  bufferPointer : ℕ

/-- If its request is served, the stretch at `p` is followed by the one at `q`. -/
structure Goes (f : Fat32) (isWrite : Bool) (n : ℕ) (p q : Place) : Prop where
  stretch : ∃ i r, f.Ending isWrite n p.dataOffset p.cluster i (.ok r) ∧
    (isWrite = true → r.dataOffsetBackup = 0) ∧ n ≠ p.bufferPointer + r.bytes ∧
    f.nextCluster r.cluster = .ok q.cluster ∧ q.links = p.links + i + 1 ∧
    q.bufferPointer = p.bufferPointer + r.bytes
  start : q.dataOffset = 0

/-- The places that the loop comes to from `p` on. -/
abbrev Visits (f : Fat32) (isWrite : Bool) (n : ℕ) : Place → Place → Prop :=
  Relation.ReflTransGen (f.Goes isWrite n)

/-- The numbers of the stretch at `p` have 32 bits. -/
structure Fits (f : Fat32) (isWrite : Bool) (n : ℕ) (p : Place) : Prop where
  sector : ∀ i r, f.Ending isWrite n p.dataOffset p.cluster i (.ok r) →
    (isWrite = true → r.dataOffsetBackup = 0) → f.firstSector p.cluster r ≠ none
  cluster : ∀ i, ¬f.Ending isWrite n p.dataOffset p.cluster i (.error .panic)

/-! ## One stretch -/

/-- The driver returns, whatever it answers. -/
def Answers (driver : Driver) : Prop :=
  ∀ buffer address length s, Returns (driver buffer address length s).1

/-- A driver that serves every request. -/
def served : Driver := fun _ _ _ => pure ⟨⟩

section Part

variable {f : Fat32} {env : Environment} {driver : Driver} {isWrite : Bool}
  {bufferAddress cluster bufferPointer sector : ℕ} {r : Stretch} {s : Host}

theorem firstSector_lt (h : f.firstSector cluster r = some sector) : sector < 2 ^ 32 := by
  rw [firstSector, Option.bind_eq_bind, Option.bind_eq_some_iff] at h
  obtain ⟨first, -, hadd⟩ := h
  obtain ⟨hlt, rfl⟩ := Checked.add_eq_some.1 hadd
  exact hlt

theorem transferSectors_eq (hf : f.Sized) (hsector : sector < 2 ^ 32) (buffer sectors : ℕ) :
    f.transferSectors driver buffer sector sectors =
      driver buffer (f.sectorPosition sector) (sectors * f.bytesPerSector) := by
  funext s
  rw [transferSectors, hf.sectorRange hsector, Effect.checked_bind]

theorem Effect.attempt_of_err {S α : Type} {x : Effect S α} {s t : S} (h : x s = (.error .err, t)) :
    Effect.attempt x s = (.ok none, t) := by
  rw [Effect.attempt, h]

/-- A stretch whose numbers fit is transferred, or the call fails. -/
theorem transferPart_answers (hf : f.Sized) (hdriver : Answers driver)
    (hfirst : (isWrite = true → r.dataOffsetBackup = 0) → f.firstSector cluster r ≠ none)
    (hsectors : r.sectors ≤ 2 ^ 32) (hbuffer : bufferAddress + bufferPointer < 2 ^ 64)
    (hzero : r.dataOffsetBackup ≠ 0 → bufferPointer = 0) :
    Returns (f.transferPart env driver isWrite bufferAddress cluster bufferPointer r s).1 := by
  have hadd : Checked.add 64 bufferAddress bufferPointer = some (bufferAddress + bufferPointer) :=
    Checked.add_eq_some.2 ⟨hbuffer, rfl⟩
  cases isWrite with
  | true =>
    change Returns (f.storePart driver bufferAddress cluster bufferPointer r s).1
    rw [storePart]
    by_cases hdirect : r.dataOffsetBackup = 0
    · obtain ⟨sector, hsector⟩ := Option.ne_none_iff_exists'.1 (hfirst fun _ => hdirect)
      rw [if_neg (not_not.2 hdirect), hsector, Effect.checked_bind, hadd, Effect.checked_bind,
        transferSectors_eq hf (firstSector_lt hsector)]
      exact hdriver _ _ _ _
    · rw [if_pos hdirect]
      exact .inr rfl
  | false =>
    obtain ⟨sector, hsector⟩ := Option.ne_none_iff_exists'.1 (hfirst fun h => absurd h (by decide))
    obtain ⟨pages, hbounce⟩ := Option.ne_none_iff_exists'.1 (hf.bouncePages hsectors)
    change Returns (f.loadPart env driver bufferAddress cluster bufferPointer r s).1
    rw [loadPart, hbounce, Effect.checked_bind]
    by_cases hdirect : r.dataOffsetBackup = 0
    · rw [if_neg (not_not.2 hdirect), loadDirect, hadd, Effect.checked_bind, hsector,
        Effect.checked_bind, transferSectors_eq hf (firstSector_lt hsector)]
      exact hdriver _ _ _ _
    · obtain rfl := hzero hdirect
      rw [if_pos hdirect, loadBounced]
      cases hpage : env.allocatePages s.drive.allocations pages with
      | none =>
        rw [Effect.bind_error_fst (e := .err) (by rw [allocatePages, hpage])]
        exact .inr rfl
      | some page =>
        obtain ⟨s₁, hallocated⟩ : ∃ s₁, allocatePages env pages s = (.ok page, s₁) := by
          rw [allocatePages, hpage]
          exact ⟨_, rfl⟩
        rw [Effect.bind_ok hallocated, hsector, Effect.checked_bind,
          transferSectors_eq hf (firstSector_lt hsector)]
        have hanswer := hdriver page (f.sectorPosition sector) (r.sectors * f.bytesPerSector) s₁
        rcases hrun : driver page (f.sectorPosition sector) (r.sectors * f.bytesPerSector) s₁ with
          ⟨x, t⟩
        rw [hrun] at hanswer
        rcases hanswer with ⟨u, rfl⟩ | rfl
        · rw [Effect.bind_ok (Effect.attempt_eq_some.2 hrun)]
          exact .inl ⟨⟨⟩, rfl⟩
        · rw [Effect.bind_ok (Effect.attempt_of_err hrun)]
          exact .inr rfl

/-- Only aligned stretches are written. -/
theorem transferPart_aligned {u : PUnit} {t : Host}
    (h : f.transferPart env driver isWrite bufferAddress cluster bufferPointer r s = (.ok u, t))
    (hwrite : isWrite = true) : r.dataOffsetBackup = 0 := by
  subst hwrite
  change f.storePart driver bufferAddress cluster bufferPointer r s = (.ok u, t) at h
  by_contra hrest
  rw [storePart, if_pos hrest] at h
  exact absurd h (by simp [Effect.fail])

/-- With a driver that serves everything, a stretch whose first sector has a number is
transferred. -/
theorem transferPart_served (hf : f.Sized) (hpages : Supplies env)
    (haligned : isWrite = true → r.dataOffsetBackup = 0)
    (hsector : f.firstSector cluster r = some sector) (hsectors : r.sectors ≤ 2 ^ 32)
    (hpointer : bufferPointer < 2 ^ 64) (hzero : r.dataOffsetBackup ≠ 0 → bufferPointer = 0) :
    ∃ t, f.transferPart env served isWrite 0 cluster bufferPointer r s = (.ok ⟨⟩, t) := by
  have hadd : Checked.add 64 0 bufferPointer = some bufferPointer :=
    Checked.add_eq_some.2 ⟨by omega, (Nat.zero_add _).symm⟩
  cases isWrite with
  | true =>
    change ∃ t, f.storePart served 0 cluster bufferPointer r s = (.ok ⟨⟩, t)
    rw [storePart, if_neg (not_not.2 (haligned rfl)), hsector, Effect.checked_bind, hadd,
      Effect.checked_bind, transferSectors_eq hf (firstSector_lt hsector)]
    exact ⟨s, rfl⟩
  | false =>
    obtain ⟨pages, hbounce⟩ := Option.ne_none_iff_exists'.1 (hf.bouncePages hsectors)
    change ∃ t, f.loadPart env served 0 cluster bufferPointer r s = (.ok ⟨⟩, t)
    rw [loadPart, hbounce, Effect.checked_bind]
    by_cases hdirect : r.dataOffsetBackup = 0
    · rw [if_neg (not_not.2 hdirect), loadDirect, hadd, Effect.checked_bind, hsector,
        Effect.checked_bind, transferSectors_eq hf (firstSector_lt hsector)]
      exact ⟨_, rfl⟩
    · obtain rfl := hzero hdirect
      obtain ⟨page, hpage⟩ := Option.ne_none_iff_exists'.1 (hpages s.drive.allocations pages)
      obtain ⟨s₁, hallocated⟩ : ∃ s₁, allocatePages env pages s = (.ok page, s₁) := by
        rw [allocatePages, hpage]
        exact ⟨_, rfl⟩
      rw [if_pos hdirect, loadBounced, Effect.bind_ok hallocated, hsector, Effect.checked_bind,
        transferSectors_eq hf (firstSector_lt hsector),
        Effect.bind_ok (Effect.attempt_eq_some.2 (show served page _ _ s₁ = (.ok ⟨⟩, s₁) from rfl))]
      exact ⟨_, rfl⟩

/-- Without a number for its first sector, the call panics. -/
theorem transferPart_panics (hf : f.Sized) (hpages : Supplies env)
    (haligned : isWrite = true → r.dataOffsetBackup = 0)
    (hsector : f.firstSector cluster r = none) (hsectors : r.sectors ≤ 2 ^ 32)
    (hpointer : bufferPointer < 2 ^ 64) :
    (f.transferPart env served isWrite 0 cluster bufferPointer r s).1 = .error .panic := by
  have hadd : Checked.add 64 0 bufferPointer = some bufferPointer :=
    Checked.add_eq_some.2 ⟨by omega, (Nat.zero_add _).symm⟩
  cases isWrite with
  | true =>
    change (f.storePart served 0 cluster bufferPointer r s).1 = .error .panic
    rw [storePart, if_neg (not_not.2 (haligned rfl)), hsector]
    rfl
  | false =>
    obtain ⟨pages, hbounce⟩ := Option.ne_none_iff_exists'.1 (hf.bouncePages hsectors)
    change (f.loadPart env served 0 cluster bufferPointer r s).1 = .error .panic
    rw [loadPart, hbounce, Effect.checked_bind]
    by_cases hdirect : r.dataOffsetBackup = 0
    · rw [if_neg (not_not.2 hdirect), loadDirect, hadd, Effect.checked_bind, hsector]
      rfl
    · obtain ⟨page, hpage⟩ := Option.ne_none_iff_exists'.1 (hpages s.drive.allocations pages)
      obtain ⟨s₁, hallocated⟩ : ∃ s₁, allocatePages env pages s = (.ok page, s₁) := by
        rw [allocatePages, hpage]
        exact ⟨_, rfl⟩
      rw [if_pos hdirect, loadBounced, Effect.bind_ok hallocated, hsector]
      rfl

end Part

/-! ## The run of the outer loop -/

section Loop

variable {f : Fat32} {env : Environment} {driver : Driver} {isWrite : Bool}
  {bufferAddress n fuel d c bufferPointer k k' : ℕ} {r : Stretch} {s t : Host} {e : Fault}

theorem returns_error {α : Type} (h : Returns (.error e : Except Fault α)) : e = .err := by
  rcases h with ⟨a, ha⟩ | herr
  · exact absurd ha (by simp)
  · exact Except.error.inj herr

theorem followLoop_error {u : Followed}
    (hr : f.followStretch isWrite n fuel (.start d c) (s, k) = (.error e, u)) :
    f.followLoop env driver isWrite bufferAddress n (fuel + 1) d c bufferPointer (s, k) =
      (.error e, u) := by
  rw [followLoop]
  exact Effect.bind_error hr

theorem followLoop_refused
    (hr : f.followStretch isWrite n fuel (.start d c) (s, k) = (.ok r, (s, k')))
    (hpart : f.transferPart env driver isWrite bufferAddress c bufferPointer r s = (.error e, t)) :
    f.followLoop env driver isWrite bufferAddress n (fuel + 1) d c bufferPointer (s, k) =
      (.error e, (t, k')) := by
  rw [followLoop, Effect.bind_ok hr]
  refine Effect.bind_error ?_
  rw [onHost, hpart]

/-- The loop behind a stretch that has been transferred. -/
theorem followLoop_behind {u : PUnit}
    (hr : f.followStretch isWrite n fuel (.start d c) (s, k) = (.ok r, (s, k')))
    (hpart : f.transferPart env driver isWrite bufferAddress c bufferPointer r s = (.ok u, t)) :
    f.followLoop env driver isWrite bufferAddress n (fuel + 1) d c bufferPointer (s, k) =
      (do
        let bufferPointer ← Effect.checked (Checked.add 64 bufferPointer r.bytes)
        if n = bufferPointer then return bufferPointer
        else
          let next ← onHost (liftExcept (f.nextCluster r.cluster))
          countLink
          f.followLoop env driver isWrite bufferAddress n fuel 0 next bufferPointer) (t, k') := by
  have hpart' : onHost (f.transferPart env driver isWrite bufferAddress c bufferPointer r)
      (s, k') = (.ok u, (t, k')) := by
    rw [onHost, hpart]
  rw [followLoop, Effect.bind_ok hr, Effect.bind_ok hpart']

theorem sectorCount_lt (h : n + f.rest d < 2 ^ 32) :
    f.sectorCount n d < 2 ^ 32 := by
  have hdiv := Nat.div_le_self (n + f.rest d - 1) f.bytesPerSector
  rw [sectorCount]
  rcases Nat.eq_zero_or_pos (n + f.rest d) with hzero | hpos
  · rw [hzero]
    simp
  · omega

theorem bytesPerCluster_lt (f : Fat32) : f.bytesPerCluster < 2 ^ 24 := by
  have hsector := f.bytesPerSector_lt
  have hcluster := f.sectorsPerCluster_lt
  calc f.sectorsPerCluster * f.bytesPerSector
      ≤ (2 ^ 8 - 1) * (2 ^ 16 - 1) := Nat.mul_le_mul (by omega) (by omega)
    _ < 2 ^ 24 := by norm_num

/-- If every place fits and no more than `L` links are followed from any of them, the loop
returns and has followed at most `L` links. -/
theorem followLoop_bounded {L : ℕ} (hf : f.Sized) (hdriver : Answers driver)
    (hbuffer : bufferAddress < 2 ^ 63) (hL : L < 2 ^ 34) : ∀ {fuel : ℕ} {p : Place} {s : Host},
    (∀ q, f.Visits isWrite n p q → f.Fits isWrite n q ∧
      ∀ i x, f.Ending isWrite n q.dataOffset q.cluster i x → q.links + i ≤ L) →
    n + f.rest p.dataOffset < 2 ^ 32 → p.bufferPointer ≤ p.links * f.bytesPerCluster →
    (f.rest p.dataOffset ≠ 0 → p.bufferPointer = 0) → 2 ^ 32 + L < fuel + p.links →
    Returns (f.followLoop env driver isWrite bufferAddress n fuel p.dataOffset p.cluster
        p.bufferPointer (s, p.links)).1 ∧
      (f.followLoop env driver isWrite bufferAddress n fuel p.dataOffset p.cluster
        p.bufferPointer (s, p.links)).2.2 ≤ L
  | 0, p, s, hvisits, hn, _, _, hfuel => by
    obtain ⟨i, x, hend⟩ := exists_ending hf (show n < 2 ^ 32 by omega) (sectorCount_lt hn)
      isWrite p.cluster
    have hle := (hvisits p .refl).2 i x hend
    omega
  | fuel + 1, p, s, hvisits, hn, hpointer, hzero, hfuel => by
    obtain ⟨hfits, hlinks⟩ := hvisits p .refl
    have hfew := sectorCount_lt hn
    obtain ⟨i₀, x₀, hend₀⟩ := exists_ending hf (show n < 2 ^ 32 by omega) hfew isWrite p.cluster
    have hplace := hlinks i₀ x₀ hend₀
    rcases followStretch_start hf (show n < 2 ^ 32 by omega) hfew isWrite p.cluster s fuel
      p.links with ⟨i, x, hend, hr⟩ | ⟨-, hlow⟩
    · have hi := hlinks i x hend
      cases x with
      | error e =>
        rw [followLoop_error hr]
        refine ⟨?_, hi⟩
        cases hend with
        | short => exact .inr rfl
        | last => exact .inr rfl
        | overflow hgets hleft hmore hnext hne hword =>
          exact absurd (.overflow hgets hleft hmore hnext hne hword) (hfits.cluster i)
      | ok r =>
        obtain ⟨hcluster, hbackup, -⟩ := hend.stretch
        have hbytes := hend.bytes_le
        have hsize := bytesPerCluster_lt f
        have hplaced : (p.links + i + 1) * f.bytesPerCluster ≤ 2 ^ 34 * 2 ^ 24 :=
          Nat.mul_le_mul (by omega) hsize.le
        have hsum : p.bufferPointer + r.bytes ≤ (p.links + i + 1) * f.bytesPerCluster := by
          rw [Nat.add_assoc, Nat.add_mul]
          omega
        have hanswer : Returns (f.transferPart env driver isWrite bufferAddress p.cluster
            p.bufferPointer r s).1 :=
          transferPart_answers hf hdriver (hfits.sector i r hend) (hend.sectors_le hf hfew)
            (by omega) (by rw [hbackup]; exact hzero)
        rcases hpart : f.transferPart env driver isWrite bufferAddress p.cluster p.bufferPointer r s
          with ⟨y, t⟩
        rw [hpart] at hanswer
        rcases hanswer with ⟨u, rfl⟩ | rfl
        · have hadd : Checked.add 64 p.bufferPointer r.bytes = some (p.bufferPointer + r.bytes) :=
            Checked.add_eq_some.2 ⟨by omega, rfl⟩
          rw [followLoop_behind hr hpart, hadd, Effect.checked_bind]
          by_cases hdone : n = p.bufferPointer + r.bytes
          · rw [if_pos hdone]
            exact ⟨.inl ⟨_, rfl⟩, hi⟩
          rw [if_neg hdone]
          cases hnext : f.nextCluster r.cluster with
          | error e =>
            obtain rfl := nextCluster_error hnext
            exact ⟨.inr rfl, hi⟩
          | ok next =>
            -- Only here the loop goes on; for a write the stretch was aligned.
            have haligned := transferPart_aligned hpart
            have hgoes : f.Goes isWrite n p
                ⟨p.links + i + 1, 0, next, p.bufferPointer + r.bytes⟩ :=
              ⟨⟨i, r, hend, haligned, hdone, hnext, rfl, rfl⟩, rfl⟩
            exact followLoop_bounded hf hdriver hbuffer hL
              (p := ⟨p.links + i + 1, 0, next, p.bufferPointer + r.bytes⟩)
              (fun q hq => hvisits q (.head hgoes hq))
              (by rw [rest_zero]; omega) hsum (fun h => absurd (rest_zero f) h)
              (by dsimp only; omega)
        · rw [followLoop_refused hr hpart]
          exact ⟨.inr rfl, hi⟩
    · omega

/-- A stretch is followed by one stretch at most. -/
theorem Goes.unique {p q q' : Place} (h : f.Goes isWrite n p q) (h' : f.Goes isWrite n p q') :
    q = q' := by
  obtain ⟨i, r, hend, -, -, hnext, hlinks, hpointer⟩ := h.stretch
  obtain ⟨i', r', hend', -, -, hnext', hlinks', hpointer'⟩ := h'.stretch
  obtain ⟨rfl, hr⟩ := hend.unique hend'
  obtain rfl := Except.ok.inj hr
  have hcluster := Except.ok.inj (hnext.symm.trans hnext')
  have hstart := h.start.trans h'.start.symm
  cases q
  cases q'
  simp_all

/-- If the driver serves everything and the call returns, then every place that the loop comes to
fits, and no more links are followed from there. -/
theorem followLoop_visits (hf : f.Sized) (hpages : Supplies env) :
    ∀ {fuel : ℕ} {p : Place} {s t : Host} {x : Except Fault ℕ} {k' : ℕ},
    f.followLoop env served isWrite 0 n fuel p.dataOffset p.cluster p.bufferPointer
      (s, p.links) = (x, (t, k')) → Returns x → n + f.rest p.dataOffset < 2 ^ 32 →
    p.bufferPointer < 2 ^ 64 → (f.rest p.dataOffset ≠ 0 → p.bufferPointer = 0) →
    ∀ q, f.Visits isWrite n p q → f.Fits isWrite n q ∧
      ∀ i y, f.Ending isWrite n q.dataOffset q.cluster i y → q.links + i ≤ k'
  | 0, _, _, _, _, _, h, hx, _, _, _, _, _ => by
    rw [followLoop] at h
    obtain rfl := congrArg Prod.fst h
    exact absurd (returns_error hx) (by decide)
  | fuel + 1, p, s, t, x, k', h, hx, hn, hpointer, hzero, q, hq => by
    have hfew := sectorCount_lt hn
    -- What holds of the place alone, if the loop does not go on.
    have hstop : (∀ q, ¬f.Goes isWrite n p q) → f.Fits isWrite n p →
        (∀ i y, f.Ending isWrite n p.dataOffset p.cluster i y → p.links + i ≤ k') →
        f.Fits isWrite n q ∧
          ∀ i y, f.Ending isWrite n q.dataOffset q.cluster i y → q.links + i ≤ k' := by
      intro hlast hfits hlinks
      rcases Relation.ReflTransGen.cases_head hq with rfl | ⟨q', hgoes, -⟩
      · exact ⟨hfits, hlinks⟩
      · exact absurd hgoes (hlast q')
    rcases followStretch_start hf (show n < 2 ^ 32 by omega) hfew isWrite p.cluster s fuel
      p.links with ⟨i, y, hend, hr⟩ | ⟨hstuck, -⟩
    · have hlinks : p.links + i = k' → ∀ j z, f.Ending isWrite n p.dataOffset p.cluster j z →
          p.links + j ≤ k' := by
        intro hk j z hz
        obtain ⟨rfl, -⟩ := hend.unique hz
        exact hk.le
      cases y with
      | error e =>
        rw [followLoop_error hr] at h
        obtain ⟨rfl, hk⟩ := Prod.mk.inj h
        obtain rfl := returns_error hx
        refine hstop ?_ ⟨?_, ?_⟩ (hlinks (Prod.mk.inj hk).2)
        · intro q' hgoes
          obtain ⟨j, r, hj, -⟩ := hgoes.stretch
          exact absurd (hend.unique hj).2 (by simp)
        · intro j r hj
          exact absurd (hend.unique hj).2 (by simp)
        · intro j hj
          exact absurd (hend.unique hj).2 (by simp)
      | ok r =>
        obtain ⟨hcluster, hbackup, -⟩ := hend.stretch
        have hsectors := hend.sectors_le hf hfew
        have hcalm : ∀ j, ¬f.Ending isWrite n p.dataOffset p.cluster j (.error .panic) :=
          fun j hj => absurd (hend.unique hj).2 (by simp)
        by_cases haligned : isWrite = true → r.dataOffsetBackup = 0
        · cases hfirst : f.firstSector p.cluster r with
          | none =>
            have hpanic := transferPart_panics (s := s) hf hpages haligned hfirst hsectors hpointer
            rcases hpart : f.transferPart env served isWrite 0 p.cluster p.bufferPointer r s
              with ⟨y, u⟩
            rw [hpart] at hpanic
            obtain rfl : y = .error .panic := hpanic
            rw [followLoop_refused hr hpart] at h
            obtain ⟨rfl, -⟩ := Prod.mk.inj h
            exact absurd (returns_error hx) (by decide)
          | some sector =>
            have hfits : f.Fits isWrite n p := by
              refine ⟨fun j r' hj _ => ?_, hcalm⟩
              obtain rfl := Except.ok.inj (hend.unique hj).2
              rw [hfirst]
              exact Option.some_ne_none _
            obtain ⟨u, hpart⟩ := transferPart_served (s := s) hf hpages haligned hfirst hsectors
              hpointer (by rw [hbackup]; exact hzero)
            rw [followLoop_behind hr hpart] at h
            cases hadd : Checked.add 64 p.bufferPointer r.bytes with
            | none =>
              rw [hadd] at h
              obtain ⟨rfl, -⟩ := Prod.mk.inj h
              exact absurd (returns_error hx) (by decide)
            | some pointer =>
              obtain ⟨hword, rfl⟩ := Checked.add_eq_some.1 hadd
              rw [hadd, Effect.checked_bind] at h
              by_cases hdone : n = p.bufferPointer + r.bytes
              · rw [if_pos hdone] at h
                refine hstop ?_ hfits (hlinks (Prod.mk.inj (Prod.mk.inj h).2).2)
                intro q' hgoes
                obtain ⟨j, r', hj, -, hmore, -⟩ := hgoes.stretch
                obtain rfl := Except.ok.inj (hend.unique hj).2
                exact hmore hdone
              rw [if_neg hdone] at h
              cases hnext : f.nextCluster r.cluster with
              | error e =>
                rw [hnext] at h
                refine hstop ?_ hfits (hlinks (Prod.mk.inj (Prod.mk.inj h).2).2)
                intro q' hgoes
                obtain ⟨j, r', hj, -, -, hlink, -⟩ := hgoes.stretch
                obtain rfl := Except.ok.inj (hend.unique hj).2
                exact absurd (hnext.symm.trans hlink) (by simp)
              | ok next =>
                rw [hnext] at h
                have hgoes : f.Goes isWrite n p
                    ⟨p.links + i + 1, 0, next, p.bufferPointer + r.bytes⟩ :=
                  ⟨⟨i, r, hend, haligned, hdone, hnext, rfl, rfl⟩, rfl⟩
                have hrest := followLoop_visits hf hpages
                  (p := ⟨p.links + i + 1, 0, next, p.bufferPointer + r.bytes⟩) h hx
                  (by rw [rest_zero]; omega) hword (fun h => absurd (rest_zero f) h)
                rcases Relation.ReflTransGen.cases_head hq with rfl | ⟨q', hgoes', hq'⟩
                · refine ⟨hfits, fun j z hz => ?_⟩
                  obtain ⟨rfl, -⟩ := hend.unique hz
                  obtain ⟨j, z, hz⟩ := exists_ending hf (show n < 2 ^ 32 by omega)
                    (sectorCount_lt (show n + f.rest 0 < 2 ^ 32 by rw [rest_zero]; omega))
                    isWrite next
                  have hle := (hrest _ .refl).2 j z hz
                  dsimp only at hle
                  omega
                · obtain rfl := hgoes.unique hgoes'
                  exact hrest q hq'
        · -- A write that is not aligned ends here.
          have hpart : f.transferPart env served isWrite 0 p.cluster p.bufferPointer r s =
              (.error .err, s) := by
            push Not at haligned
            obtain ⟨rfl, hrest⟩ := haligned
            change f.storePart served 0 p.cluster p.bufferPointer r s = (.error .err, s)
            rw [storePart, if_pos hrest]
            rfl
          rw [followLoop_refused hr hpart] at h
          refine hstop ?_ ⟨?_, hcalm⟩ (hlinks (Prod.mk.inj (Prod.mk.inj h).2).2)
          · intro q' hgoes
            obtain ⟨j, r', hj, hal, -⟩ := hgoes.stretch
            obtain rfl := Except.ok.inj (hend.unique hj).2
            exact haligned hal
          · intro j r' hj hal
            obtain rfl := Except.ok.inj (hend.unique hj).2
            exact absurd hal haligned
    · rcases hrun : f.followStretch isWrite n fuel (.start p.dataOffset p.cluster) (s, p.links)
        with ⟨y, u⟩
      rw [hrun] at hstuck
      obtain rfl : y = .error .stuck := hstuck
      rw [followLoop_error hrun] at h
      obtain ⟨rfl, -⟩ := Prod.mk.inj h
      exact absurd (returns_error hx) (by decide)

end Loop

end Fat32

end MiniVisor
