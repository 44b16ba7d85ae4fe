import MiniVisor.Fat32Coalescing

/-!
# The bytes of a file that is read

A file of several fragments is read with one request for each. The loops compare every
fragment with the whole length and not with what is left, so that they end only if the range
ends with a fragment. A start behind the first sector of its cluster is not taken off the bytes
of the first fragment, which then come from the sectors behind it.
-/
namespace MiniVisor

open Effects

namespace Fat32

/-- The fragments of `k + 1` clusters from number `j` of the chain on. -/
def fragments (clusters : ℕ → ℕ) : ℕ → ℕ → ℕ
  | _, 0 => 1
  | j, k + 1 => (if clusters (j + 1) = clusters j + 1 then 0 else 1) + fragments clusters (j + 1) k

section Fragments

variable {clusters : ℕ → ℕ} {j k : ℕ}

theorem fragments_pos (clusters : ℕ → ℕ) (j k : ℕ) : 0 < fragments clusters j k := by
  induction k generalizing j with
  | zero => exact Nat.one_pos
  | succ k ih => exact Nat.add_pos_right _ (ih (j + 1))

/-- Clusters in line belong to one fragment. -/
theorem fragments_line {i : ℕ} (h : InLine clusters j i) :
    fragments clusters j (i + k) = fragments clusters (j + i) k := by
  induction i generalizing j with
  | zero => rw [Nat.zero_add, Nat.add_zero]
  | succ i ih =>
    have hrest : InLine clusters (j + 1) i := by
      intro x hx
      have hnext := h (x + 1) (by omega)
      rw [show j + (x + 1) = j + 1 + x by omega] at hnext
      exact hnext
    have hfirst : clusters (j + 1) = clusters j + 1 := h 0 (Nat.succ_pos i)
    rw [Nat.add_right_comm, fragments, if_pos hfirst, Nat.zero_add, ih hrest, Nat.add_right_comm,
      Nat.add_assoc]

theorem fragments_break (h : clusters (j + 1) ≠ clusters j + 1) :
    fragments clusters j (k + 1) = 1 + fragments clusters (j + 1) k := by
  rw [fragments, if_neg h]

/-- The fragment that a cluster begins, in a range of `k + 1` clusters. -/
theorem exists_run (clusters : ℕ → ℕ) (j k : ℕ) : ∃ i ≤ k, InLine clusters j i ∧
    (i < k → clusters (j + i + 1) ≠ clusters (j + i) + 1) := by
  induction k with
  | zero => exact ⟨0, le_rfl, fun _ hx => absurd hx (by omega), fun h => absurd h (by omega)⟩
  | succ k ih =>
    obtain ⟨i, hi, hline, hstop⟩ := ih
    rcases Nat.lt_or_eq_of_le hi with hlt | rfl
    · exact ⟨i, by omega, hline, fun _ => hstop hlt⟩
    · by_cases hnext : clusters (j + i + 1) = clusters (j + i) + 1
      · refine ⟨i + 1, le_rfl, fun x hx => ?_, fun h => absurd h (by omega)⟩
        rcases Nat.lt_succ_iff_lt_or_eq.1 hx with hlt | rfl
        · exact hline x hlt
        · exact hnext
      · exact ⟨i, by omega, hline, fun _ => hnext⟩

end Fragments

/-! ## When the outer loop ends -/

section Ends

variable {f : Fat32} {env : Environment} {file : FileInfo} {clusters : ℕ → ℕ}
  {bufferAddress bufferPointer offset fuel c d j m n : ℕ} {r : Stretch} {s t : Host}

/-- Behind a stretch the loop is through, or it goes on with the next one. -/
theorem advance_eq_ok {loop : ℕ → ℕ → Effect Host ℕ} {x : ℕ}
    (h : f.advance n loop bufferPointer r s = (.ok x, t)) :
    (n = bufferPointer + r.bytes ∧ t = s) ∨ (n ≠ bufferPointer + r.bytes ∧
      ∃ next, f.nextCluster r.cluster = .ok next ∧
        loop next (bufferPointer + r.bytes) s = (.ok x, t)) := by
  rw [advance, Effect.checked_bind_eq_ok] at h
  obtain ⟨sum, hsum, h⟩ := h
  obtain ⟨-, rfl⟩ := Checked.add_eq_some.1 hsum
  by_cases hdone : n = bufferPointer + r.bytes
  · rw [if_pos hdone] at h
    exact .inl ⟨hdone, (Prod.mk.inj h).2.symm⟩
  · rw [if_neg hdone, Effect.bind_eq_ok] at h
    obtain ⟨next, s₁, hlift, h⟩ := h
    obtain ⟨hnext, rfl⟩ := liftExcept_eq_ok.1 hlift
    exact .inr ⟨hdone, next, hnext, h⟩

/-- The parts of a successful iteration. -/
theorem readLoop_eq_ok {x : ℕ}
    (h : f.readLoop env bufferAddress n (fuel + 1) d c bufferPointer s = (.ok x, t)) :
    ∃ r u s₁, f.Gathers n (.start d c) r ∧
      f.readPart env bufferAddress c bufferPointer r s = (.ok u, s₁) ∧
      f.advance n (f.readLoop env bufferAddress n fuel 0) bufferPointer r s₁ = (.ok x, t) := by
  rw [readLoop_succ, Effect.bind_eq_ok] at h
  obtain ⟨r, s₀, hlift, h⟩ := h
  obtain ⟨hr, rfl⟩ := liftExcept_eq_ok.1 hlift
  rw [Effect.bind_eq_ok] at h
  obtain ⟨u, s₁, hpart, h⟩ := h
  exact ⟨r, u, s₁, readStretch_gathers hr, hpart, h⟩

/-- The outer loops come to the length: the last stretch ends there. -/
inductive Completes (f : Fat32) (n : ℕ) : ℕ → ℕ → ℕ → Prop
  | last {d c bufferPointer : ℕ} {r : Stretch} (hr : f.Gathers n (.start d c) r)
      (hdone : n = bufferPointer + r.bytes) : Completes f n d c bufferPointer
  | next {d c bufferPointer next : ℕ} {r : Stretch} (hr : f.Gathers n (.start d c) r)
      (hmore : n ≠ bufferPointer + r.bytes) (hnext : f.nextCluster r.cluster = .ok next)
      (h : Completes f n 0 next (bufferPointer + r.bytes)) : Completes f n d c bufferPointer

theorem readLoop_completes {x : ℕ}
    (h : f.readLoop env bufferAddress n fuel d c bufferPointer s = (.ok x, t)) :
    f.Completes n d c bufferPointer := by
  induction fuel generalizing d c bufferPointer s with
  | zero => exact absurd h (by simp [readLoop, Effect.fail])
  | succ fuel ih =>
    obtain ⟨r, u, s₁, hr, -, h⟩ := readLoop_eq_ok h
    rcases advance_eq_ok h with ⟨hdone, -⟩ | ⟨hmore, next, hnext, h⟩
    · exact .last hr hdone
    · exact .next hr hmore hnext (ih h)

/-- A loop that has passed the length does not come back to it. -/
theorem Completes.le (h : f.Completes n d c bufferPointer) : bufferPointer ≤ n := by
  induction h with
  | last hr hdone => omega
  | next hr hmore hnext h ih => omega

/-- Behind its first request the loop leaves what it has read. -/
theorem readLoop_below {x y : ℕ} (hy : y < bufferAddress + bufferPointer)
    (h : f.readLoop env bufferAddress n fuel 0 c bufferPointer s = (.ok x, t)) :
    t.memory y = s.memory y := by
  induction fuel generalizing c bufferPointer s with
  | zero => exact absurd h (by simp [readLoop, Effect.fail])
  | succ fuel ih =>
    obtain ⟨r, u, s₁, hr, hpart, h⟩ := readLoop_eq_ok h
    have hfirst := readPart_below (hr.direct rfl rfl) hpart hy
    rcases advance_eq_ok h with ⟨-, rfl⟩ | ⟨-, next, -, h⟩
    · exact hfirst
    · exact (ih (by omega) h).trans hfirst

end Ends

/-! ## A range that ends with a fragment -/

section Fragmented

variable {f : Fat32} {env : Environment} {file : FileInfo} {clusters : ℕ → ℕ}
  {bufferAddress bufferPointer offset length fuel c d e i j k m n p : ℕ} {s t : Host}

theorem Chain.lt_end (h : f.Chain file clusters m) (hentry : file.entryCluster < 0x0FFFFFF8)
    (hj : j < m) : clusters j < 0x0FFFFFF8 := by
  cases j with
  | zero =>
    rw [h.first]
    exact hentry
  | succ j => exact Consecutive.next_lt (h.next j hj)

/-- A start in the first sector of a cluster, or at the next one, is not skipped. -/
theorem rest_of_le (hd : d ≤ f.bytesPerSector) : f.rest d = d := by
  rw [rest, skipped, if_neg (by omega), Nat.zero_mul, Nat.sub_zero]

theorem broken_sectors (hf : f.Geometry) (hsize : (i + 1) * f.bytesPerCluster < 2 ^ 32) :
    (f.broken d c i).sectors ≤ 2 ^ 32 := by
  have hsector := hf.sector_ge
  have hle : (i + 1) * f.sectorsPerCluster ≤ (i + 1) * f.bytesPerCluster := by
    rw [bytesPerCluster]
    exact Nat.mul_le_mul_left _ (Nat.le_mul_of_pos_right _ (by omega))
  exact hle.trans hsize.le

/-- The request of a stretch that ends at a link to another place. -/
theorem readPart_broken {u : PUnit} (hf : f.Geometry) (hc : f.Addressable c)
    (hd : d < f.bytesPerCluster) (hsize : (i + 1) * f.bytesPerCluster < 2 ^ 32)
    (h : f.readPart env bufferAddress c bufferPointer (f.broken d c i) s = (.ok u, t)) :
    t.drive.disk = s.drive.disk ∧ ∀ x < (i + 1) * f.bytesPerCluster - f.rest d,
      t.memory (bufferAddress + bufferPointer + x) = s.drive.disk (f.positionAt c (d + x)) := by
  obtain ⟨hdisk, hbytes⟩ := readPart_run hf hc hd rfl rfl h
  refine ⟨hdisk, fun x hx => hbytes x hx ?_⟩
  change f.rest d + x < (i + 1) * f.sectorsPerCluster * f.bytesPerSector % 2 ^ 32
  rw [Nat.mul_assoc, ← bytesPerCluster, Nat.mod_eq_of_lt hsize]
  omega

theorem readPart_broken_ready (bufferAddress bufferPointer : ℕ) (hf : f.Geometry)
    (hc : f.Addressable c) (hd : d < f.bytesPerCluster)
    (hsize : (i + 1) * f.bytesPerCluster < 2 ^ 32) (henv : VirtioBlk.Serves env)
    (hpages : Supplies env) (hs : VirtioBlk.Ready k s) (hk : k + 1 < 2 ^ 16)
    (hbuffer : bufferAddress + bufferPointer < 2 ^ 64) (hzero : f.rest d ≠ 0 → bufferPointer = 0) :
    ∃ t, f.readPart env bufferAddress c bufferPointer (f.broken d c i) s = (.ok ⟨⟩, t) ∧
      VirtioBlk.Ready (k + 1) t := by
  have hle := hc.le
  have hskip := skipped_lt hf.sized hd
  exact readPart_ready bufferAddress bufferPointer hf henv hpages hs (hc.firstSector hf.sized hd rfl)
    (by omega) (broken_sectors hf hsize) hk hbuffer hzero

/-- The cluster numbers have room for the next one. -/
theorem Chain.next_word (hchain : f.Chain file clusters m) (hentry : file.entryCluster < 0x0FFFFFF8)
    (hline : InLine clusters j i) (hm : j + i < m) : clusters j + i + 1 < 2 ^ 32 := by
  have hlt := hchain.lt_end hentry hm
  rw [hline.eq le_rfl] at hlt
  omega

/-- Where a fragment ends, the chain goes on at another place. -/
theorem Chain.stops (hchain : f.Chain file clusters m) (hline : InLine clusters j i)
    (hstop : i < k → clusters (j + i + 1) ≠ clusters (j + i) + 1) (hi : i ≤ k) (hm : j + k < m)
    (hend : ∃ next, f.nextCluster (clusters (j + k)) = .ok next ∧ next ≠ clusters (j + k) + 1) :
    ∃ next, f.nextCluster (clusters j + i) = .ok next ∧ next ≠ clusters j + i + 1 ∧
      (i < k → next = clusters (j + i + 1)) := by
  rw [← hline.eq le_rfl]
  rcases Nat.lt_or_eq_of_le hi with hlt | rfl
  · exact ⟨_, hchain.next (j + i) (by omega), hstop hlt, fun _ => rfl⟩
  · obtain ⟨next, hnext, hne⟩ := hend
    exact ⟨next, hnext, hne, fun h => absurd h (by omega)⟩

/-- The fragments behind the first one, if the last of them ends with the range. -/
theorem readLoop_fragments (hf : f.Geometry) (hchain : f.Chain file clusters m)
    (hentry : file.entryCluster < 0x0FFFFFF8) (hm : e < m) (hn : n < 2 ^ 32)
    (hrange : (e + 1) * f.bytesPerCluster = offset + n) (hbuffer : bufferAddress + n ≤ 2 ^ 64)
    (henv : VirtioBlk.Serves env) (hpages : Supplies env)
    (hend : ∃ next, f.nextCluster (clusters e) = .ok next ∧ next ≠ clusters e + 1)
    (hj : j ≤ e) (hplace : p + offset = j * f.bytesPerCluster) (hpos : 0 < p)
    (hfuel : n + (n - p) < fuel) (hs : VirtioBlk.Ready k s)
    (hroom : k + fragments clusters j (e - j) < 2 ^ 16) :
    ∃ t, f.readLoop env bufferAddress n fuel 0 (clusters j) p s = (.ok n, t) ∧
      ∀ x < n, p ≤ x →
        t.memory (bufferAddress + x) = s.drive.disk (f.filePosition clusters (offset + x)) := by
  have hcluster := hf.cluster_pos
  induction fuel generalizing j k p s with
  | zero => exact absurd hfuel (by omega)
  | succ fuel ih =>
    obtain ⟨i, hi, hline, hstop⟩ := exists_run clusters j (e - j)
    have hje : j + (e - j) = e := by omega
    have hc := hchain.addressable j (by omega)
    obtain ⟨next, hnext, hne, heq⟩ := hchain.stops hline hstop hi (by omega) (by rw [hje]; exact hend)
    have hclusters : p + (i + 1) * f.bytesPerCluster + offset =
        (j + i + 1) * f.bytesPerCluster := by
      rw [Nat.add_assoc j, Nat.add_mul j, ← hplace]
      omega
    have hle : p + (i + 1) * f.bytesPerCluster ≤ n := by
      have hmul := Nat.mul_le_mul_right f.bytesPerCluster (show j + i + 1 ≤ e + 1 by omega)
      omega
    have hgrow : 0 < (i + 1) * f.bytesPerCluster := Nat.mul_pos (Nat.succ_pos i) hcluster
    have hgathers := gathers_broken (d := 0) hf hn (hchain.consecutive hline (by omega))
      (by rw [rest_zero]; omega) hnext hne (hchain.next_word hentry hline (by omega))
    obtain ⟨s₁, h₁, hready⟩ := readPart_broken_ready bufferAddress p (d := 0) (i := i) hf hc hcluster (by omega) henv hpages hs
      (by have := fragments_pos clusters j (e - j); omega) (by omega)
      (fun h => absurd (rest_zero f) h)
    obtain ⟨hdisk, hbytes⟩ := readPart_broken hf hc hcluster (by omega) h₁
    rw [hgathers.readLoop hcluster (by omega), Effect.bind_ok h₁]
    have hpart : ∀ x, p ≤ x → x < p + (i + 1) * f.bytesPerCluster →
        s₁.memory (bufferAddress + x) = s.drive.disk (f.filePosition clusters (offset + x)) := by
      intro x hge hlt
      obtain ⟨y, rfl⟩ := Nat.exists_eq_add_of_le hge
      have hy : y / f.bytesPerCluster ≤ i := Nat.lt_succ_iff.1 ((Nat.div_lt_iff_lt_mul hcluster).2
        (show y < (i + 1) * f.bytesPerCluster by omega))
      have hbyte := hbytes y (by rw [rest_zero]; omega)
      rw [Nat.zero_add] at hbyte
      rw [← Nat.add_assoc, hbyte, ← hline.filePosition hc.ge hcluster hy, ← hplace]
      congr 2
      omega
    have hsum : p + (f.broken 0 (clusters j) i).bytes =
        p + (i + 1) * f.bytesPerCluster := by
      change p + ((i + 1) * f.bytesPerCluster - f.rest 0) = _
      rw [rest_zero, Nat.sub_zero]
    by_cases hdone : n = p + (i + 1) * f.bytesPerCluster
    · rw [advance_done (hdone.trans hsum.symm) (by omega)]
      exact ⟨s₁, rfl, fun x hx hge => hpart x hge (by omega)⟩
    · have hlt : i < e - j := by
        by_contra hnot
        have hsame : j + i + 1 = e + 1 := by omega
        rw [hsame] at hclusters
        omega
      obtain rfl := heq hlt
      have hfragments : fragments clusters j (e - j) =
          1 + fragments clusters (j + i + 1) (e - (j + i + 1)) := by
        have hsplit : e - j = i + (e - (j + i + 1) + 1) := by omega
        rw [hsplit, fragments_line hline, fragments_break (hstop hlt)]
      obtain ⟨t, ht, hrest⟩ := ih (j := j + i + 1) (k := k + 1)
        (p := p + (i + 1) * f.bytesPerCluster) (s := s₁) (by omega) hclusters
        (by omega) (by omega) hready (by omega)
      rw [advance_next (by rw [hsum]; exact hdone) (by omega) hnext, hsum]
      refine ⟨t, ht, fun x hx hge => ?_⟩
      by_cases hin : x < p + (i + 1) * f.bytesPerCluster
      · rw [readLoop_below (by omega) ht]
        exact hpart x hge hin
      · rw [hrest x hx (by omega), hdisk]

/-- Behind the first stretch the loops take fragments to their ends, the last of them at the end
of the range. -/
theorem Completes.stops (h : f.Completes n d c bufferPointer) (hf : f.Geometry)
    (hchain : f.Chain file clusters m) (hsize : offset + n ≤ file.fileSize) (hd : d = 0)
    (hc : c = clusters j) (hplace : bufferPointer + offset = j * f.bytesPerCluster)
    (hpos : 0 < bufferPointer) (hm : j < m) :
    ∃ e, (e + 1) * f.bytesPerCluster = offset + n ∧
      ∃ next, f.nextCluster (clusters e) = .ok next ∧ next ≠ clusters e + 1 := by
  have hcluster := hf.cluster_pos
  have hsmall := file.fileSize_lt
  have henough := hchain.enough
  have hbytes : ∀ c k, (f.broken 0 c k).bytes = (k + 1) * f.bytesPerCluster := by
    intro c k
    change (k + 1) * f.bytesPerCluster - f.rest 0 = _
    rw [rest_zero, Nat.sub_zero]
  have hclusters : ∀ {j p : ℕ} (k : ℕ), p + offset = j * f.bytesPerCluster →
      p + (k + 1) * f.bytesPerCluster + offset = (j + k + 1) * f.bytesPerCluster := by
    intro j p k hp
    rw [Nat.add_assoc j, Nat.add_mul j, ← hp]
    omega
  have hline : ∀ {j k p : ℕ}, p + offset = j * f.bytesPerCluster → f.Consecutive (clusters j) k →
      p + (k + 1) * f.bytesPerCluster ≤ n → clusters (j + k) = clusters j + k := by
    intro j k p hp hrun hin
    have hend := hclusters k hp
    have hmul : (j + k + 1) * f.bytesPerCluster ≤ m * f.bytesPerCluster := by omega
    exact (hchain.inLine hrun (Nat.le_of_mul_le_mul_right hmul hcluster)).eq le_rfl
  induction h generalizing j with
  | @last d c p r hr hdone =>
    subst hd hc
    cases hr.comes hf (by omega) (by omega) with
    | full _ _ _ =>
      change n = p + n at hdone
      omega
    | @broken k next hrun _ hnext hne =>
      rw [hbytes] at hdone
      have hend := hclusters k hplace
      refine ⟨j + k, by omega, next, ?_⟩
      rw [hline hplace hrun hdone.ge]
      exact ⟨hnext, hne⟩
  | @next d c p next r hr hmore hnext h ih =>
    subst hd hc
    have hle := h.le
    cases hr.comes hf (by omega) (by omega) with
    | full _ _ _ =>
      change p + n ≤ n at hle
      omega
    | @broken k next' hrun _ hnext' hne =>
      rw [hbytes] at hle hmore
      have hend := hclusters k hplace
      have hmul : (j + k + 1) * f.bytesPerCluster < m * f.bytesPerCluster := by omega
      have hin := Nat.lt_of_mul_lt_mul_right hmul
      have hchained := hchain.next (j + k) hin
      rw [hline hplace hrun hle] at hchained
      refine ih rfl (Except.ok.inj (hnext.symm.trans hchained)) ?_ ?_ hin
      · rw [hbytes]
        exact hend
      · omega

end Fragmented

/-! ## The whole call -/

section Call

variable {f : Fat32} {env : Environment} {file : FileInfo} {clusters : ℕ → ℕ}
  {bufferAddress offset length fuel c d i j k m n : ℕ} {s t : Host}

/-- A read whose requests all succeed delivers the bytes of the file. -/
def ReadsFile (f : Fat32) (file : FileInfo) (clusters : ℕ → ℕ) (bufferAddress offset length : ℕ) :
    Prop :=
  ∀ env fuel k (s : Host), 2 ^ 64 + length < fuel → VirtioBlk.Serves env → Supplies env →
    VirtioBlk.Ready k s →
    k + fragments clusters (offset / f.bytesPerCluster) (f.links file offset length) < 2 ^ 16 →
      ∃ t, f.read env fuel file bufferAddress offset length s =
          (.ok (clamp file offset length), t) ∧
        ∀ x < clamp file offset length,
          t.memory (bufferAddress + x) = s.drive.disk (f.filePosition clusters (offset + x))

/-- The range begins in the first sector of its cluster, or right behind it, and ends with a
cluster that links to another place. -/
structure EndsWithFragment (f : Fat32) (file : FileInfo) (clusters : ℕ → ℕ) (offset length : ℕ) :
    Prop where
  start : offset % f.bytesPerCluster ≤ f.bytesPerSector
  whole : f.bytesPerCluster ∣ clamp file offset length + offset % f.bytesPerCluster
  stop : ∃ next,
    f.nextCluster (clusters (offset / f.bytesPerCluster + f.links file offset length)) = .ok next ∧
      next ≠ clusters (offset / f.bytesPerCluster + f.links file offset length) + 1

/-- The ranges that are read as they should be. -/
def Readable (f : Fat32) (file : FileInfo) (clusters : ℕ → ℕ) (offset length : ℕ) : Prop :=
  file.fileSize ≤ offset ∨
    2 ^ 16 ≤ fragments clusters (offset / f.bytesPerCluster) (f.links file offset length) ∨
    (InLine clusters (offset / f.bytesPerCluster) (f.links file offset length) ∧
      f.sectorCount (clamp file offset length) (offset % f.bytesPerCluster) * f.bytesPerSector <
        2 ^ 32) ∨
    f.EndsWithFragment file clusters offset length

theorem locate_past (hpast : file.fileSize ≤ offset) (hpos : 0 < length)
    (hword : offset + length < 2 ^ 64) : f.locate file offset length = .ok none := by
  have hlast : Checked.add 64 offset length = some (offset + length) :=
    Checked.add_eq_some.2 ⟨hword, rfl⟩
  have hout : file.fileSize < offset + length ∧ file.fileSize ≤ offset := by omega
  rw [locate, hlast, checked_some, ok_bind, if_pos hout]
  rfl

theorem read_past (hpast : file.fileSize ≤ offset) (hpos : 0 < length)
    (hword : offset + length < 2 ^ 64) :
    f.read env fuel file bufferAddress offset length s = (.ok 0, s) := by
  rw [read_eq, around, locate_past hpast hpos hword]
  rfl

theorem clamp_past (hpast : file.fileSize ≤ offset) : clamp file offset length = 0 := by
  rw [clamp]
  omega

theorem links_of_whole (hf : f.Geometry) {q : ℕ}
    (h : clamp file offset length + offset % f.bytesPerCluster = (q + 1) * f.bytesPerCluster) :
    f.links file offset length = q := by
  have hcluster := hf.cluster_pos
  rw [links, h, Nat.succ_mul, Nat.add_sub_assoc hcluster, Nat.mul_comm, Nat.mul_add_div hcluster,
    Nat.div_eq_of_lt (by omega), Nat.add_zero]

/-- The clusters of a range that ends with a cluster. -/
theorem EndsWithFragment.covers (h : f.EndsWithFragment file clusters offset length)
    (hf : f.Geometry) (hoffset : offset < file.fileSize) (hpos : 0 < length) :
    (f.links file offset length + 1) * f.bytesPerCluster =
      clamp file offset length + offset % f.bytesPerCluster := by
  have hn := clamp_pos hoffset hpos
  obtain ⟨q, hq⟩ := h.whole
  have hq0 : 0 < q := by
    apply Nat.pos_of_ne_zero
    rintro rfl
    omega
  obtain ⟨q, rfl⟩ : ∃ p, q = p + 1 := ⟨q - 1, by omega⟩
  rw [Nat.mul_comm] at hq
  rw [links_of_whole hf hq, hq]

/-- A range of several fragments that ends with the last of them is read. -/
theorem read_fragments (hf : f.Geometry) (hchain : f.Chain file clusters m)
    (hentry : file.entryCluster < 0x0FFFFFF8) (hoffset : offset < file.fileSize)
    (hpos : 0 < length) (hword : offset + length < 2 ^ 64)
    (hbuffer : bufferAddress + clamp file offset length ≤ 2 ^ 64)
    (hline : ¬InLine clusters (offset / f.bytesPerCluster) (f.links file offset length))
    (h : f.EndsWithFragment file clusters offset length) :
    f.ReadsFile file clusters bufferAddress offset length := by
  intro env fuel k s hfuel henv hpages hs hroom
  have hcluster := hf.cluster_pos
  have hn := clamp_pos hoffset hpos
  have hle := clamp_le length hoffset
  have hlength : clamp file offset length ≤ length := Nat.min_le_left _ _
  have hsmall := file.fileSize_lt
  have hd := Nat.mod_lt offset hcluster
  have hdiv := Nat.div_add_mod' offset f.bytesPerCluster
  have hwhole := h.covers hf hoffset hpos
  have hrest := rest_of_le h.start
  obtain ⟨i, hi, hrun, hstop⟩ := exists_run clusters (offset / f.bytesPerCluster)
    (f.links file offset length)
  have hlt : i < f.links file offset length := by
    rcases Nat.lt_or_eq_of_le hi with hlt | rfl
    · exact hlt
    · exact absurd hrun hline
  have hm := chain_end length hchain hoffset (k := f.links file offset length)
    (by rw [Nat.succ_mul] at hwhole; omega)
  have hc := hchain.addressable _ (hchain.index_lt hoffset)
  obtain ⟨next, hnext, hne, heq⟩ := hchain.stops hrun hstop hi hm h.stop
  obtain rfl := heq hlt
  have hmul := Nat.mul_le_mul_right f.bytesPerCluster (show i + 1 + 1 ≤ f.links file offset length + 1
    by omega)
  rw [Nat.succ_mul] at hmul
  have hgathers := gathers_broken (d := offset % f.bytesPerCluster)
    hf (show clamp file offset length < 2 ^ 32 by omega) (hchain.consecutive hrun (by omega))
    (by rw [hrest]; omega) hnext hne (hchain.next_word hentry hrun (by omega))
  obtain ⟨s₁, h₁, hready⟩ := readPart_broken_ready bufferAddress 0 (i := i) hf hc hd (by omega) henv hpages hs
    (by have := fragments_pos clusters (offset / f.bytesPerCluster) (f.links file offset length)
        omega) (by omega) (fun _ => rfl)
  obtain ⟨hdisk, hbytes⟩ := readPart_broken hf hc hd (by omega) h₁
  have hone : f.bytesPerCluster ≤ (i + 1) * f.bytesPerCluster :=
    Nat.le_mul_of_pos_left _ (Nat.succ_pos i)
  have hsum : 0 + (f.broken (offset % f.bytesPerCluster)
      (clusters (offset / f.bytesPerCluster)) i).bytes =
        (i + 1) * f.bytesPerCluster - offset % f.bytesPerCluster := by
    change 0 + ((i + 1) * f.bytesPerCluster - f.rest _) = _
    rw [hrest, Nat.zero_add]
  have hplace : (i + 1) * f.bytesPerCluster - offset % f.bytesPerCluster + offset =
      (offset / f.bytesPerCluster + i + 1) * f.bytesPerCluster := by
    rw [Nat.add_assoc _ i, Nat.add_mul (offset / _)]
    omega
  have hfragments : fragments clusters (offset / f.bytesPerCluster) (f.links file offset length) =
      1 + fragments clusters (offset / f.bytesPerCluster + i + 1)
        (offset / f.bytesPerCluster + f.links file offset length -
          (offset / f.bytesPerCluster + i + 1)) := by
    have hsplit : f.links file offset length = i + (offset / f.bytesPerCluster +
      f.links file offset length - (offset / f.bytesPerCluster + i + 1) + 1) := by omega
    conv_lhs => rw [hsplit]
    rw [fragments_line hrun, fragments_break (hstop hlt)]
  obtain ⟨fuel, rfl⟩ : ∃ more, fuel = more + 1 := ⟨fuel - 1, by omega⟩
  have hrange : (offset / f.bytesPerCluster + f.links file offset length + 1) * f.bytesPerCluster =
      offset + clamp file offset length := by
    rw [Nat.add_assoc, Nat.add_mul]
    omega
  obtain ⟨t, ht, hrestbytes⟩ := readLoop_fragments hf hchain hentry hm (by omega) hrange hbuffer
    henv hpages h.stop (by omega) hplace (by omega) (show clamp file offset length +
      (clamp file offset length - ((i + 1) * f.bytesPerCluster - offset % f.bytesPerCluster)) < fuel
        by omega) hready (by omega)
  refine ⟨t, ?_, fun x hx => ?_⟩
  · rw [read_of_locate (hchain.locate hf hoffset hword), hgathers.readLoop hd (by omega),
      Effect.bind_ok h₁, advance_next (by rw [hsum]; omega) (by omega) hnext, hsum]
    exact ht
  · by_cases hin : x < (i + 1) * f.bytesPerCluster - offset % f.bytesPerCluster
    · have hy : (offset % f.bytesPerCluster + x) / f.bytesPerCluster ≤ i :=
        Nat.lt_succ_iff.1 ((Nat.div_lt_iff_lt_mul hcluster).2
          (show offset % f.bytesPerCluster + x < (i + 1) * f.bytesPerCluster by omega))
      have hbyte := hbytes x (by rw [hrest]; exact hin)
      rw [Nat.add_zero] at hbyte
      rw [readLoop_below (by omega) ht, hbyte, split_offset f offset x,
        hrun.filePosition hc.ge hcluster hy]
    · rw [hrestbytes x hx (by omega), hdisk]

/-- A host whose disk has one byte that is not zero. -/
def markedHost (position : ℕ) : Host :=
  { servingHost with drive.disk := fun x => if x = position then 1 else 0 }

theorem markedHost_ready (position : ℕ) : VirtioBlk.Ready 0 (markedHost position) := ⟨rfl, rfl⟩

theorem servingAt_serves (address : ℕ) : VirtioBlk.Serves (servingAt address) := fun _ => rfl

/-- Different clusters are at different places. -/
theorem positionAt_injective (hf : f.Geometry) {c₁ c₂ : ℕ} (h₁ : 2 ≤ c₁) (h₂ : 2 ≤ c₂)
    (h : f.positionAt c₁ 0 = f.positionAt c₂ 0) : c₁ = c₂ := by
  have hsector := hf.sector_ge
  rw [positionAt, positionAt] at h
  have hat : f.sectorAt c₁ * f.bytesPerSector = f.sectorAt c₂ * f.bytesPerSector := by omega
  have hequal := Nat.eq_of_mul_eq_mul_right (by omega) hat
  rw [sectorAt, sectorAt] at hequal
  have hclusters := Nat.eq_of_mul_eq_mul_right hf.cluster (Nat.add_left_cancel hequal)
  omega

/-- A range that is read without the marked byte has a zero at its place. -/
theorem readPart_unmarked {position x : ℕ} {r : Stretch} {u : PUnit} (hf : f.Geometry)
    (hc : f.Addressable c) (hd : d < f.bytesPerCluster) (hoffset : r.sectorOffset = f.skipped d)
    (hrest : r.dataOffsetBackup = f.rest d) (hx : x < r.bytes)
    (hsize : r.size f = 0 ∨ f.rest d + x < r.size f) (hne : f.positionAt c (d + x) ≠ position)
    (h : f.readPart env bufferAddress c 0 r (markedHost position) = (.ok u, t)) :
    t.memory (bufferAddress + x) = 0 := by
  rcases hsize with hempty | hsize
  · obtain ⟨y, hy⟩ := readPart_empty hempty h (bufferAddress + x)
    rw [hy]
    rfl
  · have hbyte := (readPart_run hf hc hd hoffset hrest h).2 x hx hsize
    rw [Nat.add_zero] at hbyte
    rw [hbyte]
    exact if_neg hne

/-- What the first iteration has read stays in the buffer. -/
theorem readLoop_first {x y : ℕ}
    (h : f.readLoop env bufferAddress n fuel d c 0 s = (.ok y, t)) :
    ∃ r u s₁, f.Gathers n (.start d c) r ∧ f.readPart env bufferAddress c 0 r s = (.ok u, s₁) ∧
      (x < r.bytes → t.memory (bufferAddress + x) = s₁.memory (bufferAddress + x)) := by
  cases fuel with
  | zero => exact absurd h (by simp [readLoop, Effect.fail])
  | succ fuel =>
    obtain ⟨r, u, s₁, hr, hpart, h⟩ := readLoop_eq_ok h
    refine ⟨r, u, s₁, hr, hpart, fun hx => ?_⟩
    rcases advance_eq_ok h with ⟨-, rfl⟩ | ⟨-, next, -, h⟩
    · rfl
    · exact readLoop_below (by omega) h

/-- The first stretch of a range that is not in line ends with its first fragment. -/
theorem Comes.run {r : Stretch} (hf : f.Geometry) (hchain : f.Chain file clusters m)
    (hoffset : offset < file.fileSize) (hpos : 0 < length)
    (h : f.Comes (clamp file offset length) (offset % f.bytesPerCluster)
      (clusters (offset / f.bytesPerCluster)) r)
    (hrun : InLine clusters (offset / f.bytesPerCluster) i) (hi : i < f.links file offset length)
    (hstop : clusters (offset / f.bytesPerCluster + i + 1) ≠
      clusters (offset / f.bytesPerCluster + i) + 1) :
    (r = f.full (clamp file offset length) (offset % f.bytesPerCluster)
      (clusters (offset / f.bytesPerCluster)) i ∧ clamp file offset length +
        f.rest (offset % f.bytesPerCluster) ≤ (i + 1) * f.bytesPerCluster) ∨
    (r = f.broken (offset % f.bytesPerCluster) (clusters (offset / f.bytesPerCluster)) i ∧
      (i + 1) * f.bytesPerCluster < clamp file offset length +
        f.rest (offset % f.bytesPerCluster)) := by
  have hcluster := hf.cluster_pos
  have hrest := rest_le f (offset % f.bytesPerCluster)
  have hlt : (i + 1) * f.bytesPerCluster ≤
      clamp file offset length + offset % f.bytesPerCluster - 1 :=
    (Nat.le_div_iff_mul_le hcluster).1 hi
  have hn := clamp_pos hoffset hpos
  have hle : ∀ {k : ℕ}, f.Consecutive (clusters (offset / f.bytesPerCluster)) k →
      k * f.bytesPerCluster < clamp file offset length + offset % f.bytesPerCluster → k ≤ i := by
    intro k hk hin
    by_contra hnot
    have hline := hchain.inLine hk (chain_end length hchain hoffset hin)
    exact hstop (hline i (by omega))
  cases h with
  | @full k hk hin hend =>
    have hki := hle hk (by omega)
    have hik : i ≤ k := by
      have hmul : i * f.bytesPerCluster < (k + 1) * f.bytesPerCluster := by
        have hd := Nat.mod_lt offset hcluster
        rw [Nat.succ_mul] at hlt
        omega
      exact Nat.lt_succ_iff.1 (Nat.lt_of_mul_lt_mul_right hmul)
    obtain rfl := le_antisymm hki hik
    exact .inl ⟨rfl, hend⟩
  | @broken k next hk hin hnext hne =>
    have hki := hle hk (by rw [Nat.succ_mul] at hin; omega)
    rcases Nat.lt_or_eq_of_le hki with hlt' | rfl
    · have hnext' := hchain.next (offset / f.bytesPerCluster + k) (by
        have hm := chain_end length hchain hoffset (k := i) (by
          rw [Nat.succ_mul] at hlt
          omega)
        omega)
      rw [hrun.eq hki, hnext] at hnext'
      rw [Except.ok.inj hnext', hrun k hlt', hrun.eq hki] at hne
      exact absurd rfl hne
    · exact .inr ⟨rfl, hin⟩

/-- A start behind the first sector is not read over the end of a fragment. -/
theorem ReadsFile.in_line (hf : f.Geometry) (hchain : f.Chain file clusters m)
    (hoffset : offset < file.fileSize) (hpos : 0 < length) (hword : offset + length < 2 ^ 64)
    (hfew : fragments clusters (offset / f.bytesPerCluster) (f.links file offset length) < 2 ^ 16)
    (hd : f.rest (offset % f.bytesPerCluster) < offset % f.bytesPerCluster)
    (h : f.ReadsFile file clusters bufferAddress offset length) :
    InLine clusters (offset / f.bytesPerCluster) (f.links file offset length) := by
  have hcluster := hf.cluster_pos
  have hsector := hf.sector_ge
  have hmod := Nat.mod_lt offset hcluster
  have hmodle := Nat.mod_le offset f.bytesPerCluster
  have hn := clamp_pos hoffset hpos
  have hle := clamp_le length hoffset
  have hsmall := file.fileSize_lt
  have hc := hchain.addressable _ (hchain.index_lt hoffset)
  obtain ⟨i, hi, hrun, hstop⟩ := exists_run clusters (offset / f.bytesPerCluster)
    (f.links file offset length)
  rcases Nat.lt_or_eq_of_le hi with hlt | rfl
  · have hin : (i + 1) * f.bytesPerCluster ≤
        clamp file offset length + offset % f.bytesPerCluster - 1 :=
      (Nat.le_div_iff_mul_le hcluster).1 hlt
    have hgrow : f.bytesPerCluster ≤ (i + 1) * f.bytesPerCluster :=
      Nat.le_mul_of_pos_left _ (Nat.succ_pos i)
    obtain ⟨x, hx⟩ : ∃ x, offset % f.bytesPerCluster + x = (i + 1) * f.bytesPerCluster :=
      ⟨(i + 1) * f.bytesPerCluster - offset % f.bytesPerCluster, by omega⟩
    obtain ⟨t, ht, hbytes⟩ := h (servingAt 0) (2 ^ 64 + length + 1) 0
      (markedHost (f.filePosition clusters (offset + x))) (Nat.lt_succ_self _) (servingAt_serves 0)
      (servingAt_supplies 0) (markedHost_ready _) (by omega)
    have hone : t.memory (bufferAddress + x) = 1 := (hbytes x (by omega)).trans (if_pos rfl)
    rw [read_of_locate (hchain.locate hf hoffset hword)] at ht
    obtain ⟨r, u, s₁, hr, hpart, hfirst⟩ := readLoop_first (x := x) ht
    have hnext := hchain.addressable (offset / f.bytesPerCluster + i + 1)
      (chain_end length hchain hoffset (k := i + 1) (by omega))
    have hplace : f.filePosition clusters (offset + x) =
        f.positionAt (clusters (offset / f.bytesPerCluster + i + 1)) 0 := by
      have hindex : offset + x = (offset / f.bytesPerCluster + i + 1) * f.bytesPerCluster := by
        rw [split_offset f offset x, hx, Nat.add_assoc _ i, Nat.add_mul (offset / _)]
      rw [hindex, filePosition, Nat.mul_div_cancel _ hcluster, Nat.mul_mod_left]
    have hother : f.positionAt (clusters (offset / f.bytesPerCluster))
        (offset % f.bytesPerCluster + x) ≠ f.filePosition clusters (offset + x) := by
      intro heq
      rw [hplace, hx, ← Nat.add_zero ((i + 1) * f.bytesPerCluster), ← positionAt_add hc.ge] at heq
      have hsame := positionAt_injective hf (hc.ge.trans (Nat.le_add_right _ _)) hnext.ge heq
      rw [← Nat.add_assoc, ← hrun.eq le_rfl] at hsame
      exact hstop hlt hsame.symm
    have hzero : s₁.memory (bufferAddress + x) = 0 ∧ x < r.bytes := by
      rcases (hr.comes hf hn (by omega)).run hf hchain hoffset hpos hrun hlt (hstop hlt) with
        ⟨rfl, -⟩ | ⟨rfl, hbroken⟩
      · have hcount := le_sectorCount (f := f) (by omega) (clamp file offset length)
          (offset % f.bytesPerCluster)
        have hword' := sectorCount_le_word hf (n := clamp file offset length)
          (d := offset % f.bytesPerCluster) (by omega)
        refine ⟨readPart_unmarked hf hc hmod rfl rfl (show x < clamp file offset length by omega)
          ?_ hother hpart, show x < clamp file offset length by omega⟩
        change f.sectorCount _ _ * f.bytesPerSector % 2 ^ 32 = 0 ∨
          _ < f.sectorCount _ _ * f.bytesPerSector % 2 ^ 32
        rcases Nat.lt_or_eq_of_le hword' with hfits | hfull
        · right
          rw [Nat.mod_eq_of_lt hfits]
          omega
        · left
          rw [hfull, Nat.mod_self]
      · have hmore : x < (i + 1) * f.bytesPerCluster - f.rest (offset % f.bytesPerCluster) := by
          omega
        have hfits : (i + 1) * f.bytesPerCluster < 2 ^ 32 := by omega
        refine ⟨readPart_unmarked hf hc hmod rfl rfl hmore (.inr ?_) hother hpart, hmore⟩
        change f.rest _ + x < (i + 1) * f.sectorsPerCluster * f.bytesPerSector % 2 ^ 32
        rw [Nat.mul_assoc, ← bytesPerCluster, Nat.mod_eq_of_lt hfits]
        omega
    rw [hfirst hzero.2, hzero.1] at hone
    exact absurd hone (by decide)
  · exact hrun

/-- A range of several fragments whose start is not skipped is completed with the last of them. -/
theorem Completes.endsWithFragment (hf : f.Geometry) (hchain : f.Chain file clusters m)
    (hoffset : offset < file.fileSize) (hpos : 0 < length)
    (hline : ¬InLine clusters (offset / f.bytesPerCluster) (f.links file offset length))
    (hrest : f.rest (offset % f.bytesPerCluster) = offset % f.bytesPerCluster)
    (h : f.Completes (clamp file offset length) (offset % f.bytesPerCluster)
      (clusters (offset / f.bytesPerCluster)) 0) :
    f.EndsWithFragment file clusters offset length := by
  have hcluster := hf.cluster_pos
  have hsector := hf.sector_ge
  have hmod := Nat.mod_lt offset hcluster
  have hn := clamp_pos hoffset hpos
  have hle := clamp_le length hoffset
  have hsmall := file.fileSize_lt
  have hstart : offset % f.bytesPerCluster ≤ f.bytesPerSector := by
    rw [← hrest]
    exact rest_le_sector (by omega) _
  obtain ⟨i, hi, hrun, hstop⟩ := exists_run clusters (offset / f.bytesPerCluster)
    (f.links file offset length)
  have hlt : i < f.links file offset length := by
    rcases Nat.lt_or_eq_of_le hi with hlt | rfl
    · exact hlt
    · exact absurd hrun hline
  have hin : (i + 1) * f.bytesPerCluster ≤
      clamp file offset length + offset % f.bytesPerCluster - 1 :=
    (Nat.le_div_iff_mul_le hcluster).1 hlt
  have hgrow : f.bytesPerCluster ≤ (i + 1) * f.bytesPerCluster :=
    Nat.le_mul_of_pos_left _ (Nat.succ_pos i)
  have hm := chain_end length hchain hoffset (k := i + 1) (by omega)
  have hdiv := Nat.div_add_mod' offset f.bytesPerCluster
  have hfirst : ∀ {r}, f.Gathers (clamp file offset length)
      (.start (offset % f.bytesPerCluster) (clusters (offset / f.bytesPerCluster))) r →
        r.bytes = (i + 1) * f.bytesPerCluster - offset % f.bytesPerCluster ∧
          r.cluster = clusters (offset / f.bytesPerCluster) + i := by
    intro r hr
    rcases (hr.comes hf hn (by omega)).run hf hchain hoffset hpos hrun hlt (hstop hlt) with
      ⟨-, hfull⟩ | ⟨rfl, -⟩
    · omega
    · refine ⟨?_, rfl⟩
      change (i + 1) * f.bytesPerCluster - f.rest _ = _
      rw [hrest]
  have hplace : (i + 1) * f.bytesPerCluster - offset % f.bytesPerCluster + offset =
      (offset / f.bytesPerCluster + i + 1) * f.bytesPerCluster := by
    rw [Nat.add_assoc _ i, Nat.add_mul (offset / _)]
    omega
  cases h with
  | last hr hdone =>
    rw [(hfirst hr).1] at hdone
    omega
  | next hr hmore hnext h =>
    obtain ⟨hbytes, hcluster'⟩ := hfirst hr
    have hchained := hchain.next (offset / f.bytesPerCluster + i) hm
    rw [hrun.eq le_rfl, ← hcluster'] at hchained
    rw [hbytes, Nat.zero_add] at h
    obtain ⟨e, he, hend⟩ := h.stops hf hchain hle rfl (Except.ok.inj (hnext.symm.trans hchained))
      hplace (by omega) hm
    have hbefore : offset / f.bytesPerCluster < e + 1 := by
      have hmul : offset / f.bytesPerCluster * f.bytesPerCluster < (e + 1) * f.bytesPerCluster := by
        omega
      exact Nat.lt_of_mul_lt_mul_right hmul
    obtain ⟨q, rfl⟩ := Nat.exists_eq_add_of_le (Nat.lt_succ_iff.1 hbefore)
    have hwhole : clamp file offset length + offset % f.bytesPerCluster =
        (q + 1) * f.bytesPerCluster := by
      rw [Nat.add_assoc, Nat.add_mul (offset / _)] at he
      omega
    refine ⟨hstart, hwhole ▸ Nat.dvd_mul_left _ _, ?_⟩
    rw [links_of_whole hf hwhole]
    exact hend

/-- A read of several fragments that succeeds has stopped with the last of them. -/
theorem ReadsFile.ends (hf : f.Geometry) (hchain : f.Chain file clusters m)
    (hoffset : offset < file.fileSize) (hpos : 0 < length) (hword : offset + length < 2 ^ 64)
    (hfew : fragments clusters (offset / f.bytesPerCluster) (f.links file offset length) < 2 ^ 16)
    (hline : ¬InLine clusters (offset / f.bytesPerCluster) (f.links file offset length))
    (h : f.ReadsFile file clusters bufferAddress offset length) :
    f.EndsWithFragment file clusters offset length := by
  have hrest : f.rest (offset % f.bytesPerCluster) = offset % f.bytesPerCluster := by
    by_contra hne
    have hlt := lt_of_le_of_ne (rest_le f (offset % f.bytesPerCluster)) hne
    exact hline (h.in_line hf hchain hoffset hpos hword hfew hlt)
  obtain ⟨t, ht, -⟩ := h (servingAt 0) (2 ^ 64 + length + 1) 0 servingHost (Nat.lt_succ_self _)
    (servingAt_serves 0) (servingAt_supplies 0) ⟨rfl, rfl⟩ (by omega)
  rw [read_of_locate (hchain.locate hf hoffset hword)] at ht
  exact (readLoop_completes ht).endsWithFragment hf hchain hoffset hpos hline hrest

theorem ReadsFile.readable (hf : f.Geometry) (hchain : f.Chain file clusters m) (hpos : 0 < length)
    (hword : offset + length < 2 ^ 64) (h : f.ReadsFile file clusters bufferAddress offset length) :
    f.Readable file clusters offset length := by
  by_cases hpast : file.fileSize ≤ offset
  · exact .inl hpast
  by_cases hmany : 2 ^ 16 ≤ fragments clusters (offset / f.bytesPerCluster)
      (f.links file offset length)
  · exact .inr (.inl hmany)
  have hoffset := Nat.lt_of_not_le hpast
  have hfew := Nat.lt_of_not_le hmany
  by_cases hline : InLine clusters (offset / f.bytesPerCluster) (f.links file offset length)
  · refine .inr (.inr (.inl ⟨hline, ?_⟩))
    by_contra hsize
    obtain ⟨t, ht, hbytes⟩ := h (servingAt 0) (2 ^ 64 + length + 1) 0 servingHost
      (Nat.lt_succ_self _) (servingAt_serves 0) (servingAt_supplies 0) ⟨rfl, rfl⟩ (by omega)
    have hone := hbytes 0 (clamp_pos hoffset hpos)
    obtain ⟨y, hy⟩ := read_line_missing hf hchain hoffset hpos hword hline hsize
      (Nat.lt_succ_self _) ht (bufferAddress + 0)
    rw [hy] at hone
    exact absurd hone (by simp [servingHost])
  · exact .inr (.inr (.inr (h.ends hf hchain hoffset hpos hword hfew hline)))

theorem EndsWithFragment.size_lt (h : f.EndsWithFragment file clusters offset length)
    (hf : f.Geometry) (hoffset : offset < file.fileSize) (hpos : 0 < length) :
    f.sectorCount (clamp file offset length) (offset % f.bytesPerCluster) * f.bytesPerSector <
      2 ^ 32 := by
  have hsector := hf.sector_ge
  have hle := clamp_le length hoffset
  have hsmall := file.fileSize_lt
  have hmod := Nat.mod_le offset f.bytesPerCluster
  obtain ⟨q, hq⟩ := h.whole
  have hsectors : clamp file offset length + f.rest (offset % f.bytesPerCluster) =
      q * f.sectorsPerCluster * f.bytesPerSector := by
    rw [rest_of_le h.start, hq, bytesPerCluster]
    ring
  have hcount := sectorCount_le f (clamp file offset length) (offset % f.bytesPerCluster)
  have hlt : f.sectorCount (clamp file offset length) (offset % f.bytesPerCluster) *
      f.bytesPerSector < (q * f.sectorsPerCluster + 1) * f.bytesPerSector := by
    have hn := clamp_pos hoffset hpos
    rw [Nat.succ_mul]
    omega
  have hfew := Nat.lt_succ_iff.1 (Nat.lt_of_mul_lt_mul_right hlt)
  have hmul := Nat.mul_le_mul_right f.bytesPerSector hfew
  rw [← hsectors, rest_of_le h.start] at hmul
  omega

theorem Readable.readsFile (hf : f.Geometry) (hchain : f.Chain file clusters m)
    (hentry : file.entryCluster < 0x0FFFFFF8) (hpos : 0 < length) (hword : offset + length < 2 ^ 64)
    (hbuffer : bufferAddress + clamp file offset length ≤ 2 ^ 64)
    (h : f.Readable file clusters offset length) :
    f.ReadsFile file clusters bufferAddress offset length := by
  by_cases hpast : file.fileSize ≤ offset
  · intro env fuel k s _ _ _ _ _
    rw [read_past hpast hpos hword, clamp_past hpast]
    exact ⟨s, rfl, fun x hx => absurd hx (by omega)⟩
  have hoffset := Nat.lt_of_not_le hpast
  have hn := clamp_pos hoffset hpos
  by_cases hline : InLine clusters (offset / f.bytesPerCluster) (f.links file offset length)
  · intro env fuel k s hfuel henv hpages hs hroom
    have hfew := fragments_pos clusters (offset / f.bytesPerCluster) (f.links file offset length)
    have hsize : f.sectorCount (clamp file offset length) (offset % f.bytesPerCluster) *
        f.bytesPerSector < 2 ^ 32 := by
      rcases h with h | h | h | h
      · exact absurd h hpast
      · omega
      · exact h.2
      · exact h.size_lt hf hoffset hpos
    obtain ⟨t, ht, -⟩ := read_line_ready hf hchain hoffset hpos hword
      (show bufferAddress < 2 ^ 64 by omega) hline hfuel henv hpages hs (by omega)
    refine ⟨t, ht, fun x hx => ?_⟩
    rw [(read_line hf hchain hoffset hpos hword hline hsize hfuel ht).2 x hx, plainByte_eq]
  · rcases h with h | h | h | h
    · exact absurd h hpast
    · intro env fuel k s _ _ _ _ hroom
      omega
    · exact absurd h.1 hline
    · exact read_fragments hf hchain hentry hoffset hpos hword hbuffer hline h

/-- Exactly these ranges are read as they should be. -/
theorem readsFile_iff (hf : f.Geometry) (hchain : f.Chain file clusters m)
    (hentry : file.entryCluster < 0x0FFFFFF8) (hpos : 0 < length) (hword : offset + length < 2 ^ 64)
    (hbuffer : bufferAddress + clamp file offset length ≤ 2 ^ 64) :
    f.ReadsFile file clusters bufferAddress offset length ↔
      f.Readable file clusters offset length :=
  ⟨ReadsFile.readable hf hchain hpos hword, Readable.readsFile hf hchain hentry hpos hword hbuffer⟩

/-- A volume with a file of three clusters that are not in line. -/
def splitVolume : Fat32 where
  baseLba := 4096
  lbaSize := 512
  bytesPerSector := 4096
  sectorsPerCluster := 8
  reservedSectors := 32
  fatSectors := 2
  numberOfFats := 2
  fat i := if i = 2 then 5 else if i = 5 then 9 else 0x0FFFFFFF
  bytesPerSector_lt := by decide
  sectorsPerCluster_lt := by decide

def splitFile : FileInfo where
  entryCluster := 2
  fileSize := 98304
  fileSize_lt := by decide

def splitClusters (j : ℕ) : ℕ := if j = 0 then 2 else if j = 1 then 5 else 9

theorem splitVolume_geometry : splitVolume.Geometry where
  sector := ⟨12, by decide, rfl⟩
  cluster := by decide
  block := dvd_rfl
  block_pos := by decide
  block_le := by decide
  disk := by decide

theorem splitFile_chain : splitVolume.Chain splitFile splitClusters 3 where
  first := rfl
  next j hj := by
    obtain rfl | rfl : j = 0 ∨ j = 1 := by omega
    · rfl
    · rfl
  addressable j hj := by
    obtain rfl | rfl | rfl : j = 0 ∨ j = 1 ∨ j = 2 := by omega
    · exact ⟨by decide, by decide⟩
    · exact ⟨by decide, by decide⟩
    · exact ⟨by decide, by decide⟩
  enough := by decide

/-- The first two fragments are read. -/
theorem split_read : splitVolume.ReadsFile splitFile splitClusters 0x1000 0 65536 :=
  (readsFile_iff splitVolume_geometry splitFile_chain (by decide) (by decide) (by decide)
    (by decide)).2 (.inr (.inr (.inr ⟨by decide, by decide, 9, rfl, by decide⟩)))

/-- The whole file is not. -/
theorem split_file_not_read : splitVolume.Geometry ∧
    splitVolume.Chain splitFile splitClusters 3 ∧
    ¬splitVolume.ReadsFile splitFile splitClusters 0x1000 0 98304 := by
  refine ⟨splitVolume_geometry, splitFile_chain, fun h => ?_⟩
  rcases h.readable splitVolume_geometry splitFile_chain (by decide) (by decide) with
    hpast | hmany | ⟨hline, -⟩ | hend
  · exact absurd hpast (by decide)
  · exact absurd hmany (by decide)
  · exact absurd (hline 0 (by decide)) (by decide)
  · obtain ⟨next, hnext, -⟩ := hend.stop
    exact absurd hnext (by simp [nextCluster, getNextCluster, splitVolume, splitClusters, splitFile,
      links, clamp, bytesPerCluster])

end Call

end Fat32

end MiniVisor
