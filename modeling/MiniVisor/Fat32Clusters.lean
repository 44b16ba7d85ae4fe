import MiniVisor.Fat32Bounds

/-!
# The clusters of a file

Where the bytes of a file are on the disk, and what the inner loops of `read` and `write` make
of a run of consecutive clusters. A start in the middle of a cluster is split into sectors,
which the request skips, and a rest. The rest is at most one sector; the loops then count
clusters from the first sector of the request, not from the first sector of a cluster.
-/
namespace MiniVisor

open Effects

namespace Fat32

/-- The geometry of a volume: the caller gives blocks of 512 bytes and an address of 32 bits. -/
structure Geometry (f : Fat32) : Prop where
  sector : ∃ k, 9 ≤ k ∧ f.bytesPerSector = 2 ^ k
  cluster : 0 < f.sectorsPerCluster
  block : 512 ∣ f.lbaSize
  block_pos : 0 < f.lbaSize
  block_le : f.lbaSize ≤ 2 ^ 32
  disk : f.baseLba * f.lbaSize + 2 ^ 32 * f.bytesPerSector ≤ 2 ^ 64

/-- Sectors and clusters have a size, and no address on the disk overflows. -/
structure Sized (f : Fat32) : Prop where
  sector : 0 < f.bytesPerSector
  cluster : 0 < f.sectorsPerCluster
  block_pos : 0 < f.lbaSize
  block_le : f.lbaSize ≤ 2 ^ 32
  disk : f.baseLba * f.lbaSize + 2 ^ 32 * f.bytesPerSector ≤ 2 ^ 64

/-- The first sector of a cluster. -/
def sectorAt (f : Fat32) (cluster : ℕ) : ℕ :=
  f.reservedSectors + f.numberOfFats * f.fatSectors + (cluster - 2) * f.sectorsPerCluster

/-- The sectors of the cluster have numbers of 32 bits. -/
structure Addressable (f : Fat32) (cluster : ℕ) : Prop where
  ge : 2 ≤ cluster
  le : f.sectorAt cluster + f.sectorsPerCluster ≤ 2 ^ 32

/-- The position on the disk of a byte that is `offset` bytes behind a cluster's beginning. -/
def positionAt (f : Fat32) (cluster offset : ℕ) : ℕ :=
  f.baseLba * f.lbaSize + f.sectorAt cluster * f.bytesPerSector + offset

/-- The clusters of a file, in the order of its chain. -/
structure Chain (f : Fat32) (file : FileInfo) (clusters : ℕ → ℕ) (m : ℕ) : Prop where
  first : clusters 0 = file.entryCluster
  next : ∀ j, j + 1 < m → f.nextCluster (clusters j) = .ok (clusters (j + 1))
  addressable : ∀ j < m, f.Addressable (clusters j)
  enough : file.fileSize ≤ m * f.bytesPerCluster

/-- The position on the disk of byte `j` of the file. -/
def filePosition (f : Fat32) (clusters : ℕ → ℕ) (j : ℕ) : ℕ :=
  f.positionAt (clusters (j / f.bytesPerCluster)) (j % f.bytesPerCluster)

section Geometry

variable {f : Fat32} {file : FileInfo} {clusters : ℕ → ℕ} {c d k m : ℕ}

theorem Geometry.sector_ge (h : f.Geometry) : 512 ≤ f.bytesPerSector := by
  obtain ⟨k, hk, hsector⟩ := h.sector
  rw [hsector]
  exact Nat.pow_le_pow_right (show 0 < 2 by decide) hk

theorem Geometry.sized (h : f.Geometry) : f.Sized where
  sector := Nat.lt_of_lt_of_le (by decide) h.sector_ge
  cluster := h.cluster
  block_pos := h.block_pos
  block_le := h.block_le
  disk := h.disk

theorem Sized.cluster_pos (h : f.Sized) : 0 < f.bytesPerCluster := Nat.mul_pos h.cluster h.sector

theorem Geometry.sector_dvd (h : f.Geometry) : 512 ∣ f.bytesPerSector := by
  obtain ⟨k, hk, hsector⟩ := h.sector
  rw [hsector]
  exact Nat.pow_dvd_pow 2 hk

theorem Geometry.sector_dvd_word (h : f.Geometry) : f.bytesPerSector ∣ 2 ^ 32 := by
  obtain ⟨k, -, hsector⟩ := h.sector
  have hlt := f.bytesPerSector_lt
  rw [hsector] at hlt ⊢
  have hk : k < 16 := (Nat.pow_lt_pow_iff_right (by decide)).1 hlt
  exact Nat.pow_dvd_pow 2 (by omega)

theorem Geometry.cluster_pos (h : f.Geometry) : 0 < f.bytesPerCluster := by
  have hsector := h.sector_ge
  exact Nat.mul_pos h.cluster (by omega)

theorem Addressable.clusterToSector (h : f.Addressable c) (hf : f.Sized) :
    f.clusterToSector c = some (f.sectorAt c) := by
  have hle := h.le
  have hge := h.ge
  have hcluster := hf.cluster
  rw [sectorAt] at hle ⊢
  rw [Fat32.clusterToSector]
  simp only [Option.bind_eq_bind, Option.bind_eq_some_iff]
  refine ⟨_, Checked.mul_eq_some.2 ⟨?_, rfl⟩, _, Checked.add_eq_some.2 ⟨?_, rfl⟩, _,
    Checked.sub_eq_some.2 ⟨hge, rfl⟩, _, Checked.mul_eq_some.2 ⟨?_, rfl⟩,
    Checked.add_eq_some.2 ⟨?_, rfl⟩⟩
  all_goals omega

/-- Consecutive clusters are next to each other on the disk. -/
theorem positionAt_add (hc : 2 ≤ c) (k offset : ℕ) :
    f.positionAt (c + k) offset = f.positionAt c (k * f.bytesPerCluster + offset) := by
  have hindex : c + k - 2 = (c - 2) + k := by omega
  rw [positionAt, positionAt, sectorAt, sectorAt, hindex, bytesPerCluster]
  ring

theorem Chain.skipClusters (h : f.Chain file clusters m) : ∀ {k j : ℕ}, j + k < m →
    f.skipClusters k (clusters j) = .ok (clusters (j + k)) := by
  intro k
  induction k with
  | zero => exact fun _ => rfl
  | succ k ih =>
    intro j hj
    rw [Fat32.skipClusters, h.next j (by omega)]
    have hrest := ih (j := j + 1) (by omega)
    rw [show j + (k + 1) = j + 1 + k by omega]
    exact hrest

/-- A byte of the file is in a cluster of its chain. -/
theorem Chain.index_lt (h : f.Chain file clusters m) {j : ℕ} (hj : j < file.fileSize) :
    j / f.bytesPerCluster < m := by
  apply Nat.div_lt_of_lt_mul
  rw [Nat.mul_comm]
  exact hj.trans_le h.enough

theorem Chain.locate (h : f.Chain file clusters m) (hf : f.Geometry) {offset length : ℕ}
    (hoffset : offset < file.fileSize) (hword : offset + length < 2 ^ 64) :
    f.locate file offset length = .ok (some (clamp file offset length,
      offset % f.bytesPerCluster, clusters (offset / f.bytesPerCluster))) := by
  have hskip := h.skipClusters (k := offset / f.bytesPerCluster) (j := 0)
    (by rw [Nat.zero_add]; exact h.index_lt hoffset)
  rw [h.first, Nat.zero_add] at hskip
  have hlast : Checked.add 64 offset length = some (offset + length) :=
    Checked.add_eq_some.2 ⟨hword, rfl⟩
  have hout : ¬(file.fileSize < offset + length ∧ file.fileSize ≤ offset) := by omega
  have hmod : offset - offset / f.bytesPerCluster * f.bytesPerCluster =
      offset % f.bytesPerCluster := by
    have hdiv := Nat.div_add_mod offset f.bytesPerCluster
    rw [Nat.mul_comm]
    omega
  have hclamp : (if file.fileSize < offset + length then file.fileSize - offset else length) =
      clamp file offset length := by
    rw [clamp]
    split_ifs <;> omega
  unfold Fat32.locate
  simp only [hlast, checked, if_neg hout, if_neg hf.cluster_pos.ne', hskip, hmod, hclamp,
    bind, Except.bind, pure, Except.pure]

end Geometry

/-! ## A run of consecutive clusters -/

/-- The sectors that a start `d` bytes into a cluster skips. -/
def skipped (f : Fat32) (d : ℕ) : ℕ := if f.bytesPerSector < d then d / f.bytesPerSector else 0

/-- The bytes that it skips in the first sector of the request. -/
def rest (f : Fat32) (d : ℕ) : ℕ := d - f.skipped d * f.bytesPerSector

/-- The sectors of a request that takes `length` bytes. -/
def sectorCount (f : Fat32) (length d : ℕ) : ℕ := (length + f.rest d - 1) / f.bytesPerSector + 1

/-- The stretch after `k` whole clusters from `c` on. -/
def mid (f : Fat32) (d c k : ℕ) : Stretch where
  sectors := k * f.sectorsPerCluster
  bytes := k * f.bytesPerCluster - f.rest d
  sectorOffset := f.skipped d
  dataOffset := if k = 0 then f.rest d else 0
  dataOffsetBackup := f.rest d
  cluster := c + k

/-- The stretch that ends with the length, in cluster number `k`. -/
def full (f : Fat32) (length d c k : ℕ) : Stretch :=
  { f.mid d c k with
    sectors := f.sectorCount length d
    bytes := length }

/-- The stretch that ends with cluster number `k`. -/
def broken (f : Fat32) (d c k : ℕ) : Stretch :=
  { f.mid d c k with
    sectors := (k + 1) * f.sectorsPerCluster
    bytes := (k + 1) * f.bytesPerCluster - f.rest d }

/-- The clusters from `c` to `c + k` are linked. -/
def Consecutive (f : Fat32) (c k : ℕ) : Prop := ∀ i < k, f.nextCluster (c + i) = .ok (c + i + 1)

section Run

variable {f : Fat32} {c d k length : ℕ}

theorem skipped_rest (f : Fat32) (d : ℕ) : f.skipped d * f.bytesPerSector + f.rest d = d := by
  have hle : f.skipped d * f.bytesPerSector ≤ d := by
    unfold skipped
    split_ifs
    · exact Nat.div_mul_le_self d f.bytesPerSector
    · omega
  rw [rest]
  omega

theorem rest_le (f : Fat32) (d : ℕ) : f.rest d ≤ d := Nat.sub_le _ _

theorem rest_zero (f : Fat32) : f.rest 0 = 0 := Nat.le_zero.1 (rest_le f 0)

theorem rest_le_sector (hf : 0 < f.bytesPerSector) (d : ℕ) : f.rest d ≤ f.bytesPerSector := by
  unfold rest skipped
  split_ifs with h
  · have hmod := Nat.mod_lt d hf
    have hdiv := Nat.div_add_mod d f.bytesPerSector
    rw [Nat.mul_comm]
    omega
  · omega

theorem skipSectors_start (f : Fat32) (d c : ℕ) : f.skipSectors (.start d c) = f.mid d c 0 := by
  unfold skipSectors Stretch.start mid rest skipped
  split_ifs <;> simp_all

theorem skipSectors_mid (hf : 0 < f.bytesPerSector) : f.skipSectors (f.mid d c k) = f.mid d c k := by
  have hle := rest_le_sector hf d
  rw [skipSectors, if_neg]
  unfold mid
  dsimp only
  split_ifs <;> omega

theorem rest_le_cluster (hf : f.Sized) (d : ℕ) : f.rest d ≤ f.bytesPerCluster :=
  (rest_le_sector hf.sector d).trans (Nat.le_mul_of_pos_left _ hf.cluster)

theorem skipped_lt (hf : f.Sized) (hd : d < f.bytesPerCluster) :
    f.skipped d < f.sectorsPerCluster := by
  have hpos := hf.cluster
  unfold skipped
  split_ifs
  · exact Nat.div_lt_of_lt_mul (by rw [Nat.mul_comm]; exact hd)
  · exact hpos

/-- The first sector of the request. -/
theorem Addressable.firstSector {r : Stretch} (h : f.Addressable c) (hf : f.Sized)
    (hd : d < f.bytesPerCluster) (hr : r.sectorOffset = f.skipped d) :
    f.firstSector c r = some (f.sectorAt c + f.skipped d) := by
  have hlt := skipped_lt hf hd
  have hle := h.le
  rw [Fat32.firstSector, h.clusterToSector hf, hr]
  exact Checked.add_eq_some.2 ⟨by omega, rfl⟩

/-- What is left for cluster number `k`. -/
theorem mid_left (hf : f.Sized) (hk : k = 0 ∨ k * f.bytesPerCluster < length + f.rest d) :
    (f.mid d c k).bytes ≤ length ∧
      length - (f.mid d c k).bytes + (f.mid d c k).dataOffset =
        length + f.rest d - k * f.bytesPerCluster := by
  have hcluster := rest_le_cluster hf d
  unfold mid
  dsimp only
  cases k with
  | zero => simp only [Nat.zero_mul, if_true]; omega
  | succ k =>
    have hone : f.bytesPerCluster ≤ (k + 1) * f.bytesPerCluster :=
      Nat.le_mul_of_pos_left _ (Nat.succ_pos k)
    rw [if_neg (Nat.succ_ne_zero k)]
    omega

theorem checked_some {α : Type} (a : α) : checked (some a) = .ok a := rfl

theorem ok_bind {α β : Type} (a : α) (g : α → Except Fault β) : (Except.ok a >>= g) = g a := rfl

theorem Geometry.sectorCount_lt (hf : f.Geometry) (hlength : length < 2 ^ 32) :
    f.sectorCount length d < 2 ^ 32 := by
  have hsector := hf.sector_ge
  have hle := rest_le_sector hf.sized.sector d
  have hlt := f.bytesPerSector_lt
  have hfew : (length + f.rest d - 1) / f.bytesPerSector < 2 ^ 32 - 1 := by
    apply Nat.div_lt_of_lt_mul
    calc length + f.rest d - 1 < 2 ^ 33 := by omega
      _ ≤ 512 * (2 ^ 32 - 1) := by norm_num
      _ ≤ f.bytesPerSector * (2 ^ 32 - 1) := Nat.mul_le_mul_right _ hsector
  rw [sectorCount]
  omega

/-- The last part of a stretch that ends with the length. -/
theorem Sized.extend_full (hf : f.Sized) (hlength : length < 2 ^ 32)
    (hfew : f.sectorCount length d < 2 ^ 32)
    (hk : k = 0 ∨ k * f.bytesPerCluster < length + f.rest d)
    (hend : length + f.rest d ≤ (k + 1) * f.bytesPerCluster) :
    f.extend length (f.mid d c k) = .ok (f.full length d c k, true) := by
  have hle := rest_le_sector hf.sector d
  have hlt := f.bytesPerSector_lt
  obtain ⟨hbytes, hspan⟩ := mid_left (c := c) hf hk
  have hsub : Checked.sub length (f.mid d c k).bytes = some (length - (f.mid d c k).bytes) :=
    Checked.sub_eq_some.2 ⟨hbytes, rfl⟩
  have hadd : Checked.add 64 (length - (f.mid d c k).bytes) (f.mid d c k).dataOffset =
      some (length + f.rest d - k * f.bytesPerCluster) :=
    Checked.add_eq_some.2 ⟨by omega, hspan.symm⟩
  have hcluster : length + f.rest d - k * f.bytesPerCluster ≤ f.bytesPerCluster := by
    rw [Nat.succ_mul] at hend
    omega
  have hmax : max (length + f.rest d - k * f.bytesPerCluster) 1 - 1 =
      length + f.rest d - 1 - k * f.sectorsPerCluster * f.bytesPerSector := by
    rw [Nat.mul_assoc, ← bytesPerCluster]
    omega
  have hcount : k * f.sectorsPerCluster +
      (1 + (max (length + f.rest d - k * f.bytesPerCluster) 1 - 1) / f.bytesPerSector) % 2 ^ 32 =
        f.sectorCount length d := by
    have hwhole : k * f.sectorsPerCluster * f.bytesPerSector ≤ length + f.rest d - 1 := by
      rw [Nat.mul_assoc, ← bytesPerCluster]
      rcases hk with rfl | hk
      · omega
      · omega
    have hdiv : (length + f.rest d - 1) / f.bytesPerSector =
        (length + f.rest d - 1 - k * f.sectorsPerCluster * f.bytesPerSector) / f.bytesPerSector +
          k * f.sectorsPerCluster := by
      conv_lhs => rw [← Nat.sub_add_cancel hwhole]
      exact Nat.add_mul_div_right _ _ hf.sector
    rw [sectorCount, hdiv] at hfew
    rw [hmax, sectorCount, hdiv, Nat.mod_eq_of_lt (by omega)]
    omega
  have hsectors : Checked.add 32 (f.mid d c k).sectors
      ((1 + (max (length + f.rest d - k * f.bytesPerCluster) 1 - 1) / f.bytesPerSector) % 2 ^ 32) =
        some (f.sectorCount length d) := by
    refine Checked.add_eq_some.2 ⟨?_, hcount.symm⟩
    change k * f.sectorsPerCluster + _ < 2 ^ 32
    rw [hcount]
    exact hfew
  have hfull : (f.mid d c k).bytes + (length - (f.mid d c k).bytes) = length := by omega
  unfold extend
  simp only [hsub, hadd, checked_some, ok_bind, if_pos hcluster, hsectors, hfull]
  rfl

theorem extend_mid_full (hf : f.Geometry) (hlength : length < 2 ^ 32)
    (hk : k * f.bytesPerCluster < length + f.rest d)
    (hend : length + f.rest d ≤ (k + 1) * f.bytesPerCluster) :
    f.extend length (f.mid d c k) = .ok (f.full length d c k, true) :=
  hf.sized.extend_full hlength (hf.sectorCount_lt hlength) (.inr hk) hend

/-- A whole cluster. -/
theorem Sized.extend_whole (hf : f.Sized) (hlength : length < 2 ^ 32)
    (hfew : f.sectorCount length d < 2 ^ 32)
    (hk : (k + 1) * f.bytesPerCluster < length + f.rest d) :
    f.extend length (f.mid d c k) = (do
      let next ← f.nextCluster (c + k)
      if next ≠ (← checked (Checked.add 32 (c + k) 1)) then return (f.broken d c k, true)
      else return ({ f.mid d c (k + 1) with cluster := next }, false)) := by
  have hle := rest_le_sector hf.sector d
  have hlt := f.bytesPerSector_lt
  have hone := rest_le_cluster hf d
  have hprevious : k * f.bytesPerCluster < length + f.rest d := by
    rw [Nat.succ_mul] at hk
    omega
  obtain ⟨hbytes, hspan⟩ := mid_left (c := c) hf (.inr hprevious)
  have hsub : Checked.sub length (f.mid d c k).bytes = some (length - (f.mid d c k).bytes) :=
    Checked.sub_eq_some.2 ⟨hbytes, rfl⟩
  have hadd : Checked.add 64 (length - (f.mid d c k).bytes) (f.mid d c k).dataOffset =
      some (length + f.rest d - k * f.bytesPerCluster) :=
    Checked.add_eq_some.2 ⟨by omega, hspan.symm⟩
  have hcluster : ¬ length + f.rest d - k * f.bytesPerCluster ≤ f.bytesPerCluster := by
    rw [Nat.succ_mul] at hk
    omega
  have hsectors : Checked.add 32 (f.mid d c k).sectors f.sectorsPerCluster =
      some ((k + 1) * f.sectorsPerCluster) := by
    have hquot : (k + 1) * f.sectorsPerCluster ≤ (length + f.rest d - 1) / f.bytesPerSector := by
      rw [Nat.le_div_iff_mul_le hf.sector, Nat.mul_assoc, ← bytesPerCluster]
      omega
    rw [sectorCount] at hfew
    refine Checked.add_eq_some.2 ⟨?_, Nat.succ_mul _ _⟩
    rw [Nat.succ_mul] at hquot
    change k * f.sectorsPerCluster + f.sectorsPerCluster < 2 ^ 32
    omega
  have hwhole : Checked.sub f.bytesPerCluster (f.mid d c k).dataOffset =
      some (f.bytesPerCluster - (f.mid d c k).dataOffset) := by
    refine Checked.sub_eq_some.2 ⟨?_, rfl⟩
    simp only [mid]
    split_ifs <;> omega
  have hmore : (f.mid d c k).bytes + (f.bytesPerCluster - (f.mid d c k).dataOffset) =
      (k + 1) * f.bytesPerCluster - f.rest d := by
    simp only [mid]
    cases k with
    | zero => simp
    | succ k =>
      have hpast : f.bytesPerCluster ≤ (k + 1) * f.bytesPerCluster :=
        Nat.le_mul_of_pos_left _ (Nat.succ_pos k)
      rw [if_neg (Nat.succ_ne_zero k), Nat.succ_mul (k + 1)]
      omega
  have hsum : Checked.add 64 (f.mid d c k).bytes
      (f.bytesPerCluster - (f.mid d c k).dataOffset) =
        some ((k + 1) * f.bytesPerCluster - f.rest d) :=
    Checked.add_eq_some.2 ⟨by omega, hmore.symm⟩
  unfold extend
  simp only [hsub, hadd, checked_some, ok_bind, if_neg hcluster, hsectors, hwhole, hsum]
  rfl

theorem extend_mid (hf : f.Geometry) (hlength : length < 2 ^ 32)
    (hk : (k + 1) * f.bytesPerCluster < length + f.rest d) :
    f.extend length (f.mid d c k) = (do
      let next ← f.nextCluster (c + k)
      if next ≠ (← checked (Checked.add 32 (c + k) 1)) then return (f.broken d c k, true)
      else return ({ f.mid d c (k + 1) with cluster := next }, false)) :=
  hf.sized.extend_whole hlength (hf.sectorCount_lt hlength) hk

theorem Consecutive.le (h : f.Consecutive c k) {j : ℕ} (hj : j ≤ k) : f.Consecutive c j :=
  fun i hi => h i (by omega)

theorem Consecutive.next_lt (h : f.nextCluster c = .ok k) : k < 0x0FFFFFF8 := by
  unfold nextCluster getNextCluster at h
  split_ifs at h with hnext
  · obtain rfl := Except.ok.inj h
    exact hnext.2.2

/-- Where the chain ends, the call fails. -/
theorem nextCluster_error {e : Fault} (h : f.nextCluster c = .error e) : e = .err := by
  unfold nextCluster at h
  split at h
  · exact absurd h (by simp)
  · exact (Except.error.inj h).symm

/-- A linked cluster goes on with the one behind it. -/
theorem Sized.extend_next (hf : f.Sized) (hlength : length < 2 ^ 32)
    (hfew : f.sectorCount length d < 2 ^ 32)
    (hk : (k + 1) * f.bytesPerCluster < length + f.rest d)
    (hnext : f.nextCluster (c + k) = .ok (c + k + 1)) :
    f.extend length (f.mid d c k) = .ok (f.mid d c (k + 1), false) := by
  have hlt := Consecutive.next_lt hnext
  have hsum : Checked.add 32 (c + k) 1 = some (c + k + 1) := Checked.add_eq_some.2 ⟨by omega, rfl⟩
  rw [hf.extend_whole hlength hfew hk, hnext, ok_bind, hsum, checked_some, ok_bind,
    if_neg (not_not.2 rfl)]
  rfl

theorem extend_mid_next (hf : f.Geometry) (hlength : length < 2 ^ 32)
    (hk : (k + 1) * f.bytesPerCluster < length + f.rest d)
    (hnext : f.nextCluster (c + k) = .ok (c + k + 1)) :
    f.extend length (f.mid d c k) = .ok (f.mid d c (k + 1), false) :=
  hf.sized.extend_next hlength (hf.sectorCount_lt hlength) hk hnext

/-- Any other link ends the stretch. -/
theorem Sized.extend_break {next : ℕ} (hf : f.Sized) (hlength : length < 2 ^ 32)
    (hfew : f.sectorCount length d < 2 ^ 32)
    (hk : (k + 1) * f.bytesPerCluster < length + f.rest d)
    (hnext : f.nextCluster (c + k) = .ok next) (hne : next ≠ c + k + 1) (hword : c + k + 1 < 2 ^ 32) :
    f.extend length (f.mid d c k) = .ok (f.broken d c k, true) := by
  have hsum : Checked.add 32 (c + k) 1 = some (c + k + 1) := Checked.add_eq_some.2 ⟨hword, rfl⟩
  rw [hf.extend_whole hlength hfew hk, hnext, ok_bind, hsum, checked_some, ok_bind, if_pos hne]
  rfl

theorem extend_mid_break {next : ℕ} (hf : f.Geometry) (hlength : length < 2 ^ 32)
    (hk : (k + 1) * f.bytesPerCluster < length + f.rest d)
    (hnext : f.nextCluster (c + k) = .ok next) (hne : next ≠ c + k + 1) (hword : c + k + 1 < 2 ^ 32) :
    f.extend length (f.mid d c k) = .ok (f.broken d c k, true) :=
  hf.sized.extend_break hlength (hf.sectorCount_lt hlength) hk hnext hne hword

/-- What a whole cluster leads to. -/
theorem extend_mid_cases {r : Stretch} {complete : Bool} (hf : f.Geometry)
    (hlength : length < 2 ^ 32) (hk : (k + 1) * f.bytesPerCluster < length + f.rest d)
    (h : f.extend length (f.mid d c k) = .ok (r, complete)) :
    ∃ next, f.nextCluster (c + k) = .ok next ∧
      ((next ≠ c + k + 1 ∧ r = f.broken d c k ∧ complete = true) ∨
        (next = c + k + 1 ∧ r = f.mid d c (k + 1) ∧ complete = false)) := by
  rw [extend_mid hf hlength hk, except_bind_eq_ok] at h
  obtain ⟨next, hnext, h⟩ := h
  refine ⟨next, hnext, ?_⟩
  rw [except_bind_eq_ok] at h
  obtain ⟨sum, hsum, h⟩ := h
  obtain ⟨-, rfl⟩ := Checked.add_eq_some.1 (checked_eq_ok.1 hsum)
  by_cases hne : next ≠ c + k + 1
  · rw [if_pos hne] at h
    obtain ⟨rfl, rfl⟩ := Prod.mk.inj (Except.ok.inj h)
    exact .inl ⟨hne, rfl, rfl⟩
  · rw [if_neg hne] at h
    obtain ⟨rfl, rfl⟩ := Prod.mk.inj (Except.ok.inj h)
    rw [not_not] at hne
    subst hne
    exact .inr ⟨rfl, rfl, rfl⟩

theorem gathers_start {r : Stretch} (hf : f.Geometry) (h : f.Gathers length (f.mid d c 0) r) :
    f.Gathers length (.start d c) r := by
  have hsector := hf.sector_ge
  have hskip : f.skipSectors (.start d c) = f.skipSectors (f.mid d c 0) :=
    (skipSectors_start f d c).trans (skipSectors_mid (by omega)).symm
  cases h with
  | last h => exact .last (by rw [hskip]; exact h)
  | next h hnext => exact .next (by rw [hskip]; exact h) hnext

/-- Over consecutive clusters the stretch grows as long as the length asks for it. -/
theorem gathers_mid {r : Stretch} (hf : f.Geometry) (hlength : length < 2 ^ 32)
    (hrun : f.Consecutive c k) (hk : k * f.bytesPerCluster < length + f.rest d)
    (h : f.Gathers length (f.mid d c k) r) : f.Gathers length (f.mid d c 0) r := by
  have hsector := hf.sector_ge
  induction k with
  | zero => exact h
  | succ k ih =>
    have hprevious : k * f.bytesPerCluster < length + f.rest d := by
      rw [Nat.succ_mul] at hk
      omega
    refine ih (hrun.le (Nat.le_succ k)) hprevious (.next ?_ h)
    rw [skipSectors_mid (by omega)]
    exact extend_mid_next hf hlength hk (hrun k (Nat.lt_succ_self k))

theorem gathers_full (hf : f.Geometry) (hlength : length < 2 ^ 32)
    (hrun : f.Consecutive c k) (hk : k * f.bytesPerCluster < length + f.rest d)
    (hend : length + f.rest d ≤ (k + 1) * f.bytesPerCluster) :
    f.Gathers length (.start d c) (f.full length d c k) := by
  have hsector := hf.sector_ge
  refine gathers_start hf (gathers_mid hf hlength hrun hk (.last ?_))
  rw [skipSectors_mid (by omega)]
  exact extend_mid_full hf hlength hk hend

theorem gathers_broken {next : ℕ} (hf : f.Geometry) (hlength : length < 2 ^ 32)
    (hrun : f.Consecutive c k) (hk : (k + 1) * f.bytesPerCluster < length + f.rest d)
    (hnext : f.nextCluster (c + k) = .ok next) (hne : next ≠ c + k + 1)
    (hword : c + k + 1 < 2 ^ 32) : f.Gathers length (.start d c) (f.broken d c k) := by
  have hsector := hf.sector_ge
  have hprevious : k * f.bytesPerCluster < length + f.rest d := by
    rw [Nat.succ_mul] at hk
    omega
  refine gathers_start hf (gathers_mid hf hlength hrun hprevious (.last ?_))
  rw [skipSectors_mid (by omega)]
  exact extend_mid_break hf hlength hk hnext hne hword

/-- What a stretch comes to: it ends with the length, or at a link to another place. -/
inductive Comes (f : Fat32) (length d c : ℕ) : Stretch → Prop
  | full {k : ℕ} (hrun : f.Consecutive c k) (hk : k * f.bytesPerCluster < length + f.rest d)
      (hend : length + f.rest d ≤ (k + 1) * f.bytesPerCluster) :
      Comes f length d c (f.full length d c k)
  | broken {k next : ℕ} (hrun : f.Consecutive c k)
      (hk : (k + 1) * f.bytesPerCluster < length + f.rest d)
      (hnext : f.nextCluster (c + k) = .ok next) (hne : next ≠ c + k + 1) :
      Comes f length d c (f.broken d c k)

theorem Gathers.comes_mid {r r' : Stretch} (h : f.Gathers length r r') (hf : f.Geometry)
    (hlength : length < 2 ^ 32) :
    ∀ {k : ℕ}, f.skipSectors r = f.mid d c k → f.Consecutive c k →
      k * f.bytesPerCluster < length + f.rest d → f.Comes length d c r' := by
  have hsector := hf.sector_ge
  induction h with
  | last h =>
    intro k hr hrun hk
    rw [hr] at h
    by_cases hend : length + f.rest d ≤ (k + 1) * f.bytesPerCluster
    · rw [extend_mid_full hf hlength hk hend] at h
      obtain rfl := (Prod.mk.inj (Except.ok.inj h)).1
      exact .full hrun hk hend
    · have hmore : (k + 1) * f.bytesPerCluster < length + f.rest d := Nat.lt_of_not_le hend
      obtain ⟨next, hnext, ⟨hne, rfl, -⟩ | ⟨-, -, hfalse⟩⟩ := extend_mid_cases hf hlength hmore h
      · exact .broken hrun hmore hnext hne
      · exact absurd hfalse (by decide)
  | next h _ ih =>
    intro k hr hrun hk
    rw [hr] at h
    by_cases hend : length + f.rest d ≤ (k + 1) * f.bytesPerCluster
    · rw [extend_mid_full hf hlength hk hend] at h
      exact absurd (Prod.mk.inj (Except.ok.inj h)).2 (by decide)
    · have hmore : (k + 1) * f.bytesPerCluster < length + f.rest d := Nat.lt_of_not_le hend
      obtain ⟨next, hnext, ⟨-, -, hfalse⟩ | ⟨rfl, rfl, -⟩⟩ := extend_mid_cases hf hlength hmore h
      · exact absurd hfalse (by decide)
      · refine ih (skipSectors_mid (by omega)) (fun i hi => ?_) hmore
        rcases Nat.lt_succ_iff_lt_or_eq.1 hi with hlt | rfl
        · exact hrun i hlt
        · exact hnext

/-- Every stretch from the start `d` bytes into the cluster `c` is one of the two. -/
theorem Gathers.comes {r : Stretch} (h : f.Gathers length (.start d c) r) (hf : f.Geometry)
    (hpos : 0 < length) (hlength : length < 2 ^ 32) : f.Comes length d c r :=
  h.comes_mid hf hlength (k := 0) (skipSectors_start f d c) (fun _ hi => absurd hi (by omega))
    (by omega)

end Run

end Fat32

end MiniVisor
