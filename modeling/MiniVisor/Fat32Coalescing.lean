import MiniVisor.Fat32Requests

/-!
# One request for consecutive clusters

A stretch of consecutive clusters is one request to the block device, and what it delivers is
what a reader that goes from sector to sector would deliver. The descriptor of the request has
32 bits for its length; only a request of all the 2^32 bytes does not fit.
-/
namespace MiniVisor

open Effects

namespace Fat32

/-- From number `j` of the chain on, `k` clusters are followed by the next number. -/
def InLine (clusters : ℕ → ℕ) (j k : ℕ) : Prop :=
  ∀ i < k, clusters (j + i + 1) = clusters (j + i) + 1

/-- The sector that holds byte `j` of the file. -/
def sectorOf (f : Fat32) (clusters : ℕ → ℕ) (j : ℕ) : ℕ :=
  f.sectorAt (clusters (j / f.bytesPerCluster)) + j % f.bytesPerCluster / f.bytesPerSector

/-- What a reader that goes from sector to sector delivers for byte `j` of the file. -/
def plainByte (f : Fat32) (clusters : ℕ → ℕ) (disk : Memory) (j : ℕ) : UInt8 :=
  disk (f.sectorPosition (f.sectorOf clusters j) + j % f.bytesPerSector)

section Line

variable {f : Fat32} {file : FileInfo} {clusters : ℕ → ℕ} {c d j k m n : ℕ} {r : Stretch}

theorem InLine.le (h : InLine clusters j k) {i : ℕ} (hi : i ≤ k) : InLine clusters j i :=
  fun x hx => h x (by omega)

theorem InLine.eq (h : InLine clusters j k) {i : ℕ} (hi : i ≤ k) :
    clusters (j + i) = clusters j + i := by
  induction i with
  | zero => rfl
  | succ i ih =>
    rw [← Nat.add_assoc, h i (by omega), ih (by omega), Nat.add_assoc]

theorem Chain.consecutive (h : f.Chain file clusters m) (hline : InLine clusters j k)
    (hm : j + k < m) : f.Consecutive (clusters j) k := by
  intro i hi
  have hnext := h.next (j + i) (by omega)
  rw [hline i hi, hline.eq hi.le] at hnext
  exact hnext

theorem Chain.inLine (h : f.Chain file clusters m) (hrun : f.Consecutive (clusters j) k)
    (hm : j + k < m) : InLine clusters j k := by
  induction k with
  | zero => exact fun i hi => absurd hi (by omega)
  | succ k ih =>
    have hline := ih (hrun.le (Nat.le_succ k)) (by omega)
    intro i hi
    rcases Nat.lt_succ_iff_lt_or_eq.1 hi with hlt | rfl
    · exact hline i hlt
    · have hnext := h.next (j + i) (by omega)
      rw [hline.eq le_rfl, hrun i hi] at hnext
      rw [hline.eq le_rfl]
      exact (Except.ok.inj hnext).symm

/-- Over clusters in line the bytes of the file are next to each other on the disk. -/
theorem InLine.filePosition (h : InLine clusters j k) (hge : 2 ≤ clusters j)
    (hpos : 0 < f.bytesPerCluster) {x : ℕ} (hx : x / f.bytesPerCluster ≤ k) :
    f.filePosition clusters (j * f.bytesPerCluster + x) = f.positionAt (clusters j) x := by
  have hindex : (j * f.bytesPerCluster + x) / f.bytesPerCluster = j + x / f.bytesPerCluster := by
    rw [Nat.mul_comm, Nat.mul_add_div hpos]
  have hrest : (j * f.bytesPerCluster + x) % f.bytesPerCluster = x % f.bytesPerCluster := by
    rw [Nat.mul_comm, Nat.mul_add_mod]
  rw [Fat32.filePosition, hindex, hrest, h.eq hx, positionAt_add hge, Nat.mul_comm,
    Nat.div_add_mod]

theorem sectorPosition_sectorAt (f : Fat32) (c k : ℕ) :
    f.sectorPosition (f.sectorAt c + k) = f.positionAt c (k * f.bytesPerSector) := by
  rw [sectorPosition, positionAt, Nat.add_mul, Nat.add_assoc]

theorem positionAt_shift (f : Fat32) (c x y : ℕ) :
    f.positionAt c x + y = f.positionAt c (x + y) := by
  rw [positionAt, positionAt, Nat.add_assoc _ x y]

/-- The plain reader takes byte `j` from its position. -/
theorem plainByte_eq (f : Fat32) (clusters : ℕ → ℕ) (disk : Memory) (j : ℕ) :
    f.plainByte clusters disk j = disk (f.filePosition clusters j) := by
  have hmod : j % f.bytesPerSector = j % f.bytesPerCluster % f.bytesPerSector := by
    rw [bytesPerCluster, Nat.mod_mul_left_mod]
  rw [plainByte, sectorOf, sectorPosition_sectorAt, positionAt_shift, hmod, Nat.div_add_mod']
  rfl

/-- The bytes of the request begin where the range does. -/
theorem sectorPosition_skipped (f : Fat32) (c d : ℕ) :
    f.sectorPosition (f.sectorAt c + f.skipped d) + f.rest d = f.positionAt c d := by
  rw [sectorPosition_sectorAt, positionAt_shift, skipped_rest]

theorem sectorCount_le (f : Fat32) (n d : ℕ) :
    f.sectorCount n d * f.bytesPerSector ≤ n + f.rest d - 1 + f.bytesPerSector := by
  have hdiv := Nat.div_mul_le_self (n + f.rest d - 1) f.bytesPerSector
  rw [sectorCount, Nat.succ_mul]
  omega

theorem le_sectorCount (hpos : 0 < f.bytesPerSector) (n d : ℕ) :
    n + f.rest d ≤ f.sectorCount n d * f.bytesPerSector := by
  have hlt := Nat.lt_div_mul_add (a := n + f.rest d - 1) hpos
  rw [sectorCount, Nat.succ_mul]
  omega

/-- A request is at most one of 2^32 bytes, whose length counts as zero. -/
theorem sectorCount_le_word (hf : f.Geometry) (hn : n + f.rest d ≤ 2 ^ 32) :
    f.sectorCount n d * f.bytesPerSector ≤ 2 ^ 32 := by
  obtain ⟨q, hq⟩ := hf.sector_dvd_word
  have hsector := hf.sector_ge
  have hle := sectorCount_le f n d
  have hlt : f.sectorCount n d * f.bytesPerSector < (q + 1) * f.bytesPerSector := by
    rw [Nat.succ_mul, Nat.mul_comm q, ← hq]
    omega
  have hq' : f.sectorCount n d ≤ q := Nat.lt_succ_iff.1 (Nat.lt_of_mul_lt_mul_right hlt)
  rw [hq, Nat.mul_comm f.bytesPerSector]
  exact Nat.mul_le_mul_right _ hq'

end Line

/-! ## The loops over clusters in line -/

section Loop

variable {f : Fat32} {env : Environment} {file : FileInfo} {clusters : ℕ → ℕ}
  {bufferAddress offset length fuel c d m n : ℕ} {r r' : Stretch} {s t : Host}

theorem Gathers.readStretch_eq (h : f.Gathers length r r') : ∀ fuel,
    f.readStretch length fuel r = .ok r' ∨ f.readStretch length fuel r = .error .stuck := by
  induction h with
  | last h =>
    intro fuel
    cases fuel with
    | zero => exact .inr rfl
    | succ fuel =>
      left
      rw [Fat32.readStretch, h]
      rfl
  | next h _ ih =>
    intro fuel
    cases fuel with
    | zero => exact .inr rfl
    | succ fuel =>
      rw [Fat32.readStretch, h]
      exact ih fuel

/-- With fuel for the length the inner loop comes to the stretch. -/
theorem Gathers.readStretch_start (h : f.Gathers length (.start d c) r)
    (hd : d < f.bytesPerCluster) (hfuel : length < fuel) :
    f.readStretch length fuel (.start d c) = .ok r :=
  (h.readStretch_eq fuel).resolve_right (readStretch_ne_stuck (.start hd)
    (lt_of_le_of_lt (Nat.sub_le _ _) hfuel))

/-- One iteration of the outer loop. -/
theorem Gathers.readLoop (h : f.Gathers n (.start d c) r) (hd : d < f.bytesPerCluster)
    (hfuel : n < fuel) {bufferPointer : ℕ} :
    f.readLoop env bufferAddress n (fuel + 1) d c bufferPointer s = (do
      f.readPart env bufferAddress c bufferPointer r
      f.advance n (f.readLoop env bufferAddress n fuel 0) bufferPointer r) s := by
  rw [readLoop_succ, h.readStretch_start hd hfuel, liftExcept_ok_bind]

/-- The loop is through when it has reached the length. -/
theorem advance_done {loop : ℕ → ℕ → Effect Host ℕ} {bufferPointer : ℕ}
    (h : n = bufferPointer + r.bytes) (hword : n < 2 ^ 64) :
    f.advance n loop bufferPointer r = pure n := by
  funext s
  rw [advance, Checked.add_eq_some.2 ⟨by omega, h⟩, Effect.checked_bind, if_pos rfl]

theorem advance_next {loop : ℕ → ℕ → Effect Host ℕ} {bufferPointer next : ℕ}
    (h : n ≠ bufferPointer + r.bytes) (hword : bufferPointer + r.bytes < 2 ^ 64)
    (hnext : f.nextCluster r.cluster = .ok next) :
    f.advance n loop bufferPointer r s = loop next (bufferPointer + r.bytes) s := by
  rw [advance, Checked.add_eq_some.2 ⟨hword, rfl⟩, Effect.checked_bind, if_neg h, hnext,
    liftExcept_ok_bind]

theorem clamp_pos (hoffset : offset < file.fileSize) (hpos : 0 < length) :
    0 < clamp file offset length := by
  rw [clamp]
  omega

theorem clamp_le (length : ℕ) (hoffset : offset < file.fileSize) :
    offset + clamp file offset length ≤ file.fileSize := by
  rw [clamp]
  omega

/-- The number of the cluster that holds the last byte, counted from the first one. -/
theorem chain_end (length : ℕ) (hchain : f.Chain file clusters m)
    (hoffset : offset < file.fileSize) {k : ℕ}
    (hk : k * f.bytesPerCluster < clamp file offset length + offset % f.bytesPerCluster) :
    offset / f.bytesPerCluster + k < m := by
  have hle := clamp_le length hoffset
  have hdiv := Nat.div_add_mod offset f.bytesPerCluster
  have hmul : (offset / f.bytesPerCluster + k) * f.bytesPerCluster < file.fileSize := by
    rw [Nat.add_mul, Nat.mul_comm (offset / _)]
    omega
  exact Nat.lt_of_mul_lt_mul_right (hmul.trans_le hchain.enough)

/-- Where the stretch of a range in line ends. -/
theorem chain_full (hf : f.Geometry) (hchain : f.Chain file clusters m)
    (hoffset : offset < file.fileSize) (hpos : 0 < length)
    (hline : InLine clusters (offset / f.bytesPerCluster) ((clamp file offset length +
      f.rest (offset % f.bytesPerCluster) - 1) / f.bytesPerCluster)) :
    f.Gathers (clamp file offset length)
      (.start (offset % f.bytesPerCluster) (clusters (offset / f.bytesPerCluster)))
      (f.full (clamp file offset length) (offset % f.bytesPerCluster)
        (clusters (offset / f.bytesPerCluster)) ((clamp file offset length +
          f.rest (offset % f.bytesPerCluster) - 1) / f.bytesPerCluster)) := by
  have hn := clamp_pos hoffset hpos
  have hle := clamp_le length hoffset
  have hsize := file.fileSize_lt
  have hrest := rest_le f (offset % f.bytesPerCluster)
  have hcluster := hf.cluster_pos
  have hmul := Nat.div_mul_le_self (clamp file offset length +
    f.rest (offset % f.bytesPerCluster) - 1) f.bytesPerCluster
  have hlt := Nat.lt_div_mul_add (a := clamp file offset length +
    f.rest (offset % f.bytesPerCluster) - 1) hcluster
  have hm := chain_end length hchain hoffset (k := (clamp file offset length +
    f.rest (offset % f.bytesPerCluster) - 1) / f.bytesPerCluster) (by omega)
  refine gathers_full hf (by omega) (hchain.consecutive hline hm) (by omega) ?_
  rw [Nat.succ_mul]
  omega

/-- Read a stretch, and that is all. -/
def readOnce (f : Fat32) (env : Environment) (bufferAddress cluster n : ℕ) (r : Stretch) :
    Effect Host ℕ := do
  f.readPart env bufferAddress cluster 0 r
  return n

theorem read_once (hf : f.Geometry) (hchain : f.Chain file clusters m)
    (hoffset : offset < file.fileSize) (hpos : 0 < length) (hword : offset + length < 2 ^ 64)
    (hline : InLine clusters (offset / f.bytesPerCluster) ((clamp file offset length +
      f.rest (offset % f.bytesPerCluster) - 1) / f.bytesPerCluster))
    (hfuel : 2 ^ 64 + length < fuel) :
    f.read env fuel file bufferAddress offset length = f.readOnce env bufferAddress
      (clusters (offset / f.bytesPerCluster)) (clamp file offset length)
      (f.full (clamp file offset length) (offset % f.bytesPerCluster)
        (clusters (offset / f.bytesPerCluster)) ((clamp file offset length +
          f.rest (offset % f.bytesPerCluster) - 1) / f.bytesPerCluster)) := by
  funext s
  have hn : clamp file offset length ≤ length := Nat.min_le_left _ _
  have hle := clamp_le length hoffset
  have hsize := file.fileSize_lt
  have hfull := chain_full hf hchain hoffset hpos hline
  obtain ⟨fuel, rfl⟩ : ∃ more, fuel = more + 1 := ⟨fuel - 1, by omega⟩
  rw [read_of_locate (hchain.locate hf hoffset hword),
    hfull.readLoop (Nat.mod_lt _ hf.cluster_pos) (by omega), readOnce]
  have hdone : clamp file offset length = 0 + (f.full (clamp file offset length)
      (offset % f.bytesPerCluster) (clusters (offset / f.bytesPerCluster)) ((clamp file offset length +
        f.rest (offset % f.bytesPerCluster) - 1) / f.bytesPerCluster)).bytes :=
    (Nat.zero_add _).symm
  rw [advance_done hdone (by omega)]

/-- What one request delivers: the bytes from the place on that the range begins with. -/
theorem readPart_run {bufferPointer : ℕ} {u : PUnit} (hf : f.Geometry) (hc : f.Addressable c)
    (hd : d < f.bytesPerCluster) (hoffset : r.sectorOffset = f.skipped d)
    (hrest : r.dataOffsetBackup = f.rest d)
    (h : f.readPart env bufferAddress c bufferPointer r s = (.ok u, t)) :
    t.drive.disk = s.drive.disk ∧ ∀ i < r.bytes, f.rest d + i < r.size f →
      t.memory (bufferAddress + bufferPointer + i) = s.drive.disk (f.positionAt c (d + i)) := by
  obtain ⟨sector, hfirst, hdisk, hbytes⟩ := readPart_moves h
  rw [hc.firstSector hf.sized hd hoffset] at hfirst
  obtain rfl := Option.some.inj hfirst
  refine ⟨hdisk, fun i hi hin => ?_⟩
  rw [hrest] at hbytes
  rw [hbytes i hi hin, sectorPosition_skipped, positionAt_shift]

/-- The request of a stretch that ends with the length, unless it does not fit. -/
theorem readPart_full {k bufferPointer : ℕ} {u : PUnit} (hf : f.Geometry)
    (hc : f.Addressable c) (hd : d < f.bytesPerCluster)
    (hsize : f.sectorCount n d * f.bytesPerSector < 2 ^ 32)
    (h : f.readPart env bufferAddress c bufferPointer (f.full n d c k) s = (.ok u, t)) :
    t.drive.disk = s.drive.disk ∧ ∀ i < n,
      t.memory (bufferAddress + bufferPointer + i) = s.drive.disk (f.positionAt c (d + i)) := by
  have hsector := hf.sector_ge
  obtain ⟨hdisk, hbytes⟩ := readPart_run hf hc hd rfl rfl h
  refine ⟨hdisk, fun i hi => hbytes i hi ?_⟩
  have hcount := le_sectorCount (f := f) (by omega) n d
  change f.rest d + i < f.sectorCount n d * f.bytesPerSector % 2 ^ 32
  rw [Nat.mod_eq_of_lt hsize]
  omega

end Loop

/-! ## Files of consecutive clusters -/

section Contiguous

/-- A read of a range is one request, of the sectors from the one in which the cluster of the
first byte begins at the earliest to the one of the last byte; if it succeeds it delivers the
bytes that a plain reader delivers. -/
structure Coalesces (f : Fat32) (file : FileInfo) (clusters : ℕ → ℕ)
    (bufferAddress offset length : ℕ) : Prop where
  one : ∃ r sector, f.firstSector (clusters (offset / f.bytesPerCluster)) r = some sector ∧
    (∀ env fuel, 2 ^ 64 + length < fuel → f.read env fuel file bufferAddress offset length =
      f.readOnce env bufferAddress (clusters (offset / f.bytesPerCluster))
        (clamp file offset length) r) ∧
    f.sectorAt (clusters (offset / f.bytesPerCluster)) ≤ sector ∧
    sector + r.sectors = f.sectorOf clusters (offset + clamp file offset length - 1) + 1 ∧
    ∀ i < clamp file offset length, sector ≤ f.sectorOf clusters (offset + i) ∧
      f.sectorOf clusters (offset + i) < sector + r.sectors
  delivers : ∀ env fuel (s t : Host) (n : ℕ), 2 ^ 64 + length < fuel →
    f.read env fuel file bufferAddress offset length s = (.ok n, t) →
      n = clamp file offset length ∧ ∀ i < n,
        t.memory (bufferAddress + i) = f.plainByte clusters s.drive.disk (offset + i)
  succeeds : ∀ env fuel k (s : Host), 2 ^ 64 + length < fuel → VirtioBlk.Serves env → Supplies env →
    VirtioBlk.Ready k s → k + 1 < 2 ^ 16 → ∃ t,
      f.read env fuel file bufferAddress offset length s = (.ok (clamp file offset length), t)

variable {f : Fat32} {env : Environment} {file : FileInfo} {clusters : ℕ → ℕ}
  {bufferAddress offset length fuel k m : ℕ} {s : Host}

/-- The sector that holds a byte, over clusters in line. -/
theorem InLine.sectorOf {j x : ℕ} (h : InLine clusters j k) (hge : 2 ≤ clusters j)
    (hf : f.Geometry) (hx : x / f.bytesPerCluster ≤ k) :
    f.sectorOf clusters (j * f.bytesPerCluster + x) =
      f.sectorAt (clusters j) + x / f.bytesPerSector := by
  have hsector := hf.sector_ge
  have hcluster := hf.cluster_pos
  have hindex : (j * f.bytesPerCluster + x) / f.bytesPerCluster = j + x / f.bytesPerCluster := by
    rw [Nat.mul_comm, Nat.mul_add_div hcluster]
  have hmod : (j * f.bytesPerCluster + x) % f.bytesPerCluster = x % f.bytesPerCluster := by
    rw [Nat.mul_comm, Nat.mul_add_mod]
  have hwhole : x / f.bytesPerSector =
      x / f.bytesPerCluster * f.sectorsPerCluster + x % f.bytesPerCluster / f.bytesPerSector := by
    have hsplit : x = x / f.bytesPerCluster * f.sectorsPerCluster * f.bytesPerSector +
        x % f.bytesPerCluster := by
      rw [Nat.mul_assoc, ← bytesPerCluster, Nat.div_add_mod']
    conv_lhs => rw [hsplit]
    rw [Nat.add_comm, Nat.add_mul_div_right _ _ (by omega), Nat.add_comm]
  have hsub : clusters j + x / f.bytesPerCluster - 2 = clusters j - 2 + x / f.bytesPerCluster :=
    Nat.sub_add_comm hge
  rw [Fat32.sectorOf, hindex, hmod, h.eq hx, sectorAt, sectorAt, hwhole, hsub]
  ring

theorem skipped_add_sectorCount (hf : f.Geometry) {n d : ℕ} (hn : 0 < n) :
    f.skipped d + f.sectorCount n d = (d + n - 1) / f.bytesPerSector + 1 := by
  have hsector := hf.sector_ge
  have hsplit := skipped_rest f d
  have hlast : d + n - 1 = n + f.rest d - 1 + f.skipped d * f.bytesPerSector := by omega
  rw [sectorCount, hlast, Nat.add_mul_div_right _ _ (by omega)]
  omega

theorem skipped_le (f : Fat32) (d : ℕ) : f.skipped d ≤ d / f.bytesPerSector := by
  unfold skipped
  split_ifs
  · exact le_rfl
  · exact Nat.zero_le _

/-- The links between the clusters that hold the range. -/
def links (f : Fat32) (file : FileInfo) (offset length : ℕ) : ℕ :=
  (clamp file offset length + offset % f.bytesPerCluster - 1) / f.bytesPerCluster

theorem index_le_links {i : ℕ} (hi : i < clamp file offset length) :
    (offset % f.bytesPerCluster + i) / f.bytesPerCluster ≤ f.links file offset length :=
  Nat.div_le_div_right (by omega)

theorem rest_links_le : (clamp file offset length + f.rest (offset % f.bytesPerCluster) - 1) /
    f.bytesPerCluster ≤ f.links file offset length := by
  have hrest := rest_le f (offset % f.bytesPerCluster)
  exact Nat.div_le_div_right (by omega)

theorem split_offset (f : Fat32) (offset i : ℕ) : offset + i =
    offset / f.bytesPerCluster * f.bytesPerCluster + (offset % f.bytesPerCluster + i) := by
  have hdiv := Nat.div_add_mod' offset f.bytesPerCluster
  omega

/-- If the clusters of the range are in line and the length of the request fits, the read
delivers the range. -/
theorem read_line (hf : f.Geometry) (hchain : f.Chain file clusters m)
    (hoffset : offset < file.fileSize) (hpos : 0 < length) (hword : offset + length < 2 ^ 64)
    (hline : InLine clusters (offset / f.bytesPerCluster) (f.links file offset length))
    (hsize : f.sectorCount (clamp file offset length) (offset % f.bytesPerCluster) *
      f.bytesPerSector < 2 ^ 32) (hfuel : 2 ^ 64 + length < fuel) {n : ℕ} {t : Host}
    (h : f.read env fuel file bufferAddress offset length s = (.ok n, t)) :
    n = clamp file offset length ∧ ∀ i < n,
      t.memory (bufferAddress + i) = f.plainByte clusters s.drive.disk (offset + i) := by
  have hcluster := hf.cluster_pos
  have hc := hchain.addressable _ (hchain.index_lt hoffset)
  rw [read_once hf hchain hoffset hpos hword (hline.le rest_links_le) hfuel, readOnce,
    Effect.bind_eq_ok] at h
  obtain ⟨_, s₁, h₁, h⟩ := h
  obtain ⟨hresult, rfl⟩ := Prod.mk.inj h
  obtain rfl := Except.ok.inj hresult
  refine ⟨rfl, fun i hi => ?_⟩
  obtain ⟨-, hbytes⟩ := readPart_full hf hc (Nat.mod_lt _ hcluster) hsize h₁
  have hbyte := hbytes i hi
  rw [Nat.add_zero] at hbyte
  rw [hbyte, plainByte_eq, split_offset f offset i,
    hline.filePosition hc.ge hcluster (index_le_links hi)]

/-- If the clusters of the range are in line and the device serves the request, the read
succeeds. -/
theorem read_line_ready (hf : f.Geometry) (hchain : f.Chain file clusters m)
    (hoffset : offset < file.fileSize) (hpos : 0 < length) (hword : offset + length < 2 ^ 64)
    (hbuffer : bufferAddress < 2 ^ 64)
    (hline : InLine clusters (offset / f.bytesPerCluster) (f.links file offset length))
    (hfuel : 2 ^ 64 + length < fuel) (henv : VirtioBlk.Serves env) (hpages : Supplies env)
    (hs : VirtioBlk.Ready k s) (hk : k + 1 < 2 ^ 16) :
    ∃ t, f.read env fuel file bufferAddress offset length s =
      (.ok (clamp file offset length), t) ∧ VirtioBlk.Ready (k + 1) t := by
  have hcluster := hf.cluster_pos
  have hd := Nat.mod_lt offset hcluster
  have hc := hchain.addressable _ (hchain.index_lt hoffset)
  have hle := hc.le
  have hskip := skipped_lt hf.sized hd
  have hlast := clamp_le length hoffset
  have hsmall := file.fileSize_lt
  have hmod := Nat.mod_le offset f.bytesPerCluster
  have hrest := rest_le f (offset % f.bytesPerCluster)
  have hcount := sectorCount_le_word hf (n := clamp file offset length)
    (d := offset % f.bytesPerCluster) (by omega)
  have hsector := hf.sector_ge
  have hfew : f.sectorCount (clamp file offset length) (offset % f.bytesPerCluster) ≤ 2 ^ 32 :=
    (Nat.le_mul_of_pos_right _ (by omega)).trans hcount
  obtain ⟨t, ht, hready⟩ := readPart_ready (r := f.full (clamp file offset length)
    (offset % f.bytesPerCluster) (clusters (offset / f.bytesPerCluster)) ((clamp file offset length +
      f.rest (offset % f.bytesPerCluster) - 1) / f.bytesPerCluster)) bufferAddress 0 hf henv hpages
    hs (hc.firstSector hf.sized hd rfl) (by omega) hfew hk (by omega) (fun _ => rfl)
  rw [read_once hf hchain hoffset hpos hword (hline.le rest_links_le) hfuel, readOnce,
    Effect.bind_ok ht]
  exact ⟨t, rfl, hready⟩

theorem inLine_add (c j k : ℕ) : InLine (fun i => c + i) j k := fun _ _ => rfl

/-- Without the length the call succeeds and leaves the buffer as it was. -/
theorem read_line_missing (hf : f.Geometry) (hchain : f.Chain file clusters m)
    (hoffset : offset < file.fileSize) (hpos : 0 < length) (hword : offset + length < 2 ^ 64)
    (hline : InLine clusters (offset / f.bytesPerCluster) (f.links file offset length))
    (hsize : ¬f.sectorCount (clamp file offset length) (offset % f.bytesPerCluster) *
      f.bytesPerSector < 2 ^ 32) (hfuel : 2 ^ 64 + length < fuel) {n : ℕ} {t : Host}
    (h : f.read env fuel file bufferAddress offset length s = (.ok n, t)) (x : ℕ) :
    ∃ y, t.memory x = s.memory y := by
  have hlast := clamp_le length hoffset
  have hsmall := file.fileSize_lt
  have hmod := Nat.mod_le offset f.bytesPerCluster
  have hrest := rest_le f (offset % f.bytesPerCluster)
  have hcount := sectorCount_le_word hf (n := clamp file offset length)
    (d := offset % f.bytesPerCluster) (by omega)
  rw [read_once hf hchain hoffset hpos hword (hline.le rest_links_le) hfuel, readOnce,
    Effect.bind_eq_ok] at h
  obtain ⟨_, s₁, h₁, h⟩ := h
  obtain ⟨-, rfl⟩ := Prod.mk.inj h
  refine readPart_empty ?_ h₁ x
  change f.sectorCount (clamp file offset length) (offset % f.bytesPerCluster) *
    f.bytesPerSector % 2 ^ 32 = 0
  rw [le_antisymm hcount (Nat.le_of_not_lt hsize), Nat.mod_self]

/-- The bytes of the longest request are missing. -/
theorem Coalesces.size_lt (hf : f.Geometry)
    (hchain : f.Chain file (fun j => file.entryCluster + j) m) (hoffset : offset < file.fileSize)
    (hpos : 0 < length) (hword : offset + length < 2 ^ 64)
    (h : f.Coalesces file (fun j => file.entryCluster + j) bufferAddress offset length) :
    f.sectorCount (clamp file offset length) (offset % f.bytesPerCluster) * f.bytesPerSector <
      2 ^ 32 := by
  by_contra hsize
  have hline := inLine_add file.entryCluster (offset / f.bytesPerCluster)
    (f.links file offset length)
  have hserves : VirtioBlk.Serves (servingAt 0) := fun _ => rfl
  have hready : VirtioBlk.Ready 0 servingHost := ⟨rfl, rfl⟩
  obtain ⟨t, ht⟩ := h.succeeds (servingAt 0) (2 ^ 64 + length + 1) 0 servingHost
    (Nat.lt_succ_self _) hserves (fun _ _ => Option.some_ne_none _) hready (by decide)
  obtain ⟨-, hbytes⟩ := h.delivers _ _ _ _ _ (Nat.lt_succ_self _) ht
  have hone := hbytes 0 (clamp_pos hoffset hpos)
  obtain ⟨y, hy⟩ := read_line_missing hf hchain hoffset hpos hword hline hsize
    (Nat.lt_succ_self _) ht (bufferAddress + 0)
  rw [hy] at hone
  exact absurd hone (by simp [servingHost, plainByte])

theorem Coalesces.of_size_lt (hf : f.Geometry)
    (hchain : f.Chain file (fun j => file.entryCluster + j) m) (hoffset : offset < file.fileSize)
    (hpos : 0 < length) (hword : offset + length < 2 ^ 64) (hbuffer : bufferAddress < 2 ^ 64)
    (hsize : f.sectorCount (clamp file offset length) (offset % f.bytesPerCluster) *
      f.bytesPerSector < 2 ^ 32) :
    f.Coalesces file (fun j => file.entryCluster + j) bufferAddress offset length := by
  have hn := clamp_pos hoffset hpos
  have hc := hchain.addressable _ (hchain.index_lt hoffset)
  have hline := inLine_add file.entryCluster (offset / f.bytesPerCluster)
    (f.links file offset length)
  have hcount := skipped_add_sectorCount hf (d := offset % f.bytesPerCluster) hn
  have hsectorOf : ∀ i < clamp file offset length,
      f.sectorOf (fun j => file.entryCluster + j) (offset + i) =
        f.sectorAt (file.entryCluster + offset / f.bytesPerCluster) +
          (offset % f.bytesPerCluster + i) / f.bytesPerSector := by
    intro i hi
    rw [split_offset f offset i, hline.sectorOf hc.ge hf (index_le_links hi)]
  refine ⟨⟨f.full (clamp file offset length) (offset % f.bytesPerCluster)
    (file.entryCluster + offset / f.bytesPerCluster) ((clamp file offset length +
      f.rest (offset % f.bytesPerCluster) - 1) / f.bytesPerCluster),
    _, hc.firstSector hf.sized (Nat.mod_lt offset hf.cluster_pos) rfl, fun env fuel hfuel =>
      read_once hf hchain hoffset hpos hword (hline.le rest_links_le) hfuel,
    Nat.le_add_right _ _, ?_, ?_⟩, fun env fuel s t n hfuel h =>
      read_line hf hchain hoffset hpos hword hline hsize hfuel h, ?_⟩
  · have hlast := hsectorOf (clamp file offset length - 1) (by omega)
    rw [← Nat.add_sub_assoc hn, ← Nat.add_sub_assoc hn] at hlast
    rw [hlast, Nat.add_assoc, Nat.add_assoc]
    exact congrArg _ hcount
  · intro i hi
    have hfirst := (skipped_le f (offset % f.bytesPerCluster)).trans
      (Nat.div_le_div_right (c := f.bytesPerSector) (Nat.le_add_right _ i))
    have hlast := Nat.div_le_div_right (c := f.bytesPerSector)
      (show offset % f.bytesPerCluster + i ≤
        offset % f.bytesPerCluster + clamp file offset length - 1 by omega)
    rw [hsectorOf i hi]
    refine ⟨Nat.add_le_add_left hfirst _, ?_⟩
    change _ < f.sectorAt _ + f.skipped _ + f.sectorCount _ _
    omega
  · intro env fuel k s hfuel henv hpages hs hk
    obtain ⟨t, ht, -⟩ := read_line_ready hf hchain hoffset hpos hword hbuffer hline hfuel henv
      hpages hs hk
    exact ⟨t, ht⟩

/-- Consecutive clusters are read with one request, and rightly so, exactly if the request has
less than 2^32 bytes. -/
theorem coalesces_iff (hf : f.Geometry) (hchain : f.Chain file (fun j => file.entryCluster + j) m)
    (hoffset : offset < file.fileSize) (hpos : 0 < length) (hword : offset + length < 2 ^ 64)
    (hbuffer : bufferAddress < 2 ^ 64) :
    f.Coalesces file (fun j => file.entryCluster + j) bufferAddress offset length ↔
      f.sectorCount (clamp file offset length) (offset % f.bytesPerCluster) * f.bytesPerSector <
        2 ^ 32 :=
  ⟨Coalesces.size_lt hf hchain hoffset hpos hword,
    Coalesces.of_size_lt hf hchain hoffset hpos hword hbuffer⟩

/-- A volume with clusters of 4 MiB, each followed by the next one. -/
def wideVolume : Fat32 where
  baseLba := 2048
  lbaSize := 512
  bytesPerSector := 2 ^ 15
  sectorsPerCluster := 2 ^ 7
  reservedSectors := 1
  fatSectors := 1
  numberOfFats := 1
  fat i := i + 1
  bytesPerSector_lt := by decide
  sectorsPerCluster_lt := by decide

/-- The longest file. -/
def wideFile : FileInfo where
  entryCluster := 2
  fileSize := 2 ^ 32 - 1
  fileSize_lt := by decide

theorem wideVolume_geometry : wideVolume.Geometry where
  sector := ⟨15, by decide, rfl⟩
  cluster := by decide
  block := dvd_rfl
  block_pos := by decide
  block_le := by decide
  disk := by decide

theorem wideFile_chain : wideVolume.Chain wideFile (fun j => wideFile.entryCluster + j) 1024 where
  first := rfl
  next j hj := by
    have hin : wideFile.entryCluster + j < wideVolume.fatSectors * wideVolume.bytesPerSector / 4 ∧
        2 ≤ wideVolume.fat (wideFile.entryCluster + j) ∧
        wideVolume.fat (wideFile.entryCluster + j) < 0x0FFFFFF8 := by
      simp only [wideVolume, wideFile]
      omega
    rw [nextCluster, getNextCluster, if_pos hin]
    rfl
  addressable j hj := by
    refine ⟨Nat.le_add_right 2 j, ?_⟩
    simp only [sectorAt, wideVolume, wideFile]
    omega
  enough := by decide

theorem wide_read_coalesces :
    wideVolume.Coalesces wideFile (fun j => wideFile.entryCluster + j) 0 5 (2 ^ 23) :=
  (coalesces_iff wideVolume_geometry wideFile_chain (by decide) (by decide) (by decide)
    (by decide)).2 (by decide)

/-- All of the longest file is one request of 2^32 bytes. -/
theorem wide_read_misses : wideVolume.Geometry ∧
    wideVolume.Chain wideFile (fun j => wideFile.entryCluster + j) 1024 ∧
    ¬wideVolume.Coalesces wideFile (fun j => wideFile.entryCluster + j) 0 0 (2 ^ 32 - 1) := by
  refine ⟨wideVolume_geometry, wideFile_chain, fun h => ?_⟩
  have hsize := h.size_lt wideVolume_geometry wideFile_chain (by decide) (by decide) (by decide)
  exact absurd hsize (by decide)

end Contiguous

end Fat32

end MiniVisor
