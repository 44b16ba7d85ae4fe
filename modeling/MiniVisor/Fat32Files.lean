import MiniVisor.Fat32Image

/-!
# Files on a disk

A file of the root directory that is read as a whole, on the disk and in memory. The requests of
such a read are counted, it leaves the disk as it is, and below its buffer nothing changes.
-/
namespace MiniVisor

open Effects

namespace DirectoryEntry

theorem firstByte_eq_space {e : DirectoryEntry} :
    Fat32.firstByte e = Fat32.space ↔ e.name.get 0 = Fat32.space := by
  rw [Fat32.firstByte]
  split_ifs with h
  · rw [h]
    decide
  · rfl

instance (e : DirectoryEntry) : Decidable e.Tidy :=
  decidable_of_iff (Padded e.name.toList.tail ∧
      (Fat32.firstByte e = Fat32.space → ∃ b ∈ e.name.toList.tail, b ≠ Fat32.space) ∧
      Padded e.nameExtension.toList ∧
      (trimmed e.nameExtension.toList).getLast? ≠ some Fat32.dot)
    ⟨fun h => ⟨h.1, fun hfirst => h.2.1 (firstByte_eq_space.2 hfirst), h.2.2.1, h.2.2.2⟩,
      fun h => ⟨h.name, fun hfirst => h.first (firstByte_eq_space.1 hfirst), h.nameExtension,
        h.last⟩⟩

instance (target : List UInt8) (e : DirectoryEntry) : Decidable (e.Plain target) :=
  decidable_of_iff ((e.isEnd = true → e.isLongName = false ∧ e.isDirectory = false) ∧
      (e.isCompared = true → e.Tidy) ∧
      (e.isCompared = true → e.isVolumeLabel = true → e.isNamed target = false))
    ⟨fun h => ⟨h.1, h.2.1, h.2.2⟩, fun h => ⟨h.marker, h.tidy, h.label⟩⟩

variable {m m' : Memory} {a b : ℕ}

/-- The bytes of an entry decide it. -/
theorem ofMemory_congr (h : ∀ i < size, m (a + i) = m' (b + i)) : ofMemory m a = ofMemory m' b := by
  have hread : ∀ i, i + 1 < size → readU16 m (a + i) = readU16 m' (b + i) := by
    intro i hi
    rw [readU16, readU16, h i (by omega), Nat.add_assoc, Nat.add_assoc, h (i + 1) hi]
  have hname : ∀ n base, base + n ≤ size → (Vector.ofFn fun i : Fin n => m (a + base + i)) =
      Vector.ofFn fun i : Fin n => m' (b + base + i) := by
    intro n base hle
    congr 1
    funext i
    have hi := i.isLt
    rw [Nat.add_assoc, Nat.add_assoc]
    exact h _ (by omega)
  rw [ofMemory, ofMemory, DirectoryEntry.mk.injEq]
  refine ⟨hname 8 0 (by decide), hname 3 8 (by decide), h 11 (by decide), hread 20 (by decide),
    hread 26 (by decide), ?_⟩
  have hlow := hread 28 (by decide)
  have hhigh := hread 30 (by decide)
  rw [readU32, readU32, hlow, Nat.add_assoc, Nat.add_assoc, hhigh]

end DirectoryEntry

namespace Fat32

open VirtioBlk

/-! ## The requests of a loop -/

section Requests

variable {f : Fat32} {env : Environment} {file : FileInfo} {clusters : ℕ → ℕ}
  {bufferAddress bufferPointer buffer fuel c j k m n x : ℕ} {r r' : Stretch} {s t : Host}
  {u : PUnit}

theorem fragments_le (clusters : ℕ → ℕ) (j k : ℕ) : fragments clusters j k ≤ k + 1 := by
  induction k generalizing j with
  | zero => exact le_rfl
  | succ k ih =>
    have hrest := ih (j + 1)
    rw [fragments]
    split_ifs <;> omega

/-- From the beginning of a cluster on, a stretch takes the rest or a cluster at least. -/
theorem Gathers.bytes_ge (h : f.Gathers n r r') (hd : r.dataOffset = 0) :
    r'.bytes = n ∨ r.bytes + f.bytesPerCluster ≤ r'.bytes := by
  have hskip : ∀ {q : Stretch}, q.dataOffset = 0 → f.skipSectors q = q := fun hq => by
    rw [skipSectors, hq, if_neg (Nat.not_lt_zero _)]
  induction h with
  | last h =>
    rw [hskip hd] at h
    obtain ⟨-, ⟨-, -, rfl⟩ | ⟨-, -, next, -, ⟨-, -, rfl⟩ | ⟨-, hcomplete, -⟩⟩⟩ := extend_cases h
    · exact .inl rfl
    · refine .inr ?_
      dsimp only
      rw [hd, Nat.sub_zero]
    · exact absurd hcomplete (by decide)
  | next h hnext ih =>
    rw [hskip hd] at h
    obtain ⟨-, ⟨-, hcomplete, -⟩ | ⟨-, -, next, -, ⟨-, hcomplete, -⟩ | ⟨-, -, rfl⟩⟩⟩ :=
      extend_cases h
    · exact absurd hcomplete (by decide)
    · exact absurd hcomplete (by decide)
    · refine (ih rfl).imp_right fun hle => ?_
      dsimp only at hle
      rw [hd, Nat.sub_zero] at hle
      omega

/-- A request that succeeded has been counted, and its descriptors are free again. -/
theorem operationSync_counts {address : ℕ} (henv : Serves env) (hs : Ready k s)
    (h : operationSync env buffer address n false s = (.ok u, t)) : Ready (k + 1) t := by
  have hserved : Effect.Leaves (fun _ => VirtioBlk.Served buffer address n s)
      (Reads buffer address n s) (operationSync env buffer address n false s) :=
    operationSync_triple s s rfl
  rw [h] at hserved
  have haccepted := hserved.accepted
  rw [hs.counted] at haccepted
  obtain ⟨t', ht', hready⟩ : ∃ t', operationSync env buffer address n false s = (.ok ⟨⟩, t') ∧
      Ready (k + 1) t' := operationSync_ready henv hs haccepted
  rw [h] at ht'
  obtain ⟨-, rfl⟩ := Prod.mk.inj ht'
  exact hready

theorem readPart_counts (henv : Serves env) (hs : Ready k s) (hdirect : r.dataOffsetBackup = 0)
    (h : f.readPart env bufferAddress c bufferPointer r s = (.ok u, t)) : Ready (k + 1) t := by
  rw [readPart, Effect.checked_bind_eq_ok] at h
  obtain ⟨pages, -, h⟩ := h
  rw [if_neg (not_not.2 hdirect), readDirect, Effect.checked_bind_eq_ok] at h
  obtain ⟨place, -, h⟩ := h
  rw [Effect.checked_bind_eq_ok] at h
  obtain ⟨sector, -, h⟩ := h
  obtain ⟨hok, rfl⟩ := Prod.mk.inj h
  have hread : f.readSectors env place sector r.sectors s =
      (.ok u, (f.readSectors env place sector r.sectors s).2) := Prod.ext hok rfl
  have hready : Ready (k + 1) (f.readSectors env place sector r.sectors s).2 := by
    rw [readSectors, Effect.checked_bind_eq_ok] at hread
    obtain ⟨position, -, hread⟩ := hread
    exact operationSync_counts henv hs hread
  exact ⟨hready.free, hready.counted⟩

/-- A loop from the beginning of a cluster takes a request for each cluster at most. -/
theorem readLoop_counts (henv : Serves env)
    (hs : Ready k s) (hp : bufferPointer < n)
    (h : f.readLoop env bufferAddress n fuel 0 c bufferPointer s = (.ok x, t)) :
    ∃ k', Ready k' t ∧
      k' * f.bytesPerCluster < k * f.bytesPerCluster + (n - bufferPointer) + f.bytesPerCluster := by
  induction fuel generalizing c k bufferPointer s with
  | zero => exact absurd h (by simp [readLoop, Effect.fail])
  | succ fuel ih =>
    obtain ⟨r, u, s₁, hr, hpart, h⟩ := readLoop_eq_ok h
    have hready := readPart_counts henv hs (hr.direct rfl rfl) hpart
    rcases advance_eq_ok h with ⟨-, rfl⟩ | ⟨hmore, next, -, h⟩
    · exact ⟨k + 1, hready, by rw [Nat.succ_mul]; omega⟩
    · -- Before the length, a stretch ends with a cluster.
      have hle := (readLoop_completes h).le
      have hbytes : r.bytes = n ∨ 0 + f.bytesPerCluster ≤ r.bytes :=
        hr.bytes_ge rfl
      obtain ⟨k', hk', hlt⟩ := ih hready (by omega) h
      refine ⟨k', hk', ?_⟩
      rw [Nat.succ_mul] at hlt
      omega

theorem readLoop_disk (h : f.readLoop env bufferAddress n fuel 0 c bufferPointer s = (.ok x, t)) :
    t.drive.disk = s.drive.disk := by
  induction fuel generalizing c bufferPointer s with
  | zero => exact absurd h (by simp [readLoop, Effect.fail])
  | succ fuel ih =>
    obtain ⟨r, u, s₁, -, hpart, h⟩ := readLoop_eq_ok h
    obtain ⟨-, -, hdisk, -⟩ := readPart_moves hpart
    rcases advance_eq_ok h with ⟨-, rfl⟩ | ⟨-, next, -, h⟩
    · exact hdisk
    · exact (ih h).trans hdisk

end Requests

/-! ## Whole files -/

/-- The bytes of a file on the disk. -/
def content (f : Fat32) (disk : Memory) (clusters : ℕ → ℕ) : Memory :=
  fun x => disk (f.filePosition clusters x)

/-- The most requests that a read of the whole file takes. -/
def requests (f : Fat32) (file : FileInfo) : ℕ := f.links file 0 file.fileSize + 1

/-- A file that is read as it should be, as a whole. -/
structure WholeFile (f : Fat32) (file : FileInfo) (clusters : ℕ → ℕ) (m : ℕ) : Prop where
  chain : f.Chain file clusters m
  entry : file.entryCluster < 0x0FFFFFF8
  size_pos : 0 < file.fileSize
  readable : f.Readable file clusters 0 file.fileSize

/-- What a read of the whole file leaves behind. -/
structure Loaded (f : Fat32) (file : FileInfo) (clusters : ℕ → ℕ) (buffer : ℕ) (s t : Host) :
    Prop where
  bytes : ∀ x < file.fileSize, t.memory (buffer + x) = f.content s.drive.disk clusters x
  below : ∀ x < buffer, t.memory x = s.memory x
  disk : t.drive.disk = s.drive.disk

section Files

variable {f : Fat32} {env : Environment} {file : FileInfo} {clusters : ℕ → ℕ}
  {fuel k m : ℕ} {s : Host}

theorem clamp_whole (file : FileInfo) : clamp file 0 file.fileSize = file.fileSize := by
  rw [clamp, Nat.sub_zero, min_self]

theorem links_whole (f : Fat32) (file : FileInfo) :
    f.links file 0 file.fileSize = (file.fileSize - 1) / f.bytesPerCluster := by
  rw [links, clamp_whole, Nat.zero_mod]
  rfl

theorem WholeFile.loads (buffer : ℕ) (h : f.WholeFile file clusters m) (hf : f.Geometry)
    (henv : Serves env) (hsupplies : Supplies env) (hs : Ready k s)
    (hroom : k + f.requests file < 2 ^ 16) (hbuffer : buffer + file.fileSize ≤ 2 ^ 64)
    (hfuel : 2 ^ 64 + 2 ^ 32 ≤ fuel) :
    ∃ t k', f.read env fuel file buffer 0 file.fileSize s = (.ok file.fileSize, t) ∧
      Loaded f file clusters buffer s t ∧ Ready k' t ∧ k' ≤ k + f.requests file := by
  have hcluster := hf.cluster_pos
  have hpos := h.size_pos
  have hsmall := file.fileSize_lt
  have hclamp := clamp_whole file
  have hword : 0 + file.fileSize < 2 ^ 64 := by omega
  have hfew := fragments_le clusters (0 / f.bytesPerCluster) (f.links file 0 file.fileSize)
  rw [requests] at hroom
  obtain ⟨t, ht, hbytes⟩ := h.readable.readsFile hf h.chain h.entry hpos hword
    (by rw [hclamp]; exact hbuffer) env fuel k s (by omega) henv hsupplies hs (by omega)
  have hloop := ht
  rw [read_of_locate (h.chain.locate hf hpos hword), Nat.zero_mod, hclamp] at hloop
  rw [hclamp] at ht hbytes
  obtain ⟨k', hready, hlt⟩ := readLoop_counts henv hs hpos hloop
  refine ⟨t, k', ht, ⟨fun x hx => ?_, fun x hx => readLoop_below hx hloop, readLoop_disk hloop⟩,
    hready, ?_⟩
  · rw [hbytes x hx, Nat.zero_add]
    rfl
  · have hlast : file.fileSize ≤ (f.links file 0 file.fileSize + 1) * f.bytesPerCluster := by
      have hdiv : file.fileSize - 1 <
          (file.fileSize - 1) / f.bytesPerCluster * f.bytesPerCluster + f.bytesPerCluster :=
        Nat.lt_div_mul_add hcluster
      rw [links_whole, Nat.succ_mul]
      omega
    have hall : k' * f.bytesPerCluster <
        (k + f.links file 0 file.fileSize + 1 + 1) * f.bytesPerCluster := by
      rw [Nat.succ_mul, Nat.add_assoc k, Nat.add_mul]
      omega
    have hle := Nat.lt_of_mul_lt_mul_right hall
    rw [requests]
    omega

end Files

/-! ## The root directory -/

/-- The entries of the root directory's first cluster. -/
def rootDirectory (disk : Memory) (baseLba : ℕ) : List DirectoryEntry :=
  (onDisk disk baseLba).entries disk
    ((onDisk disk baseLba).positionAt (rootClusterOnDisk disk baseLba) 0)

/-- The file that a name stands for in the root directory; the entries that are passed on the way
to it are plain. -/
structure Named (disk : Memory) (baseLba : ℕ) (name : String) (file : FileInfo) : Prop where
  plain : ∀ pre e post, rootDirectory disk baseLba = pre ++ e :: post →
    (∀ x ∈ pre, x.isEnd = false ∧ x.isWanted (bytesOf name) = false) → e.Plain (bytesOf name)
  found : DirectoryEntry.firstFile (bytesOf name) (rootDirectory disk baseLba) = some file

section Root

variable {f : Fat32} {m m' disk : Memory} {a b baseLba rootDirectoryList : ℕ} {name : String}
  {file : FileInfo}

theorem entries_congr (h : ∀ i < f.bytesPerCluster, m (a + i) = m' (b + i)) :
    f.entries m a = f.entries m' b := by
  refine List.map_congr_left fun i hi => DirectoryEntry.ofMemory_congr fun j hj => ?_
  have hlt := List.mem_range.1 hi
  have hend : (i + 1) * DirectoryEntry.size ≤ f.bytesPerSector * f.sectorsPerCluster :=
    (Nat.le_div_iff_mul_le (by decide)).1 hlt
  rw [Nat.succ_mul, Nat.mul_comm i, Nat.mul_comm f.bytesPerSector] at hend
  rw [Nat.add_assoc, Nat.add_assoc]
  exact h _ (lt_of_lt_of_le (Nat.add_lt_add_left hj _) hend)

/-- A file is found by its name, once the root directory is in memory. -/
theorem Named.searchFile (h : Named disk baseLba name file)
    (hroot : ∀ i < (onDisk disk baseLba).bytesPerCluster, m (rootDirectoryList + i) =
      disk ((onDisk disk baseLba).positionAt (rootClusterOnDisk disk baseLba) i)) :
    (onDisk disk baseLba).searchFile m rootDirectoryList name = some (some file) := by
  have hentries : (onDisk disk baseLba).entries m rootDirectoryList = rootDirectory disk baseLba :=
    entries_congr fun i hi => by rw [hroot i hi, positionAt, positionAt, Nat.add_zero]
  rw [Fat32.searchFile, hentries, searchEntries_eq
    (validUtf8_bytesOf name) h.plain, h.found]

end Root

end Fat32

end MiniVisor
