import MiniVisor.VirtioBlk

/-!
# FAT32 files

`read` and `write` follow the chain of a file's clusters. They gather a stretch of
consecutive clusters into one request to the block device. The table is in the
hypervisor's memory and does not change; the types of the fields are those of the
source, with overflows as panics.
-/
namespace MiniVisor

open Effects

structure Fat32 where
  baseLba : ℕ
  lbaSize : ℕ
  bytesPerSector : ℕ
  sectorsPerCluster : ℕ
  /-- 16 bits -/
  reservedSectors : ℕ
  /-- 32 bits -/
  fatSectors : ℕ
  /-- 16 bits -/
  numberOfFats : ℕ
  /-- The entries of the table, of 32 bits each. -/
  fat : ℕ → ℕ
  bytesPerSector_lt : bytesPerSector < 2 ^ 16
  sectorsPerCluster_lt : sectorsPerCluster < 2 ^ 8

structure FileInfo where
  entryCluster : ℕ
  fileSize : ℕ
  fileSize_lt : fileSize < 2 ^ 32

namespace Fat32

def pageShift : ℕ := 12

def clusterToSector (f : Fat32) (cluster : ℕ) : Option ℕ := do
  let fats ← Checked.mul 32 f.numberOfFats f.fatSectors
  let base ← Checked.add 32 f.reservedSectors fats
  let index ← Checked.sub cluster 2
  let sectors ← Checked.mul 32 index f.sectorsPerCluster
  Checked.add 32 base sectors

def getNextCluster (f : Fat32) (cluster : ℕ) : Option ℕ :=
  if cluster < f.fatSectors * f.bytesPerSector / 4 ∧ 2 ≤ f.fat cluster ∧ f.fat cluster < 0x0FFFFFF8
  then some (f.fat cluster)
  else none

/-- The position of a sector on the disk and the length of a number of sectors. -/
def sectorRange (f : Fat32) (baseSector sectors : ℕ) : Option (ℕ × ℕ) := do
  let base ← Checked.mul 64 f.baseLba f.lbaSize
  let position ← Checked.add 64 base (baseSector * f.bytesPerSector)
  return (position, sectors * f.bytesPerSector)

def readSectors (f : Fat32) (env : Environment) (buffer baseSector sectors : ℕ) :
    Effect Host PUnit := do
  let (address, length) ← Effect.checked (f.sectorRange baseSector sectors)
  VirtioBlk.read env buffer address length

def writeSectors (f : Fat32) (env : Environment) (buffer baseSector sectors : ℕ) :
    Effect Host PUnit := do
  let (address, length) ← Effect.checked (f.sectorRange baseSector sectors)
  VirtioBlk.write env buffer address length

def bytesPerCluster (f : Fat32) : ℕ := f.sectorsPerCluster * f.bytesPerSector

/-- The macro `next_cluster!`. -/
def nextCluster (f : Fat32) (cluster : ℕ) : Except Fault ℕ :=
  match f.getNextCluster cluster with
  | some n => .ok n
  | none => .error .err

/-- `for _ in 0..clusters_to_skip`. -/
def skipClusters (f : Fat32) : ℕ → ℕ → Except Fault ℕ
  | 0, cluster => .ok cluster
  | count + 1, cluster => do f.skipClusters count (← f.nextCluster cluster)

def checked {α : Type} (o : Option α) : Except Fault α :=
  match o with
  | some a => .ok a
  | none => .error .panic

/-- A stretch of clusters that one request is to cover. -/
structure Stretch where
  sectors : ℕ
  bytes : ℕ
  sectorOffset : ℕ
  dataOffset : ℕ
  dataOffsetBackup : ℕ
  cluster : ℕ

/-- The sectors to skip in the first cluster. -/
def skipSectors (f : Fat32) (r : Stretch) : Stretch :=
  if f.bytesPerSector < r.dataOffset then
    let sectorOffset := r.dataOffset / f.bytesPerSector
    let dataOffset := r.dataOffset - sectorOffset * f.bytesPerSector
    { r with
      sectorOffset := sectorOffset
      dataOffset := dataOffset
      dataOffsetBackup := dataOffset }
  else r

/-- The rest of one iteration of the inner loop: either the stretch is complete, or it
goes on with the next cluster. -/
def extend (f : Fat32) (length : ℕ) (r : Stretch) : Except Fault (Stretch × Bool) := do
  let left ← checked (Checked.sub length r.bytes)
  let span ← checked (Checked.add 64 left r.dataOffset)
  if span ≤ f.bytesPerCluster then
    let sectors ← checked
      (Checked.add 32 r.sectors ((1 + (max span 1 - 1) / f.bytesPerSector) % 2 ^ 32))
    return ({ r with sectors := sectors, bytes := r.bytes + left }, true)
  else
    let sectors ← checked (Checked.add 32 r.sectors f.sectorsPerCluster)
    let whole ← checked (Checked.sub f.bytesPerCluster r.dataOffset)
    let bytes ← checked (Checked.add 64 r.bytes whole)
    let r := { r with sectors := sectors, bytes := bytes }
    let next ← f.nextCluster r.cluster
    if next ≠ (← checked (Checked.add 32 r.cluster 1)) then return (r, true)
    else return ({ r with dataOffset := 0, cluster := next }, false)

/-- The inner loop of `read`. -/
def readStretch (f : Fat32) (length : ℕ) : ℕ → Stretch → Except Fault Stretch
  | 0, _ => .error .stuck
  | fuel + 1, r => do
    let (r, complete) ← f.extend length (f.skipSectors r)
    if complete then return r else f.readStretch length fuel r

/-- The inner loop of `write`, which refuses less than a sector. -/
def writeStretch (f : Fat32) (length : ℕ) : ℕ → Stretch → Except Fault Stretch
  | 0, _ => .error .stuck
  | fuel + 1, r => do
    if (← checked (Checked.sub length r.bytes)) < f.bytesPerSector then .error .err
    else
      let (r, complete) ← f.extend length (f.skipSectors r)
      if complete then return r else f.writeStretch length fuel r

def liftExcept {α : Type} (x : Except Fault α) : Effect Host α := fun s => (x, s)

/-- `allocate_pages(n, 0)`. -/
def allocatePages (env : Environment) (n : ℕ) : Effect Host ℕ := fun s =>
  let drive := { s.drive with allocations := s.drive.allocations + 1 }
  match env.allocatePages s.drive.allocations n with
  | some address =>
    (.ok address, { s with drive := { drive with pages := (address, n) :: drive.pages } })
  | none => (.error .err, { s with drive := drive })

def freePages (address n : ℕ) : Effect Host PUnit :=
  .change fun s => { s with drive.pages := s.drive.pages.erase (address, n) }

/-- The stretch that an iteration of the outer loop starts with. -/
def Stretch.start (dataOffset cluster : ℕ) : Stretch where
  sectors := 0
  bytes := 0
  sectorOffset := 0
  dataOffset := dataOffset
  dataOffsetBackup := dataOffset
  cluster := cluster

/-- The number of pages of the bounce buffer. -/
def bouncePages (f : Fat32) (sectors : ℕ) : Option ℕ := do
  let size := sectors * f.bytesPerSector
  let mask ← Checked.sub f.lbaSize 1
  let aligned ← Checked.add 64 (size - (size &&& mask)) f.lbaSize
  return aligned / 2 ^ pageShift + 1

/-- The first sector of the stretch that starts at `cluster`. -/
def firstSector (f : Fat32) (cluster : ℕ) (r : Stretch) : Option ℕ := do
  Checked.add 32 (← f.clusterToSector cluster) r.sectorOffset

/-- Read a stretch through a bounce buffer, from which the data is copied. -/
def readBounced (f : Fat32) (env : Environment) (bufferAddress cluster bufferPointer pages : ℕ)
    (r : Stretch) : Effect Host PUnit := do
  let buffer ← allocatePages env pages
  let sector ← Effect.checked (f.firstSector cluster r)
  match ← Effect.attempt (f.readSectors env buffer sector r.sectors) with
  | none =>
    freePages buffer pages
    Effect.fail .err
  | some _ =>
    Effect.checked (Checked.require (bufferPointer = 0))
    let source := buffer + r.dataOffsetBackup
    Effect.change fun s : Host =>
      { s with
        memory := copyBytes s.memory bufferAddress s.memory source r.bytes
        delivered := s.delivered + r.bytes }
    freePages buffer pages

/-- Read a stretch into the caller's buffer. -/
def readDirect (f : Fat32) (env : Environment) (bufferAddress cluster bufferPointer : ℕ)
    (r : Stretch) : Effect Host PUnit := do
  let buffer ← Effect.checked (Checked.add 64 bufferAddress bufferPointer)
  let sector ← Effect.checked (f.firstSector cluster r)
  Effect.afterwards (f.readSectors env buffer sector r.sectors) fun s : Host =>
    { s with delivered := s.delivered + min s.drive.moved r.bytes }

/-- The outer loop of `read`. -/
def readLoop (f : Fat32) (env : Environment) (bufferAddress length : ℕ) :
    ℕ → ℕ → ℕ → ℕ → Effect Host ℕ
  | 0, _, _, _ => Effect.fail .stuck
  | fuel + 1, dataOffset, cluster, bufferPointer => do
    let r ← liftExcept (f.readStretch length fuel (.start dataOffset cluster))
    let pages ← Effect.checked (f.bouncePages r.sectors)
    if r.dataOffsetBackup ≠ 0 then f.readBounced env bufferAddress cluster bufferPointer pages r
    else f.readDirect env bufferAddress cluster bufferPointer r
    let bufferPointer ← Effect.checked (Checked.add 64 bufferPointer r.bytes)
    if length = bufferPointer then return bufferPointer
    else
      let next ← liftExcept (f.nextCluster r.cluster)
      f.readLoop env bufferAddress length fuel 0 next bufferPointer

/-- The outer loop of `write`. -/
def writeLoop (f : Fat32) (env : Environment) (bufferAddress length : ℕ) :
    ℕ → ℕ → ℕ → ℕ → Effect Host ℕ
  | 0, _, _, _ => Effect.fail .stuck
  | fuel + 1, dataOffset, cluster, bufferPointer => do
    let r ← liftExcept (f.writeStretch length fuel (.start dataOffset cluster))
    if r.dataOffsetBackup ≠ 0 then Effect.fail .err
    else
      let sector ← Effect.checked (f.firstSector cluster r)
      let buffer ← Effect.checked (Checked.add 64 bufferAddress bufferPointer)
      f.writeSectors env buffer sector r.sectors
      let bufferPointer ← Effect.checked (Checked.add 64 bufferPointer r.bytes)
      if length = bufferPointer then return bufferPointer
      else
        let next ← liftExcept (f.nextCluster r.cluster)
        f.writeLoop env bufferAddress length fuel 0 next bufferPointer

/-- What `read` and `write` do before their loops; `none` if nothing is left of the
file, else the length, the data offset and the first cluster. -/
def locate (f : Fat32) (file : FileInfo) (offset length : ℕ) :
    Except Fault (Option (ℕ × ℕ × ℕ)) := do
  let last ← checked (Checked.add 64 offset length)
  if file.fileSize < last ∧ file.fileSize ≤ offset then return none
  else
    let length := if file.fileSize < last then file.fileSize - offset else length
    let skip ← checked (if f.bytesPerCluster = 0 then none else some (offset / f.bytesPerCluster))
    let cluster ← f.skipClusters skip file.entryCluster
    return some (length, offset - skip * f.bytesPerCluster, cluster)

def read (f : Fat32) (env : Environment) (fuel : ℕ) (file : FileInfo)
    (bufferAddress offset length : ℕ) : Effect Host ℕ := do
  match ← liftExcept (f.locate file offset length) with
  | none => return 0
  | some (length, dataOffset, cluster) =>
    f.readLoop env bufferAddress length fuel dataOffset cluster 0

def write (f : Fat32) (env : Environment) (fuel : ℕ) (file : FileInfo)
    (bufferAddress offset length : ℕ) : Effect Host ℕ := do
  match ← liftExcept (f.locate file offset length) with
  | none => return 0
  | some (length, dataOffset, cluster) =>
    f.writeLoop env bufferAddress length fuel dataOffset cluster 0

end Fat32

end MiniVisor
