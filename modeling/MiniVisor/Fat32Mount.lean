import MiniVisor.BlockWalk
import MiniVisor.Fat32Directory

/-!
# Mounting a volume

`init_fat32` reads the first sector of the disk, takes the first FAT32 partition of its table and
hands it to `new`. `new` reads the parameters of the volume from the first sector of the
partition, and the table and the first cluster of the root directory into pages of their own.
-/
namespace MiniVisor

open Effects

namespace Fat32

/-- `FAT32_SIGNATURE` -/
def fat32Signature : List UInt8 := [0x46, 0x41, 0x54, 0x33, 0x32, 0x20, 0x20, 0x20]

def bytesPerSectorOffset : ℕ := 11
def sectorsPerClusterOffset : ℕ := 13
def numOfReservedClusterOffset : ℕ := 14
def numOfFatsOffset : ℕ := 16
def fatSizeOffset : ℕ := 36
def rootClusterOffset : ℕ := 44
def fat32SignatureOffset : ℕ := 82

/-- The volume with its parameters at `address`; the table is missing. -/
def parameters (m : Memory) (address baseLba lbaSize : ℕ) : Fat32 where
  baseLba := baseLba
  lbaSize := lbaSize
  bytesPerSector := readLe m (address + bytesPerSectorOffset) 2
  sectorsPerCluster := readLe m (address + sectorsPerClusterOffset) 1
  reservedSectors := readLe m (address + numOfReservedClusterOffset) 2
  fatSectors := readLe m (address + fatSizeOffset) 4
  numberOfFats := readLe m (address + numOfFatsOffset) 2
  fat := fun _ => 0
  bytesPerSector_lt := VirtioBlkMmio.readLe_lt
  sectorsPerCluster_lt := VirtioBlkMmio.readLe_lt

def signature (m : Memory) (address : ℕ) : List UInt8 :=
  (List.range 8).map fun i => m (address + fat32SignatureOffset + i)

/-- The number of entries of the table. -/
def tableLength (f : Fat32) : ℕ := f.fatSectors * f.bytesPerSector / 4

/-- The volume with the table at `fat`. -/
def withTable (f : Fat32) (m : Memory) (fat : ℕ) : Fat32 :=
  { f with fat := fun i => if i < f.tableLength then readLe m (fat + 4 * i) 4 else 0 }

/-- `allocate_pages(..).expect(..)` -/
def expectPages (env : Environment) (n : ℕ) : Effect Host ℕ := do
  Effect.checked (← Effect.attempt (allocatePages env n))

/-- The length of the table in whole blocks. -/
def alignedFatSize (f : Fat32) : Option ℕ := do
  let last ← Checked.sub (f.fatSectors * f.bytesPerSector) 1
  let mask ← Checked.sub f.lbaSize 1
  Checked.add 64 (last - (last &&& mask)) f.lbaSize

/-- The position of the table on the disk. -/
def fatAddress (f : Fat32) : Option ℕ := do
  let base ← Checked.mul 64 f.baseLba f.lbaSize
  Checked.add 64 base (f.reservedSectors * f.bytesPerSector)

/-- `new`, with `bpb_buffer` at `bpbAddress`: the volume and `root_directory_list`. -/
def new (env : Environment) (bpbAddress baseLba lbaSize : ℕ) : Effect Host (Fat32 × ℕ) := do
  let base ← Effect.checked (Checked.mul 64 baseLba lbaSize)
  VirtioBlk.read env bpbAddress base 512
  if (← Effect.look fun s : Host => signature s.memory bpbAddress) ≠ fat32Signature then
    Effect.fail .err
  else
    let f ← Effect.look fun s : Host => parameters s.memory bpbAddress baseLba lbaSize
    let rootCluster ← Effect.look fun s : Host =>
      readLe s.memory (bpbAddress + rootClusterOffset) 4
    let fatSize ← Effect.checked f.alignedFatSize
    let fatPages := fatSize / 2 ^ pageShift + 1
    let fat ← expectPages env fatPages
    let fatAddress ← Effect.checked f.fatAddress
    match ← Effect.attempt (VirtioBlk.read env fat fatAddress fatSize) with
    | none =>
      freePages fat fatPages
      Effect.fail .err
    | some _ =>
      let rootDirectoryPages := f.bytesPerCluster / 2 ^ pageShift + 1
      let rootDirectoryList ← expectPages env rootDirectoryPages
      let rootSector ← Effect.checked (f.clusterToSector rootCluster)
      match ← Effect.attempt
          (f.readSectors env rootDirectoryList rootSector f.sectorsPerCluster) with
      | none =>
        freePages rootDirectoryList rootDirectoryPages
        freePages fat fatPages
        Effect.fail .err
      | some _ =>
        let m ← Effect.look Host.memory
        return (f.withTable m fat, rootDirectoryList)

/-! ## The partition table -/

structure PartitionTableEntry where
  partitionType : UInt8
  firstSectorLba : ℕ

def PartitionTableEntry.ofMemory (m : Memory) (address : ℕ) : PartitionTableEntry where
  partitionType := m (address + 4)
  firstSectorLba := readLe m (address + 8) 4

end Fat32

end MiniVisor
