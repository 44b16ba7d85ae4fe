import MiniVisor.Fat32Mount
import MiniVisor.Fat32Reads

/-!
# Volumes on a disk

A volume is on a disk if the parameters in its first sector say where its table and its clusters
are. Mounting it gives the volume as it is on the disk, and the first cluster of its root
directory in memory.
-/
namespace MiniVisor

open Effects

namespace Fat32

open VirtioBlk

section Steps

variable {env : Environment} {buffer address length k n page : ℕ} {s : Host}

end Steps

/-! ## Volumes -/

/-- The parameters in the first sector of a partition. -/
def bootParameters (disk : Memory) (baseLba : ℕ) : Fat32 :=
  parameters disk (baseLba * 512) baseLba 512

def tablePosition (f : Fat32) : ℕ := f.baseLba * f.lbaSize + f.reservedSectors * f.bytesPerSector

/-- The volume that is on the disk. -/
def onDisk (disk : Memory) (baseLba : ℕ) : Fat32 :=
  (bootParameters disk baseLba).withTable disk (bootParameters disk baseLba).tablePosition

def rootClusterOnDisk (disk : Memory) (baseLba : ℕ) : ℕ :=
  readLe disk (baseLba * 512 + rootClusterOffset) 4

section Volume

variable {f : Fat32} {m m' disk : Memory} {a b baseLba lbaSize : ℕ}

theorem Geometry.withTable (h : f.Geometry) : (f.withTable m a).Geometry :=
  ⟨h.sector, h.cluster, h.block, h.block_pos, h.block_le, h.disk⟩

end Volume

section Mount

variable {env : Environment} {bpbAddress baseLba fat rootDirectoryList k : ℕ} {s : Host}

section Parts

variable {m disk : Memory} {n page : ℕ}

end Parts

end Mount

end Fat32

end MiniVisor
