import MiniVisor.Library.Effects

/-!
# The host block device

`operation_sync` hands one request to the physical virtio-blk device and waits for its
status. The device itself is hardware: its status for each request is a parameter, and
a request that fails may have moved some of its bytes. Memory and the disk are
functions of the byte address.
-/
namespace MiniVisor

open Effects

abbrev Memory := ℕ → UInt8

/-- `copy m target source from count` takes `count` bytes from `source`. -/
def copyBytes (m : Memory) (target : ℕ) (source : Memory) (start count : ℕ) : Memory := fun x =>
  if target ≤ x ∧ x < target + count then source (start + (x - target)) else m x

theorem copyBytes_of_mem {m source : Memory} {target start count i : ℕ} (h : i < count) :
    copyBytes m target source start count (target + i) = source (start + i) := by
  rw [copyBytes, if_pos (by omega), Nat.add_sub_cancel_left]

theorem copyBytes_of_not_mem {m source : Memory} {target start count x : ℕ}
    (h : ¬(target ≤ x ∧ x < target + count)) : copyBytes m target source start count x = m x :=
  if_neg h

def numberOfDescriptors : ℕ := 64

/-- What is outside the program: for each request, the number of bytes after which the
device failed, if it did; for each call, what the page allocator gave. -/
structure Environment where
  failure : ℕ → Option ℕ
  allocatePages : ℕ → ℕ → Option ℕ

/-- The driver of the block device, the disk and the page allocator. -/
structure Drive where
  disk : Memory
  freeBitmap : ℕ → Bool
  /-- `avail.idx` of the driver's queue. -/
  availIdx : ℕ
  /-- The requests that the device has served. -/
  requests : ℕ
  /-- The calls to the page allocator. -/
  allocations : ℕ
  /-- The pages that are allocated, by address and number. -/
  pages : List (ℕ × ℕ)
  /-- Ghost: the bytes that the last request moved. -/
  moved : ℕ

/-- Host memory and the drive. -/
structure Host where
  memory : Memory
  drive : Drive
  /-- Ghost: the bytes of files that reads have put into their callers' buffers. -/
  delivered : ℕ

namespace VirtioBlk

def allocateDescriptor : Effect Host ℕ := fun s =>
  match (List.range numberOfDescriptors).find? s.drive.freeBitmap with
  | some index =>
    (.ok index, { s with drive.freeBitmap := Function.update s.drive.freeBitmap index false })
  | none => (.error .err, s)

def freeDescriptor (index : ℕ) : Effect Host PUnit :=
  .change fun s =>
    { s with drive.freeBitmap := Function.update s.drive.freeBitmap index true }

/-- The device serves a request of `length` bytes; the descriptor has 32 bits for it. -/
def serve (env : Environment) (buffer sector length : ℕ) (isWrite : Bool) : Effect Host Bool :=
  fun s =>
    let moved := match env.failure s.drive.requests with
      | none => length
      | some n => min n length
    let address := sector * 512
    let drive := { s.drive with requests := s.drive.requests + 1, moved := moved }
    ((.ok (env.failure s.drive.requests).isNone),
      if isWrite then
        { s with drive := { drive with disk := copyBytes drive.disk address s.memory buffer moved } }
      else { s with memory := copyBytes s.memory buffer drive.disk address moved, drive := drive })

def operationSync (env : Environment) (bufferAddress blockAddress length : ℕ) (isWrite : Bool) :
    Effect Host PUnit := do
  Effect.change fun s : Host => { s with drive.moved := 0 }
  if blockAddress % 512 ≠ 0 ∨ length % 512 ≠ 0 then Effect.fail .err
  else
    let first ← allocateDescriptor
    let second ← allocateDescriptor
    let third ← allocateDescriptor
    let idx ← Effect.look fun s : Host => s.drive.availIdx
    let next ← Effect.checked (Checked.add 16 idx 1)
    Effect.change fun s : Host => { s with drive.availIdx := next }
    let done ← serve env bufferAddress (blockAddress / 512) (length % 2 ^ 32) isWrite
    freeDescriptor first
    freeDescriptor second
    freeDescriptor third
    if done then pure ⟨⟩ else Effect.fail .err

def read (env : Environment) (bufferAddress blockAddress length : ℕ) : Effect Host PUnit :=
  operationSync env bufferAddress blockAddress length false

def write (env : Environment) (bufferAddress blockAddress length : ℕ) : Effect Host PUnit :=
  operationSync env bufferAddress blockAddress length true

end VirtioBlk

end MiniVisor
