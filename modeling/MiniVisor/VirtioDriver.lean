import MiniVisor.VirtioBlkMmio

/-!
# The virtio-blk driver

The driver of the physical block device, down to the bytes of its queue. A request takes three
descriptors: the header and the status byte are locals on the stack, and the data goes to or
comes from the buffer of the caller. The driver waits for the status of one request before it
makes the next. The device is outside of the program: it takes what the queue offers and answers
it, and it does not answer what is malformed.
-/
namespace MiniVisor

namespace VirtioDriver

open Effects

/-! ## The queue -/

def virtQueueDescFlagsWrite : ℕ := 1 <<< 1

def virtioPageShift : ℕ := 12
def virtioPageSize : ℕ := 1 <<< virtioPageShift

/-- `size_of::<VirtQueueDesc>()`, `size_of::<VirtQueueAvail>()` and
`size_of::<VirtQueueUsed>()`. -/
def sizeOfDesc : ℕ := 16
def sizeOfAvail : ℕ := 4 + 2 * numberOfDescriptors + 2
def sizeOfUsed : ℕ := 4 + 8 * numberOfDescriptors + 4

def numberOfPagesQueue : ℕ :=
  ((sizeOfDesc * numberOfDescriptors + sizeOfAvail) >>> virtioPageShift) + 1 +
    ((sizeOfUsed >>> virtioPageShift) + 1)

/-- The addresses of the descriptor table and of the two rings. -/
structure Queue where
  descriptors : ℕ
  avail : ℕ
  used : ℕ

/-- The parts of the pages of a queue. -/
def Queue.ofPages (queue : ℕ) : Queue where
  descriptors := queue
  avail := queue + sizeOfDesc * numberOfDescriptors
  used := (queue + sizeOfDesc * numberOfDescriptors + sizeOfAvail - 1) / virtioPageSize *
    virtioPageSize + virtioPageSize

/-- `virtio_blk_req` and `status` on the stack. -/
structure Frame where
  virtioBlkReq : ℕ
  status : ℕ

/-- A bit for each descriptor, `NUMBER_OF_DESCRIPTORS / u8::BITS` bytes. -/
abbrev FreeBitmap := Vector (BitVec 8) 8

structure Machine where
  memory : Memory
  disk : Memory
  freeBitmap : FreeBitmap
  /-- The entries of the available ring that the device took. -/
  taken : ℕ

/-! ## The device -/

def VirtQueueDesc.IsWrite (d : VirtQueueDesc) : Prop := d.flags &&& virtQueueDescFlagsWrite ≠ 0

instance (d : VirtQueueDesc) : Decidable (VirtQueueDesc.IsWrite d) :=
  inferInstanceAs (Decidable (_ ≠ _))

/-- The descriptors from `index` on. -/
def chain (m : Memory) (table : ℕ) : ℕ → ℕ → Option (List VirtQueueDesc)
  | 0, _ => none
  | fuel + 1, index =>
    let d := readDesc m (table + sizeOfDesc * index)
    if d.HasNext then (chain m table fuel d.next).map (d :: ·) else some [d]

/-- A request as the device sees it. -/
structure Offer where
  reqType : ℕ
  sector : ℕ
  buffer : ℕ
  length : ℕ
  status : ℕ
  deriving DecidableEq

/-- The header and the data are read from a chain of three descriptors. -/
def offerOf (m : Memory) : List VirtQueueDesc → Option Offer
  | [header, data, status] =>
    let reqType := readLe m header.address 4
    if header.length = 16 ∧ ¬VirtQueueDesc.IsWrite header ∧ VirtQueueDesc.IsWrite status ∧
        status.length = 1 ∧ (reqType = virtioBlkTypeIn ∧ VirtQueueDesc.IsWrite data ∨
          reqType = virtioBlkTypeOut ∧ ¬VirtQueueDesc.IsWrite data) then
      some ⟨reqType, readLe m (header.address + 8) 8, data.address, data.length, status.address⟩
    else none
  | _ => none

/-- The head of the next entry of the available ring, if there is one. -/
def nextHead (q : Queue) (m : Memory) (taken : ℕ) : Option ℕ :=
  if readLe m (q.avail + 2) 2 = taken % 2 ^ 16 then none
  else some (readLe m (q.avail + 4 + 2 * (taken % numberOfDescriptors)) 2)

/-- What the queue offers next. -/
def offered (q : Queue) (m : Memory) (taken : ℕ) : Option (ℕ × Offer) := do
  let head ← nextHead q m taken
  let descriptors ← chain m q.descriptors numberOfDescriptors head
  let offer ← offerOf m descriptors
  return (head, offer)

/-- The bytes of a request that are moved up to its failure. -/
def moved (env : Environment) (request length : ℕ) : ℕ :=
  match env.failure request with
  | none => length
  | some n => min n length

/-- The device moves the bytes of an offer up to its failure, says how it went and puts the head
on the used ring. -/
def answer (env : Environment) (q : Queue) (head : ℕ) (o : Offer) (s : Machine) : Machine :=
  let done := (env.failure s.taken).isNone
  let moved := moved env s.taken o.length
  let out := o.reqType = virtioBlkTypeOut
  let disk := if out then copyBytes s.disk (o.sector * 512) s.memory o.buffer moved else s.disk
  let m := if out then s.memory else copyBytes s.memory o.buffer s.disk (o.sector * 512) moved
  let m := writeLe m o.status 1 (if done then virtioBlkSOk else virtioBlkSIoerr)
  let element := q.used + 4 + 8 * (s.taken % numberOfDescriptors)
  let m := writeLe (writeLe m element 4 head) (element + 4) 4 (if out then 1 else moved + 1)
  { s with memory := writeLe m (q.used + 2) 2 (s.taken + 1), disk := disk, taken := s.taken + 1 }

/-- The device after a notification. What it does not answer keeps the driver waiting. -/
def notify (env : Environment) (q : Queue) : Effect Machine PUnit := fun s =>
  match offered q s.memory s.taken with
  | some (head, o) => (.ok ⟨⟩, answer env q head o s)
  | none => (.error .stuck, s)

/-! ## The driver -/

def store (address n value : ℕ) : Effect Machine PUnit :=
  .change fun s => { s with memory := writeLe s.memory address n value }

/-- The first set bit of a byte. -/
def findBit (c : BitVec 8) : Option ℕ := (List.range 8).find? fun bit => c &&& (1#8 <<< bit) ≠ 0

/-- The first free descriptor, by its byte and bit. -/
def findFree (freeBitmap : FreeBitmap) : Option (Fin 8 × ℕ) :=
  (List.finRange 8).findSome? fun byte =>
    (findBit freeBitmap[byte]).map fun bit => (byte, bit)

def allocateDescriptor : Effect Machine (Option ℕ) := do
  match findFree (← Effect.look Machine.freeBitmap) with
  | none => return none
  | some (byte, bit) =>
    Effect.change fun s : Machine => { s with
      freeBitmap := s.freeBitmap.set byte (s.freeBitmap[byte] &&& ~~~(1#8 <<< bit)) }
    return some (byte * 8 + bit)

def freeDescriptor (index : ℕ) : Effect Machine PUnit := do
  let freeBitmap ← Effect.look Machine.freeBitmap
  let freeBitmap ← Effect.checked
    (Checked.modify freeBitmap (index / 8) fun c => c ||| (1#8 <<< (index % 8)))
  Effect.change fun s : Machine => { s with freeBitmap := freeBitmap }

def setDescriptor (q : Queue) (index address length flags : ℕ) : Effect Machine PUnit := do
  store (q.descriptors + sizeOfDesc * index) 8 address
  store (q.descriptors + sizeOfDesc * index + 8) 4 length
  store (q.descriptors + sizeOfDesc * index + 12) 2 flags

def setNext (q : Queue) (index next : ℕ) : Effect Machine PUnit :=
  store (q.descriptors + sizeOfDesc * index + 14) 2 next

def setRequest (frame : Frame) (isWrite : Bool) (blockAddress : ℕ) : Effect Machine PUnit := do
  store frame.virtioBlkReq 4 (if isWrite then virtioBlkTypeOut else virtioBlkTypeIn)
  store (frame.virtioBlkReq + 4) 4 0
  store (frame.virtioBlkReq + 8) 8 (blockAddress / 512)

/-- The update of the available ring. -/
def publish (q : Queue) (first : ℕ) : Effect Machine PUnit := do
  let idx ← Effect.look fun s : Machine => readLe s.memory (q.avail + 2) 2
  store (q.avail + 4 + 2 * (idx % numberOfDescriptors)) 2 first
  let next ← Effect.checked (Checked.add 16 idx 1)
  store (q.avail + 2) 2 next

/-- The spin on the status byte, which the device writes once. -/
def wait (frame : Frame) : Effect Machine Bool := do
  let s ← Effect.look fun s : Machine => readLe s.memory frame.status 1
  if s ≠ 0xFF then return s = virtioBlkSOk else Effect.fail .stuck

def operationSync (env : Environment) (q : Queue) (frame : Frame)
    (bufferAddress blockAddress length : ℕ) (isWrite : Bool) : Effect Machine PUnit := do
  if blockAddress % 512 ≠ 0 ∨ length % 512 ≠ 0 then Effect.fail .err
  else
    setRequest frame isWrite blockAddress
    match ← allocateDescriptor with
    | none => Effect.fail .err
    | some first =>
      setDescriptor q first frame.virtioBlkReq 16 virtQueueDescFlagsNext
      match ← allocateDescriptor with
      | none => Effect.fail .err
      | some second =>
        setDescriptor q second bufferAddress (length % 2 ^ 32)
          (if isWrite then virtQueueDescFlagsNext
          else virtQueueDescFlagsNext ||| virtQueueDescFlagsWrite)
        setNext q first second
        store frame.status 1 0xFF
        match ← allocateDescriptor with
        | none => Effect.fail .err
        | some third =>
          setDescriptor q third frame.status 1 virtQueueDescFlagsWrite
          setNext q second third
          publish q first
          notify env q
          let done ← wait frame
          freeDescriptor first
          freeDescriptor second
          freeDescriptor third
          if done then pure ⟨⟩ else Effect.fail .err

/-! ## Initialization -/

def virtioMmioDriverFeatures : ℕ := 0x020
def virtioMmioQueueSel : ℕ := 0x030

def virtioDeviceStatusAcknowledge : ℕ := 1
def virtioDeviceStatusDriver : ℕ := 2
def virtioDeviceStatusDriverOk : ℕ := 4
def virtioDeviceStatusFeaturesOk : ℕ := 8

def virtioBlkFRo : ℕ := 1 <<< 5

/-- What the registers of the device read after the writes to them, in their order. -/
abbrev Registers := List (ℕ × ℕ) → ℕ → BitVec 32

/-- Memory, and the writes to the registers. -/
structure Setup where
  memory : Memory
  written : List (ℕ × ℕ)

def readRegister (device : Registers) (offset : ℕ) : Effect Setup ℕ :=
  .look fun s => (device s.written offset).toNat

def writeRegister (offset data : ℕ) : Effect Setup PUnit :=
  .change fun s => { s with written := s.written ++ [(offset, data)] }

def raiseStatus (device : Registers) (bit : ℕ) : Effect Setup PUnit := do
  let status ← readRegister device VirtioBlkMmio.virtioMmioStatus
  writeRegister VirtioBlkMmio.virtioMmioStatus (status ||| bit)

/-- `write_bytes` with zero. -/
def zero (address n : ℕ) : Effect Setup PUnit :=
  .change fun s => { s with memory := copyBytes s.memory address (fun _ => 0) 0 n }

/-- `allocated` is what `allocate_pages` gives for the queue. -/
def new (device : Registers) (allocated : Option ℕ) : Effect Setup (Queue × FreeBitmap) := do
  if (← readRegister device VirtioBlkMmio.virtioMmioMagic) ≠ 0x74726976 then Effect.fail .err
  else if (← readRegister device VirtioBlkMmio.virtioMmioVersion) ≠ 1 then Effect.fail .err
  else if (← readRegister device VirtioBlkMmio.virtioMmioDeviceId) ≠ 2 ∨
      (← readRegister device VirtioBlkMmio.virtioMmioVendorId) ≠ 0x554d4551 then Effect.fail .err
  else
    writeRegister VirtioBlkMmio.virtioMmioStatus 0
    raiseStatus device virtioDeviceStatusAcknowledge
    raiseStatus device virtioDeviceStatusDriver
    let features ← readRegister device VirtioBlkMmio.virtioMmioDeviceFeatures
    if features &&& virtioBlkFRo ≠ 0 then Effect.fail .err
    else
      writeRegister virtioMmioDriverFeatures 0
      raiseStatus device virtioDeviceStatusFeaturesOk
      writeRegister VirtioBlkMmio.virtioMmioGuestPageSize virtioPageSize
      writeRegister virtioMmioQueueSel 0
      if (← readRegister device VirtioBlkMmio.virtioMmioQueueNumMax) < numberOfDescriptors then
        Effect.fail .err
      else
        writeRegister VirtioBlkMmio.virtioMmioQueueNum numberOfDescriptors
        let queue ← Effect.checked allocated
        zero queue (numberOfPagesQueue <<< virtioPageShift)
        writeRegister VirtioBlkMmio.virtioMmioQueuePfn ((queue >>> virtioPageShift) % 2 ^ 32)
        raiseStatus device virtioDeviceStatusDriverOk
        return (Queue.ofPages queue, Vector.replicate 8 0xFF#8)

end VirtioDriver

end MiniVisor
