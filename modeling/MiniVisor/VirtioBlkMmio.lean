import MiniVisor.Fat32
import MiniVisor.GicMmio

/-!
# Emulated virtio-blk device

The device keeps host addresses of the rings in the guest's RAM and follows the
descriptors there. Host memory that it touches for the guest is recorded in
`accesses`, the request it serves in `current`. Overflows, a remainder by zero and a
failed assertion are panics.
-/
namespace MiniVisor

open Effects

/-- The guest's RAM. -/
structure GuestRam where
  ramVirtualBaseAddress : ℕ
  ramPhysicalBaseAddress : ℕ
  ramSize : ℕ

/-- `get_physical_address`; the outer `none` is an overflow. -/
def GuestRam.getPhysicalAddress (ram : GuestRam) (virtualAddress : ℕ) : Option (Option ℕ) := do
  let last ← Checked.add 64 ram.ramVirtualBaseAddress ram.ramSize
  if ram.ramVirtualBaseAddress ≤ virtualAddress ∧ virtualAddress < last then
    let address ← Checked.add 64 (virtualAddress - ram.ramVirtualBaseAddress)
      ram.ramPhysicalBaseAddress
    return some address
  else return none

/-- Little-endian numbers in memory. -/
def readLe (m : Memory) (address : ℕ) : ℕ → ℕ
  | 0 => 0
  | n + 1 => (m address).toNat + 256 * readLe m (address + 1) n

def writeLe (m : Memory) (address n value : ℕ) : Memory := fun x =>
  if address ≤ x ∧ x < address + n then UInt8.ofNat (value / 256 ^ (x - address)) else m x

structure VirtQueueDesc where
  address : ℕ
  length : ℕ
  flags : ℕ
  next : ℕ
  deriving DecidableEq

def virtQueueDescFlagsNext : ℕ := 1

/-- The descriptor links to a further one. -/
def VirtQueueDesc.HasNext (d : VirtQueueDesc) : Prop := d.flags &&& virtQueueDescFlagsNext ≠ 0

instance (d : VirtQueueDesc) : Decidable d.HasNext := inferInstanceAs (Decidable (_ ≠ _))

def readDesc (m : Memory) (address : ℕ) : VirtQueueDesc where
  address := readLe m address 8
  length := readLe m (address + 8) 4
  flags := readLe m (address + 12) 2
  next := readLe m (address + 14) 2

def virtioBlkTypeIn : ℕ := 0
def virtioBlkTypeOut : ℕ := 1
def virtioBlkSOk : ℕ := 0
def virtioBlkSIoerr : ℕ := 1

structure VirtioBlkMmio where
  file : FileInfo
  interruptStatus : BitVec 32
  status : BitVec 32
  queueSize : ℕ
  queueReady : Bool
  pageSize : ℕ
  /-- Host addresses, zero for null. -/
  descriptor : ℕ
  availRing : ℕ
  usedRing : ℕ
  lastAvailId : ℕ
  usedId : ℕ

/-- Host memory that the device touches on the guest's behalf. -/
inductive Access where
  | availIdx (address : ℕ)
  | availSlot (address : ℕ)
  | descriptor (address : ℕ)
  | header (address : ℕ)
  | segment (address length : ℕ)
  | status (address value : ℕ)
  | usedElement (address : ℕ)
  | usedIdx (address : ℕ)
  deriving DecidableEq

/-- The first byte and the number of bytes. -/
def Access.range : Access → ℕ × ℕ
  | .availIdx address => (address, 2)
  | .availSlot address => (address, 2)
  | .descriptor address => (address, 16)
  | .header address => (address, 16)
  | .segment address length => (address, length)
  | .status address _ => (address, 1)
  | .usedElement address => (address, 8)
  | .usedIdx address => (address, 2)

/-- A transfer between a data segment and the file. -/
structure Transfer where
  address : ℕ
  offset : ℕ
  /-- The number of bytes, if it succeeded. -/
  result : Option ℕ
  /-- The bytes that it put into the guest's buffer. -/
  delivered : ℕ
  deriving DecidableEq

/-- A data segment of a request, with its transfer if its address is in RAM. -/
structure Segment where
  descriptor : VirtQueueDesc
  transfer : Option Transfer
  deriving DecidableEq

/-- A request: what its header says, and its data segments so far. -/
structure Request where
  reqType : ℕ
  sector : ℕ
  segments : List Segment
  deriving DecidableEq

/-- What a request left in the guest's memory. -/
structure Completion extends Request where
  /-- The status descriptor. -/
  last : VirtQueueDesc
  /-- The status byte, if it was written. -/
  status : Option ℕ
  /-- The head and the length in the used ring. -/
  id : ℕ
  length : ℕ
  deriving DecidableEq

/-- The state that a handler of the device works on. -/
structure BlkState where
  device : VirtioBlkMmio
  host : Host
  distributor : GicDistributorMmio
  cpu : Pcpu
  /-- Ghost: the accesses so far. -/
  accesses : List Access
  /-- Ghost: the request that is being served. -/
  current : Request
  /-- Ghost: the requests that were served. -/
  completions : List Completion

/-- What does not change: the guest's RAM, the file system and what is outside. -/
structure Platform where
  ram : GuestRam
  fat32 : Fat32
  env : Environment

namespace VirtioBlkMmio

def virtioBlkIntId : BitVec 32 := 40

def new (file : FileInfo) : Option VirtioBlkMmio := do
  Checked.require (file.fileSize &&& 0x1FF = 0)
  return {
    file := file
    interruptStatus := 0
    status := 0
    queueSize := 0
    queueReady := false
    pageSize := 2 ^ 12
    descriptor := 0
    availRing := 0
    usedRing := 0
    lastAvailId := 0
    usedId := 0 }

/-! ## The rings -/

def access (a : Access) : Effect BlkState PUnit :=
  .change fun s => { s with accesses := s.accesses ++ [a] }

def onHost {α : Type} (x : Effect Host α) : Effect BlkState α := fun s =>
  ((x s.host).1, { s with host := (x s.host).2 })

def memory : Effect BlkState Memory := .look fun s => s.host.memory

def store (address n value : ℕ) : Effect BlkState PUnit :=
  .change fun s => { s with host.memory := writeLe s.host.memory address n value }

def self : Effect BlkState VirtioBlkMmio := .look BlkState.device

def getDescriptor (id : ℕ) : Effect BlkState (Option VirtQueueDesc) := do
  let device ← self
  if device.descriptor ≠ 0 then
    let address ← Effect.checked (Checked.add 64 device.descriptor (16 * id))
    access (.descriptor address)
    return some (readDesc (← memory) address)
  else return none

def getDescriptorId (id : ℕ) : Effect BlkState (Option ℕ) := do
  let device ← self
  if device.availRing ≠ 0 then
    let slots ← Effect.checked (Checked.add 64 device.availRing 4)
    let address ← Effect.checked (Checked.add 64 slots (2 * id))
    access (.availSlot address)
    return some (readLe (← memory) address 2)
  else return none

def getNextAvailId : Effect BlkState (Option ℕ) := do
  let device ← self
  access (.availIdx (device.availRing + 2))
  if device.lastAvailId = readLe (← memory) (device.availRing + 2) 2 then return none
  else
    let next ← Effect.checked (Checked.rem device.lastAvailId (device.queueSize % 2 ^ 16))
    let lastAvailId ← Effect.checked (Checked.add 16 device.lastAvailId 1)
    Effect.change fun s : BlkState => { s with device.lastAvailId := lastAvailId }
    return some next

def writeUsed (id length : ℕ) : Effect BlkState PUnit := do
  let device ← self
  let slot ← Effect.checked (Checked.rem device.usedId (device.queueSize % 2 ^ 16))
  let usedId ← Effect.checked (Checked.add 16 device.usedId 1)
  Effect.change fun s : BlkState => { s with device.usedId := usedId }
  let slots ← Effect.checked (Checked.add 64 device.usedRing 4)
  let address ← Effect.checked (Checked.add 64 slots (8 * slot))
  access (.usedElement address)
  store address 4 id
  store (address + 4) 4 length
  access (.usedIdx (device.usedRing + 2))
  store (device.usedRing + 2) 2 usedId

/-! ## Requests -/

variable (p : Platform) (add : ℕ → ℕ → Option ℕ)

/-- `fat32.write` or `fat32.read`, with its result. -/
def transfer (fuel : ℕ) (isWrite : Bool) (address offset size : ℕ) :
    Effect BlkState (Option ℕ) := do
  let device ← self
  onHost (Effect.attempt (
    if isWrite then p.fat32.write p.env fuel device.file address offset size
    else p.fat32.read p.env fuel device.file address offset size))

def record (d : VirtQueueDesc) (t : Option Transfer) : Effect BlkState PUnit :=
  .change fun s => { s with current.segments := s.current.segments ++ [⟨d, t⟩] }

/-- The loop over the data segments, which ends at the status descriptor. `none` is an
early return of `operation`. The additions to `total_size` are `add`. -/
def walkWith (isWrite : Bool) :
    ℕ → VirtQueueDesc → ℕ → ℕ → ℕ → Effect BlkState (Option (VirtQueueDesc × ℕ × ℕ))
  | 0, _, _, _, _ => Effect.fail .stuck
  | fuel + 1, descriptor, offset, totalSize, status => do
    match ← getDescriptor descriptor.next with
    | none => return none
    | some d =>
      if ¬d.HasNext then return some (d, totalSize, status)
      else
        let totalSize ← Effect.checked (add totalSize d.length)
        match ← Effect.checked (p.ram.getPhysicalAddress d.address) with
        | none =>
          record d none
          walkWith isWrite fuel d offset totalSize virtioBlkSIoerr
        | some address =>
          access (.segment address d.length)
          let before ← Effect.look fun s : BlkState => s.host.delivered
          let result ← transfer p fuel isWrite address offset d.length
          let after ← Effect.look fun s : BlkState => s.host.delivered
          record d (some ⟨address, offset, result, after - before⟩)
          let status := if result.isNone then virtioBlkSIoerr else status
          let offset ← Effect.checked (Checked.add 64 offset d.length)
          walkWith isWrite fuel d offset totalSize status

/-- The end of a request: its status byte and its element in the used ring. -/
def completeWith (descriptorId : ℕ) (last : VirtQueueDesc) (totalSize status : ℕ) :
    Effect BlkState PUnit := do
  match ← Effect.checked (p.ram.getPhysicalAddress last.address) with
  | some address =>
    access (.status address status)
    store address 1 status
    let totalSize ← Effect.checked (add totalSize last.length)
    writeUsed descriptorId totalSize
    Effect.change fun s : BlkState => { s with completions := s.completions ++
      [⟨s.current, last, some status, descriptorId, totalSize⟩] }
  | none =>
    writeUsed descriptorId totalSize
    Effect.change fun s : BlkState => { s with completions := s.completions ++
      [⟨s.current, last, none, descriptorId, totalSize⟩] }

/-- One iteration of the loop of `operation` for the available entry `id`; `false` is an
early return. -/
def requestWith (fuel id : ℕ) : Effect BlkState Bool := do
  Effect.change fun s : BlkState => { s with current := ⟨0, 0, []⟩ }
  match ← getDescriptorId id with
  | none => return false
  | some descriptorId =>
    match ← getDescriptor descriptorId with
    | none => return false
    | some descriptor =>
      if descriptor.length ≠ 16 then return false
      else
        match ← Effect.checked (p.ram.getPhysicalAddress descriptor.address) with
        | none => return false
        | some header =>
          access (.header header)
          let m ← memory
          let reqType := readLe m header 4
          let sector := readLe m (header + 8) 8
          Effect.change fun s : BlkState => { s with current := ⟨reqType, sector, []⟩ }
          let offset := sector * 2 ^ 9 % 2 ^ 64
          if ¬descriptor.HasNext then return false
          else
            match ← walkWith p add (reqType == virtioBlkTypeOut) fuel descriptor offset 0
                virtioBlkSOk with
            | none => return false
            | some (last, totalSize, status) =>
              completeWith p add descriptorId last totalSize status
              return true

/-- `total_size` has 32 bits. -/
def request (fuel id : ℕ) : Effect BlkState Bool := requestWith p (Checked.add 32) fuel id

def raise : Effect BlkState PUnit := do
  Effect.change fun s : BlkState =>
    { s with device.interruptStatus := s.device.interruptStatus ||| 1 }
  let (d, cpu) ← Effect.look fun s : BlkState => (s.distributor, s.cpu)
  let (d, cpu) ← Effect.checked (d.triggerInterrupt cpu virtioBlkIntId none)
  Effect.change fun s : BlkState => { s with distributor := d, cpu := cpu }

def operation : ℕ → Effect BlkState PUnit
  | 0 => Effect.fail .stuck
  | fuel + 1 => do
    match ← getNextAvailId with
    | none => raise
    | some id =>
      if ← request p fuel id then operation fuel else return ⟨⟩

/-! ## Registers -/

def virtioMmioMagic : ℕ := 0x000
def virtioMmioVersion : ℕ := 0x004
def virtioMmioDeviceId : ℕ := 0x008
def virtioMmioVendorId : ℕ := 0x00c
def virtioMmioDeviceFeatures : ℕ := 0x010
def virtioMmioGuestPageSize : ℕ := 0x028
def virtioMmioQueueNumMax : ℕ := 0x034
def virtioMmioQueueNum : ℕ := 0x038
def virtioMmioQueuePfn : ℕ := 0x040
def virtioMmioQueueReady : ℕ := 0x044
def virtioMmioQueueNotify : ℕ := 0x050
def virtioMmioInterruptStatus : ℕ := 0x060
def virtioMmioInterruptAck : ℕ := 0x064
def virtioMmioStatus : ℕ := 0x070
def virtioConfigOffset : ℕ := 0x100

def read (device : VirtioBlkMmio) (offset : ℕ) : Option ℕ :=
  if offset = virtioMmioMagic then some 0x74726976
  else if offset = virtioMmioVersion then some 0x01
  else if offset = virtioMmioDeviceId then some 0x02
  else if offset = virtioMmioVendorId then some 0x554d4551
  else if offset = virtioMmioDeviceFeatures then some 0x00
  else if offset = virtioMmioQueueNumMax then some 1024
  else if offset = virtioMmioQueueReady then some device.queueReady.toNat
  else if offset = virtioMmioQueuePfn then
    if device.pageSize = 0 then none else some (device.descriptor / device.pageSize)
  else if offset = virtioMmioInterruptStatus then some device.interruptStatus.toNat
  else if offset = virtioMmioStatus then some device.status.toNat
  else if virtioConfigOffset ≤ offset ∧ offset - virtioConfigOffset < 8 then
    some ((device.file.fileSize >>> 9) >>> ((offset - virtioConfigOffset) * 8))
  else some 0

/-- The addresses of the rings behind the descriptor table. -/
def setRings (device : VirtioBlkMmio) : Option VirtioBlkMmio := do
  let table ← Checked.mul 64 16 device.queueSize
  let availRing ← Checked.add 64 device.descriptor table
  let entries ← Checked.add 64 3 device.queueSize
  let ring ← Checked.mul 64 2 entries
  let behind ← Checked.add 64 availRing ring
  let last ← Checked.sub behind 1
  let mask ← Checked.sub device.pageSize 1
  let usedRing ← Checked.add 64 (last - (last &&& mask)) device.pageSize
  return { device with availRing := availRing, usedRing := usedRing }

def update (f : VirtioBlkMmio → VirtioBlkMmio) : Effect BlkState PUnit :=
  .change fun s => { s with device := f s.device }

def rings : Effect BlkState PUnit := do
  let device ← Effect.checked (← self).setRings
  update fun _ => device

def reset (device : VirtioBlkMmio) : VirtioBlkMmio :=
  { device with
    queueSize := 0
    queueReady := false
    pageSize := 2 ^ 12
    interruptStatus := 0
    status := 0
    descriptor := 0
    availRing := 0
    usedRing := 0
    lastAvailId := 0
    usedId := 0 }

def write (fuel offset value : ℕ) : Effect BlkState PUnit := do
  if offset = virtioMmioGuestPageSize then update fun d => { d with pageSize := value }
  else if offset = virtioMmioQueueNum then
    update fun d => { d with queueSize := value }
    rings
  else if offset = virtioMmioQueuePfn then
    let virtualAddress ← Effect.checked (Checked.mul 64 value (← self).pageSize)
    match ← Effect.checked (p.ram.getPhysicalAddress virtualAddress) with
    | none => return ⟨⟩
    | some address =>
      update fun d => { d with descriptor := address }
      rings
  else if offset = virtioMmioQueueNotify then
    if value = 0 then operation p fuel else return ⟨⟩
  else if offset = virtioMmioInterruptAck then
    update fun d => { d with
      interruptStatus := d.interruptStatus &&& ~~~ (BitVec.ofNat 32 value) }
  else if offset = virtioMmioStatus then
    if value = 0 then update reset
    else update fun d => { d with status := BitVec.ofNat 32 value }
  else return ⟨⟩

end VirtioBlkMmio

end MiniVisor
