import MiniVisor.Pl011Mmio
import MiniVisor.VirtioBlkMmio

/-!
# Trapped loads and stores

An access of the guest to an address without a mapping is a data abort. The handler takes
the access apart from the syndrome registers, looks for the device that has the address and
runs the device's own handler. What a guest writes to the UART is printed on the host's
console. The fault `err` is the `Err` of a handler.
-/
namespace MiniVisor

namespace Trap

open Effects

/-! ## The handlers of a VM -/

/-- `read` takes an offset and a width, `write` a value as well. -/
structure MmioHandler (σ : Type) where
  read : ℕ → ℕ → Effect σ (BitVec 64)
  write : ℕ → ℕ → BitVec 64 → Effect σ PUnit

structure MmioEntry (σ : Type) where
  baseAddress : ℕ
  length : ℕ
  handler : MmioHandler σ

variable {σ : Type}

def MmioEntry.Covers (e : MmioEntry σ) (address : ℕ) : Prop :=
  e.baseAddress ≤ address ∧ address < e.baseAddress + e.length

instance (e : MmioEntry σ) (address : ℕ) : Decidable (e.Covers address) :=
  inferInstanceAs (Decidable (_ ∧ _))

def handleMmioRead (mmioHandlers : List (MmioEntry σ)) (address accessWidth : ℕ) :
    Effect σ (BitVec 64) :=
  match mmioHandlers.find? fun e => e.Covers address with
  | some e => e.handler.read (address - e.baseAddress) accessWidth
  | none => Effect.fail .err

def handleMmioWrite (mmioHandlers : List (MmioEntry σ)) (address accessWidth : ℕ)
    (value : BitVec 64) : Effect σ PUnit :=
  match mmioHandlers.find? fun e => e.Covers address with
  | some e => e.handler.write (address - e.baseAddress) accessWidth value
  | none => Effect.fail .err

/-! ## The devices -/

/-- The devices of a VM, with the CPU that handles the trap. The distributor and the CPU are
in the state of the block device, which raises interrupts there. -/
structure Devices where
  uart : Pl011Mmio
  blk : BlkState
  redistributor : GicRedistributorMmio
  /-- What went to the host's console, oldest first. -/
  printed : List (BitVec 8)

/-- The devices that `create_vm` sets up on a CPU. -/
def Devices.new (file : FileInfo) (host : Host) (cpu : Pcpu) (vmId : ℕ) : Option Devices := do
  let device ← VirtioBlkMmio.new file
  return {
    uart := Pl011Mmio.new
    blk := ⟨device, host, GicDistributorMmio.new vmId, cpu, [], ⟨0, 0, []⟩, []⟩
    redistributor := GicRedistributorMmio.new vmId cpu.mpidrEl1
    printed := [] }

def pl011Handler : MmioHandler Devices where
  read offset _ := fun s =>
    (.ok (s.uart.read offset).2, { s with uart := (s.uart.read offset).1 })
  write offset _ value := .change fun s =>
    if offset = uartDr then { s with printed := s.printed ++ [value.setWidth 8] }
    else { s with uart := s.uart.write offset value }

def virtioBlkHandler (p : Platform) (fuel : ℕ) : MmioHandler Devices where
  read offset _ := do
    let value ← Effect.look fun s : Devices => s.blk.device.read offset
    return BitVec.ofNat 64 (← Effect.checked value)
  write offset _ value := fun s =>
    let (r, blk) := VirtioBlkMmio.write p fuel offset value.toNat s.blk
    (r, { s with blk := blk })

def gicDistributorHandler : MmioHandler Devices where
  read offset accessWidth := do
    let value ← Effect.look fun s : Devices => s.blk.distributor.read offset accessWidth
    Effect.checked value
  write offset accessWidth value := do
    let written ← Effect.look fun s : Devices =>
      s.blk.distributor.write s.blk.cpu offset accessWidth value
    let (d, cpu) ← Effect.checked written
    Effect.change fun s => { s with blk.distributor := d, blk.cpu := cpu }

def gicRedistributorHandler : MmioHandler Devices where
  read offset accessWidth := do
    let value ← Effect.look fun s : Devices => s.redistributor.read offset accessWidth
    Effect.checked value
  write offset accessWidth value := do
    let written ← Effect.look fun s : Devices =>
      s.redistributor.write s.blk.cpu offset accessWidth value
    let (r, cpu) ← Effect.checked written
    Effect.change fun s => { s with redistributor := r, blk.cpu := cpu }

inductive Device where
  | uart
  | blk
  | distributor
  | redistributor
  deriving DecidableEq

/-- The entry that `create_vm` makes for a device. -/
def Device.entry (p : Platform) (fuel : ℕ) : Device → MmioEntry Devices
  | uart => ⟨0x9000000, 0x1000, pl011Handler⟩
  | blk => ⟨0xa000000, 0x0200, virtioBlkHandler p fuel⟩
  | distributor => ⟨0x8000000, 0x10000, gicDistributorHandler⟩
  | redistributor => ⟨0x80a0000, 0x10000 * 2, gicRedistributorHandler⟩

/-- The list of `create_vm`, in its order. -/
def mmioHandlers (p : Platform) (fuel : ℕ) : List (MmioEntry Devices) :=
  [Device.uart, .blk, .distributor, .redistributor].map (Device.entry p fuel)

/-! ## Data aborts -/

def esrEl2EcBitsOffset : ℕ := 26
def esrEl2Ec : BitVec 64 := 0b111111#64 <<< esrEl2EcBitsOffset
def esrEl2EcDataAbort : BitVec 64 := 0b100100#64 <<< 26
def esrEl2IssIsv : BitVec 64 := 1#64 <<< 24
def esrEl2IssSasBitsOffset : ℕ := 22
def esrEl2IssSas : BitVec 64 := 0b11#64 <<< esrEl2IssSasBitsOffset
def esrEl2IssSrtBitsOffset : ℕ := 16
def esrEl2IssSrt : BitVec 64 := 0b11111#64 <<< esrEl2IssSrtBitsOffset
def esrEl2IssSf : BitVec 64 := 1#64 <<< 15
def esrEl2IssWnr : BitVec 64 := 1#64 <<< 6

def hpfarEl2FipaBitsOffset : ℕ := 4
def hpfarEl2Fipa : BitVec 64 := ((1#64 <<< 44) - 1) &&& ~~~((1#64 <<< 4) - 1)

/-- What the CPU says about an abort. -/
structure AbortRegisters where
  esrEl2 : BitVec 64
  farEl2 : BitVec 64
  hpfarEl2 : BitVec 64

/-- The frame on the stack, where the guest goes on, and the devices. -/
structure Context (σ : Type) where
  registers : Vector (BitVec 64) 32
  elrEl2 : BitVec 64
  devices : σ

def accessWidth (esrEl2 : BitVec 64) : Option ℕ :=
  match ((esrEl2 &&& esrEl2IssSas) >>> esrEl2IssSasBitsOffset).toNat with
  | 0b00 => some 8
  | 0b01 => some 16
  | 0b10 => some 32
  | 0b11 => some 64
  | _ => none

def AbortRegisters.address (abort : AbortRegisters) : BitVec 64 :=
  (((abort.hpfarEl2 &&& hpfarEl2Fipa) >>> hpfarEl2FipaBitsOffset) <<< 12) |||
    (abort.farEl2 &&& ((1#64 <<< 12) - 1))

/-- `expect` on the result of a handler. -/
def onDevices {α : Type} (x : Effect σ α) : Effect (Context σ) α := fun c =>
  match x c.devices with
  | (.ok a, d) => (.ok a, { c with devices := d })
  | (.error .err, d) => (.error .panic, { c with devices := d })
  | (.error e, d) => (.error e, { c with devices := d })

def advanceElrEl2 : Effect (Context σ) PUnit := do
  let elrEl2 ← Effect.look Context.elrEl2
  let next ← Effect.checked (Checked.add 64 elrEl2.toNat 4)
  Effect.change fun c => { c with elrEl2 := BitVec.ofNat 64 next }

variable (mmioHandlers : List (MmioEntry σ)) (abort : AbortRegisters)

def dataAbortHandler : Effect (Context σ) PUnit := do
  let esrEl2 := abort.esrEl2
  if esrEl2 &&& esrEl2IssIsv = 0 then Effect.fail .panic
  else
    let accessWidth ← Effect.checked (accessWidth esrEl2)
    let registerNumber := ((esrEl2 &&& esrEl2IssSrt) >>> esrEl2IssSrtBitsOffset).toNat
    let registers ← Effect.look Context.registers
    let register ← Effect.checked (Checked.index registers registerNumber)
    let address := abort.address.toNat
    if esrEl2 &&& esrEl2IssWnr ≠ 0 then
      let registerValue := if esrEl2 &&& esrEl2IssSf ≠ 0 then register else register &&& 0xFFFFFFFF
      onDevices (handleMmioWrite mmioHandlers address accessWidth registerValue)
      advanceElrEl2
    else
      let value ← onDevices (handleMmioRead mmioHandlers address accessWidth)
      let registers ← Effect.checked (Checked.modify registers registerNumber fun _ => value)
      Effect.change fun c => { c with registers := registers }
      advanceElrEl2

def synchronousHandler : Effect (Context σ) PUnit :=
  if abort.esrEl2 &&& esrEl2Ec = esrEl2EcDataAbort then dataAbortHandler mmioHandlers abort
  else Effect.fail .panic

/-- The guest between two of its instructions, with its devices. -/
structure Guest (σ : Type) where
  x : Vector (BitVec 64) 31
  pc : BitVec 64
  devices : σ

/-- The entry of the exception table pushes the registers and a zero, and `exit_exception`
pops them again. -/
def trap : Effect (Guest σ) PUnit := fun g =>
  let (r, c) := synchronousHandler mmioHandlers abort ⟨g.x.push 0, g.pc, g.devices⟩
  (r, ⟨c.registers.pop, c.elrEl2, c.devices⟩)

end Trap

end MiniVisor
