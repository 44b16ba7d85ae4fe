import MiniVisor.Library.Checked
import MiniVisor.Vgic

/-!
# Emulated GICv3 distributor and redistributor

Every handler is a function of the controller's registers and of the physical
CPU it runs on. A result of `none` is a panic: an array index out of bounds or a
failed assertion. Diagnostics printed on the host console are not modelled.

A list entry carries a ghost tag, the VM whose controller created it. Neither
the tag nor the load log of a CPU is read by the code.
-/
namespace MiniVisor

/-- An entry on its way to a list register. -/
structure ListEntry where
  value : BitVec 64
  /-- Ghost: the VM whose distributor or redistributor created the entry. -/
  creator : ℕ
  deriving DecidableEq

/-- The state of one physical CPU that the interrupt code reads and writes. -/
structure Pcpu where
  mpidrEl1 : BitVec 64
  tpidrEl2 : ℕ
  ichVtrEl2 : BitVec 64
  ichLr : ListRegisters
  /-- Values written to `ICC_SGI1R_EL1`, oldest first. -/
  sgis : List (BitVec 64)
  /-- Ghost: the entries handed to `add_virtual_interrupt` here, oldest first. -/
  loads : List ListEntry

namespace Pcpu

def addVirtualInterrupt (cpu : Pcpu) (entry : ListEntry) : Pcpu :=
  { cpu with
    ichLr := Vgic.addVirtualInterrupt cpu.ichVtrEl2 cpu.ichLr entry.value
    loads := cpu.loads ++ [entry] }

def setIccSgi1rEl1 (cpu : Pcpu) (value : BitVec 64) : Pcpu :=
  { cpu with sgis := cpu.sgis ++ [value] }

end Pcpu

def mpidrToAffinity (mpidr : BitVec 64) : BitVec 64 := mpidr &&& ~~~ ((1#64 <<< 31) ||| (1#64 <<< 30))

/-- `get_packed_affinity`, as a function of `MPIDR_EL1`. -/
def getPackedAffinity (mpidrEl1 : BitVec 64) : BitVec 32 :=
  let mpidr := mpidrToAffinity mpidrEl1
  ((mpidr &&& ((1#64 <<< 24) - 1#64)) ||| ((mpidr &&& (0xff#64 <<< 32)) >>> (32 - 24))).setWidth 32

/-- The affinity fields `Aff3`, `Aff2`, `Aff1`, `Aff0` of an `MPIDR` or `IROUTER` value. -/
def aff3 (v : BitVec 64) : BitVec 64 := (v &&& ((1#64 <<< 40) - 1)) >>> 32
def aff2 (v : BitVec 64) : BitVec 64 := (v &&& ((1#64 <<< 24) - 1)) >>> 16
def aff1 (v : BitVec 64) : BitVec 64 := (v &&& ((1#64 <<< 16) - 1)) >>> 8
def aff0 (v : BitVec 64) : BitVec 64 := v &&& ((1#64 <<< 8) - 1)

def injectInterruptIntId : BitVec 32 := 11

/-- The `ICC_SGI1R_EL1` value of the remote path, as the source composes it. -/
def injectSgi (affinity : BitVec 64) : BitVec 64 :=
  (aff3 affinity <<< 48) ||| (aff2 affinity <<< 32) |||
    (injectInterruptIntId.setWidth 64 <<< 24) ||| (aff1 affinity <<< 48) |||
    (1#64 <<< (aff0 affinity).toNat)

/-- The loop over a set- or clear-register value, least significant bit first.
`test` decides whether the interrupt of a set bit is triggered by `trigger`. -/
def forSetBits {σ : Type} (test : σ → BitVec 32 → Option Bool)
    (trigger : σ → BitVec 32 → Option σ) : ℕ → BitVec 64 → BitVec 32 → σ → Option σ
  | 0, _, _, s => some s
  | fuel + 1, value, intId, s =>
    if value = 0 then some s
    else
      (if value &&& 1 ≠ 0 then test s intId else some false).bind fun hit =>
        (if hit then trigger s intId else some s).bind fun s' =>
          forSetBits test trigger fuel (value >>> 1) (intId + 1) s'

/-! ## Distributor -/

structure GicDistributorMmio where
  ctlr : BitVec 32
  group : Vector (BitVec 32) 32
  enable : Vector (BitVec 32) 32
  pending : Vector (BitVec 32) 32
  active : Vector (BitVec 32) 32
  priority : Vector (BitVec 32) 255
  configuration : Vector (BitVec 32) 64
  groupModifier : Vector (BitVec 32) 32
  router : Vector (BitVec 64) 1020
  toInjectInterrupt : List ListEntry
  /-- Ghost: the VM the controller belongs to. -/
  owner : ℕ

def gicdCtlr : ℕ := 0x0000
def gicdTyper : ℕ := 0x0004
def gicdIgroupr0 : ℕ := 0x0080
def gicdIgroupr31 : ℕ := 0x00FC
def gicdIsenabler0 : ℕ := 0x0100
def gicdIsenabler31 : ℕ := 0x017C
def gicdIcenabler0 : ℕ := 0x0180
def gicdIcenabler31 : ℕ := 0x01FC
def gicdIspendr0 : ℕ := 0x0200
def gicdIspendr31 : ℕ := 0x027C
def gicdIcpendr0 : ℕ := 0x0280
def gicdIcpendr31 : ℕ := 0x02FC
def gicdIsactiver0 : ℕ := 0x0300
def gicdIsactiver31 : ℕ := 0x037C
def gicdIcactiver0 : ℕ := 0x0380
def gicdIcactiver31 : ℕ := 0x03FC
def gicdIpriorityr0 : ℕ := 0x0400
def gicdIpriorityr254 : ℕ := 0x07F8
def gicdIcfgr0 : ℕ := 0x0C00
def gicdIcfgr63 : ℕ := 0x0CFC
def gicdIgrpmodr0 : ℕ := 0x0D00
def gicdIgrpmodr31 : ℕ := 0x0F7C
def gicdIrouter0 : ℕ := 0x6100
def gicdIrouter1019 : ℕ := 0x7FD8
def gicdPidr2 : ℕ := 0xFFE8

def gicdCtlrAreS : BitVec 32 := 1#32 <<< 4
def gicdCtlrEnableGrp1ns : BitVec 32 := 1#32 <<< 1

def gicdTyperValue : BitVec 32 := (1#32 <<< 25) ||| 31
def gicRevision : BitVec 64 := 3

/-- One bit of a bank of 32-bit registers: register `int_id / 32`, bit `int_id % 32`. -/
def bankBit (bank : Vector (BitVec 32) 32) (intId : BitVec 32) : Option (BitVec 32) := do
  let register ← Checked.index bank (intId.toNat / 32)
  return (register >>> (intId.toNat % 32)) &&& 1

/-- Set or clear one bit of a bank of 32-bit registers. -/
def changeBankBit (bank : Vector (BitVec 32) 32) (intId : BitVec 32) (value : Bool) :
    Option (Vector (BitVec 32) 32) :=
  Checked.modify bank (intId.toNat / 32) fun register =>
    if value then register ||| (1#32 <<< (intId.toNat % 32))
    else register &&& ~~~ (1#32 <<< (intId.toNat % 32))

namespace GicDistributorMmio

def new (owner : ℕ) : GicDistributorMmio where
  ctlr := 0
  group := Vector.replicate 32 0
  enable := Vector.replicate 32 0
  pending := Vector.replicate 32 0
  active := Vector.replicate 32 0
  priority := Vector.replicate 255 0
  configuration := Vector.replicate 64 0
  groupModifier := Vector.replicate 32 0
  router := Vector.replicate 1020 0
  toInjectInterrupt := []
  owner := owner

def getGroup (d : GicDistributorMmio) (intId : BitVec 32) : Option (BitVec 32) :=
  bankBit d.group intId

def getEnable (d : GicDistributorMmio) (intId : BitVec 32) : Option Bool :=
  (bankBit d.enable intId).map (· ≠ 0)

def getPending (d : GicDistributorMmio) (intId : BitVec 32) : Option Bool :=
  (bankBit d.pending intId).map (· ≠ 0)

def changePendingStatus (d : GicDistributorMmio) (intId : BitVec 32) (isPending : Bool) :
    Option GicDistributorMmio :=
  (changeBankBit d.pending intId isPending).map fun p => { d with pending := p }

def changeActiveStatus (d : GicDistributorMmio) (intId : BitVec 32) (isActive : Bool) :
    Option GicDistributorMmio :=
  (changeBankBit d.active intId isActive).map fun a => { d with active := a }

def getPriority (d : GicDistributorMmio) (intId : BitVec 32) : Option (BitVec 32) := do
  let register ← Checked.index d.priority (intId.toNat / 4)
  return (register >>> ((intId.toNat % 4) * 8)) &&& 0xFF

def getGroupModifier (d : GicDistributorMmio) (intId : BitVec 32) : Option (BitVec 32) :=
  bankBit d.groupModifier intId

def getRouter (d : GicDistributorMmio) (intId : BitVec 32) : Option (BitVec 64) :=
  Checked.index d.router intId.toNat

/-- The route names the CPU: all four affinity fields agree. -/
def RoutedTo (router mpidr : BitVec 64) : Prop :=
  aff3 router = aff3 mpidr ∧ aff2 router = aff2 mpidr ∧
    aff1 router = aff1 mpidr ∧ aff0 router = aff0 mpidr

instance (router mpidr : BitVec 64) : Decidable (RoutedTo router mpidr) :=
  inferInstanceAs (Decidable (_ ∧ _ ∧ _ ∧ _))

def triggerInterrupt (d : GicDistributorMmio) (cpu : Pcpu) (intId : BitVec 32)
    (physicalIntId : Option (BitVec 32)) : Option (GicDistributorMmio × Pcpu) := do
  if d.ctlr &&& gicdCtlrEnableGrp1ns = 0 then
    return (d, cpu)
  let d ← d.changePendingStatus intId true
  if !(← d.getEnable intId) then
    return (d, cpu)
  if (← d.getGroupModifier intId) = 1 then
    return (d, cpu)
  let group ← d.getGroup intId
  let priority ← d.getPriority intId
  let router ← d.getRouter intId
  if d.ctlr &&& gicdCtlrAreS = 0 then
    return (d, cpu)
  let listEntry : ListEntry :=
    ⟨Vgic.createListRegisterEntry intId group priority physicalIntId, d.owner⟩
  if RoutedTo router cpu.mpidrEl1 then
    return (d, cpu.addVirtualInterrupt listEntry)
  else
    let d := { d with toInjectInterrupt := d.toInjectInterrupt ++ [listEntry] }
    Checked.require ((aff0 router).toNat < 16)
    return (d, cpu.setIccSgi1rEl1 (injectSgi router))

/-- A 32-bit access that falls on a register of the bank `[first, last]`. -/
def Hits (first last offset accessWidth : ℕ) : Prop :=
  first ≤ offset ∧ offset ≤ last ∧ accessWidth = 32

instance (first last offset accessWidth : ℕ) : Decidable (Hits first last offset accessWidth) :=
  inferInstanceAs (Decidable (_ ∧ _ ∧ _))

/-- The priority byte or word write shared by both controllers. -/
def writePriority {n : ℕ} (priority : Vector (BitVec 32) n) (position accessWidth : ℕ)
    (value : BitVec 64) : Option (Vector (BitVec 32) n) :=
  let registerOffset := position / 4
  let byteOffset := position - registerOffset * 4
  let bitOffset := byteOffset * 8
  if accessWidth = 8 then
    Checked.modify priority registerOffset fun p =>
      (p &&& ~~~ (0xFF#32 <<< bitOffset)) ||| (value <<< bitOffset).setWidth 32
  else if byteOffset = 0 ∧ accessWidth = 32 then
    Checked.modify priority registerOffset fun _ => value.setWidth 32
  else some priority

def write (d : GicDistributorMmio) (cpu : Pcpu) (offset accessWidth : ℕ) (value : BitVec 64) :
    Option (GicDistributorMmio × Pcpu) :=
  let word : BitVec 32 := value.setWidth 32
  if offset = gicdCtlr ∧ accessWidth = 32 then
    some ({ d with ctlr := word }, cpu)
  else if Hits gicdIgroupr0 gicdIgroupr31 offset accessWidth then do
    let group ← Checked.modify d.group ((offset - gicdIgroupr0) / 4) fun _ => word
    return ({ d with group := group }, cpu)
  else if Hits gicdIsenabler0 gicdIsenabler31 offset accessWidth then do
    let registerOffset := (offset - gicdIsenabler0) / 4
    let enable ← Checked.modify d.enable registerOffset (· ||| word)
    forSetBits (fun s intId => s.1.getPending intId)
      (fun s intId => s.1.triggerInterrupt s.2 intId none) 64 value
      (BitVec.ofNat 32 (registerOffset * 32)) ({ d with enable := enable }, cpu)
  else if Hits gicdIcenabler0 gicdIcenabler31 offset accessWidth then do
    let enable ← Checked.modify d.enable ((offset - gicdIcenabler0) / 4) (· &&& ~~~ word)
    return ({ d with enable := enable }, cpu)
  else if Hits gicdIspendr0 gicdIspendr31 offset accessWidth then do
    let registerOffset := (offset - gicdIspendr0) / 4
    let pending ← Checked.modify d.pending registerOffset (· ||| word)
    forSetBits (fun s intId => s.1.getEnable intId)
      (fun s intId => s.1.triggerInterrupt s.2 intId none) 64 value
      (BitVec.ofNat 32 (registerOffset * 32)) ({ d with pending := pending }, cpu)
  else if Hits gicdIcpendr0 gicdIcpendr31 offset accessWidth then do
    let pending ← Checked.modify d.pending ((offset - gicdIcpendr0) / 4) (· &&& ~~~ word)
    return ({ d with pending := pending }, cpu)
  else if Hits gicdIsactiver0 gicdIsactiver31 offset accessWidth then do
    let active ← Checked.modify d.active ((offset - gicdIsactiver0) / 4) (· ||| word)
    return ({ d with active := active }, cpu)
  else if Hits gicdIcactiver0 gicdIcactiver31 offset accessWidth then do
    let active ← Checked.modify d.active ((offset - gicdIcactiver0) / 4) (· &&& ~~~ word)
    return ({ d with active := active }, cpu)
  else if gicdIpriorityr0 ≤ offset ∧ offset < gicdIpriorityr254 + 4 then do
    let priority ← writePriority d.priority (offset - gicdIpriorityr0) accessWidth value
    return ({ d with priority := priority }, cpu)
  else if Hits gicdIcfgr0 gicdIcfgr63 offset accessWidth then do
    let configuration ← Checked.modify d.configuration ((offset - gicdIcfgr0) / 4) fun _ => word
    return ({ d with configuration := configuration }, cpu)
  else if Hits gicdIgrpmodr0 gicdIgrpmodr31 offset accessWidth then do
    let groupModifier ← Checked.modify d.groupModifier ((offset - gicdIgrpmodr0) / 4) fun _ => word
    return ({ d with groupModifier := groupModifier }, cpu)
  else if gicdIrouter0 ≤ offset ∧ offset ≤ gicdIrouter1019 ∧ accessWidth = 64 then do
    let router ← Checked.modify d.router ((offset - gicdIrouter0) / 8) fun _ => value
    return ({ d with router := router }, cpu)
  else some (d, cpu)

/-- A 32-bit read of a bank; `position` is the byte offset into it. -/
def readBank {n : ℕ} (bank : Vector (BitVec 32) n) (position : ℕ) : Option (BitVec 64) :=
  (Checked.index bank (position / 4)).map (·.setWidth 64)

/-- The priority byte or word read of the distributor. -/
def readPriority {n : ℕ} (priority : Vector (BitVec 32) n) (position accessWidth : ℕ) :
    Option (BitVec 64) :=
  let registerOffset := position / 4
  let byteOffset := position - registerOffset * 4
  if accessWidth = 8 then
    (Checked.index priority registerOffset).map fun p => ((p.setWidth 64 : BitVec 64) >>> (byteOffset * 8)) &&& 0xff
  else if byteOffset = 0 ∧ accessWidth = 32 then
    (Checked.index priority registerOffset).map (·.setWidth 64)
  else some 0

def read (d : GicDistributorMmio) (offset accessWidth : ℕ) : Option (BitVec 64) :=
  if offset = gicdCtlr ∧ accessWidth = 32 then some (d.ctlr.setWidth 64)
  else if offset = gicdTyper ∧ accessWidth = 32 then some (gicdTyperValue.setWidth 64)
  else if Hits gicdIgroupr0 gicdIgroupr31 offset accessWidth then
    readBank d.group (offset - gicdIgroupr0)
  else if Hits gicdIsenabler0 gicdIsenabler31 offset accessWidth then
    readBank d.enable (offset - gicdIsenabler0)
  else if Hits gicdIcenabler0 gicdIcenabler31 offset accessWidth then
    readBank d.enable (offset - gicdIcenabler0)
  else if Hits gicdIspendr0 gicdIspendr31 offset accessWidth then
    readBank d.pending (offset - gicdIspendr0)
  else if Hits gicdIcpendr0 gicdIcpendr31 offset accessWidth then
    readBank d.pending (offset - gicdIcpendr0)
  else if Hits gicdIsactiver0 gicdIsactiver31 offset accessWidth then
    readBank d.active (offset - gicdIsactiver0)
  else if Hits gicdIcactiver0 gicdIcactiver31 offset accessWidth then
    readBank d.active (offset - gicdIcactiver0)
  else if gicdIpriorityr0 ≤ offset ∧ offset < gicdIpriorityr254 + 4 then
    readPriority d.priority (offset - gicdIpriorityr0) accessWidth
  else if Hits gicdIcfgr0 gicdIcfgr63 offset accessWidth then
    readBank d.configuration (offset - gicdIcfgr0)
  else if Hits gicdIgrpmodr0 gicdIgrpmodr31 offset accessWidth then
    readBank d.groupModifier (offset - gicdIgrpmodr0)
  else if gicdIrouter0 ≤ offset ∧ offset ≤ gicdIrouter1019 ∧ accessWidth = 64 then
    Checked.index d.router ((offset - gicdIrouter0) / 8)
  else if offset = gicdPidr2 ∧ accessWidth = 32 then some (gicRevision <<< 4)
  else some 0

end GicDistributorMmio

/-! ## Redistributor -/

structure GicRedistributorMmio where
  affinity : BitVec 64
  ctlr : BitVec 32
  waker : BitVec 32
  group : BitVec 32
  enable : BitVec 32
  pending : BitVec 32
  active : BitVec 32
  priority : Vector (BitVec 32) 8
  configuration : Vector (BitVec 32) 2
  groupModifier : BitVec 32
  toInjectInterrupt : List ListEntry
  /-- Ghost: the VM the controller belongs to. -/
  owner : ℕ

def gicrCtlr : ℕ := 0x0000
def gicrTyper : ℕ := 0x0008
def gicrWaker : ℕ := 0x0014
def gicrPidr2 : ℕ := 0xFFE8
def gicrVlpiBase : ℕ := 0x10000
def gicrIgroupr0 : ℕ := gicrVlpiBase + 0x0080
def gicrIsenabler0 : ℕ := gicrVlpiBase + 0x0100
def gicrIcenabler0 : ℕ := gicrVlpiBase + 0x0180
def gicrIspendr0 : ℕ := gicrVlpiBase + 0x0200
def gicrIcpendr0 : ℕ := gicrVlpiBase + 0x0280
def gicrIsactiver0 : ℕ := gicrVlpiBase + 0x0300
def gicrIcactiver0 : ℕ := gicrVlpiBase + 0x0380
def gicrIpriorityr0 : ℕ := gicrVlpiBase + 0x0400
def gicrIpriorityr7 : ℕ := gicrVlpiBase + 0x041C
def gicrIcfgr0 : ℕ := gicrVlpiBase + 0x0C00
def gicrIcfgr1 : ℕ := gicrVlpiBase + 0x0C04
def gicrIgrpmodr0 : ℕ := gicrVlpiBase + 0x0D00

def gicrTyperLast : BitVec 32 := 1#32 <<< 4

def gicrWakerChildrenAsleep : BitVec 32 := 1#32 <<< 2
def gicrWakerProcessorSleep : BitVec 32 := 1#32 <<< 1

namespace GicRedistributorMmio

def new (owner : ℕ) (mpidrEl1 : BitVec 64) : GicRedistributorMmio where
  affinity := mpidrToAffinity mpidrEl1
  ctlr := 0
  waker := gicrWakerChildrenAsleep
  group := 0
  enable := 0
  pending := 0
  active := 0
  priority := Vector.replicate 8 0
  configuration := Vector.replicate 2 0
  groupModifier := 0
  toInjectInterrupt := []
  owner := owner

def generateTyper (r : GicRedistributorMmio) : BitVec 64 :=
  gicrTyperLast.setWidth 64 ||| (aff0 r.affinity <<< 32) ||| (aff1 r.affinity <<< 40) |||
    (aff2 r.affinity <<< 48) ||| (aff3 r.affinity <<< 56)

/-- One bit of a 32-bit register; a shift by 32 or more panics. -/
def registerBit (register intId : BitVec 32) : Option (BitVec 32) :=
  if intId.toNat < 32 then some ((register >>> intId.toNat) &&& 1) else none

def changeRegisterBit (register intId : BitVec 32) (value : Bool) : Option (BitVec 32) :=
  if intId.toNat < 32 then
    some (if value then register ||| (1#32 <<< intId.toNat) else register &&& ~~~ (1#32 <<< intId.toNat))
  else none

def getGroup (r : GicRedistributorMmio) (intId : BitVec 32) : Option (BitVec 32) :=
  registerBit r.group intId

def getEnable (r : GicRedistributorMmio) (intId : BitVec 32) : Option Bool :=
  (registerBit r.enable intId).map (· ≠ 0)

def getPending (r : GicRedistributorMmio) (intId : BitVec 32) : Option Bool :=
  (registerBit r.pending intId).map (· ≠ 0)

def changePendingStatus (r : GicRedistributorMmio) (intId : BitVec 32) (isPending : Bool) :
    Option GicRedistributorMmio :=
  (changeRegisterBit r.pending intId isPending).map fun p => { r with pending := p }

def changeActiveStatus (r : GicRedistributorMmio) (intId : BitVec 32) (isActive : Bool) :
    Option GicRedistributorMmio :=
  (changeRegisterBit r.active intId isActive).map fun a => { r with active := a }

def getPriority (r : GicRedistributorMmio) (intId : BitVec 32) : Option (BitVec 32) := do
  let register ← Checked.index r.priority (intId.toNat / 4)
  return (register >>> ((intId.toNat % 4) * 8)) &&& 0xFF

def getGroupModifier (r : GicRedistributorMmio) (intId : BitVec 32) : Option (BitVec 32) :=
  registerBit r.groupModifier intId

def triggerInterrupt (r : GicRedistributorMmio) (cpu : Pcpu) (intId : BitVec 32)
    (physicalIntId : Option (BitVec 32)) : Option (GicRedistributorMmio × Pcpu) := do
  if r.waker &&& gicrWakerChildrenAsleep ≠ 0 then
    return (r, cpu)
  let r ← r.changePendingStatus intId true
  if !(← r.getEnable intId) then
    return (r, cpu)
  if (← r.getGroupModifier intId) = 1 then
    return (r, cpu)
  let group ← r.getGroup intId
  let priority ← r.getPriority intId
  let listEntry : ListEntry :=
    ⟨Vgic.createListRegisterEntry intId group priority physicalIntId, r.owner⟩
  if r.affinity = mpidrToAffinity cpu.mpidrEl1 then
    return (r, cpu.addVirtualInterrupt listEntry)
  else
    let r := { r with toInjectInterrupt := r.toInjectInterrupt ++ [listEntry] }
    Checked.require ((aff0 r.affinity).toNat < 16)
    return (r, cpu.setIccSgi1rEl1 (injectSgi r.affinity))

/-- The first `if` of `write`, which the source does not chain to the others. -/
def writeCtlr (r : GicRedistributorMmio) (offset accessWidth : ℕ) (value : BitVec 64) :
    GicRedistributorMmio :=
  if offset = gicrCtlr ∧ accessWidth = 32 then { r with ctlr := value.setWidth 32 } else r

/-- The remaining `if` chain of `write`. -/
def writeRegister (r : GicRedistributorMmio) (cpu : Pcpu) (offset accessWidth : ℕ)
    (value : BitVec 64) : Option (GicRedistributorMmio × Pcpu) :=
  let word : BitVec 32 := value.setWidth 32
  if offset = gicrWaker ∧ accessWidth = 32 then
    if word &&& gicrWakerProcessorSleep = 0 then some ({ r with waker := 0 }, cpu)
    else some ({ r with waker := gicrWakerChildrenAsleep ||| gicrWakerProcessorSleep }, cpu)
  else if offset = gicrIgroupr0 ∧ accessWidth = 32 then
    some ({ r with group := word }, cpu)
  else if offset = gicrIsenabler0 ∧ accessWidth = 32 then
    forSetBits (fun s intId => s.1.getPending intId)
      (fun s intId => s.1.triggerInterrupt s.2 intId none) 32 value 0
      ({ r with enable := r.enable ||| word }, cpu)
  else if offset = gicrIcenabler0 ∧ accessWidth = 32 then
    some ({ r with enable := r.enable &&& ~~~ word }, cpu)
  else if offset = gicrIspendr0 ∧ accessWidth = 32 then
    forSetBits (fun s intId => s.1.getEnable intId)
      (fun s intId => s.1.triggerInterrupt s.2 intId none) 32 value 0
      ({ r with pending := r.pending ||| word }, cpu)
  else if offset = gicrIcpendr0 ∧ accessWidth = 32 then
    some ({ r with pending := r.pending &&& ~~~ word }, cpu)
  else if offset = gicrIsactiver0 ∧ accessWidth = 32 then
    some ({ r with active := r.active ||| word }, cpu)
  else if offset = gicrIcactiver0 ∧ accessWidth = 32 then
    some ({ r with active := r.active &&& ~~~ word }, cpu)
  else if gicrIpriorityr0 ≤ offset ∧ offset < gicrIpriorityr7 + 4 then do
    let priority ← GicDistributorMmio.writePriority r.priority (offset - gicrIpriorityr0)
      accessWidth value
    return ({ r with priority := priority }, cpu)
  else if GicDistributorMmio.Hits gicrIcfgr0 gicrIcfgr1 offset accessWidth then do
    let configuration ← Checked.modify r.configuration ((offset - gicrIcfgr0) / 4) fun _ => word
    return ({ r with configuration := configuration }, cpu)
  else if offset = gicrIgrpmodr0 ∧ accessWidth = 32 then
    some ({ r with groupModifier := word }, cpu)
  else some (r, cpu)

def write (r : GicRedistributorMmio) (cpu : Pcpu) (offset accessWidth : ℕ) (value : BitVec 64) :
    Option (GicRedistributorMmio × Pcpu) :=
  (r.writeCtlr offset accessWidth value).writeRegister cpu offset accessWidth value

def read (r : GicRedistributorMmio) (offset accessWidth : ℕ) : Option (BitVec 64) :=
  if offset = gicrCtlr ∧ accessWidth = 32 then some (r.ctlr.setWidth 64)
  else if offset = gicrTyper ∧ (accessWidth = 32 ∨ accessWidth = 64) then some r.generateTyper
  else if offset = gicrTyper + 4 ∧ accessWidth = 32 then some (r.generateTyper >>> 32)
  else if offset = gicrWaker ∧ accessWidth = 32 then some (r.waker.setWidth 64)
  else if offset = gicrPidr2 ∧ accessWidth = 32 then some (gicRevision <<< 4)
  else if offset = gicrIgroupr0 ∧ accessWidth = 32 then some (r.group.setWidth 64)
  else if (offset = gicrIsenabler0 ∨ offset = gicrIcenabler0) ∧ accessWidth = 32 then
    some (r.enable.setWidth 64)
  else if (offset = gicrIspendr0 ∨ offset = gicrIcpendr0) ∧ accessWidth = 32 then
    some (r.pending.setWidth 64)
  else if (offset = gicrIsactiver0 ∨ offset = gicrIcactiver0) ∧ accessWidth = 32 then
    some (r.active.setWidth 64)
  else if GicDistributorMmio.Hits gicrIpriorityr0 gicrIpriorityr7 offset accessWidth then
    GicDistributorMmio.readBank r.priority (offset - gicrIpriorityr0)
  else if GicDistributorMmio.Hits gicrIcfgr0 gicrIcfgr1 offset accessWidth then
    GicDistributorMmio.readBank r.configuration (offset - gicrIcfgr0)
  else if offset = gicrIgrpmodr0 ∧ accessWidth = 32 then some (r.groupModifier.setWidth 64)
  else some 0

end GicRedistributorMmio

end MiniVisor
