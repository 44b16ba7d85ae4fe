import MiniVisor.MemoryAllocator

/-!
# Stage-2 paging

`map_address_stage2` writes descriptors of 1 GiB, 2 MiB and 4 KiB into a tree of
tables that starts at concatenated root tables. Levels are counted from the leaves
here: depth `3 - level`, so that the recursion over the levels is structural.

The memory holds one descriptor at each address of a descriptor. The pages that
`allocate_pages` returns during a call are an input of the call, in order; when
they are used up the allocation fails. `tables` records which pages are in use as
a table and is read by no function.
-/
namespace MiniVisor

structure Descriptor where
  value : BitVec 64
  deriving DecidableEq

inductive Shareability where
  | nonShareable
  | outerShareable
  | innerShareable

def Shareability.bits : Shareability → BitVec 64
  | nonShareable => 0b00
  | outerShareable => 0b10
  | innerShareable => 0b11

def pageSize : ℕ := 2 ^ pageShift

namespace Descriptor

def tableAddressMask : BitVec 64 := ((1#64 <<< 52) - 1) &&& ~~~ (BitVec.ofNat 64 pageSize - 1)
def outputAddressMask : BitVec 64 := ((1#64 <<< 50) - 1) &&& ~~~ (BitVec.ofNat 64 pageSize - 1)
def af : BitVec 64 := 1#64 <<< 10
def sh : BitVec 64 := 0b11#64 <<< 8
def s2ap : BitVec 64 := 0b11#64 <<< 6
def attrIndex : BitVec 64 := 0b1111#64 <<< 2
def attrWriteBack : BitVec 64 := 0b1111#64 <<< 2

def new : Descriptor := ⟨0⟩

def validateAsPageDescriptor (d : Descriptor) : Descriptor := ⟨d.value ||| 0b11⟩
def validateAsTableDescriptor (d : Descriptor) : Descriptor := ⟨d.value ||| 0b11⟩
def validateAsBlockDescriptor (d : Descriptor) : Descriptor := ⟨d.value ||| 0b01⟩

def isTableDescriptor (d : Descriptor) : Bool := d.value &&& 0b11 == 0b11

def getNextLevelTableAddress (d : Descriptor) : ℕ := (d.value &&& tableAddressMask).toNat

def setOutputAddress (d : Descriptor) (outputAddress : ℕ) : Descriptor :=
  ⟨(d.value &&& ~~~ outputAddressMask) ||| BitVec.ofNat 64 outputAddress ||| af⟩

def setShareability (d : Descriptor) (shareability : Shareability) : Descriptor :=
  ⟨(d.value &&& ~~~ sh) ||| (shareability.bits <<< 8)⟩

def setPermission (d : Descriptor) (permission : BitVec 64) : Descriptor :=
  ⟨(d.value &&& ~~~ s2ap) ||| (permission <<< 6)⟩

def setMemoryAttributeWriteBack (d : Descriptor) : Descriptor :=
  ⟨(d.value &&& ~~~ attrIndex) ||| attrWriteBack⟩

/-- What both loops write before they validate the descriptor. -/
def output (physicalAddress : ℕ) (permission : BitVec 64) : Descriptor :=
  new.setOutputAddress physicalAddress |>.setPermission permission
    |>.setMemoryAttributeWriteBack |>.setShareability .innerShareable

def page (physicalAddress : ℕ) (permission : BitVec 64) : Descriptor :=
  (output physicalAddress permission).validateAsPageDescriptor

def block (physicalAddress : ℕ) (permission : BitVec 64) : Descriptor :=
  (output physicalAddress permission).validateAsBlockDescriptor

def table (nextLevelTableAddress : ℕ) : Descriptor :=
  (new.setOutputAddress nextLevelTableAddress).validateAsTableDescriptor

end Descriptor

namespace Paging

abbrev Memory := ℕ → Descriptor

def vttbrBaddr : BitVec 64 := ((1#64 <<< 47) - 1) &&& ~~~ 1
def vtcrEl2Res1 : BitVec 64 := 1#64 <<< 31
def vtcrEl2Sl0 : BitVec 64 := 0b11#64 <<< 6
def vtcrEl2T0sz : BitVec 64 := 0b111111
def idAa64mmfr0El1Parange : BitVec 64 := 0b1111

/-- The registers and the memory that a stage-2 walk reads. -/
structure Stage2 where
  vtcrEl2 : BitVec 64
  vttbrEl2 : BitVec 64
  memory : Memory
  tables : List ℕ

def numberOfConcatenatedPageTables (t0sz firstLevel : ℕ) : ℕ :=
  let limit := 43 - (3 - firstLevel) * 9
  if limit < t0sz then 1 else 2 ^ (limit - t0sz)

/-- `for d in from_raw_parts_mut(table, number) { d.init() }`. -/
def initTable (memory : Memory) (table number : ℕ) : Memory := fun a =>
  if table ≤ a ∧ a < table + 8 * number ∧ (a - table) % 8 = 0 then .new else memory a

/-- `(t0sz, initial_lookup_level)` by the physical address range. -/
def initialLookup (ps : BitVec 64) : ℕ × ℕ :=
  match ps.toNat with
  | 0b000 => (32, 1)
  | 0b001 => (28, 1)
  | 0b010 => (24, 1)
  | 0b011 => (22, 1)
  | 0b100 => (20, 0)
  | 0b101 => (16, 0)
  | _ => (16, 0)

/-- The value for VTCR_EL2. -/
def vtcrEl2For (ps : BitVec 64) : BitVec 64 :=
  let (t0sz, initialLookupLevel) := initialLookup ps
  let sl0 : BitVec 64 := if initialLookupLevel = 1 then 0b01 else 0b10
  vtcrEl2Res1 ||| (ps <<< 16) ||| (0#64 <<< 14) ||| (0b11#64 <<< 12) ||| (0b11#64 <<< 10)
    ||| (0b11#64 <<< 8) ||| (sl0 <<< 6) ||| (BitVec.ofNat 64 t0sz <<< 0)

/-- `table` is what `allocate_pages` returned for the root tables. -/
def initStage2TranslationTable (idAa64mmfr0El1 : BitVec 64) (table : ℕ) (memory : Memory) :
    Stage2 :=
  let ps := idAa64mmfr0El1 &&& idAa64mmfr0El1Parange
  let (t0sz, initialLookupLevel) := initialLookup ps
  let numberOfTables := numberOfConcatenatedPageTables t0sz initialLookupLevel
  { vtcrEl2 := vtcrEl2For ps
    vttbrEl2 := BitVec.ofNat 64 table
    memory := initTable memory table (numberOfTables * 512)
    tables := (List.range numberOfTables).map fun c => table + pageSize * c }

/-! ## Mapping -/

/-- The cursors that one call moves forward, with the memory and the pages that
`allocate_pages` is going to return. -/
structure MapState where
  memory : Memory
  physicalAddress : ℕ
  intermediatePhysicalAddress : ℕ
  remainingSize : ℕ
  pages : List ℕ
  tables : List ℕ

/-- `Err` keeps what was written so far. -/
abbrev MapResult := Except MapState MapState

/-- Write a descriptor and move the cursors over what it maps. -/
def MapState.put (s : MapState) (descriptor : ℕ) (d : Descriptor) (size : ℕ) : Option MapState := do
  let physicalAddress ← Checked.add 64 s.physicalAddress size
  let intermediatePhysicalAddress ← Checked.add 64 s.intermediatePhysicalAddress size
  let remainingSize ← Checked.sub s.remainingSize size
  return { s with
    memory := Function.update s.memory descriptor d
    physicalAddress := physicalAddress
    intermediatePhysicalAddress := intermediatePhysicalAddress
    remainingSize := remainingSize }

/-- The loop of level 3 over the last `n` descriptors, from `descriptor` on. -/
def mapPages (permission : BitVec 64) : ℕ → ℕ → MapState → Option MapState
  | 0, _, s => some s
  | n + 1, descriptor, s =>
    (s.put descriptor (.page s.physicalAddress permission) pageSize).bind fun s =>
      if s.remainingSize = 0 then some s else mapPages permission n (descriptor + 8) s

/-- The table that the descriptor points to, created if there is none. -/
def nextLevelTable (s : MapState) (descriptor : ℕ) : Except MapState (ℕ × MapState) :=
  if (s.memory descriptor).isTableDescriptor then
    .ok ((s.memory descriptor).getNextLevelTableAddress, s)
  else
    match s.pages with
    | [] => .error s
    | page :: pages =>
      .ok (page, { s with
        memory := Function.update (initTable s.memory page 512) descriptor (.table page)
        pages := pages
        tables := page :: s.tables })

/-- The loop of the upper levels over the last `n` descriptors, from `descriptor`
on. `next` maps in a table of the next level. -/
def mapEntries (permission : BitVec 64) (depth : ℕ) (next : ℕ → MapState → Option MapResult) :
    ℕ → ℕ → MapState → Option MapResult
  | 0, _, s => some (.ok s)
  | n + 1, descriptor, s =>
    let blockSize := 1 <<< (12 + 9 * depth)
    let mask := blockSize - 1
    -- level >= 1
    if depth ≤ 2 ∧ blockSize ≤ s.remainingSize ∧ s.physicalAddress &&& mask = 0 ∧
        s.intermediatePhysicalAddress &&& mask = 0 then
      (s.put descriptor (.block s.physicalAddress permission) blockSize).bind fun s =>
        if s.remainingSize = 0 then some (.ok s)
        else mapEntries permission depth next n (descriptor + 8) s
    else
      match nextLevelTable s descriptor with
      | .error s => some (.error s)
      | .ok (table, s) =>
        (next table s).bind fun r =>
          match r with
          | .error s => some (.error s)
          | .ok s =>
            if s.remainingSize = 0 then some (.ok s)
            else mapEntries permission depth next n (descriptor + 8) s

/-- `_map_address_stage2` for level `3 - depth`. -/
def mapLevel (permission : BitVec 64) : ℕ → ℕ → ℕ → MapState → Option MapResult
  | 0, tableAddress, numOfDescriptors, s =>
    let index := (s.intermediatePhysicalAddress >>> 12) &&& (numOfDescriptors - 1)
    (mapPages permission (numOfDescriptors - index) (tableAddress + 8 * index) s).map .ok
  | depth + 1, tableAddress, numOfDescriptors, s =>
    let index := (s.intermediatePhysicalAddress >>> (12 + 9 * (depth + 1))) &&&
      (numOfDescriptors - 1)
    mapEntries permission (depth + 1) (fun table s => mapLevel permission depth table 512 s)
      (numOfDescriptors - index) (tableAddress + 8 * index) s

namespace Stage2

def tableAddress (s : Stage2) : ℕ := (s.vttbrEl2 &&& vttbrBaddr).toNat

def sl0 (s : Stage2) : ℕ := ((s.vtcrEl2 &&& vtcrEl2Sl0) >>> 6).toNat

def t0sz (s : Stage2) : ℕ := (s.vtcrEl2 &&& vtcrEl2T0sz).toNat

def initialLookupLevel (s : Stage2) : ℕ :=
  match s.sl0 with
  | 0b00 => 2
  | 0b01 => 1
  | 0b10 => 0
  | _ => 3

def numOfDescriptors (s : Stage2) : ℕ :=
  numberOfConcatenatedPageTables s.t0sz s.initialLookupLevel * 512

end Stage2

/-- The permission bits that the call passes on. -/
def permissionBits (isReadable isWritable : Bool) : BitVec 64 :=
  (BitVec.ofNat 64 isWritable.toNat <<< 1) ||| BitVec.ofNat 64 isReadable.toNat

/-- `pages` are the pages that `allocate_pages` returns during the call. -/
def mapAddressStage2 (s : Stage2) (pages : List ℕ)
    (physicalAddress intermediatePhysicalAddress mapSize : ℕ) (isReadable isWritable : Bool) :
    Option (Except Stage2 Stage2) :=
  if mapSize &&& ((1 <<< pageShift) - 1) ≠ 0 then some (.error s)
  else
    let start : MapState :=
      { memory := s.memory
        physicalAddress := physicalAddress
        intermediatePhysicalAddress := intermediatePhysicalAddress
        remainingSize := mapSize
        pages := pages
        tables := s.tables }
    (mapLevel (permissionBits isReadable isWritable) (3 - s.initialLookupLevel) s.tableAddress
      s.numOfDescriptors start).map fun r =>
        match r with
        | .ok t => .ok { s with memory := t.memory, tables := t.tables }
        | .error t => .error { s with memory := t.memory, tables := t.tables }

/-! ## The architectural walk

The 4 KiB granule stage-2 walk. A descriptor with the low bits `11` is a table
above level 3 and a page at level 3; `01` is a block at levels 1 and 2; everything
else faults, as does a page or block whose access flag is clear. -/

/-- Bits 47 to 12 of a table descriptor. -/
def walkTableAddress (d : Descriptor) : ℕ := d.value.toNat % 2 ^ 48 / 2 ^ 12 * 2 ^ 12

/-- Whether a descriptor at `depth` maps its region. -/
def isLeaf (depth : ℕ) (d : Descriptor) : Bool :=
  d.value.getLsbD 10 &&
    if depth = 0 then d.value &&& 0b11 == 0b11 else depth ≤ 2 && d.value &&& 0b11 == 0b01

/-- The output address and the access permissions that a page or block gives. -/
def leaf (depth : ℕ) (d : Descriptor) (x : ℕ) : Option (ℕ × ℕ) :=
  if isLeaf depth d then
    some (d.value.toNat % 2 ^ 48 / 2 ^ (12 + 9 * depth) * 2 ^ (12 + 9 * depth) +
      x % 2 ^ (12 + 9 * depth), d.value.toNat / 2 ^ 6 % 4)
  else none

/-- The walk from the descriptor at address `a`. -/
def walk (memory : Memory) : ℕ → ℕ → ℕ → Option (ℕ × ℕ)
  | 0, a, x => leaf 0 (memory a) x
  | depth + 1, a, x =>
    if (memory a).value &&& 0b11 == 0b11 then
      walk memory depth (walkTableAddress (memory a) + 8 * (x / 2 ^ (12 + 9 * depth) % 512)) x
    else leaf (depth + 1) (memory a) x

/-- The walk from `(VTTBR, SL0, T0SZ)`. `none` is a fault. -/
def Stage2.translate (s : Stage2) (x : ℕ) : Option (ℕ × ℕ) :=
  if x < 2 ^ (64 - s.t0sz) then
    let depth := 3 - s.initialLookupLevel
    walk s.memory depth (s.tableAddress + 8 * (x / 2 ^ (12 + 9 * depth))) x
  else none

end Paging

end MiniVisor
