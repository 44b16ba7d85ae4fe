import MiniVisor.Library.Checked

/-!
# The memory allocator

Free ranges live in a pool of 64 entries that two intrusive doubly linked
structures share: the address chain (`previous`, `next`) and twelve buckets by
size (`list_prev`, `list_next`). A reference to a pool entry is its slot number,
so that two references to one entry see each other's writes.

A call returns its result together with the state it leaves behind, also when
the result is an error; `none` is a panic. Loops over links carry a fuel of the
pool size, which no list without a cycle exhausts.
-/
namespace MiniVisor

inductive MemoryError where
  | noEntry
  | invalidEntry
  | noMemory
  | invalidRequest
  deriving DecidableEq

structure MemoryEntry where
  previous : Option ℕ
  next : Option ℕ
  listPrev : Option ℕ
  listNext : Option ℕ
  start : ℕ
  /-- The last byte of the range. -/
  endAddress : ℕ
  enabled : Bool
  id : ℕ
  deriving DecidableEq

abbrev MemoryEntryPool := ℕ → MemoryEntry
abbrev FreeList := ℕ → Option ℕ

structure MemoryAllocator where
  freeSize : ℕ
  firstEntry : Option ℕ
  freeList : FreeList
  memoryEntryPool : MemoryEntryPool

def pageShift : ℕ := 12

/-- `address + size - 1` on `usize`. -/
def getEndAddress (address size : ℕ) : Option ℕ :=
  (Checked.add 64 address size).bind fun s => Checked.sub s 1

namespace MemoryEntry

def new : MemoryEntry where
  previous := none
  next := none
  listPrev := none
  listNext := none
  start := 0
  endAddress := 0
  enabled := false
  id := 0

def getSize (e : MemoryEntry) : Option ℕ :=
  (Checked.sub e.endAddress e.start).bind fun d => Checked.add 64 d 1

def isFirstEntry (e : MemoryEntry) : Bool := e.previous.isNone

end MemoryEntry

namespace MemoryAllocator

def poolSize : ℕ := 64
def numOfFreeList : ℕ := 12

def new : MemoryAllocator where
  freeSize := 0
  firstEntry := none
  freeList := fun _ => none
  memoryEntryPool := fun _ => MemoryEntry.new

def getMemoryEntry (index : ℕ) : Except MemoryError ℕ :=
  if index < poolSize then .ok index else .error .invalidEntry

/-- `link.and_then(|i| get_memory_entry(pool, i).ok())`. -/
def follow (link : Option ℕ) : Option ℕ := link.bind fun i => (getMemoryEntry i).toOption

/-- A write through a reference to entry `i`. -/
def modifyEntry (pool : MemoryEntryPool) (i : ℕ) (f : MemoryEntry → MemoryEntry) :
    MemoryEntryPool :=
  Function.update pool i (f (pool i))

def getNextEntry (pool : MemoryEntryPool) (entry : ℕ) : Option ℕ := follow (pool entry).next
def getPrevEntry (pool : MemoryEntryPool) (entry : ℕ) : Option ℕ := follow (pool entry).previous

/-- The first disabled slot, reset and enabled. -/
def createMemoryEntry (pool : MemoryEntryPool) : Except MemoryError (ℕ × MemoryEntryPool) :=
  match (List.range poolSize).find? fun i => !(pool i).enabled with
  | some i => .ok (i, modifyEntry pool i fun _ => { MemoryEntry.new with id := i, enabled := true })
  | none => .error .noEntry

/-! ## Entries -/

def setRange (pool : MemoryEntryPool) (entry start endAddress : ℕ) : Option MemoryEntryPool :=
  (Checked.require (start < endAddress)).map fun _ =>
    modifyEntry pool entry fun e => { e with start := start, endAddress := endAddress }

def setPrevEntry (pool : MemoryEntryPool) (entry prev : ℕ) : MemoryEntryPool :=
  modifyEntry pool entry fun e => { e with previous := some (pool prev).id }

def setNextEntry (pool : MemoryEntryPool) (entry next : ℕ) : MemoryEntryPool :=
  modifyEntry pool entry fun e => { e with next := some (pool next).id }

def chainAfterMe (pool : MemoryEntryPool) (entry after : ℕ) : MemoryEntryPool :=
  setPrevEntry (setNextEntry pool entry after) after entry

def delete (pool : MemoryEntryPool) (entry : ℕ) : MemoryEntryPool :=
  let pool :=
    match getPrevEntry pool entry, getNextEntry pool entry with
    | some previous, some next => chainAfterMe pool previous next
    | some previous, none => modifyEntry pool previous fun e => { e with next := none }
    | none, some next => modifyEntry pool next fun e => { e with previous := none }
    | none, none => pool
  modifyEntry pool entry fun e => { e with previous := none, next := none, enabled := false }

def unchainFromFreelist (pool : MemoryEntryPool) (entry : ℕ) : MemoryEntryPool :=
  let pool :=
    match follow (pool entry).listPrev with
    | some prev => modifyEntry pool prev fun e => { e with listNext := (pool entry).listNext }
    | none => pool
  let pool :=
    match follow (pool entry).listNext with
    | some next => modifyEntry pool next fun e => { e with listPrev := (pool entry).listPrev }
    | none => pool
  modifyEntry pool entry fun e => { e with listNext := none, listPrev := none }

/-! ## Buckets -/

/-- The `while` loop of `size_to_page_order`, which stops at the last bucket. -/
def sizeToPageOrderLoop (size : ℕ) : ℕ → ℕ → ℕ
  | 0, order => order
  | remaining + 1, order =>
    if 2 ^ (order + pageShift) < size then sizeToPageOrderLoop size remaining (order + 1) else order

def sizeToPageOrder (size : ℕ) : ℕ := sizeToPageOrderLoop size (numOfFreeList - 1) 0

/-- The head of a bucket moves on when the entry that leaves is the head. -/
def dropHead (pool : MemoryEntryPool) (freeList : FreeList) (order entry : ℕ) : FreeList :=
  if freeList order = some (pool entry).id then
    Function.update freeList order (pool entry).listNext
  else freeList

def unchainEntryFromFreeList (pool : MemoryEntryPool) (freeList : FreeList) (entry : ℕ) :
    Option (MemoryEntryPool × FreeList) :=
  (pool entry).getSize.map fun size =>
    (unchainFromFreelist pool entry, dropHead pool freeList (sizeToPageOrder size) entry)

/-- The `loop` of `chain_entry_to_free_list`, which looks for the first entry
after `listEntry` that is not smaller than `size`. -/
def chainLoop (entry size : ℕ) : ℕ → MemoryEntryPool → ℕ → Option MemoryEntryPool
  | 0, _, _ => none
  | fuel + 1, pool, listEntry =>
    match follow (pool listEntry).listNext with
    | some nextEntry =>
      (pool nextEntry).getSize.bind fun nextSize =>
        if size ≤ nextSize then
          let pool := modifyEntry pool listEntry fun e => { e with listNext := some (pool entry).id }
          let pool := modifyEntry pool entry fun e =>
            { e with listPrev := some (pool listEntry).id, listNext := some (pool nextEntry).id }
          some (modifyEntry pool nextEntry fun e => { e with listPrev := some (pool entry).id })
        else chainLoop entry size fuel pool nextEntry
    | none =>
      let pool := modifyEntry pool listEntry fun e => { e with listNext := some (pool entry).id }
      some (modifyEntry pool entry fun e => { e with listPrev := some (pool listEntry).id })

/-- The insertion into bucket `order` at the end of `chain_entry_to_free_list`. -/
def chainInto (pool : MemoryEntryPool) (freeList : FreeList) (entry size order : ℕ) :
    Option (MemoryEntryPool × FreeList) :=
  match follow (freeList order) with
  | some listEntry =>
    (pool listEntry).getSize.bind fun listSize =>
      if size ≤ listSize then
        let pool := modifyEntry pool listEntry fun e => { e with listPrev := some (pool entry).id }
        let pool := modifyEntry pool entry fun e => { e with listNext := some (pool listEntry).id }
        some (pool, Function.update freeList order (some (pool entry).id))
      else (chainLoop entry size poolSize pool listEntry).map fun pool => (pool, freeList)
  | none => some (pool, Function.update freeList order (some (pool entry).id))

def chainEntryToFreeList (pool : MemoryEntryPool) (freeList : FreeList) (entry : ℕ)
    (oldSize : Option ℕ) : Option (MemoryEntryPool × FreeList) :=
  (pool entry).getSize.bind fun size =>
    if oldSize = some size then some (pool, freeList)
    else
      let (pool, freeList) :=
        match oldSize with
        | some oldSize =>
          (unchainFromFreelist pool entry, dropHead pool freeList (sizeToPageOrder oldSize) entry)
        | none => (pool, freeList)
      (Checked.require ((pool entry).listNext = none ∧ (pool entry).listPrev = none)).bind fun _ =>
        chainInto pool freeList entry size (sizeToPageOrder size)

/-- `chain_entry_to_free_list` on the allocator's own pool and buckets. -/
def chainEntry (a : MemoryAllocator) (entry : ℕ) (oldSize : Option ℕ) : Option MemoryAllocator :=
  (chainEntryToFreeList a.memoryEntryPool a.freeList entry oldSize).map fun (pool, freeList) =>
    { a with memoryEntryPool := pool, freeList := freeList }

def unchainEntry (a : MemoryAllocator) (entry : ℕ) : Option MemoryAllocator :=
  (unchainEntryFromFreeList a.memoryEntryPool a.freeList entry).map fun (pool, freeList) =>
    { a with memoryEntryPool := pool, freeList := freeList }

/-! ## Searches along the address chain -/

def searchContainingLoop (pool : MemoryEntryPool) (address : ℕ) : ℕ → ℕ → Option (Option ℕ)
  | 0, _ => none
  | fuel + 1, entry =>
    if (pool entry).start < address ∧ (pool entry).endAddress < address then
      match getNextEntry pool entry with
      | some next => searchContainingLoop pool address fuel next
      | none => some none
    else if (pool entry).start ≤ address ∧ address ≤ (pool entry).endAddress then some (some entry)
    else some none

def searchEntryContainingAddress (pool : MemoryEntryPool) (firstEntry : Option ℕ) (address : ℕ) :
    Option (Option ℕ) :=
  match follow firstEntry with
  | some entry => searchContainingLoop pool address poolSize entry
  | none => some none

def searchPreviousLoop (pool : MemoryEntryPool) (address : ℕ) : ℕ → ℕ → Option (Option ℕ)
  | 0, _ => none
  | fuel + 1, entry =>
    if (pool entry).start < address then
      match getNextEntry pool entry with
      | some next => searchPreviousLoop pool address fuel next
      | none =>
        if (pool entry).endAddress ≤ address then some (some entry)
        else some (getPrevEntry pool entry)
    else some (getPrevEntry pool entry)

def searchEntryPreviousAddress (pool : MemoryEntryPool) (firstEntry : Option ℕ) (address : ℕ) :
    Option (Option ℕ) :=
  match follow firstEntry with
  | some entry => searchPreviousLoop pool address poolSize entry
  | none => some none

/-! ## Alignment

`x & !(align_size - 1)` clears the low bits: it is `x - x % align_size`. -/

def alignAddressAndSize (address size alignOrder : ℕ) : Option (ℕ × ℕ) := do
  let alignSize ← Checked.bit 64 alignOrder
  let alignedAddress := address - address % alignSize
  let s ← Checked.add 64 size (address - alignedAddress)
  let s ← Checked.sub s 1
  let alignedSize ← Checked.add 64 (s - s % alignSize) alignSize
  return (alignedAddress, alignedSize)

def alignAddressAndAvailableSize (start size alignOrder : ℕ) : Option (ℕ × ℕ) :=
  if start = 0 then some (0, size)
  else do
    let alignSize ← Checked.bit 64 alignOrder
    let s ← Checked.sub start 1
    let alignedAddress ← Checked.add 64 (s - s % alignSize) alignSize
    if alignedAddress - start < size then
      return (alignedAddress, size - (alignedAddress - start))
    else
      return (alignedAddress, 0)

/-! ## Taking memory -/

/-- What a call leaves behind: its result and the state. -/
abbrev Reply (α : Type) := Except MemoryError α × MemoryAllocator

/-- `Err(e)` with the state as it is. -/
def fail {α : Type} (a : MemoryAllocator) (e : MemoryError) : Option (Reply α) := some (.error e, a)

/-- `self.free_size -= size; Ok(())`. -/
def takeSize (a : MemoryAllocator) (size : ℕ) : Option (Reply Unit) :=
  (Checked.sub a.freeSize size).map fun freeSize => (.ok (), { a with freeSize := freeSize })

def setEntryRange (a : MemoryAllocator) (entry start endAddress : ℕ) : Option MemoryAllocator :=
  (setRange a.memoryEntryPool entry start endAddress).map fun pool =>
    { a with memoryEntryPool := pool }

/-- The entry is used up: it leaves the chain, its bucket and the pool. The last
entry of the chain is never given away. -/
def takeWhole (a : MemoryAllocator) (entry size : ℕ) : Option (Reply Unit) :=
  let e := a.memoryEntryPool entry
  match e.isFirstEntry, getNextEntry a.memoryEntryPool entry with
  | true, none => a.fail .noEntry
  | true, some next => remove { a with firstEntry := some (a.memoryEntryPool next).id }
  | false, _ => remove a
where
  remove (a : MemoryAllocator) : Option (Reply Unit) :=
    (a.unchainEntry entry).bind fun a =>
      { a with memoryEntryPool := delete a.memoryEntryPool entry }.takeSize size

/-- The entry keeps `[start, endAddress]` and moves to the bucket of its new size. -/
def takePart (a : MemoryAllocator) (entry start endAddress size : ℕ) : Option (Reply Unit) := do
  let oldSize ← (a.memoryEntryPool entry).getSize
  let a ← a.setEntryRange entry start endAddress
  let a ← a.chainEntry entry (some oldSize)
  a.takeSize size

/-- The last byte of the entry. The old size is recomputed from the new range. -/
def takeLastByte (a : MemoryAllocator) (entry start size : ℕ) : Option (Reply Unit) :=
  if size ≠ 1 then a.fail .invalidRequest
  else do
    let a ← a.setEntryRange entry (a.memoryEntryPool entry).start (← Checked.sub start 1)
    let newSize ← (a.memoryEntryPool entry).getSize
    let a ← a.chainEntry entry (some (← Checked.add 64 newSize 1))
    a.takeSize size

/-- `if let Some(next) = ... { new_entry.chain_after_me(next) }`. -/
def chainBeforeNext (pool : MemoryEntryPool) (newEntry : ℕ) (next : Option ℕ) : MemoryEntryPool :=
  match next with
  | some next => chainAfterMe pool newEntry next
  | none => pool

/-- A hole inside the entry: a new entry takes the part behind it. -/
def takeMiddle (a : MemoryAllocator) (entry start size : ℕ) : Option (Reply Unit) :=
  match createMemoryEntry a.memoryEntryPool with
  | .error e => a.fail e
  | .ok (newEntry, pool) => do
    let oldSize ← (pool entry).getSize
    let a := { a with memoryEntryPool := pool }
    let a ← a.setEntryRange newEntry (← Checked.add 64 start size)
      (a.memoryEntryPool entry).endAddress
    let a ← a.setEntryRange entry (a.memoryEntryPool entry).start (← Checked.sub start 1)
    let pool := a.memoryEntryPool
    let pool := chainBeforeNext pool newEntry (getNextEntry pool entry)
    let a := { a with memoryEntryPool := chainAfterMe pool entry newEntry }
    let a ← a.chainEntry entry (some oldSize)
    let a ← a.chainEntry newEntry none
    a.takeSize size

/-- The five shapes of `define_used_memory`, by where the range lies in the entry. -/
def takeFrom (a : MemoryAllocator) (entry start size : ℕ) : Option (Reply Unit) :=
  let e := a.memoryEntryPool entry
  if e.start = start then
    (getEndAddress start size).bind fun last =>
      if e.endAddress = last then a.takeWhole entry size
      else (Checked.add 64 start size).bind fun newStart =>
        a.takePart entry newStart e.endAddress size
  else if e.endAddress = start then a.takeLastByte entry start size
  else
    (getEndAddress start size).bind fun last =>
      if e.endAddress = last then
        (Checked.sub start 1).bind fun newEnd => a.takePart entry e.start newEnd size
      else a.takeMiddle entry start size

/-- `define_used_memory` with `align_order` zero. -/
def defineUsedMemoryUnaligned (a : MemoryAllocator) (start size : ℕ) (targetEntry : Option ℕ) :
    Option (Reply Unit) :=
  if size = 0 then a.fail .invalidRequest
  else if a.freeSize < size then a.fail .noMemory
  else
    match targetEntry with
    | some entry => a.takeFrom entry start size
    | none =>
      (searchEntryContainingAddress a.memoryEntryPool a.firstEntry start).bind fun found =>
        match found with
        | some entry => a.takeFrom entry start size
        | none => a.fail .invalidRequest

def defineUsedMemory (a : MemoryAllocator) (start size alignOrder : ℕ) (targetEntry : Option ℕ) :
    Option (Reply Unit) :=
  if size = 0 then a.fail .invalidRequest
  else if a.freeSize < size then a.fail .noMemory
  else if alignOrder ≠ 0 then
    (alignAddressAndSize start size alignOrder).bind fun (alignedStart, alignedSize) =>
      a.defineUsedMemoryUnaligned alignedStart alignedSize targetEntry
  else a.defineUsedMemoryUnaligned start size targetEntry

/-- The `while` loop over one bucket of `allocate`: the first entry that can hold
`size` bytes at an aligned address, with that address. -/
def searchBucket (pool : MemoryEntryPool) (size alignOrder : ℕ) :
    ℕ → Option ℕ → Option (Option (ℕ × ℕ))
  | _, none => some none
  | 0, some _ => none
  | fuel + 1, some e =>
    (pool e).getSize.bind fun entrySize =>
      if size ≤ entrySize then
        if alignOrder ≠ 0 then
          (alignAddressAndAvailableSize (pool e).start entrySize alignOrder).bind
            fun (alignedAddress, availableSize) =>
              if availableSize < size then
                searchBucket pool size alignOrder fuel (follow (pool e).listNext)
              else some (some (e, alignedAddress))
        else some (some (e, (pool e).start))
      else searchBucket pool size alignOrder fuel (follow (pool e).listNext)

/-- The `for` loop of `allocate` from bucket `order` on. -/
def allocateLoop (a : MemoryAllocator) (size alignOrder : ℕ) : ℕ → ℕ → Option (Reply ℕ)
  | 0, _ => a.fail .noMemory
  | remaining + 1, order =>
    match a.freeList order with
    | none => a.allocateLoop size alignOrder remaining (order + 1)
    | some t =>
      match getMemoryEntry t with
      | .error e => a.fail e
      | .ok first =>
        (searchBucket a.memoryEntryPool size alignOrder poolSize (some first)).bind fun found =>
          match found with
          | some (entry, address) =>
            (a.defineUsedMemory address size 0 (some entry)).map fun (r, a) =>
              (r.map fun _ => address, a)
          | none => a.allocateLoop size alignOrder remaining (order + 1)

def allocate (a : MemoryAllocator) (size alignOrder : ℕ) : Option (Reply ℕ) :=
  if size = 0 then a.fail .invalidRequest
  else if a.freeSize ≤ size then a.fail .noMemory
  else
    let pageOrder := sizeToPageOrder size
    a.allocateLoop size alignOrder (numOfFreeList - pageOrder) pageOrder

def reserveMemory (a : MemoryAllocator) (startAddress size alignOrder : ℕ) : Option (Reply Unit) :=
  a.defineUsedMemory startAddress size alignOrder none

/-! ## Giving memory back -/

/-- `self.free_size += size`. -/
def addSize (a : MemoryAllocator) (size : ℕ) : Option MemoryAllocator :=
  (Checked.add 64 a.freeSize size).map fun freeSize => { a with freeSize := freeSize }

/-- The entry that `define_free_memory` starts from: the last one before the
range, or else the first of the chain. -/
def previousOrFirst (a : MemoryAllocator) (start : ℕ) : Option (Except MemoryError ℕ) :=
  (searchEntryPreviousAddress a.memoryEntryPool a.firstEntry start).bind fun found =>
    match found with
    | some entry => some (.ok entry)
    | none => a.firstEntry.map getMemoryEntry

/-- The range touches the entry from behind or, for the first entry, from the
front: the entry grows over it. The flag says whether it did. -/
def growEntry (a : MemoryAllocator) (entry start last : ℕ) :
    Option (Bool × MemoryAllocator) := do
  let addressAfterEntry ← Checked.add 64 (a.memoryEntryPool entry).endAddress 1
  let (processed, a) ←
    if addressAfterEntry = start then
      (a.setEntryRange entry (a.memoryEntryPool entry).start last).map fun a => (true, a)
    else some (false, a)
  if (a.memoryEntryPool entry).isFirstEntry then
    let addressAfterRange ← Checked.add 64 last 1
    if (a.memoryEntryPool entry).start = addressAfterRange then
      (a.setEntryRange entry start (a.memoryEntryPool entry).endAddress).map fun a => (true, a)
    else return (processed, a)
  else return (processed, a)

/-- The range touches the entry behind it: that one grows to the front. -/
def growNext (a : MemoryAllocator) (next start last : ℕ) (processed : Bool) :
    Option (Bool × MemoryAllocator) := do
  let addressAfterRange ← Checked.add 64 last 1
  if (a.memoryEntryPool next).start = addressAfterRange then
    let nextOldSize ← (a.memoryEntryPool next).getSize
    let a ← a.setEntryRange next start (a.memoryEntryPool next).endAddress
    let a ← a.chainEntry next (some nextOldSize)
    return (true, a)
  else return (processed, a)

/-- Entry and next now meet: the entry takes the range of both. -/
def mergeNext (a : MemoryAllocator) (entry next addressAfterEntry : ℕ) (processed : Bool) :
    Option MemoryAllocator := do
  let addressAfter ← Checked.add 64 (a.memoryEntryPool entry).endAddress 1
  if (a.memoryEntryPool next).start = addressAfter ∨
      processed ∧ (a.memoryEntryPool next).start ≤ addressAfterEntry then
    let a ← a.setEntryRange entry (a.memoryEntryPool entry).start
      (max (a.memoryEntryPool entry).endAddress (a.memoryEntryPool next).endAddress)
    let a ← a.unchainEntry next
    return { a with memoryEntryPool := delete a.memoryEntryPool next }
  else return a

/-- The range is part of the entry already: count it and put the entry in its bucket. -/
def finishGrown (a : MemoryAllocator) (entry size oldSize : ℕ) : Option (Reply Unit) := do
  let a ← a.addSize size
  let a ← a.chainEntry entry (some oldSize)
  return (.ok (), a)

/-- Count the range and put both entries in their buckets. -/
def finishNew (a : MemoryAllocator) (entry newEntry size oldSize : ℕ) : Option (Reply Unit) := do
  let a ← a.addSize size
  let a ← a.chainEntry entry (some oldSize)
  let a ← a.chainEntry newEntry none
  return (.ok (), a)

/-- A new entry with the range, linked before `entry`. `before` names the bound
that the assertion on the previous entry compares with. -/
def chainBefore (a : MemoryAllocator) (entry newEntry before : ℕ) : Option MemoryAllocator :=
  let pool := a.memoryEntryPool
  match getPrevEntry pool entry with
  | some prevEntry =>
    (Checked.require ((pool prevEntry).endAddress < (pool before).start)).map fun _ =>
      { a with memoryEntryPool := chainAfterMe (chainAfterMe pool prevEntry newEntry) newEntry entry }
  | none =>
    some { a with
      firstEntry := some (pool newEntry).id
      memoryEntryPool := chainAfterMe pool newEntry entry }

/-- The tail of `define_free_memory` when `entry` has a next entry. -/
def freeBeforeNext (a : MemoryAllocator) (entry next start last size oldSize addressAfterEntry : ℕ)
    (processed : Bool) : Option (Reply Unit) := do
  let (processed, a) ← a.growNext next start last processed
  let a ← a.mergeNext entry next addressAfterEntry processed
  if processed then a.finishGrown entry size oldSize
  else
    match createMemoryEntry a.memoryEntryPool with
    | .error e => a.fail e
    | .ok (newEntry, pool) =>
      let a ← { a with memoryEntryPool := pool }.setEntryRange newEntry start last
      let pool := a.memoryEntryPool
      if (pool newEntry).endAddress < (pool entry).start then
        let a ← a.chainBefore entry newEntry newEntry
        a.finishNew entry newEntry size oldSize
      else
        let pool := setNextEntry (setPrevEntry pool next newEntry) newEntry next
        let a := { a with memoryEntryPool := chainAfterMe pool entry newEntry }
        a.finishNew entry newEntry size oldSize

/-- The tail of `define_free_memory` when `entry` is the last of the chain. -/
def freeAtEnd (a : MemoryAllocator) (entry start last size oldSize : ℕ) (processed : Bool) :
    Option (Reply Unit) :=
  if processed then a.finishGrown entry size oldSize
  else
    match createMemoryEntry a.memoryEntryPool with
    | .error e => a.fail e
    | .ok (newEntry, pool) => do
      let a ← { a with memoryEntryPool := pool }.setEntryRange newEntry start last
      let pool := a.memoryEntryPool
      if (pool entry).endAddress < (pool newEntry).start then
        let a := { a with memoryEntryPool := chainAfterMe pool entry newEntry }
        a.finishNew entry newEntry size oldSize
      else
        let a ← a.chainBefore entry newEntry entry
        a.finishNew entry newEntry size oldSize

/-- `fuel` bounds the recursion into the duplicated-area branches. -/
def defineFreeMemory : ℕ → MemoryAllocator → ℕ → ℕ → Option (Reply Unit)
  | 0, _, _, _ => none
  | fuel + 1, a, start, size =>
    if size = 0 then a.fail .invalidRequest
    else
      (a.previousOrFirst start).bind fun found =>
        match found with
        | .error _ => a.fail .invalidEntry
        | .ok entry =>
          (getEndAddress start size).bind fun last =>
            let e := a.memoryEntryPool entry
            if e.start ≤ start ∧ last ≤ e.endAddress then a.fail .invalidRequest
            else if start ≤ e.endAddress ∧ !e.isFirstEntry then do
              let newStart ← Checked.add 64 e.endAddress 1
              let newSize ← Checked.add 64 (← Checked.sub last e.endAddress) 2
              defineFreeMemory fuel a newStart newSize
            else if e.endAddress = last then do
              defineFreeMemory fuel a start (← Checked.sub size (← e.getSize))
            else do
              let oldSize ← e.getSize
              let addressAfterEntry ← Checked.add 64 e.endAddress 1
              let (processed, a) ← a.growEntry entry start last
              match getNextEntry a.memoryEntryPool entry with
              | some next =>
                let n := a.memoryEntryPool next
                if n.start ≤ start then
                  Checked.require (processed = false)
                  if last ≤ n.endAddress then a.fail .invalidRequest
                  else
                    let newStart ← Checked.add 64 n.endAddress 1
                    defineFreeMemory fuel a newStart (← Checked.sub last n.endAddress)
                else
                  a.freeBeforeNext entry next start last size oldSize addressAfterEntry processed
              | none => a.freeAtEnd entry start last size oldSize processed

def free (a : MemoryAllocator) (start size : ℕ) : Option (Reply Unit) :=
  if a.freeSize = 0 then
    match createMemoryEntry a.memoryEntryPool with
    | .error e => a.fail e
    | .ok (firstEntry, pool) => do
      let a ← { a with memoryEntryPool := pool }.setEntryRange firstEntry start
        (← getEndAddress start size)
      let a ← a.chainEntry firstEntry none
      return (.ok (), { a with
        firstEntry := some (a.memoryEntryPool firstEntry).id
        freeSize := size })
  else
    (defineFreeMemory poolSize a start size).bind fun (r, a) =>
      match r with
      | .error e => a.fail e
      | .ok _ => (a.addSize size).map fun a => (.ok (), a)

end MemoryAllocator

end MiniVisor
