import MiniVisor.Library.Checked
import MiniVisor.Library.Fuel

/-!
# Device-tree queries

The queries walk the flattened device tree in memory by a pointer. `Err(())` is the
fault `err`; `panic` is an arithmetic overflow and `stuck` means that the fuel of a
loop ran out. A failed query leaves no pointer behind, so a pointer is part of
successful results only. The blob does not reach the end of the address space:
pointers are natural numbers.
-/
namespace MiniVisor

structure Dtb where
  memory : ℕ → UInt8
  /-- The address of the header. -/
  header : ℕ

/-- The numbers of cells of an address and of a size. -/
structure Cells where
  addressCells : ℕ
  sizeCells : ℕ
  deriving DecidableEq

structure DtbNode extends Cells where
  /-- The position right behind the node's name. -/
  address : ℕ
  deriving DecidableEq

structure DtbProperty extends Cells where
  address : ℕ
  len : ℕ
  deriving DecidableEq

namespace Dtb

inductive Fault where
  | err
  | panic
  | stuck
  deriving DecidableEq

def fdtTokenByte : ℕ := 4
def fdtBeginNode : List UInt8 := [0, 0, 0, 1]
def fdtEndNode : List UInt8 := [0, 0, 0, 2]
def fdtProp : List UInt8 := [0, 0, 0, 3]
def fdtNop : List UInt8 := [0, 0, 0, 4]
def fdtEnd : List UInt8 := [0, 0, 0, 9]

/-- `#address-cells` -/
def propAddressCells : List UInt8 :=
  [0x23, 0x61, 0x64, 0x64, 0x72, 0x65, 0x73, 0x73, 0x2d, 0x63, 0x65, 0x6c, 0x6c, 0x73]

/-- `#size-cells` -/
def propSizeCells : List UInt8 :=
  [0x23, 0x73, 0x69, 0x7a, 0x65, 0x2d, 0x63, 0x65, 0x6c, 0x6c, 0x73]

/-- `reg` -/
def propReg : List UInt8 := [0x72, 0x65, 0x67]

/-- `compatible` -/
def propCompatible : List UInt8 := [0x63, 0x6f, 0x6d, 0x70, 0x61, 0x74, 0x69, 0x62, 0x6c, 0x65]

def defaultCells : Cells := ⟨2, 1⟩

/-- `u32::from_be_bytes`. -/
def fromBeBytes (bytes : List UInt8) : ℕ := bytes.foldl (fun n b => n * 256 + b.toNat) 0

def bytes4 (d : Dtb) (p : ℕ) : List UInt8 :=
  [d.memory p, d.memory (p + 1), d.memory (p + 2), d.memory (p + 3)]

/-! ## The header -/

def getStructOffset (d : Dtb) : ℕ := d.header + fromBeBytes (d.bytes4 (d.header + 8))
def getStringOffset (d : Dtb) : ℕ := d.header + fromBeBytes (d.bytes4 (d.header + 12))
def getStringSize (d : Dtb) : ℕ := fromBeBytes (d.bytes4 (d.header + 32))
def getStructSize (d : Dtb) : ℕ := fromBeBytes (d.bytes4 (d.header + 36))

/-! ## Tokens and strings -/

def readNode (d : Dtb) (address : ℕ) : Except Fault (List UInt8) :=
  if d.getStructOffset + d.getStructSize ≤ address then .error .err else .ok (d.bytes4 address)

def skipNop (d : Dtb) : ℕ → ℕ → Except Fault ℕ
  | 0, _ => .error .stuck
  | fuel + 1, pointer => do
    if (← d.readNode pointer) = fdtNop then d.skipNop fuel (pointer + fdtTokenByte)
    else return pointer

/-- `((pointer - 1) & !3) + 4`. -/
def skipPadding (pointer : ℕ) : ℕ :=
  (pointer - 1) - (pointer - 1) % fdtTokenByte + fdtTokenByte

/-- The `while` loop to the end of a string, and the padding behind it. -/
def skipString (d : Dtb) : ℕ → ℕ → Except Fault ℕ
  | 0, _ => .error .stuck
  | fuel + 1, pointer =>
    if d.memory pointer ≠ 0 then d.skipString fuel (pointer + 1)
    else .ok (skipPadding (pointer + 1))

def compareString (d : Dtb) (fuel : ℕ) (delimiter : List UInt8) :
    List UInt8 → ℕ → Except Fault (Bool × ℕ)
  | [], pointer => do
    let l := d.memory pointer
    let pointer ← d.skipString fuel pointer
    return ((delimiter ++ [0]).contains l, pointer)
  | c :: name, pointer =>
    if c ≠ d.memory pointer then do
      let pointer ← d.skipString fuel pointer
      return (false, pointer)
    else d.compareString fuel delimiter name (pointer + 1)

/-- The loop of `compare_name_segment`. -/
def compareAt (d : Dtb) (delimiter : List UInt8) : List UInt8 → ℕ → Bool
  | [], p => (delimiter ++ [0]).contains (d.memory p)
  | c :: name, p => if c ≠ d.memory p then false else d.compareAt delimiter name (p + 1)

def compareNameSegment (d : Dtb) (nameOffset : ℕ) (name delimiter : List UInt8) :
    Except Fault Bool :=
  if d.getStringSize ≤ nameOffset then .error .err
  else .ok (d.compareAt delimiter name (d.getStringOffset + nameOffset))

def checkAddressAndSizeCells (d : Dtb) (nameSegment pointer : ℕ) (cells : Cells) :
    Except Fault Cells := do
  if ← d.compareNameSegment nameSegment propAddressCells [] then
    return { cells with addressCells := fromBeBytes (← d.readNode pointer) }
  else if ← d.compareNameSegment nameSegment propSizeCells [] then
    return { cells with sizeCells := fromBeBytes (← d.readNode pointer) }
  else return cells

/-- The `for` loop of `_is_device_compatible` over the string and its terminator:
the position where it stopped, and whether all bytes were equal. -/
def compareEntry (d : Dtb) (address : ℕ) : List UInt8 → ℕ → ℕ × Bool
  | [], p => (p, true)
  | c :: rest, p =>
    if d.memory (address + p) ≠ c then (p, false) else d.compareEntry address rest (p + 1)

/-- The `while` loop of `_is_device_compatible`. -/
def compatibleLoop (d : Dtb) (info : DtbProperty) (compatible : List UInt8) :
    ℕ → ℕ → Bool → Except Fault Bool
  | 0, _, _ => .error .stuck
  | fuel + 1, p, skip =>
    if p < info.len then
      if skip then
        d.compatibleLoop info compatible fuel (p + 1) (d.memory (info.address + p) ≠ 0)
      else
        match d.compareEntry info.address (compatible ++ [0]) p with
        | (p, false) => d.compatibleLoop info compatible fuel p true
        | (_, true) => .ok true
    else .ok false

def isDeviceCompatible (d : Dtb) (fuel : ℕ) (info : DtbProperty) (compatible : List UInt8) :
    Except Fault Bool :=
  d.compatibleLoop info compatible fuel 0 false

/-! ## Searches

`_search_node` and `_search_node_by_compatible` are one walk. They differ in what
they compare with a node's name and with each of its properties. -/

structure Matcher where
  /-- At the node's name: whether the node is found, and the position behind the name. -/
  name : ℕ → ℕ → Except Fault (Bool × ℕ)
  /-- At a property, given by the offset of its name: whether the node is found. -/
  property : ℕ → ℕ → DtbProperty → Except Fault Bool

mutual

/-- `_search_node` and `_search_node_by_compatible` up to their `loop`. -/
def searchFrom (d : Dtb) (m : Matcher) : ℕ → ℕ → Cells → Except Fault (Option DtbNode × ℕ)
  | 0, _, _ => .error .stuck
  | fuel + 1, pointer, cells => do
    let pointer ← d.skipNop fuel pointer
    let n ← d.readNode pointer
    if n ≠ fdtBeginNode then
      if n = fdtEndNode ∨ n = fdtEnd then return (none, pointer) else .error .err
    else
      let (found, pointer) ← m.name fuel (pointer + fdtTokenByte)
      if found then return (some ⟨cells, pointer⟩, pointer)
      else d.searchLoop m fuel pointer pointer cells

/-- Their `loop`; `start` is the position behind the node's name. -/
def searchLoop (d : Dtb) (m : Matcher) : ℕ → ℕ → ℕ → Cells → Except Fault (Option DtbNode × ℕ)
  | 0, _, _, _ => .error .stuck
  | fuel + 1, start, pointer, cells => do
    let pointer ← d.skipNop fuel (skipPadding pointer)
    let n ← d.readNode pointer
    if n = fdtBeginNode then
      let (found, pointer) ← d.searchFrom m fuel pointer cells
      match found with
      | some node => return (some node, pointer)
      | none => d.searchLoop m fuel start pointer cells
    else if n = fdtEndNode then return (none, pointer + fdtTokenByte)
    else if n = fdtProp then
      let len := fromBeBytes (← d.readNode (pointer + 4))
      let nameSegment := fromBeBytes (← d.readNode (pointer + 8))
      let pointer := pointer + 12
      let cells ← d.checkAddressAndSizeCells nameSegment pointer cells
      if ← m.property fuel nameSegment ⟨cells, pointer, len⟩ then
        return (some ⟨cells, start⟩, pointer)
      else d.searchLoop m fuel start (pointer + len) cells
    else .error .err

end

/-- The `while` loop of `search_node` and `search_node_by_compatible`. -/
def searchTop (d : Dtb) (m : Matcher) : ℕ → ℕ → Cells → Except Fault (Option DtbNode)
  | 0, _, _ => .error .stuck
  | fuel + 1, pointer, cells =>
    match d.readNode pointer with
    | .error _ => .ok none
    | .ok _ =>
      match d.searchFrom m fuel pointer cells with
      | .error .err => .ok none
      | .error e => .error e
      | .ok (some n, _) => .ok (some n)
      | .ok (none, pointer) =>
        match d.readNode pointer with
        | .error _ => .ok none
        | .ok n =>
          if n = fdtEnd then .ok none
          else if n = fdtBeginNode then d.searchTop m fuel pointer cells
          else if n = fdtEndNode ∨ n = fdtNop then
            d.searchTop m fuel (pointer + fdtTokenByte) cells
          else .ok none

def skipToNextNode (d : Dtb) : ℕ → ℕ → Except Fault ℕ
  | 0, _ => .error .stuck
  | fuel + 1, pointer => do
    let pointer ← d.skipNop fuel (skipPadding pointer)
    let n ← d.readNode pointer
    if n = fdtBeginNode then
      let pointer ← d.skipToNextNode fuel (pointer + fdtTokenByte)
      d.skipToNextNode fuel pointer
    else if n = fdtEnd then .error .err
    else if n = fdtEndNode then return pointer + fdtTokenByte
    else if n = fdtProp then
      let len := fromBeBytes (← d.readNode (pointer + 4))
      d.skipToNextNode fuel (pointer + 12 + len)
    else .error .err

/-- `search_node` and `search_node_by_compatible`, from the start or resumed behind a node. -/
def searchWith (d : Dtb) (m : Matcher) (fuel : ℕ) (currentNode : Option DtbNode) :
    Except Fault (Option DtbNode) :=
  match currentNode with
  | some c =>
    match d.skipToNextNode fuel c.address with
    | .error .err => .ok none
    | .error e => .error e
    | .ok pointer => d.searchTop m fuel pointer c.toCells
  | none => d.searchTop m fuel d.getStructOffset defaultCells

/-- `@` -/
def nodeDelimiter : List UInt8 := [0x40]

/-- `_search_node` compares the name and no property. -/
def byName (d : Dtb) (nodeName : List UInt8) : Matcher where
  name fuel pointer := d.compareString fuel nodeDelimiter nodeName pointer
  property _ _ _ := .ok false

/-- `_search_node_by_compatible` skips the name and looks into `compatible`. -/
def byCompatible (d : Dtb) (compatible : List UInt8) : Matcher where
  name fuel pointer := do return (false, ← d.skipString fuel pointer)
  property fuel nameSegment info := do
    if ← d.compareNameSegment nameSegment propCompatible [] then
      d.isDeviceCompatible fuel info compatible
    else return false

def searchNode (d : Dtb) (fuel : ℕ) (nodeName : List UInt8) (currentNode : Option DtbNode) :
    Except Fault (Option DtbNode) :=
  d.searchWith (d.byName nodeName) fuel currentNode

def searchNodeByCompatible (d : Dtb) (fuel : ℕ) (compatible : List UInt8)
    (currentNode : Option DtbNode) : Except Fault (Option DtbNode) :=
  d.searchWith (d.byCompatible compatible) fuel currentNode

/-! ## Properties -/

/-- The `loop` of `get_property`; a fault `err` is its `None`. -/
def propertyLoop (d : Dtb) (propertyName : List UInt8) :
    ℕ → ℕ → Cells → Except Fault (Option DtbProperty)
  | 0, _, _ => .error .stuck
  | fuel + 1, p, cells => do
    let p ← d.skipNop fuel (skipPadding p)
    let n ← d.readNode p
    if n = fdtProp then
      let len := fromBeBytes (← d.readNode (p + 4))
      let nameSegment := fromBeBytes (← d.readNode (p + 8))
      let p := p + 12
      let cells ← d.checkAddressAndSizeCells nameSegment p cells
      if ← d.compareNameSegment nameSegment propertyName [] then return some ⟨cells, p, len⟩
      else d.propertyLoop propertyName fuel (p + len) cells
    else return none

def getProperty (d : Dtb) (fuel : ℕ) (node : DtbNode) (propertyName : List UInt8) :
    Except Fault (Option DtbProperty) :=
  match d.propertyLoop propertyName fuel node.address node.toCells with
  | .error .err => .ok none
  | r => r

/-- `address <<= 8; address |= byte` over `count` bytes from `p` on. -/
def readBytes (d : Dtb) (p count : ℕ) : ℕ :=
  (List.range count).foldl (fun n i => (n <<< 8) % 2 ^ 64 ||| (d.memory (p + i)).toNat) 0

/-- An overflow is a panic. -/
def checked {α : Type} (o : Option α) : Except Fault α :=
  match o with
  | some a => .ok a
  | none => .error .panic

def readRegProperty (d : Dtb) (fuel : ℕ) (node : DtbNode) (index : ℕ) :
    Except Fault (Option (ℕ × ℕ)) := do
  match ← d.getProperty fuel node propReg with
  | none => return none
  | some info =>
    let cells ← checked (Checked.add 32 info.addressCells info.sizeCells)
    let entry ← checked (Checked.mul 64 cells 4)
    let offset ← checked (Checked.mul 64 entry index)
    if info.len < (← checked (Checked.add 64 offset entry)) then return none
    else
      let addressBytes ← checked (Checked.mul 32 info.addressCells 4)
      let sizeBytes ← checked (Checked.mul 32 info.sizeCells 4)
      return some (d.readBytes (info.address + offset) addressBytes,
        d.readBytes (info.address + offset + addressBytes) sizeBytes)

end Dtb

end MiniVisor
