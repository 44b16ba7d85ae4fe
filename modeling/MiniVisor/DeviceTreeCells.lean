import MiniVisor.DeviceTreeResume

/-!
# The cells of a `reg` property

The searches thread the numbers of cells through the tree: every definition that they
pass stays in force, in the children of a node that defines none, and behind a node
after a search has left it. `read_reg_property` decodes with the cells in force at
`reg`, which are not always those of the parent.
-/
namespace MiniVisor

open Fuel

/-- The value of the first property of a name. -/
def valueOf (name : List UInt8) (qs : List Property) : Option (List UInt8) :=
  (qs.find? fun q => q.name = name).map Property.value

/-- The cells that a node defines for its children, two and one where it defines none. -/
def cellsOf (qs : List Property) : Cells where
  addressCells := ((valueOf Dtb.propAddressCells qs).map Dtb.fromBeBytes).getD 2
  sizeCells := ((valueOf Dtb.propSizeCells qs).map Dtb.fromBeBytes).getD 1

/-- The entry of a `reg` value: its address and its size, if it fits in the value. -/
def regEntry (cells : Cells) (value : List UInt8) (index : ℕ) : Option (ℕ × ℕ) :=
  let entry := 4 * (cells.addressCells + cells.sizeCells)
  let bytes := value.drop (entry * index)
  if entry * index + entry ≤ value.length then
    some (Dtb.fromBeBytes (bytes.take (4 * cells.addressCells)),
      Dtb.fromBeBytes ((bytes.drop (4 * cells.addressCells)).take (4 * cells.sizeCells)))
  else none

/-- The entry in 64-bit words. -/
def regWords (cells : Cells) (value : List UInt8) (index : ℕ) : Option (ℕ × ℕ) :=
  (regEntry cells value index).map fun e => (e.1 % 2 ^ 64, e.2 % 2 ^ 64)

/-! ## Nodes behind a node -/

def Behind.inOrder : Behind → ℕ → List Place
  | [], _ => []
  | ⟨endNops, ns, parent⟩ :: behind, p =>
    let q := p + (4 * endNops + 4)
    ns.inOrder q parent behind ++ Behind.inOrder behind (q + ns.size)

/-- What lies behind a node of the tree is in the tree. -/
theorem Nodes.inOrder_behind {ns : Nodes} {p : ℕ} {parent : List Property} {behind : Behind} :
    ∀ place ∈ ns.inOrder p parent behind, ∀ other ∈ Behind.inOrder place.behind place.stop,
      other ∈ ns.inOrder p parent behind ++ Behind.inOrder behind (p + ns.size) := by
  induction ns generalizing p parent behind with
  | nil => simp [Nodes.inOrder]
  | cons nops name properties children endNops rest ihc ihr =>
    intro place hplace other hother
    rw [Dtb.add_size_cons]
    rw [Nodes.inOrder] at hplace ⊢
    rw [List.cons_append, List.append_assoc]
    refine List.mem_cons_of_mem _ ?_
    obtain rfl | hplace := List.mem_cons.1 hplace
    · exact List.mem_append_right _ hother
    · obtain hplace | hplace := List.mem_append.1 hplace
      · have hrest := ihc place hplace other hother
        exact hrest
      · exact List.mem_append_right _ (ihr place hplace other hother)

theorem Behind.first_mem {query : Query} {behind : Behind} {p : ℕ} {hit : Hit}
    (h : Behind.first query behind p = some hit) : hit.place ∈ Behind.inOrder behind p := by
  induction behind generalizing p with
  | nil => exact absurd h (by simp [Behind.first])
  | cons level behind ih =>
    rw [Behind.first] at h
    rw [Behind.inOrder]
    split at h
    · rename_i hit' hsome
      obtain rfl := Option.some.inj h
      exact List.mem_append_left _ (Nodes.first_mem hsome)
    · exact List.mem_append_right _ (ih h)

namespace Dtb

variable {d : Dtb} {p : ℕ} {qs : List Property} {cells : Cells} {name value : List UInt8}

/-! ## Words in memory -/

theorem fromBeBytes_append (l : List UInt8) (b : UInt8) :
    fromBeBytes (l ++ [b]) = fromBeBytes l * 256 + b.toNat := by
  simp [fromBeBytes]

theorem fromBeBytes_lt (l : List UInt8) : fromBeBytes l < 256 ^ l.length := by
  induction l using List.reverseRecOn with
  | nil => simp [fromBeBytes]
  | append_singleton l b ih =>
    have hb := b.toNat_lt
    rw [fromBeBytes_append, List.length_append, List.length_singleton, Nat.pow_succ]
    omega

theorem bytes_getElem? (h : d.Bytes p value) {i : ℕ} {b : UInt8} (hi : value[i]? = some b) :
    d.memory (p + i) = b := by
  induction value generalizing p i with
  | nil => exact absurd hi (by simp)
  | cons c value ih =>
    cases i with
    | zero => exact h.1.trans (Option.some.inj hi)
    | succ i =>
      have hrest := ih h.2 hi
      rwa [Nat.add_right_comm, Nat.add_assoc] at hrest

/-- A shifted word has room for one more byte. -/
theorem shift_or_byte (n : ℕ) (b : UInt8) :
    ((n % 2 ^ 64) <<< 8) % 2 ^ 64 ||| b.toNat = (n * 256 + b.toNat) % 2 ^ 64 := by
  have hb : b.toNat < 2 ^ 8 := b.toNat_lt
  have hhigh : ((n % 2 ^ 64) <<< 8) % 2 ^ 64 = (n % 2 ^ 56) <<< 8 := by
    rw [Nat.shiftLeft_eq, Nat.shiftLeft_eq]
    omega
  rw [hhigh, ← Nat.shiftLeft_add_eq_or_of_lt hb, Nat.shiftLeft_eq]
  omega

theorem readBytes_eq (h : d.Bytes p value) (i count : ℕ) (hfits : i + count ≤ value.length) :
    d.readBytes (p + i) count = fromBeBytes ((value.drop i).take count) % 2 ^ 64 := by
  induction count with
  | zero => simp [readBytes, fromBeBytes]
  | succ count ih =>
    have hlt : i + count < value.length := by omega
    have hbyte := bytes_getElem? h (List.getElem?_eq_getElem hlt)
    have htake : (value.drop i).take (count + 1) =
        (value.drop i).take count ++ [value[i + count]] := by
      rw [List.take_add_one, List.getElem?_drop, List.getElem?_eq_getElem hlt]
      rfl
    have hstep : d.readBytes (p + i) (count + 1) =
        ((d.readBytes (p + i) count) <<< 8) % 2 ^ 64 ||| (d.memory (p + i + count)).toNat := by
      rw [readBytes, readBytes, List.range_succ, List.foldl_append]
      rfl
    rw [hstep, ih (by omega), htake, fromBeBytes_append, Nat.add_assoc, hbyte, shift_or_byte]

/-! ## `reg` -/

/-- The property of a name, and the cells that are in force behind it. -/
theorem propertyIn_eq (name : List UInt8) (cells : Cells) (h : PropertiesHold d qs p) :
    match upTo (fun q => q.name = name) qs p with
    | none => d.propertyIn name qs p cells = none ∧ valueOf name qs = none
    | some passed => ∃ address value, d.propertyIn name qs p cells =
          some ⟨d.inForce cells passed, address, value.length⟩ ∧
        valueOf name qs = some value ∧ d.Bytes address value ∧ value.length < 2 ^ 32 := by
  induction qs generalizing p cells with
  | nil => exact ⟨rfl, rfl⟩
  | cons q qs ih =>
    obtain ⟨hq, -, hqs⟩ := h
    rw [upTo, propertyIn, valueOf, List.find?_cons]
    by_cases hname : q.name = name
    · obtain ⟨lengthBytes, hlength, hlen⟩ := map_eq_ok hq.length
      have hbytes : lengthBytes = d.bytes4 (p + 4 * q.nops + 4) := by
        rw [readNode] at hlength
        split_ifs at hlength
        exact (Except.ok.inj hlength).symm
      have hlt := fromBeBytes_lt lengthBytes
      rw [hlen, hbytes] at hlt
      simp only [hname, decide_true, if_true, Option.map_some]
      exact ⟨_, _, rfl, rfl, hq.value, by simpa [bytes4] using hlt⟩
    · have hrest := ih (d.cellsAfter q p cells) hqs
      simp only [hname, decide_false, Bool.false_eq_true, if_false]
      cases hpassed : upTo (fun q => q.name = name) qs (p + q.size) with
      | none =>
        rw [hpassed] at hrest
        exact hrest
      | some passed =>
        rw [hpassed] at hrest
        exact hrest

/-- What `read_reg_property` does with the `reg` property that it found. -/
def readEntry (d : Dtb) (info : DtbProperty) (index : ℕ) : Except Fault (Option (ℕ × ℕ)) := do
  let cells ← checked (Checked.add 32 info.addressCells info.sizeCells)
  let entry ← checked (Checked.mul 64 cells 4)
  let offset ← checked (Checked.mul 64 entry index)
  if info.len < (← checked (Checked.add 64 offset entry)) then return none
  else
    let addressBytes ← checked (Checked.mul 32 info.addressCells 4)
    let sizeBytes ← checked (Checked.mul 32 info.sizeCells 4)
    return some (d.readBytes (info.address + offset) addressBytes,
      d.readBytes (info.address + offset + addressBytes) sizeBytes)

/-- The computation of the entry's position does not overflow. -/
def EntryInRange (cells : Cells) (index : ℕ) : Prop :=
  cells.addressCells + cells.sizeCells < 2 ^ 32 ∧
    4 * (cells.addressCells + cells.sizeCells) * (index + 1) < 2 ^ 64

theorem checked_some {α : Type} (a : α) : checked (some a) = .ok a := rfl

theorem readEntry_eq {address index : ℕ} (hbytes : d.Bytes address value)
    (hlength : value.length < 2 ^ 32) (hrange : EntryInRange cells index) :
    d.readEntry ⟨cells, address, value.length⟩ index = .ok (regWords cells value index) := by
  obtain ⟨hcells, hentry⟩ := hrange
  obtain ⟨ac, sc⟩ := cells
  dsimp only at hcells hentry
  have hmul : (ac + sc) * 4 = 4 * (ac + sc) := Nat.mul_comm _ _
  have hexpand : 4 * (ac + sc) * (index + 1) = 4 * (ac + sc) * index + 4 * (ac + sc) := by ring
  simp only [readEntry, Checked.add, Checked.mul, hmul, if_pos hcells,
    if_pos (show 4 * (ac + sc) < 2 ^ 64 by omega),
    if_pos (show 4 * (ac + sc) * index < 2 ^ 64 by omega),
    if_pos (show 4 * (ac + sc) * index + 4 * (ac + sc) < 2 ^ 64 by omega), checked_some, ok_bind,
    regWords, regEntry]
  by_cases hfits : value.length < 4 * (ac + sc) * index + 4 * (ac + sc)
  · rw [if_pos hfits, if_neg (not_le.2 hfits)]
    rfl
  · rw [if_neg hfits, if_pos (not_lt.1 hfits)]
    have haddress := readBytes_eq hbytes (4 * (ac + sc) * index) (ac * 4) (by omega)
    have hsize := readBytes_eq hbytes (4 * (ac + sc) * index + ac * 4) (sc * 4) (by omega)
    simp only [if_pos (show ac * 4 < 2 ^ 32 by omega), if_pos (show sc * 4 < 2 ^ 32 by omega),
      checked_some, ok_bind]
    rw [Nat.add_assoc address, haddress, hsize, List.drop_drop, Nat.mul_comm ac, Nat.mul_comm sc]
    rfl

theorem readEntry_panics {address len index : ℕ} (hrange : ¬EntryInRange cells index) :
    d.readEntry ⟨cells, address, len⟩ index = .error .panic := by
  obtain ⟨ac, sc⟩ := cells
  have hmul : (ac + sc) * 4 = 4 * (ac + sc) := Nat.mul_comm _ _
  have hexpand : 4 * (ac + sc) * (index + 1) = 4 * (ac + sc) * index + 4 * (ac + sc) := by ring
  have hover : ac + sc < 2 ^ 32 → 2 ^ 64 ≤ 4 * (ac + sc) * index + 4 * (ac + sc) := by
    intro hcells
    rw [← hexpand]
    exact not_lt.1 fun hentry => hrange ⟨hcells, hentry⟩
  by_cases hcells : ac + sc < 2 ^ 32
  · have hentry := hover hcells
    simp only [readEntry, Checked.add, Checked.mul, hmul, if_pos hcells,
      if_pos (show 4 * (ac + sc) < 2 ^ 64 by omega), checked_some, ok_bind]
    by_cases hoffset : 4 * (ac + sc) * index < 2 ^ 64
    · rw [if_pos hoffset]
      simp only [checked_some, ok_bind, if_neg (not_lt.2 hentry)]
      rfl
    · rw [if_neg hoffset]
      rfl
  · simp only [readEntry, Checked.add, if_neg hcells]
    rfl

/-- The properties of a node up to its `reg`. -/
def upToReg (place : Place) : Passed :=
  (upTo (fun q => q.name = propReg) place.properties place.address).getD []

theorem readRegProperty_none {place : Place} {node : DtbNode} (h : place.Holds d)
    (hnode : node.address = place.address) (hreg : valueOf propReg place.properties = none)
    (index : ℕ) : Settles (fun fuel => d.readRegProperty fuel node index) (.ok none) := by
  have hproperty := getProperty_settles h hnode (show 0 ∉ propReg by decide)
  have hcases := propertyIn_eq propReg node.toCells h.properties
  split at hcases
  · rw [hcases.1] at hproperty
    exact hproperty.bind (Settles.const _)
  · obtain ⟨address, value, -, hvalue, -⟩ := hcases
    rw [hreg] at hvalue
    exact absurd hvalue (by simp)

theorem readRegProperty_some {place : Place} {node : DtbNode} (h : place.Holds d)
    (hnode : node.address = place.address) (hreg : valueOf propReg place.properties = some value)
    (index : ℕ) :
    (EntryInRange (d.inForce node.toCells (upToReg place)) index →
      Settles (fun fuel => d.readRegProperty fuel node index)
        (.ok (regWords (d.inForce node.toCells (upToReg place)) value index))) ∧
    (¬EntryInRange (d.inForce node.toCells (upToReg place)) index →
      Settles (fun fuel => d.readRegProperty fuel node index) (.error .panic)) := by
  have hproperty := getProperty_settles h hnode (show 0 ∉ propReg by decide)
  have hcases := propertyIn_eq propReg node.toCells h.properties
  split at hcases
  · rw [hreg] at hcases
    exact absurd hcases.2 (by simp)
  · rename_i passed hpassed
    have hupTo : upToReg place = passed := by rw [upToReg, hpassed, Option.getD_some]
    obtain ⟨address, value', hinfo, hvalue, hbytes, hlength⟩ := hcases
    rw [hreg] at hvalue
    obtain rfl := Option.some.inj hvalue
    rw [hinfo] at hproperty
    rw [hupTo]
    constructor
    · intro hrange
      refine hproperty.bind ((Settles.const _).congr fun fuel => ?_)
      exact readEntry_eq hbytes hlength hrange
    · intro hrange
      refine hproperty.bind ((Settles.const _).congr fun fuel => ?_)
      exact readEntry_panics hrange

/-! ## Chains of searches -/

/-- One of the two searches, with what it looks for. -/
inductive Search where
  | name (nodeName : List UInt8)
  | compatible (string : List UInt8)

namespace Search

def run (d : Dtb) (fuel : ℕ) : Search → Option DtbNode → Except Fault (Option DtbNode)
  | .name nodeName => d.searchNode fuel nodeName
  | .compatible string => d.searchNodeByCompatible fuel string

def query : Search → Query
  | .name nodeName => nameQuery nodeName
  | .compatible string => compatibleQuery string

/-- A name has no terminator and no `@`, a string no terminator. -/
def Valid : Search → Prop
  | .name nodeName => 0 ∉ nodeName ∧ 0x40 ∉ nodeName
  | .compatible string => 0 ∉ string

theorem Valid.exists_decides {s : Search} (h : s.Valid) :
    ∃ m : Matcher, m.Decides d s.query ∧ ∀ fuel, s.run d fuel = d.searchWith m fuel := by
  cases s with
  | name nodeName => exact ⟨d.byName nodeName, byName_decides h.1 h.2, fun _ => rfl⟩
  | compatible string => exact ⟨d.byCompatible string, byCompatible_decides h, fun _ => rfl⟩

end Search

/-- What a search returns that is resumed behind the result of earlier searches, the
latest of them first. -/
def searches (d : Dtb) (fuel : ℕ) : Search → List Search → Except Fault (Option DtbNode)
  | s, [] => s.run d fuel none
  | s, s' :: earlier => do
    match ← d.searches fuel s' earlier with
    | none => return none
    | some node => s.run d fuel (some node)

/-- The node that they reach, and all the properties that they pass on the way to it. -/
def reached (d : Dtb) (tree : Nodes) : Search → List Search → Option Hit
  | s, [] => tree.first s.query d.getStructOffset [] []
  | s, s' :: earlier =>
    match d.reached tree s' earlier with
    | none => none
    | some hit =>
      if hit.place.children = .nil then
        (Behind.first s.query hit.place.behind hit.place.stop).map fun next =>
          ⟨next.place, hit.passed ++ next.passed⟩
      else none

variable {tree : Nodes} {s : Search} {earlier : List Search}

theorem reached_mem {hit : Hit} (hreached : d.reached tree s earlier = some hit) :
    hit.place ∈ d.places tree := by
  induction earlier generalizing s hit with
  | nil => exact Nodes.first_mem hreached
  | cons s' earlier ih =>
    rw [reached] at hreached
    split at hreached
    · exact absurd hreached (by simp)
    · rename_i current hcurrent
      split_ifs at hreached
      obtain ⟨next, hnext, rfl⟩ := Option.map_eq_some_iff.1 hreached
      have hmem := Nodes.inOrder_behind _ (ih hcurrent) _ (Behind.first_mem hnext)
      rw [Behind.inOrder, List.append_nil] at hmem
      exact hmem

theorem searches_settles (h : Flattened d tree) (s : Search) (earlier : List Search) (hs : s.Valid) (hearlier : ∀ s ∈ earlier, s.Valid) :
    Settles (fun fuel => d.searches fuel s earlier)
      (.ok ((d.reached tree s earlier).map (Hit.node d defaultCells))) := by
  obtain ⟨finish, hstands⟩ := h.stands
  induction earlier generalizing s with
  | nil =>
    obtain ⟨m, hm, hrun⟩ := hs.exists_decides (d := d)
    have hsearch := (searchWith_none hm h).congr fun fuel => congrFun (hrun fuel) none
    have hfirst : firstFrom s.query tree d.getStructOffset [] [] = d.reached tree s [] := by
      rw [firstFrom, reached]
      cases tree.first s.query d.getStructOffset [] [] <;> rfl
    rwa [hfirst] at hsearch
  | cons s' earlier ih =>
    obtain ⟨hs', hearlier⟩ := List.forall_mem_cons.1 hearlier
    have hcurrent := ih s' hs' hearlier
    refine hcurrent.bind ?_
    rw [reached]
    cases hreached : d.reached tree s' earlier with
    | none => exact Settles.const _
    | some hit =>
      have hstands := hstands _ (reached_mem hreached)
      have haddress : (hit.node d defaultCells).address = hit.place.address := rfl
      obtain ⟨m, hm, hrun⟩ := hs.exists_decides (d := d)
      by_cases hleaf : hit.place.children = .nil
      · have hsearch := searchWith_leaf hm hstands haddress hleaf
        simp only [Option.map_some, if_pos hleaf, Option.map_map]
        have hnode : Hit.node d defaultCells ∘ (fun next : Hit =>
            (⟨next.place, hit.passed ++ next.passed⟩ : Hit)) =
              Hit.node d (hit.node d defaultCells).toCells := by
          funext next
          rw [Function.comp_apply, Hit.node, Hit.node, inForce_append]
          rfl
        rw [hnode]
        exact hsearch.congr fun fuel => congrFun (hrun fuel) _
      · have hsearch := searchWith_parent (m := m) hstands haddress hleaf
        simp only [Option.map_some, if_neg hleaf, Option.map_none]
        exact hsearch.congr fun fuel => congrFun (hrun fuel) _

/-- The cells with which the `reg` of a reached node is decoded: the last definitions
among the properties passed on the way to the node and its own up to `reg`. -/
def cellsAtReg (d : Dtb) (hit : Hit) : Cells :=
  d.inForce defaultCells (hit.passed ++ upToReg hit.place)

theorem regWords_eq {index : ℕ} (haddress : cells.addressCells ≤ 2) (hsize : cells.sizeCells ≤ 2) :
    regWords cells value index = regEntry cells value index := by
  have hword : ∀ (l : List UInt8) (n : ℕ), n ≤ 2 → fromBeBytes (l.take (4 * n)) % 2 ^ 64 =
      fromBeBytes (l.take (4 * n)) := by
    intro l n hn
    have hlength : (l.take (4 * n)).length ≤ 8 := by
      rw [List.length_take]
      omega
    refine Nat.mod_eq_of_lt ((fromBeBytes_lt _).trans_le ?_)
    exact Nat.pow_le_pow_right (by decide) hlength
  rw [regWords, regEntry]
  split_ifs
  · rw [Option.map_some, hword _ _ haddress, hword _ _ hsize]
  · rfl

/-- `read_reg_property` of a node that searches reached returns the entry under the cells
of the node's parent exactly if the node has no `reg`, or the position of the entry can
be computed and the cells in force there are the parent's or happen to give the same
entry. -/
theorem reg_decoded_iff (h : Flattened d tree) (hs : s.Valid) (hearlier : ∀ s ∈ earlier, s.Valid)
    {node : DtbNode} (hnode : Settles (fun fuel => d.searches fuel s earlier) (.ok (some node))) :
    ∃ hit, d.reached tree s earlier = some hit ∧
      hit.place ∈ d.places tree ∧ node.address = hit.place.address ∧
      ((cellsOf hit.place.parent).addressCells ≤ 2 → (cellsOf hit.place.parent).sizeCells ≤ 2 →
        ∀ index, Settles (fun fuel => d.readRegProperty fuel node index)
            (.ok ((valueOf propReg hit.place.properties).bind fun value =>
              regEntry (cellsOf hit.place.parent) value index)) ↔
          ∀ value, valueOf propReg hit.place.properties = some value →
            EntryInRange (d.cellsAtReg hit) index ∧
            (d.cellsAtReg hit = cellsOf hit.place.parent ∨
              regWords (d.cellsAtReg hit) value index =
                regEntry (cellsOf hit.place.parent) value index)) := by
  obtain ⟨finish, hstands⟩ := h.stands
  have hresult := Except.ok.inj (hnode.unique (searches_settles h s earlier hs hearlier))
  obtain ⟨hit, hreached, rfl⟩ := Option.map_eq_some_iff.1 hresult.symm
  have hmem := reached_mem hreached
  have hstands := hstands _ hmem
  refine ⟨hit, hreached, hmem, rfl, fun haddress hsize index => ?_⟩
  have hcells : d.inForce (hit.node d defaultCells).toCells (upToReg hit.place) =
      d.cellsAtReg hit := by
    rw [cellsAtReg, inForce_append]
    rfl
  cases hreg : valueOf propReg hit.place.properties with
  | none =>
    refine iff_of_true (readRegProperty_none hstands.here rfl hreg index) fun value hvalue => ?_
    exact absurd hvalue (by simp)
  | some value =>
    obtain ⟨hentry, hpanic⟩ := readRegProperty_some hstands.here
      (show (hit.node d defaultCells).address = hit.place.address from rfl) hreg index
    rw [hcells] at hentry hpanic
    constructor
    · intro hread value' hvalue
      obtain rfl := Option.some.inj hvalue
      by_cases hrange : EntryInRange (d.cellsAtReg hit) index
      · exact ⟨hrange, .inr (Except.ok.inj ((hentry hrange).unique hread))⟩
      · exact absurd ((hpanic hrange).unique hread) (by simp)
    · intro hall
      obtain ⟨hrange, hsame⟩ := hall value rfl
      have hwords : regWords (d.cellsAtReg hit) value index =
          regEntry (cellsOf hit.place.parent) value index := by
        obtain hsame | hsame := hsame
        · rw [hsame]
          exact regWords_eq haddress hsize
        · exact hsame
      rw [Option.bind_some, ← hwords]
      exact hentry hrange

/-- The `reg` of `a@1` is decoded with the cells of the root. -/
theorem sample_reg :
    Settles (fun fuel => sample.readRegProperty fuel ⟨⟨1, 1⟩, 76⟩ 0) (.ok (some (0x2000, 0x10))) := by
  have hnode : Settles (fun fuel => sample.searches fuel (.name [0x61]) [])
      (.ok (some ⟨⟨1, 1⟩, 76⟩)) := by
    have hsearches := searches_settles sample_flattened (.name [0x61]) []
      ⟨by decide, by decide⟩ (by simp)
    have hreached : ((sample.reached sampleTree (.name [0x61]) []).map
        (Hit.node sample defaultCells)) = some ⟨⟨1, 1⟩, 76⟩ := by
      decide +kernel
    rwa [hreached] at hsearches
  obtain ⟨hit, hreached, -, -, hreg⟩ := reg_decoded_iff sample_flattened (s := .name [0x61])
    ⟨by decide, by decide⟩ (by simp) hnode
  have hfacts : (sample.reached sampleTree (.name [0x61]) []).map (fun hit =>
      (cellsOf hit.place.parent, sample.cellsAtReg hit, valueOf propReg hit.place.properties)) =
        some (⟨1, 1⟩, ⟨1, 1⟩, some [0, 0, 0x20, 0, 0, 0, 0, 0x10]) := by
    decide +kernel
  rw [hreached, Option.map_some] at hfacts
  obtain ⟨hparent, hcells, hvalue⟩ := by simpa only [Option.some.injEq, Prod.mk.injEq] using hfacts
  rw [hparent, hcells, hvalue] at hreg
  have hread := (hreg (by decide) (by decide) 0).2 fun value hvalue =>
    ⟨⟨by decide, by decide⟩, .inl rfl⟩
  exact hread

/-- `b` is reached with the address cells of the root, although its parent `a@1` defines
none: the first cell of its address is taken for the address and the second for the
size. -/
theorem sample_reg_wrong :
    Flattened sample sampleTree ∧
    Settles (fun fuel => sample.searchNode fuel [0x62] none) (.ok (some ⟨⟨1, 1⟩, 120⟩)) ∧
    Settles (fun fuel => sample.readRegProperty fuel ⟨⟨1, 1⟩, 120⟩ 0) (.ok (some (0, 0x1000))) ∧
    ∃ place ∈ sample.places sampleTree, place.address = 120 ∧
      cellsOf place.parent = ⟨2, 1⟩ ∧ (valueOf propReg place.properties).bind (fun value =>
        regEntry (cellsOf place.parent) value 0) = some (0x1000, 0x10) := by
  have hsearches := searches_settles sample_flattened (.name [0x62]) []
    ⟨by decide, by decide⟩ (by simp)
  obtain ⟨hit, hreached⟩ : ∃ hit, sample.reached sampleTree (.name [0x62]) [] = some hit :=
    Option.isSome_iff_exists.1 (by decide +kernel)
  have hfound : (sample.reached sampleTree (.name [0x62]) []).map (Hit.node sample defaultCells) =
      some ⟨⟨1, 1⟩, 120⟩ := by
    decide +kernel
  have hfacts : (sample.reached sampleTree (.name [0x62]) []).map (fun hit =>
      (cellsOf hit.place.parent, sample.inForce ⟨1, 1⟩ (upToReg hit.place),
        valueOf propReg hit.place.properties)) =
        some (⟨2, 1⟩, ⟨1, 1⟩, some [0, 0, 0, 0, 0, 0, 0x10, 0, 0, 0, 0, 0x10]) := by
    decide +kernel
  rw [hreached, Option.map_some] at hfound hfacts hsearches
  have hnode := Option.some.inj hfound
  have haddress : hit.place.address = 120 := congrArg DtbNode.address hnode
  obtain ⟨hparent, hcells, hvalue⟩ := by simpa only [Option.some.injEq, Prod.mk.injEq] using hfacts
  have hmem := reached_mem hreached
  rw [hnode] at hsearches
  refine ⟨sample_flattened, hsearches, ?_, hit.place, hmem, haddress, hparent, ?_⟩
  · have hread := (readRegProperty_some (sample_flattened.holds.place sample_flattened.aligned _ hmem)
      (show (⟨⟨1, 1⟩, 120⟩ : DtbNode).address = _ from haddress.symm) hvalue 0).1
    rw [hcells] at hread
    exact hread ⟨by decide, by decide⟩
  · rw [hvalue, hparent]
    rfl

end Dtb

end MiniVisor
