import MiniVisor.DeviceTreeSearch

/-!
# Queries agree with the tree

A search from the start finds the first node in document order that it accepts, and
`get_property` the property of a node by its name.
-/
namespace MiniVisor

open Fuel

variable {d : Dtb} {query : Query} {p : ℕ} {ns : Nodes} {qs parent : List Property}
  {behind : Behind}

/-! ## Document order -/

/-- The nodes in document order. -/
def Nodes.inOrder : Nodes → ℕ → List Property → Behind → List Place
  | .nil, _, _, _ => []
  | .cons nops name properties children endNops rest, p, parent, behind =>
    let q := p + headSize nops name
    let within := q + propertiesSize properties
    let behindNode := ⟨endNops, rest, parent⟩ :: behind
    ⟨q, name, properties, parent, children, behindNode⟩ ::
      (children.inOrder within properties behindNode ++
        rest.inOrder (within + children.size + (4 * endNops + 4)) parent behind)

def Query.acceptsPlace (query : Query) (place : Place) : Bool :=
  query.accepts place.name place.properties

theorem upTo_eq_none {wanted : Property → Bool} :
    upTo wanted qs p = none ↔ qs.any wanted = false := by
  induction qs generalizing p with
  | nil => simp [upTo]
  | cons q qs ih =>
    rw [upTo, List.any_cons]
    by_cases hq : wanted q = true <;> simp [hq, ih]

/-- The walk finds the first node in document order. -/
theorem Nodes.first_eq_find (query : Query) (ns : Nodes) (p : ℕ) (parent : List Property) (behind : Behind) :
    (ns.first query p parent behind).map Hit.place =
      (ns.inOrder p parent behind).find? query.acceptsPlace := by
  induction ns generalizing p parent behind with
  | nil => rfl
  | cons nops name properties children endNops rest ihc ihr =>
    rw [Nodes.first, Nodes.inOrder]
    rw [List.find?_cons, List.find?_append, ← ihc, ← ihr, Query.acceptsPlace, Query.accepts,
      Query.atNode]
    dsimp only
    by_cases hname : query.name name = true
    · simp [hname]
    · cases hpassed : upTo query.property properties (p + headSize nops name) with
      | some passed =>
        have hany : properties.any query.property = true := by
          by_contra hnot
          rw [upTo_eq_none.2 (Bool.eq_false_iff.2 hnot)] at hpassed
          exact absurd hpassed (by simp)
        simp [hname, hany]
      | none =>
        have hany := upTo_eq_none.1 hpassed
        simp only [hname, hany, Bool.false_or, Bool.false_eq_true, if_false]
        cases children.first query _ properties _ <;> rfl

/-- What memory has at the node: its properties and a token that ends them. -/
structure Place.Holds (place : Place) (d : Dtb) : Prop where
  aligned : place.address % 4 = 0
  pos : 0 < place.address
  properties : PropertiesHold d place.properties place.address
  children : place.children.Holds d (place.address + propertiesSize place.properties)
  next : ∃ n t, d.Nops (place.address + propertiesSize place.properties) n ∧
    d.readNode (place.address + propertiesSize place.properties + 4 * n) = .ok t ∧
    t ≠ Dtb.fdtNop ∧ t ≠ Dtb.fdtProp

theorem Nodes.Holds.place (h : ns.Holds d p) (hmod : p % 4 = 0) :
    ∀ place ∈ ns.inOrder p parent behind, place.Holds d := by
  induction ns generalizing p parent behind with
  | nil => simp [Nodes.inOrder]
  | cons nops name properties children endNops rest ihc ihr =>
    obtain ⟨-, hproperties, hchildren, ⟨hendNops, hend⟩, hrest⟩ := h
    have hhead := headSize_mod nops name
    have hpropertiesMod := propertiesSize_mod properties
    have hsizeMod := children.size_mod
    have hpos : 0 < headSize nops name := by
      rw [headSize]
      omega
    rw [Nodes.inOrder]
    refine List.forall_mem_cons.2 ⟨⟨?_, ?_, hproperties, hchildren, ?_⟩, fun place hplace => ?_⟩
    · dsimp only
      omega
    · dsimp only
      omega
    · cases children with
      | nil => exact ⟨endNops, _, hendNops, hend, by decide, by decide⟩
      | cons nops' name' properties' children' endNops' rest' =>
        exact ⟨nops', _, hchildren.1.1, hchildren.1.2.1, by decide, by decide⟩
    · obtain hplace | hplace := List.mem_append.1 hplace
      · exact ihc hchildren (by omega) place hplace
      · exact ihr hrest (by omega) place hplace

namespace Dtb

/-! ## Properties -/

/-- The first property of a name, with the cells in force there. -/
def propertyIn (d : Dtb) (name : List UInt8) : List Property → ℕ → Cells → Option DtbProperty
  | [], _, _ => none
  | q :: qs, p, cells =>
    if q.name = name then some ⟨d.cellsAfter q p cells, p + 4 * q.nops + 12, q.value.length⟩
    else d.propertyIn name qs (p + q.size) (d.cellsAfter q p cells)

theorem propertyLoop_padding {name : List UInt8} {p' : ℕ} {cells : Cells}
    (h : skipPadding p = skipPadding p') (fuel : ℕ) :
    d.propertyLoop name fuel p cells = d.propertyLoop name fuel p' cells := by
  cases fuel with
  | zero => rfl
  | succ fuel => rw [propertyLoop, propertyLoop, h]

theorem propertyLoop_settles {name t : List UInt8} {n : ℕ} (cells : Cells) (hzero : 0 ∉ name)
    (hmod : p % 4 = 0) (hpos : 0 < p) (h : PropertiesHold d qs p)
    (hnops : d.Nops (p + propertiesSize qs) n)
    (htoken : d.readNode (p + propertiesSize qs + 4 * n) = .ok t) (hnop : t ≠ fdtNop)
    (hprop : t ≠ fdtProp) :
    Settles (fun fuel => d.propertyLoop name fuel p cells) (.ok (d.propertyIn name qs p cells)) := by
  induction qs generalizing p cells with
  | nil =>
    refine Settles.succ ?_
    simp only [propertyLoop, skipPadding_self hmod hpos]
    refine (skipNop_settles hnops htoken hnop).bind ?_
    rw [propertiesSize, Nat.add_zero] at htoken
    simp only [propertiesSize, Nat.add_zero, htoken, ok_bind, if_neg hprop]
    exact Settles.const _
  | cons q qs ih =>
    obtain ⟨hq, -, hqs⟩ := h
    obtain ⟨lengthBytes, hlength, hlen⟩ := map_eq_ok hq.length
    obtain ⟨offsetBytes, hoffset, hoff⟩ := map_eq_ok hq.offset
    have hsize : q.size % 4 = 0 := by
      have := padded_mod q.value.length
      rw [Property.size]
      omega
    rw [propertiesSize, ← Nat.add_assoc] at hnops htoken
    have hrest := ih (d.cellsAfter q p cells) (by omega) (by omega) hqs hnops htoken
    refine Settles.succ ?_
    simp only [propertyLoop, skipPadding_self hmod hpos]
    refine (skipNop_settles hq.nops hq.token prop_ne_nop).bind ?_
    simp only [hq.token, ok_bind, if_true, hlength, hoffset, hlen, hoff,
      checkAddressAndSizeCells_eq hq cells, compareNameSegment_eq hq hzero]
    rw [propertyIn]
    by_cases hname : q.name = name
    · simp only [hname, decide_true, if_true]
      exact Settles.const _
    · simp only [hname, decide_false, Bool.false_eq_true, if_false]
      exact hrest.congr fun fuel => propertyLoop_padding (skipPadding_value hmod q) fuel

theorem getProperty_settles {name : List UInt8} {place : Place} {node : DtbNode}
    (h : place.Holds d) (hnode : node.address = place.address) (hzero : 0 ∉ name) :
    Settles (fun fuel => d.getProperty fuel node name)
      (.ok (d.propertyIn name place.properties place.address node.toCells)) := by
  obtain ⟨n, t, hnops, htoken, hnop, hprop⟩ := h.next
  obtain ⟨fuel, hloop⟩ := propertyLoop_settles node.toCells hzero h.aligned h.pos
    h.properties hnops htoken hnop hprop
  refine ⟨fuel, fun m hm => ?_⟩
  have hresult := hloop m hm
  dsimp only at hresult ⊢
  rw [getProperty, hnode, hresult]

/-- Where the value of the property of a name lies, and its length. -/
def valueAt (name : List UInt8) : List Property → ℕ → Option (ℕ × ℕ)
  | [], _ => none
  | q :: qs, p =>
    if q.name = name then some (p + 4 * q.nops + 12, q.value.length)
    else valueAt name qs (p + q.size)

theorem propertyIn_value (cells : Cells) {name : List UInt8} :
    (d.propertyIn name qs p cells).map (fun info => (info.address, info.len)) =
      valueAt name qs p := by
  induction qs generalizing p cells with
  | nil => rfl
  | cons q qs ih =>
    rw [propertyIn, valueAt]
    split_ifs
    · rfl
    · exact ih _

/-- The value is there, and it belongs to the property of that name. -/
theorem valueAt_eq {name : List UInt8} (h : PropertiesHold d qs p) :
    (valueAt name qs p = none ∧ ∀ q ∈ qs, q.name ≠ name) ∨
      ∃ q ∈ qs, q.name = name ∧ ∃ address, valueAt name qs p = some (address, q.value.length) ∧
        d.Bytes address q.value := by
  induction qs generalizing p with
  | nil => exact .inl ⟨rfl, by simp⟩
  | cons q qs ih =>
    obtain ⟨hq, -, hqs⟩ := h
    rw [valueAt]
    by_cases hname : q.name = name
    · rw [if_pos hname]
      exact .inr ⟨q, by simp, hname, _, rfl, hq.value⟩
    · rw [if_neg hname]
      obtain ⟨hnone, hall⟩ | ⟨q', hq', hfound⟩ := ih hqs
      · exact .inl ⟨hnone, List.forall_mem_cons.2 ⟨hname, hall⟩⟩
      · exact .inr ⟨q', List.mem_cons_of_mem q hq', hfound⟩

/-! ## Searches from the start -/

theorem searchWith_none {m : Matcher} {tree : Nodes} (hm : m.Decides d query)
    (h : Flattened d tree) :
    Settles (fun fuel => d.searchWith m fuel none)
      (.ok ((firstFrom query tree d.getStructOffset [] []).map (Hit.node d defaultCells))) := by
  obtain ⟨finish, hfinish⟩ := h.finish
  exact topFinds hm finish tree [] d.getStructOffset defaultCells [] 0 h.aligned h.holds hfinish
    (Nat.zero_le _)

/-- The nodes of the tree in document order. -/
def places (d : Dtb) (tree : Nodes) : List Place := tree.inOrder d.getStructOffset [] []

theorem firstFrom_tree (tree : Nodes) :
    (firstFrom query tree d.getStructOffset [] []).map Hit.place =
      (d.places tree).find? query.acceptsPlace := by
  rw [places, ← Nodes.first_eq_find, firstFrom]
  cases tree.first query d.getStructOffset [] [] <;> rfl

/-- A search from the start settles on the first node that it accepts. -/
theorem searchWith_finds {m : Matcher} {tree : Nodes} (hm : m.Decides d query)
    (h : Flattened d tree) :
    Settles (fun fuel => (d.searchWith m fuel none).map (Option.map DtbNode.address))
      (.ok (((d.places tree).find? query.acceptsPlace).map Place.address)) := by
  have hsearch := (searchWith_none hm h).map (Except.map (Option.map DtbNode.address))
  rw [← firstFrom_tree, Option.map_map]
  have haddress : Except.map (Option.map DtbNode.address) (Except.ok (ε := Fault)
      ((firstFrom query tree d.getStructOffset [] []).map (Hit.node d defaultCells))) =
      .ok ((firstFrom query tree d.getStructOffset [] []).map (Place.address ∘ Hit.place)) := by
    rw [Except.map, Option.map_map]
    rfl
  rw [haddress] at hsearch
  exact hsearch

/-- `search_node` finds the first node of a name, `search_node_by_compatible` the first
node whose `compatible` lists the string, and `get_property` the value of a node's
property: its position and length, with the value in memory there. -/
theorem queries_agree_with_tree {tree : Nodes} (h : Flattened d tree) :
    (∀ nodeName, 0 ∉ nodeName → 0x40 ∉ nodeName →
      Settles (fun fuel => (d.searchNode fuel nodeName none).map (Option.map DtbNode.address))
        (.ok (((d.places tree).find? fun place => segment place.name = nodeName).map
          Place.address))) ∧
    (∀ compatible, 0 ∉ compatible →
      Settles (fun fuel => (d.searchNodeByCompatible fuel compatible none).map
          (Option.map DtbNode.address))
        (.ok (((d.places tree).find? fun place => place.properties.any fun q =>
          q.name = propCompatible ∧ compatible ∈ stringList q.value).map Place.address))) ∧
    ∀ place ∈ d.places tree, ∀ node : DtbNode, node.address = place.address →
      ∀ name, 0 ∉ name →
        Settles (fun fuel => (d.getProperty fuel node name).map
            (Option.map fun info => (info.address, info.len)))
          (.ok (valueAt name place.properties place.address)) ∧
        ((valueAt name place.properties place.address = none ∧
            ∀ q ∈ place.properties, q.name ≠ name) ∨
          ∃ q ∈ place.properties, q.name = name ∧ ∃ address,
            valueAt name place.properties place.address = some (address, q.value.length) ∧
            d.Bytes address q.value) := by
  refine ⟨fun nodeName hzero hat => ?_, fun compatible hzero => ?_,
    fun place hplace node hnode name hzero => ?_⟩
  · have hfinds := searchWith_finds (byName_decides hzero hat) h
    have haccepts : (nameQuery nodeName).acceptsPlace =
        fun place => decide (segment place.name = nodeName) := by
      funext place
      simp [Query.acceptsPlace, Query.accepts, nameQuery]
    rwa [haccepts] at hfinds
  · have hfinds := searchWith_finds (byCompatible_decides hzero) h
    have haccepts : (compatibleQuery compatible).acceptsPlace =
        fun place => place.properties.any fun q =>
          q.name = propCompatible ∧ compatible ∈ stringList q.value := by
      funext place
      simp [Query.acceptsPlace, Query.accepts, compatibleQuery]
    rwa [haccepts] at hfinds
  · have hholds := h.holds.place h.aligned place hplace
    refine ⟨?_, valueAt_eq hholds.properties⟩
    have hproperty := (getProperty_settles hholds hnode hzero).map
      (Except.map (Option.map fun info => (info.address, info.len)))
    rw [← propertyIn_value (d := d) node.toCells]
    exact hproperty

/-! ## A sample -/

/-- A blob of a root with two nodes `a@1` and `a@2`, the first of which has a child `b`. -/
def sampleBlob : List UInt8 :=
  -- the header
  [0xd0, 0x0d, 0xfe, 0xed, 0, 0, 0, 218, 0, 0, 0, 40, 0, 0, 0, 188, 0, 0, 0, 0,
    0, 0, 0, 17, 0, 0, 0, 16, 0, 0, 0, 0, 0, 0, 0, 30, 0, 0, 0, 148] ++
  -- the root with `#address-cells = <1>`
  fdtBeginNode ++ [0, 0, 0, 0] ++ fdtProp ++ [0, 0, 0, 4, 0, 0, 0, 0, 0, 0, 0, 1] ++ fdtNop ++
  -- `a@1` with `reg = <0x2000 0x10>` and `compatible = "c"`
  fdtBeginNode ++ [0x61, 0x40, 0x31, 0] ++
  fdtProp ++ [0, 0, 0, 8, 0, 0, 0, 15, 0, 0, 0x20, 0, 0, 0, 0, 0x10] ++
  fdtProp ++ [0, 0, 0, 2, 0, 0, 0, 19, 0x63, 0, 0, 0] ++
  -- `b` with `reg = <0 0x1000 0x10>`
  fdtBeginNode ++ [0x62, 0, 0, 0] ++
  fdtProp ++ [0, 0, 0, 12, 0, 0, 0, 15, 0, 0, 0, 0, 0, 0, 0x10, 0, 0, 0, 0, 0x10] ++
  fdtEndNode ++ fdtEndNode ++
  -- `a@2` with `compatible = "c"`
  fdtBeginNode ++ [0x61, 0x40, 0x32, 0] ++
  fdtProp ++ [0, 0, 0, 2, 0, 0, 0, 19, 0x63, 0, 0, 0] ++
  fdtEndNode ++ fdtEndNode ++ fdtEnd ++
  -- the names of the properties
  propAddressCells ++ [0] ++ propReg ++ [0] ++ propCompatible ++ [0]

def sample : Dtb := ⟨fun p => sampleBlob.getD p 0, 0⟩

def sampleTree : Nodes :=
  .cons 0 [] [⟨0, 0, propAddressCells, [0, 0, 0, 1]⟩]
    (.cons 1 [0x61, 0x40, 0x31]
      [⟨0, 15, propReg, [0, 0, 0x20, 0, 0, 0, 0, 0x10]⟩, ⟨0, 19, propCompatible, [0x63, 0]⟩]
      (.cons 0 [0x62] [⟨0, 15, propReg, [0, 0, 0, 0, 0, 0, 0x10, 0, 0, 0, 0, 0x10]⟩] .nil 0 .nil) 0
      (.cons 0 [0x61, 0x40, 0x32] [⟨0, 19, propCompatible, [0x63, 0]⟩] .nil 0 .nil)) 0 .nil

theorem sample_flattened : Flattened sample sampleTree where
  aligned := by decide +kernel
  holds := by decide +kernel
  finish := ⟨0, by decide +kernel⟩

/-- The first node named `a` is `a@1`, and its `reg` has eight bytes. -/
theorem sample_queries :
    Settles (fun fuel => (sample.searchNode fuel [0x61] none).map (Option.map DtbNode.address))
      (.ok (some 76)) ∧
    Settles (fun fuel => (sample.getProperty fuel ⟨defaultCells, 76⟩ propReg).map
      (Option.map fun info => (info.address, info.len))) (.ok (some (88, 8))) := by
  obtain ⟨hname, -, hproperty⟩ := queries_agree_with_tree sample_flattened
  have hfirst := hname [0x61] (by decide) (by decide)
  have hplace : ∃ place ∈ sample.places sampleTree, place.address = 76 ∧
      valueAt propReg place.properties place.address = some (88, 8) := by
    have hget : ((sample.places sampleTree)[1]?.map fun place => (place.address,
        valueAt propReg place.properties place.address)) = some (76, some (88, 8)) := by
      decide +kernel
    obtain ⟨place, hplace, heq⟩ := Option.map_eq_some_iff.1 hget
    obtain ⟨haddress, hvalue⟩ := Prod.mk.injEq .. ▸ heq
    exact ⟨place, List.mem_of_getElem? hplace, haddress, hvalue⟩
  obtain ⟨place, hmem, haddress, hvalue⟩ := hplace
  refine ⟨?_, ?_⟩
  · have haddresses : ((sample.places sampleTree).find? fun place =>
        segment place.name = [0x61]).map Place.address = some 76 := by
      decide +kernel
    rwa [haddresses] at hfirst
  · have hreg := (hproperty place hmem ⟨defaultCells, 76⟩ haddress.symm propReg (by decide)).1
    rwa [hvalue] at hreg

end Dtb

end MiniVisor
