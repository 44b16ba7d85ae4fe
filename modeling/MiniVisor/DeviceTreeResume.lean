import MiniVisor.DeviceTreeQueries

/-!
# Resumed searches

A search that is resumed behind a node skips the node and climbs out of the nodes
around it. `_skip_to_next_node` takes the name of a child for a token and fails there,
so that a search cannot be resumed behind a node with children.
-/
namespace MiniVisor

open Fuel

variable {d : Dtb} {query : Query} {p finish : ℕ} {ns : Nodes} {qs parent : List Property}
  {behind : Behind}

/-! ## Matches that are not inside a match -/

/-- The accepted nodes in document order, without those inside an accepted node. -/
def Nodes.topmost (query : Query) : Nodes → ℕ → List Property → Behind → List Place
  | .nil, _, _, _ => []
  | .cons nops name properties children endNops rest, p, parent, behind =>
    let q := p + headSize nops name
    let within := q + propertiesSize properties
    let behindNode := ⟨endNops, rest, parent⟩ :: behind
    let others := rest.topmost query (within + children.size + (4 * endNops + 4)) parent behind
    if query.accepts name properties then
      ⟨q, name, properties, parent, children, behindNode⟩ :: others
    else children.topmost query within properties behindNode ++ others

def Behind.topmost (query : Query) : Behind → ℕ → List Place
  | [], _ => []
  | ⟨endNops, ns, parent⟩ :: behind, p =>
    let q := p + (4 * endNops + 4)
    ns.topmost query q parent behind ++ Behind.topmost query behind (q + ns.size)

/-- The position behind the children of a node. -/
def Place.stop (place : Place) : ℕ :=
  place.address + propertiesSize place.properties + place.children.size

theorem Query.atNode_eq (query : Query) (place : Place) (inside : Option Hit) :
    (query.acceptsPlace place = true → ∃ passed, query.atNode place inside = some ⟨place, passed⟩) ∧
      (query.acceptsPlace place = false → query.atNode place inside = inside.map fun hit =>
        ⟨hit.place, located place.properties place.address ++ hit.passed⟩) := by
  rw [Query.atNode, Query.acceptsPlace, Query.accepts]
  by_cases hname : query.name place.name = true
  · simp [hname]
  · cases hpassed : upTo query.property place.properties place.address with
    | some passed =>
      refine ⟨fun _ => ⟨passed, if_neg hname⟩, fun hnot => ?_⟩
      rw [upTo_eq_none.2 (by simpa [hname] using hnot)] at hpassed
      exact absurd hpassed (by simp)
    | none => simp [hname, upTo_eq_none.1 hpassed]

theorem Nodes.first_none (h : ns.first query p parent behind = none) :
    ns.topmost query p parent behind = [] := by
  induction ns generalizing p parent behind with
  | nil => rfl
  | cons nops name properties children endNops rest ihc ihr =>
    rw [Nodes.first] at h
    split at h
    · exact absurd h (by simp)
    rename_i hnode
    obtain ⟨hyes, hno⟩ := query.atNode_eq
      ⟨p + headSize nops name, name, properties, parent, children,
        ⟨endNops, rest, parent⟩ :: behind⟩
      (children.first query (p + headSize nops name + propertiesSize properties) properties
        (⟨endNops, rest, parent⟩ :: behind))
    rw [Nodes.topmost]
    by_cases haccepts : query.accepts name properties = true
    · obtain ⟨passed, hsome⟩ := hyes haccepts
      rw [hsome] at hnode
      exact absurd hnode (by simp)
    · rw [if_neg haccepts]
      rw [hno (Bool.eq_false_iff.2 haccepts)] at hnode
      rw [ihc (Option.map_eq_none_iff.1 hnode), ihr h, List.nil_append]

/-- The first match and the matches behind it. -/
theorem Nodes.first_some {hit : Hit} (h : ns.first query p parent behind = some hit) :
    ns.topmost query p parent behind ++ Behind.topmost query behind (p + ns.size) =
      hit.place :: Behind.topmost query hit.place.behind hit.place.stop := by
  induction ns generalizing p parent behind hit with
  | nil => exact absurd h (by simp [Nodes.first])
  | cons nops name properties children endNops rest ihc ihr =>
    obtain ⟨hyes, hno⟩ := query.atNode_eq
      ⟨p + headSize nops name, name, properties, parent, children,
        ⟨endNops, rest, parent⟩ :: behind⟩
      (children.first query (p + headSize nops name + propertiesSize properties) properties
        (⟨endNops, rest, parent⟩ :: behind))
    rw [Nodes.first] at h
    rw [Nodes.topmost, Dtb.add_size_cons]
    by_cases haccepts : query.accepts name properties = true
    · obtain ⟨passed, hsome⟩ := hyes haccepts
      rw [hsome] at h
      obtain rfl := Option.some.inj h
      rw [if_pos haccepts]
      rfl
    · rw [if_neg haccepts, List.append_assoc]
      rw [hno (Bool.eq_false_iff.2 haccepts)] at h
      split at h
      · rename_i hit' hnode
        obtain rfl := Option.some.inj h
        obtain ⟨inner, hinner, rfl⟩ := Option.map_eq_some_iff.1 hnode
        have hrest := ihc hinner
        exact hrest
      · rename_i hnode
        rw [Nodes.first_none (Option.map_eq_none_iff.1 hnode), List.nil_append]
        exact ihr h

theorem Behind.first_eq_none (h : Behind.first query behind p = none) :
    Behind.topmost query behind p = [] := by
  induction behind generalizing p with
  | nil => rfl
  | cons level behind ih =>
    rw [Behind.first] at h
    split at h
    · exact absurd h (by simp)
    · rename_i hnone
      rw [Behind.topmost, Nodes.first_none hnone, ih h, List.nil_append]

theorem Behind.first_eq_some {hit : Hit} (h : Behind.first query behind p = some hit) :
    Behind.topmost query behind p =
      hit.place :: Behind.topmost query hit.place.behind hit.place.stop := by
  induction behind generalizing p with
  | nil => exact absurd h (by simp [Behind.first])
  | cons level behind ih =>
    rw [Behind.first] at h
    rw [Behind.topmost]
    split at h
    · rename_i hit' hsome
      obtain rfl := Option.some.inj h
      exact Nodes.first_some hsome
    · rename_i hnone
      rw [Nodes.first_none hnone, List.nil_append]
      exact ih h

/-! ## Behind a node -/

/-- What memory has at the node and behind it. -/
structure Place.Stands (place : Place) (d : Dtb) (finish : ℕ) : Prop where
  here : place.Holds d
  behind : place.behind.Holds d finish place.stop
  inside : place.behind ≠ []

theorem Nodes.Holds.stands (h : ns.Holds d p) (hmod : p % 4 = 0)
    (hbehind : behind.Holds d finish (p + ns.size)) :
    ∀ place ∈ ns.inOrder p parent behind, place.Stands d finish := by
  intro place hplace
  suffices hrest : place.behind.Holds d finish place.stop ∧ place.behind ≠ [] from
    ⟨h.place hmod place hplace, hrest.1, hrest.2⟩
  induction ns generalizing p parent behind with
  | nil => exact absurd hplace (by simp [Nodes.inOrder])
  | cons nops name properties children endNops rest ihc ihr =>
    have hhead := headSize_mod nops name
    have hpropertiesMod := propertiesSize_mod properties
    have hsizeMod := children.size_mod
    obtain ⟨-, -, hchildren, hend, hrest⟩ := h
    rw [Dtb.add_size_cons] at hbehind
    have hnode : Behind.Holds d finish (⟨endNops, rest, parent⟩ :: behind)
        (p + headSize nops name + propertiesSize properties + children.size) :=
      ⟨hend, hrest, hbehind⟩
    rw [Nodes.inOrder] at hplace
    obtain rfl | hplace := List.mem_cons.1 hplace
    · exact ⟨hnode, by simp⟩
    · obtain hplace | hplace := List.mem_append.1 hplace
      · exact ihc hchildren (by omega) hnode hplace
      · exact ihr hrest (by omega) hbehind hplace

theorem Flattened.stands {tree : Nodes} (h : Flattened d tree) :
    ∃ finish, ∀ place ∈ d.places tree, place.Stands d finish := by
  obtain ⟨finish, hfinish⟩ := h.finish
  have hlast : Behind.Holds d finish [] (d.getStructOffset + tree.size) := hfinish
  exact ⟨finish, h.holds.stands h.aligned hlast⟩

theorem Place.Stands.stop_mod {place : Place} (h : place.Stands d finish) : place.stop % 4 = 0 := by
  have haligned := h.here.aligned
  have hpropertiesMod := propertiesSize_mod place.properties
  have hsizeMod := place.children.size_mod
  rw [Place.stop]
  omega

theorem Nodes.first_mem {hit : Hit} (h : ns.first query p parent behind = some hit) :
    hit.place ∈ ns.inOrder p parent behind := by
  have hfind := Nodes.first_eq_find query ns p parent behind
  rw [h] at hfind
  exact List.mem_of_find?_eq_some hfind.symm

theorem Behind.first_stands {hit : Hit} (h : Behind.first query behind p = some hit)
    (hmod : p % 4 = 0) (hbehind : behind.Holds d finish p) : hit.place.Stands d finish := by
  induction behind generalizing p with
  | nil => exact absurd h (by simp [Behind.first])
  | cons level behind ih =>
    obtain ⟨endNops, ns, parent⟩ := level
    obtain ⟨-, hns, hrest⟩ := hbehind
    have hsizeMod := ns.size_mod
    rw [Behind.first] at h
    split at h
    · rename_i hit' hsome
      obtain rfl := Option.some.inj h
      exact hns.stands (by omega) hrest _ (Nodes.first_mem hsome)
    · exact ih h (by omega) hrest

namespace Dtb

variable {m : Matcher} {node : DtbNode} {place : Place}

/-! ## Skipping a node -/

theorem skipToNextNode_padding {p' : ℕ} (h : skipPadding p = skipPadding p') (fuel : ℕ) :
    d.skipToNextNode fuel p = d.skipToNextNode fuel p' := by
  cases fuel with
  | zero => rfl
  | succ fuel => rw [skipToNextNode, skipToNextNode, h]

theorem skipToNextNode_properties (hmod : p % 4 = 0) (hpos : 0 < p) (h : PropertiesHold d qs p)
    {r : Except Fault ℕ}
    (hr : Settles (fun fuel => d.skipToNextNode fuel (p + propertiesSize qs)) r) :
    Settles (fun fuel => d.skipToNextNode fuel p) r := by
  induction qs generalizing p with
  | nil => exact hr
  | cons q qs ih =>
    obtain ⟨hq, -, hqs⟩ := h
    obtain ⟨lengthBytes, hlength, hlen⟩ := map_eq_ok hq.length
    have hsize : q.size % 4 = 0 := by
      have := padded_mod q.value.length
      rw [Property.size]
      omega
    rw [propertiesSize, ← Nat.add_assoc] at hr
    have hrest := ih (by omega) (by omega) hqs hr
    have hne : fdtProp ≠ fdtBeginNode ∧ fdtProp ≠ fdtEnd ∧ fdtProp ≠ fdtEndNode := by decide
    refine Settles.succ ?_
    simp only [skipToNextNode, skipPadding_self hmod hpos]
    refine (skipNop_settles hq.nops hq.token prop_ne_nop).bind ?_
    simp only [hq.token, ok_bind, if_neg hne.1, if_neg hne.2.1, if_neg hne.2.2, if_true, hlength,
      hlen]
    exact hrest.congr fun fuel => skipToNextNode_padding (skipPadding_value hmod q) fuel

theorem readNode_le {t : List UInt8} {p' : ℕ} (h : d.readNode p' = .ok t) (hle : p ≤ p') :
    d.readNode p = .ok (d.bytes4 p) := by
  rw [readNode] at h ⊢
  split_ifs at h with hout
  rw [if_neg (by omega)]

/-- The first four bytes of a padded name are no token. -/
theorem bytes4_name {name : List UInt8} (hname : d.String p name)
    (hpadding : d.Padding p (name.length + 1)) :
    d.bytes4 p ∉ [fdtBeginNode, fdtEndNode, fdtProp, fdtNop, fdtEnd] := by
  cases name with
  | nil =>
    have hpadded : padded 1 = 4 := rfl
    have hzero : d.bytes4 p = [0, 0, 0, 0] := by
      rw [bytes4, hname.2.1, hpadding 1 (by simp [hpadded]) (by simp),
        hpadding 2 (by simp [hpadded]) (by simp), hpadding 3 (by simp [hpadded]) (by simp)]
    rw [hzero]
    decide
  | cons b name =>
    have hb : d.memory p = b := hname.2.1
    have hne : b ≠ 0 := fun hb => hname.1 (by simp [hb])
    simp [bytes4, hb, hne, fdtBeginNode, fdtEndNode, fdtProp, fdtNop, fdtEnd]

/-- At the name of a child the skipper finds no token. -/
theorem skipToNextNode_name {name t : List UInt8} {p' : ℕ} (hmod : p % 4 = 0) (hpos : 0 < p)
    (hname : d.String p name) (hpadding : d.Padding p (name.length + 1))
    (hread : d.readNode p' = .ok t) (hle : p ≤ p') :
    Settles (fun fuel => d.skipToNextNode fuel p) (.error .err) := by
  have hbytes := bytes4_name hname hpadding
  simp only [List.mem_cons, List.not_mem_nil, or_false, not_or] at hbytes
  obtain ⟨hbegin, hendNode, hprop, hnop, hend⟩ := hbytes
  have hread := readNode_le hread hle
  have hskip : Settles (fun fuel => d.skipNop fuel p) (.ok p) :=
    skipNop_settles (n := 0) (fun i hi => absurd hi (by omega)) hread hnop
  refine Settles.succ ?_
  simp only [skipToNextNode, skipPadding_self hmod hpos]
  refine hskip.bind ?_
  simp only [hread, ok_bind, if_neg hbegin, if_neg hendNode, if_neg hprop, if_neg hend]
  exact Settles.const _

theorem skipToNextNode_leaf {level : Level} {behind : Behind} (h : place.Stands d finish)
    (hleaf : place.children = .nil) (hbehind : place.behind = level :: behind) :
    Settles (fun fuel => d.skipToNextNode fuel place.address)
      (.ok (place.stop + (4 * level.endNops + 4))) := by
  have hpropertiesMod := propertiesSize_mod place.properties
  have haligned := h.here.aligned
  have hpos := h.here.pos
  have hstop : place.address + propertiesSize place.properties = place.stop := by
    rw [Place.stop, hleaf, Nodes.size, Nat.add_zero]
  have hends := h.behind
  rw [hbehind] at hends
  obtain ⟨⟨hnops, hend⟩, -⟩ := hends
  refine skipToNextNode_properties haligned hpos h.here.properties (Settles.succ ?_)
  rw [hstop]
  have hne : fdtEndNode ≠ fdtBeginNode ∧ fdtEndNode ≠ fdtEnd := by decide
  simp only [skipToNextNode, skipPadding_self (p := place.stop) (by omega) (by omega)]
  refine (skipNop_settles hnops hend endNode_ne_nop).bind ?_
  simp only [hend, ok_bind, if_neg hne.1, if_neg hne.2, if_true]
  exact Settles.const _

theorem skipToNextNode_parent (h : place.Holds d) (hparent : place.children ≠ .nil) :
    Settles (fun fuel => d.skipToNextNode fuel place.address) (.error .err) := by
  have hpropertiesMod := propertiesSize_mod place.properties
  have haligned := h.aligned
  have hpos := h.pos
  have hchildren := h.children
  refine skipToNextNode_properties haligned hpos h.properties (Settles.succ ?_)
  simp only [skipToNextNode, skipPadding_self
    (p := place.address + propertiesSize place.properties) (by omega) (by omega)]
  cases hcases : place.children with
  | nil => exact absurd hcases hparent
  | cons nops name properties children endNops rest =>
    rw [hcases] at hchildren
    obtain ⟨⟨hnops, hbegin, hname, hpadding⟩, -, -, ⟨-, hend⟩, -⟩ := hchildren
    refine (skipNop_settles hnops hbegin begin_ne_nop).bind ?_
    simp only [hbegin, ok_bind, if_true]
    refine (skipToNextNode_name (p := place.address + propertiesSize place.properties + 4 * nops + 4)
      (by omega) (by omega) hname hpadding hend ?_).bind_error
    rw [headSize]
    omega

/-! ## Resuming -/

theorem searchWith_leaf (hm : m.Decides d query) (h : place.Stands d finish)
    (hnode : node.address = place.address) (hleaf : place.children = .nil) :
    Settles (fun fuel => d.searchWith m fuel (some node))
      (.ok ((Behind.first query place.behind place.stop).map (Hit.node d node.toCells))) := by
  have hstopMod := h.stop_mod
  cases hbehind : place.behind with
  | nil => exact absurd hbehind h.inside
  | cons level behind =>
    have hskip := skipToNextNode_leaf h hleaf hbehind
    have hholds := h.behind
    rw [hbehind] at hholds
    have htop := topFinds hm finish level.siblings behind (place.stop + (4 * level.endNops + 4))
      node.toCells level.parent 0 (by omega) hholds.2.1 hholds.2.2 (Nat.zero_le _)
    obtain ⟨n, hn⟩ := hskip
    obtain ⟨k, hk⟩ := htop
    refine ⟨max n k, fun fuel hfuel => ?_⟩
    have hn := hn fuel (by omega)
    have hk := hk fuel (by omega)
    dsimp only at hn hk ⊢
    rw [searchWith, hnode, hn]
    exact hk

theorem searchWith_parent (h : place.Stands d finish) (hnode : node.address = place.address)
    (hparent : place.children ≠ .nil) :
    Settles (fun fuel => d.searchWith m fuel (some node)) (.ok none) := by
  obtain ⟨n, hn⟩ := skipToNextNode_parent h.here hparent
  refine ⟨n, fun fuel hfuel => ?_⟩
  have hn := hn fuel hfuel
  dsimp only at hn ⊢
  rw [searchWith, hnode, hn]

/-- The nodes that a search and its resumptions visit until they find no more. -/
def enumerate (search : ℕ → Option DtbNode → Except Fault (Option DtbNode)) :
    ℕ → Option DtbNode → Except Fault (List DtbNode)
  | 0, _ => .error .stuck
  | fuel + 1, current => do
    match ← search fuel current with
    | none => return []
    | some n => return n :: (← enumerate search fuel (some n))

/-- The addresses of the nodes that are visited. -/
def visited (search : ℕ → Option DtbNode → Except Fault (Option DtbNode)) (fuel : ℕ)
    (current : Option DtbNode) : Except Fault (List ℕ) :=
  (enumerate search fuel current).map (List.map DtbNode.address)

theorem visited_none {search : ℕ → Option DtbNode → Except Fault (Option DtbNode)}
    {current : Option DtbNode} (h : Settles (fun fuel => search fuel current) (.ok none)) :
    Settles (fun fuel => visited search fuel current) (.ok []) := by
  refine Settles.succ (f := fun fuel => visited search fuel current) ?_
  simp only [visited, enumerate]
  have hdone := h.bind (k := fun fuel found => match found with
    | none => (.ok [] : Except Fault (List DtbNode))
    | some n => do return n :: (← enumerate search fuel (some n))) (Settles.const _)
  exact hdone.map (Except.map (List.map DtbNode.address))

theorem visited_some {search : ℕ → Option DtbNode → Except Fault (Option DtbNode)}
    {current : Option DtbNode} {n : DtbNode} {l : List ℕ}
    (h : Settles (fun fuel => search fuel current) (.ok (some n)))
    (hrest : Settles (fun fuel => visited search fuel (some n)) (.ok l)) :
    Settles (fun fuel => visited search fuel current) (.ok (n.address :: l)) := by
  refine Settles.succ (f := fun fuel => visited search fuel current) ?_
  simp only [visited, enumerate]
  refine h.andThen (k := fun fuel found => Except.map (List.map DtbNode.address)
    (found >>= fun found => match found with
      | none => .ok []
      | some n => do return n :: (← enumerate search fuel (some n)))) ?_
  refine (hrest.map (Except.map (n.address :: ·))).congr fun fuel => ?_
  rw [visited]
  simp only [ok_bind]
  cases enumerate search fuel (some n) <;> rfl

/-- The matches up to the first one with children. -/
def untilParent : List Place → List Place
  | [] => []
  | place :: places => place :: if place.children = .nil then untilParent places else []

theorem untilParent_addresses_iff (l : List Place) :
    (untilParent l).map Place.address = l.map Place.address ↔
      ∀ place ∈ l.dropLast, place.children = .nil := by
  induction l with
  | nil => simp [untilParent]
  | cons place l ih =>
    rw [untilParent]
    cases l with
    | nil => simp [untilParent]
    | cons next l =>
      rw [List.dropLast_cons_cons, List.forall_mem_cons, ← ih]
      by_cases hleaf : place.children = .nil
      · simp [hleaf]
      · simp [hleaf]

/-- From a node on, the search visits the matches behind it up to the first one with
children, if the node itself has none. -/
theorem visited_from (hm : m.Decides d query) (h : place.Stands d finish)
    (hnode : node.address = place.address) {rest : List Place}
    (hrest : Behind.topmost query place.behind place.stop = rest) :
    Settles (fun fuel => visited (d.searchWith m) fuel (some node))
      (.ok ((if place.children = .nil then untilParent rest else []).map Place.address)) := by
  induction rest generalizing place node with
  | nil =>
    by_cases hleaf : place.children = .nil
    · rw [if_pos hleaf]
      have hsearch := searchWith_leaf hm h hnode hleaf
      cases hfirst : Behind.first query place.behind place.stop with
      | none =>
        rw [hfirst] at hsearch
        exact visited_none hsearch
      | some hit =>
        rw [Behind.first_eq_some hfirst] at hrest
        exact absurd hrest (by simp)
    · rw [if_neg hleaf]
      exact visited_none (searchWith_parent h hnode hleaf)
  | cons next rest ih =>
    by_cases hleaf : place.children = .nil
    · rw [if_pos hleaf, untilParent]
      have hsearch := searchWith_leaf hm h hnode hleaf
      cases hfirst : Behind.first query place.behind place.stop with
      | none =>
        rw [Behind.first_eq_none hfirst] at hrest
        exact absurd hrest (by simp)
      | some hit =>
        have hstands := Behind.first_stands hfirst h.stop_mod h.behind
        rw [Behind.first_eq_some hfirst] at hrest
        obtain ⟨rfl, htail⟩ := List.cons.inj hrest
        rw [hfirst] at hsearch
        exact visited_some hsearch (ih hstands rfl htail)
    · rw [if_neg hleaf]
      exact visited_none (searchWith_parent h hnode hleaf)

/-- From the start, the search visits the matches up to the first one with children. -/
theorem visited_untilParent {tree : Nodes} (hm : m.Decides d query) (h : Flattened d tree) :
    Settles (fun fuel => visited (d.searchWith m) fuel none)
      (.ok ((untilParent (tree.topmost query d.getStructOffset [] [])).map Place.address)) := by
  obtain ⟨finish, hstands⟩ := h.stands
  have hsearch := searchWith_none hm h
  cases hfirst : tree.first query d.getStructOffset [] [] with
  | none =>
    rw [firstFrom, hfirst] at hsearch
    rw [Nodes.first_none hfirst]
    exact visited_none hsearch
  | some hit =>
    have htopmost := Nodes.first_some hfirst
    rw [Behind.topmost, List.append_nil] at htopmost
    rw [firstFrom, hfirst] at hsearch
    rw [htopmost, untilParent]
    exact visited_some hsearch (visited_from hm (hstands _ (Nodes.first_mem hfirst)) rfl rfl)

theorem visited_topmost_iff {tree : Nodes} (hm : m.Decides d query) (h : Flattened d tree) :
    Settles (fun fuel => visited (d.searchWith m) fuel none)
        (.ok ((tree.topmost query d.getStructOffset [] []).map Place.address)) ↔
      ∀ place ∈ (tree.topmost query d.getStructOffset [] []).dropLast, place.children = .nil := by
  rw [← untilParent_addresses_iff]
  have hvisited := visited_untilParent hm h
  refine ⟨fun hall => Except.ok.inj (hvisited.unique hall), fun haddresses => ?_⟩
  rwa [haddresses] at hvisited

/-- The outermost nodes that a query accepts, in document order. -/
def outermost (d : Dtb) (tree : Nodes) (query : Query) : List Place :=
  tree.topmost query d.getStructOffset [] []

/-- A search and its resumptions visit every match that is not inside an earlier one, in
document order and once each, exactly if no match but the last has children. -/
theorem resumed_search_complete_iff {tree : Nodes} (h : Flattened d tree) :
    (∀ nodeName, 0 ∉ nodeName → 0x40 ∉ nodeName →
      (Settles (fun fuel => visited (fun n => d.searchNode n nodeName) fuel none)
          (.ok ((d.outermost tree (nameQuery nodeName)).map Place.address)) ↔
        ∀ place ∈ (d.outermost tree (nameQuery nodeName)).dropLast, place.children = .nil)) ∧
    ∀ compatible, 0 ∉ compatible →
      (Settles (fun fuel => visited (fun n => d.searchNodeByCompatible n compatible) fuel none)
          (.ok ((d.outermost tree (compatibleQuery compatible)).map Place.address)) ↔
        ∀ place ∈ (d.outermost tree (compatibleQuery compatible)).dropLast, place.children = .nil) :=
  ⟨fun _ hzero hat => visited_topmost_iff (byName_decides hzero hat) h,
    fun _ hzero => visited_topmost_iff (byCompatible_decides hzero) h⟩

/-- `b` is the only node of its name. -/
theorem sample_resumed :
    Settles (fun fuel => visited (fun n => sample.searchNode n [0x62]) fuel none) (.ok [120]) := by
  have hsearch := ((resumed_search_complete_iff sample_flattened).1 [0x62] (by decide)
    (by decide)).2 (by decide +kernel)
  have haddresses : (sample.outermost sampleTree (nameQuery [0x62])).map Place.address = [120] := by
    decide +kernel
  rwa [haddresses] at hsearch

/-- Behind `a@1`, which has a child, the search does not find `a@2`. -/
theorem sample_misses_match :
    Flattened sample sampleTree ∧
    (sample.outermost sampleTree (nameQuery [0x61])).map Place.address = [76, 160] ∧
    Settles (fun fuel => visited (fun n => sample.searchNode n [0x61]) fuel none) (.ok [76]) ∧
    (sample.outermost sampleTree (compatibleQuery [0x63])).map Place.address = [76, 160] ∧
    Settles (fun fuel => visited (fun n => sample.searchNodeByCompatible n [0x63]) fuel none)
      (.ok [76]) := by
  have hname := visited_untilParent (byName_decides
    (show (0 : UInt8) ∉ [0x61] by decide) (by decide)) sample_flattened
  have hcompatible := visited_untilParent (byCompatible_decides
    (show (0 : UInt8) ∉ [0x63] by decide)) sample_flattened
  refine ⟨sample_flattened, by decide +kernel, ?_, by decide +kernel, ?_⟩
  · have haddresses : (untilParent (sampleTree.topmost (nameQuery [0x61])
        sample.getStructOffset [] [])).map Place.address = [76] := by
      decide +kernel
    rwa [haddresses] at hname
  · have haddresses : (untilParent (sampleTree.topmost (compatibleQuery [0x63])
        sample.getStructOffset [] [])).map Place.address = [76] := by
      decide +kernel
    rwa [haddresses] at hcompatible

end Dtb

end MiniVisor
