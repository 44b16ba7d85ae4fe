import MiniVisor.DeviceTree

/-!
# Searches on the tree

`Nodes.first` is the walk of the searches on the tree itself: the first node in
document order that a query accepts, and the properties that the walk passes on its
way into it. The searches in memory settle on this node, with the cells that the
passed properties leave in force.
-/
namespace MiniVisor

open Fuel

/-- What a search looks for: a node's name or one of its properties. -/
structure Query where
  name : List UInt8 → Bool
  property : Property → Bool

def Query.accepts (query : Query) (name : List UInt8) (properties : List Property) : Bool :=
  query.name name || properties.any query.property

/-- One step out of a list of siblings: the NOPs before the end of the enclosing node,
the siblings that follow it and the properties of the node around those. -/
structure Level where
  endNops : ℕ
  siblings : Nodes
  parent : List Property

/-- What lies behind a list of siblings, from the inside out. -/
abbrev Behind := List Level

/-- A node of the tree, with what lies behind its name. -/
structure Place where
  /-- The position right behind the name. -/
  address : ℕ
  name : List UInt8
  properties : List Property
  /-- The properties of the node around it. -/
  parent : List Property
  children : Nodes
  behind : Behind

/-- Properties with their positions. -/
abbrev Passed := List (ℕ × Property)

/-- A node that a search found, with the properties passed since the search began. -/
structure Hit where
  place : Place
  passed : Passed

def located : List Property → ℕ → Passed
  | [], _ => []
  | q :: qs, p => (p, q) :: located qs (p + q.size)

/-- The properties up to the first one that is looked for. -/
def upTo (wanted : Property → Bool) : List Property → ℕ → Option Passed
  | [], _ => none
  | q :: qs, p =>
    if wanted q then some [(p, q)] else (upTo wanted qs (p + q.size)).map fun ps => (p, q) :: ps

/-- The node itself, or else what was found among its children. -/
def Query.atNode (query : Query) (place : Place) (inside : Option Hit) : Option Hit :=
  if query.name place.name then some ⟨place, []⟩
  else
    match upTo query.property place.properties place.address with
    | some passed => some ⟨place, passed⟩
    | none => inside.map fun hit =>
      ⟨hit.place, located place.properties place.address ++ hit.passed⟩

/-- The first node in document order that the query accepts. -/
def Nodes.first (query : Query) : Nodes → ℕ → List Property → Behind → Option Hit
  | .nil, _, _, _ => none
  | .cons nops name properties children endNops rest, p, parent, behind =>
    let q := p + headSize nops name
    let within := q + propertiesSize properties
    let behindNode := ⟨endNops, rest, parent⟩ :: behind
    match query.atNode ⟨q, name, properties, parent, children, behindNode⟩
        (children.first query within properties behindNode) with
    | some hit => some hit
    | none => rest.first query (within + children.size + (4 * endNops + 4)) parent behind

/-- The first node behind a list of siblings. -/
def Behind.first (query : Query) : Behind → ℕ → Option Hit
  | [], _ => none
  | ⟨endNops, ns, parent⟩ :: behind, p =>
    let q := p + (4 * endNops + 4)
    match ns.first query q parent behind with
    | some hit => some hit
    | none => Behind.first query behind (q + ns.size)

/-- What lies behind, in memory; the block ends with `finish` NOPs and its last token. -/
def Behind.Holds (d : Dtb) (finish : ℕ) : Behind → ℕ → Prop
  | [], p => d.Nops p finish ∧ d.readNode (p + 4 * finish) = .ok Dtb.fdtEnd
  | ⟨endNops, ns, _⟩ :: behind, p =>
    (d.Nops p endNops ∧ d.readNode (p + 4 * endNops) = .ok Dtb.fdtEndNode) ∧
      ns.Holds d (p + (4 * endNops + 4)) ∧
      Behind.Holds d finish behind (p + (4 * endNops + 4) + ns.size)

/-- The cells after properties have been passed. -/
def Dtb.inForce (d : Dtb) (cells : Cells) (passed : Passed) : Cells :=
  passed.foldl (fun cells pq => d.cellsAfter pq.2 pq.1 cells) cells

/-- What a search that began with `cells` returns for a hit. -/
def Hit.node (d : Dtb) (cells : Cells) (hit : Hit) : DtbNode :=
  ⟨d.inForce cells hit.passed, hit.place.address⟩

namespace Dtb

variable {d : Dtb} {m : Matcher} {query : Query} {p start : ℕ} {cells : Cells}
  {qs parent : List Property} {ns : Nodes} {behind : Behind}

/-- The matcher decides on memory what the query decides on the tree. -/
structure Matcher.Decides (m : Matcher) (d : Dtb) (query : Query) : Prop where
  name : ∀ p s, d.String p s →
    Settles (fun fuel => m.name fuel p) (.ok (query.name s, skipPadding (p + s.length + 1)))
  property : ∀ q p cells, q.Holds d p →
    Settles (fun fuel => m.property fuel q.nameOffset ⟨cells, p + 4 * q.nops + 12, q.value.length⟩)
      (.ok (query.property q))

def nameQuery (nodeName : List UInt8) : Query where
  name s := segment s = nodeName
  property _ := false

def compatibleQuery (compatible : List UInt8) : Query where
  name _ := false
  property q := q.name = propCompatible ∧ compatible ∈ stringList q.value

theorem byName_decides {nodeName : List UInt8} (hzero : 0 ∉ nodeName) (hat : 0x40 ∉ nodeName) :
    (d.byName nodeName).Decides d (nameQuery nodeName) where
  name _ _ h := compareString_settles h hzero hat
  property _ _ _ _ := Settles.const _

theorem byCompatible_decides {compatible : List UInt8} (hzero : 0 ∉ compatible) :
    (d.byCompatible compatible).Decides d (compatibleQuery compatible) where
  name _ _ h := (skipString_settles h).map fun r => r >>= fun pointer => pure (false, pointer)
  property q p cells h := by
    have hcompare := compareNameSegment_eq h (show 0 ∉ propCompatible by decide)
    by_cases hname : q.name = propCompatible
    · have hvalue := h.strings hname
      have hloop : Settles (fun fuel => d.compatibleLoop ⟨cells, p + 4 * q.nops + 12,
          q.value.length⟩ compatible fuel 0 false) _ :=
        compatibleLoop_settles (zero_not_mem_stringList q.value) hzero (hvalue.symm ▸ h.value)
          (by rw [hvalue, Nat.zero_add])
      have hquery : (compatibleQuery compatible).property q =
          decide (compatible ∈ stringList q.value) := by
        simp [compatibleQuery, hname]
      rw [hquery]
      refine hloop.congr fun fuel => ?_
      dsimp only [byCompatible]
      rw [hcompare, decide_eq_true hname]
      rfl
    · refine (Settles.const _).congr fun fuel => ?_
      dsimp only [byCompatible]
      rw [hcompare, decide_eq_false hname]
      simp [compatibleQuery, hname, bind, Except.bind, pure, Except.pure]

/-! ## The loop inside a node -/

theorem ok_bind {α β : Type} (x : α) (f : α → Except Fault β) : (Except.ok x >>= f) = f x := rfl

theorem map_eq_ok {α β : Type} {x : Except Fault α} {f : α → β} {b : β} (h : x.map f = .ok b) :
    ∃ a, x = .ok a ∧ f a = b := by
  cases x with
  | error e => exact absurd h (by simp [Except.map])
  | ok a => exact ⟨a, rfl, Except.ok.inj h⟩

theorem begin_ne_nop : fdtBeginNode ≠ fdtNop := by decide
theorem endNode_ne_nop : fdtEndNode ≠ fdtNop := by decide
theorem prop_ne_nop : fdtProp ≠ fdtNop := by decide

/-- Only the padded pointer counts. -/
theorem searchLoop_padding {p' : ℕ} (h : skipPadding p = skipPadding p') (fuel : ℕ) :
    d.searchLoop m fuel start p cells = d.searchLoop m fuel start p' cells := by
  cases fuel with
  | zero => rfl
  | succ fuel => rw [searchLoop, searchLoop, h]

/-- The pointer behind a value, padded. -/
theorem skipPadding_value (hmod : p % 4 = 0) (q : Property) :
    skipPadding (p + 4 * q.nops + 12 + q.value.length) = skipPadding (p + q.size) := by
  have hsize := padded_mod q.value.length
  rw [skipPadding_eq (by omega) (by omega), Property.size, skipPadding_self (by omega) (by omega)]
  omega

section Loop

variable (hm : m.Decides d query) (hmod : p % 4 = 0) (hpos : 0 < p)

include hm hmod hpos

/-- A property that is not looked for is passed. -/
theorem searchLoop_property (start : ℕ) (cells : Cells) {q : Property} (h : q.Holds d p) :
    (query.property q = true → Settles (fun fuel => d.searchLoop m fuel start p cells)
      (.ok (some ⟨d.cellsAfter q p cells, start⟩, p + 4 * q.nops + 12))) ∧
    (query.property q = false → ∀ r,
      Settles (fun fuel => d.searchLoop m fuel start (p + q.size) (d.cellsAfter q p cells)) r →
      Settles (fun fuel => d.searchLoop m fuel start p cells) r) := by
  obtain ⟨lengthBytes, hlength, hlen⟩ := map_eq_ok h.length
  obtain ⟨offsetBytes, hoffset, hoff⟩ := map_eq_ok h.offset
  have hcells := checkAddressAndSizeCells_eq h cells
  have hfound := hm.property q p (d.cellsAfter q p cells) h
  have hnop := skipNop_settles h.nops h.token prop_ne_nop
  have hself := skipPadding_self hmod hpos
  have hne : fdtProp ≠ fdtBeginNode ∧ fdtProp ≠ fdtEndNode := by decide
  have hstep : ∀ r, Settles (fun fuel => if query.property q = true then
        (.ok (some ⟨d.cellsAfter q p cells, start⟩, p + 4 * q.nops + 12) :
          Except Fault (Option DtbNode × ℕ))
      else d.searchLoop m fuel start (p + 4 * q.nops + 12 + q.value.length)
        (d.cellsAfter q p cells)) r →
      Settles (fun fuel => d.searchLoop m fuel start p cells) r := by
    intro r hr
    refine Settles.succ ?_
    simp only [searchLoop, hself]
    refine hnop.bind ?_
    simp only [h.token, ok_bind, if_neg hne.1, if_neg hne.2, if_true, hlength, hoffset, hlen, hoff,
      hcells]
    exact hfound.bind hr
  refine ⟨fun hyes => ?_, fun hno r hr => ?_⟩
  · refine hstep _ ((Settles.const _).congr fun fuel => ?_)
    rw [if_pos hyes]
  · refine hstep _ ?_
    simp only [hno, Bool.false_eq_true, if_false]
    -- the next iteration rounds up the pointer behind the value
    exact hr.congr fun fuel => searchLoop_padding (skipPadding_value hmod q) fuel

end Loop

theorem inForce_cons {q : Property} {passed : Passed} :
    d.inForce cells ((p, q) :: passed) = d.inForce (d.cellsAfter q p cells) passed := rfl

theorem inForce_append {passed passed' : Passed} :
    d.inForce cells (passed ++ passed') = d.inForce (d.inForce cells passed) passed' :=
  List.foldl_append

theorem searchLoop_properties (start : ℕ) (cells : Cells) (hm : m.Decides d query) (hmod : p % 4 = 0) (hpos : 0 < p)
    (h : PropertiesHold d qs p) :
    (∀ passed, upTo query.property qs p = some passed →
      ∃ pointer, Settles (fun fuel => d.searchLoop m fuel start p cells)
        (.ok (some ⟨d.inForce cells passed, start⟩, pointer))) ∧
    (upTo query.property qs p = none → ∀ r,
      Settles (fun fuel => d.searchLoop m fuel start (p + propertiesSize qs)
        (d.inForce cells (located qs p))) r →
      Settles (fun fuel => d.searchLoop m fuel start p cells) r) := by
  induction qs generalizing p cells with
  | nil => exact ⟨by simp [upTo], fun _ r hr => hr⟩
  | cons q qs ih =>
    obtain ⟨hq, -, hqs⟩ := h
    obtain ⟨hyes, hno⟩ := searchLoop_property hm hmod hpos start cells hq
    have hsize : q.size % 4 = 0 := by
      have := padded_mod q.value.length
      rw [Property.size]
      omega
    obtain ⟨ihyes, ihno⟩ := ih (d.cellsAfter q p cells) (by omega) (by omega) hqs
    rw [upTo, located, propertiesSize, ← Nat.add_assoc]
    by_cases hwanted : query.property q = true
    · rw [if_pos hwanted]
      refine ⟨fun passed hpassed => ?_, by simp⟩
      obtain rfl := Option.some.inj hpassed
      exact ⟨_, hyes hwanted⟩
    · rw [if_neg hwanted]
      have hwanted := Bool.eq_false_iff.2 hwanted
      refine ⟨fun passed hpassed => ?_, fun hnone r hr => ?_⟩
      · obtain ⟨rest, hrest, rfl⟩ := Option.map_eq_some_iff.1 hpassed
        obtain ⟨pointer, hpointer⟩ := ihyes rest hrest
        exact ⟨pointer, hno hwanted _ hpointer⟩
      · exact hno hwanted r (ihno (Option.map_eq_none_iff.1 hnone) r hr)

/-! ## Nodes -/

theorem add_size_cons {nops endNops : ℕ} {name : List UInt8} {children rest : Nodes} :
    p + (Nodes.cons nops name qs children endNops rest).size =
      p + headSize nops name + propertiesSize qs + children.size + (4 * endNops + 4) +
        rest.size := by
  rw [Nodes.size]
  omega

theorem Nops.drop {n j : ℕ} (h : d.Nops p n) (hj : j ≤ n) : d.Nops (p + 4 * j) (n - j) := by
  intro i hi
  have := h (j + i) (by omega)
  rwa [Nat.mul_add, ← Nat.add_assoc] at this

/-- The loop inside a node finds what the tree says, or goes on behind the siblings. -/
def LoopFinds (d : Dtb) (m : Matcher) (query : Query) (ns : Nodes) : Prop :=
  ∀ start p cells parent behind, p % 4 = 0 → 0 < p → ns.Holds d p →
    (∀ hit, ns.first query p parent behind = some hit →
      ∃ pointer, Settles (fun fuel => d.searchLoop m fuel start p cells)
        (.ok (some (hit.node d cells), pointer))) ∧
    (ns.first query p parent behind = none → ∀ r,
      Settles (fun fuel => d.searchLoop m fuel start (p + ns.size) cells) r →
      Settles (fun fuel => d.searchLoop m fuel start p cells) r)

/-- The search at a node, from any of the NOPs before it. -/
theorem searchFrom_node (cells : Cells) (parent : List Property) (behind : Behind)
    {nops j endNops : ℕ} {name : List UInt8} {children rest : Nodes} (hm : m.Decides d query) (hmod : p % 4 = 0)
    (h : (Nodes.cons nops name qs children endNops rest).Holds d p) (hj : j ≤ nops)
    (hchildren : LoopFinds d m query children) :
    let q := p + headSize nops name
    let within := q + propertiesSize qs
    let behindNode := ⟨endNops, rest, parent⟩ :: behind
    let found := query.atNode ⟨q, name, qs, parent, children, behindNode⟩
      (children.first query within qs behindNode)
    (∀ hit, found = some hit →
      ∃ pointer, Settles (fun fuel => d.searchFrom m fuel (p + 4 * j) cells)
        (.ok (some (hit.node d cells), pointer))) ∧
    (found = none → Settles (fun fuel => d.searchFrom m fuel (p + 4 * j) cells)
        (.ok (none, within + children.size + (4 * endNops + 4)))) := by
  intro q within behindNode found
  obtain ⟨⟨hnops, hbegin, hname, -⟩, hproperties, hinside, ⟨hendNops, hend⟩, -⟩ := h
  have hhead := headSize_mod nops name
  have hpropertiesMod := propertiesSize_mod qs
  have hsizeMod := children.size_mod
  have hpad : skipPadding (p + 4 * nops + 4 + name.length + 1) = q := by
    have := skipPadding_eq (p := p + 4 * nops + 4) (n := name.length + 1) (by omega) (by omega)
    rw [← Nat.add_assoc] at this
    rw [this]
    simp only [q, headSize]
    omega
  have hnop : Settles (fun fuel => d.skipNop fuel (p + 4 * j)) (.ok (p + 4 * nops)) := by
    have hsum : p + 4 * j + 4 * (nops - j) = p + 4 * nops := by omega
    have := skipNop_settles (hnops.drop hj) (by rw [hsum]; exact hbegin) begin_ne_nop
    rwa [hsum] at this
  have hfound := hm.name (p + 4 * nops + 4) name hname
  rw [hpad] at hfound
  have hq : 0 < q := by simp only [q, headSize]; omega
  -- the entry of the search, up to the loop
  have hstep : ∀ r, Settles (fun fuel => if query.name name = true then
        (.ok (some ⟨cells, q⟩, q) : Except Fault (Option DtbNode × ℕ))
      else d.searchLoop m fuel q q cells) r →
      Settles (fun fuel => d.searchFrom m fuel (p + 4 * j) cells) r := by
    intro r hr
    refine Settles.succ ?_
    simp only [searchFrom]
    refine hnop.bind ?_
    simp only [hbegin, ok_bind, ne_eq, not_true_eq_false, if_false]
    exact hfound.bind hr
  by_cases hwanted : query.name name = true
  · simp only [found, Query.atNode, if_pos hwanted, Option.some.injEq, reduceCtorEq, false_implies,
      and_true]
    rintro hit rfl
    refine ⟨q, hstep _ ((Settles.const _).congr fun fuel => ?_)⟩
    rw [if_pos hwanted]
    rfl
  simp only [found, Query.atNode, if_neg hwanted]
  have hloop : ∀ r, Settles (fun fuel => d.searchLoop m fuel q q cells) r →
      Settles (fun fuel => d.searchFrom m fuel (p + 4 * j) cells) r := fun r hr =>
    hstep r (hr.congr fun fuel => by rw [if_neg hwanted])
  obtain ⟨hyes, hno⟩ := searchLoop_properties q cells hm (by omega) hq
    hproperties
  cases hpassed : upTo query.property qs q with
  | some passed =>
    dsimp only
    refine ⟨?_, by simp⟩
    rintro hit hhit
    obtain ⟨pointer, hpointer⟩ := hyes passed hpassed
    exact ⟨pointer, hloop _ (Option.some.inj hhit ▸ hpointer)⟩
  | none =>
    dsimp only
    obtain ⟨ihyes, ihno⟩ := hchildren q within (d.inForce cells (located qs q)) qs behindNode
      (by omega) (by omega) hinside
    refine ⟨fun hit hhit => ?_, fun hnone => ?_⟩
    · obtain ⟨inner, hinner, rfl⟩ := Option.map_eq_some_iff.1 hhit
      obtain ⟨pointer, hpointer⟩ := ihyes inner hinner
      refine ⟨pointer, hloop _ (hno hpassed _ ?_)⟩
      rw [Hit.node, inForce_append]
      exact hpointer
    · refine hloop _ (hno hpassed _ (ihno (Option.map_eq_none_iff.1 hnone) _ (Settles.succ ?_)))
      have hself := skipPadding_self (p := within + children.size) (by omega) (by omega)
      simp only [searchLoop, hself]
      refine (skipNop_settles hendNops hend endNode_ne_nop).bind ?_
      have hne : fdtEndNode ≠ fdtBeginNode := by decide
      simp only [hend, ok_bind, if_neg hne, if_true]
      exact Settles.const _

/-- What the loop does with the result of the search in a child. -/
def afterChild (d : Dtb) (m : Matcher) (start : ℕ) (cells : Cells) (found : Option DtbNode)
    (pointer fuel : ℕ) : Except Fault (Option DtbNode × ℕ) :=
  match found with
  | some node => .ok (some node, pointer)
  | none => d.searchLoop m fuel start pointer cells

theorem loopFinds (hm : m.Decides d query) (ns : Nodes) : LoopFinds d m query ns := by
  induction ns with
  | nil => exact fun start p cells parent behind _ _ _ => ⟨by simp [Nodes.first], fun _ r hr => hr⟩
  | cons nops name qs children endNops rest ihc ihr =>
    intro start p cells parent behind hmod hpos h
    have hhead := headSize_mod nops name
    have hpropertiesMod := propertiesSize_mod qs
    have hsizeMod := children.size_mod
    obtain ⟨hyes, hno⟩ := searchFrom_node cells parent behind
      (j := nops) hm hmod h le_rfl ihc
    obtain ⟨⟨hnops, hbegin, -⟩, -, -, -, hrest⟩ := h
    have hself := skipPadding_self hmod hpos
    have hnop := skipNop_settles hnops hbegin begin_ne_nop
    -- the loop meets the token and starts a search there
    have hstep : ∀ {found : Option DtbNode} {pointer : ℕ} r,
        Settles (fun fuel => d.searchFrom m fuel (p + 4 * nops) cells) (.ok (found, pointer)) →
        Settles (d.afterChild m start cells found pointer) r →
        Settles (fun fuel => d.searchLoop m fuel start p cells) r := by
      intro found pointer r hfrom hr
      refine Settles.succ ?_
      simp only [searchLoop, hself]
      refine hnop.bind ?_
      simp only [hbegin, ok_bind, if_true]
      exact hfrom.bind hr
    rw [Nodes.first]
    split
    · rename_i hit hfound
      refine ⟨fun hit' hhit => ?_, by simp⟩
      obtain ⟨pointer, hpointer⟩ := hyes hit hfound
      obtain rfl := Option.some.inj hhit
      exact ⟨pointer, hstep _ hpointer (Settles.const _)⟩
    · rename_i hfound
      obtain ⟨ihyes, ihno⟩ := ihr start _ cells parent behind (by omega) (by omega) hrest
      refine ⟨fun hit hhit => ?_, fun hnone r hr => ?_⟩
      · obtain ⟨pointer, hpointer⟩ := ihyes hit hhit
        exact ⟨pointer, hstep _ (hno hfound) hpointer⟩
      · refine hstep _ (hno hfound) (ihno hnone r ?_)
        rwa [add_size_cons] at hr

/-! ## From a position to the end of the block -/

/-- The token at the head of the siblings or, without any, of what lies behind them,
after its NOPs. -/
def headToken (finish : ℕ) : Nodes → Behind → ℕ × List UInt8
  | .cons nops .., _ => (nops, fdtBeginNode)
  | .nil, level :: _ => (level.endNops, fdtEndNode)
  | .nil, [] => (finish, fdtEnd)

theorem headToken_holds {finish : ℕ} (h : ns.Holds d p)
    (hbehind : behind.Holds d finish (p + ns.size)) :
    d.Nops p (headToken finish ns behind).1 ∧
      d.readNode (p + 4 * (headToken finish ns behind).1) =
        .ok (headToken finish ns behind).2 := by
  cases ns with
  | cons nops name qs children endNops rest => exact ⟨h.1.1, h.1.2.1⟩
  | nil =>
    cases behind with
    | nil => exact hbehind
    | cons b behind => exact hbehind.1

/-- The first node from a position on. -/
def firstFrom (query : Query) (ns : Nodes) (p : ℕ) (parent : List Property) (behind : Behind) :
    Option Hit :=
  match ns.first query p parent behind with
  | some hit => some hit
  | none => Behind.first query behind (p + ns.size)

/-- What the `while` loop does after a search that found nothing. -/
def searchNext (d : Dtb) (m : Matcher) (cells : Cells) (p fuel : ℕ) :
    Except Fault (Option DtbNode) :=
  match d.readNode p with
  | .error _ => .ok none
  | .ok n =>
    if n = fdtEnd then .ok none
    else if n = fdtBeginNode then d.searchTop m fuel p cells
    else if n = fdtEndNode ∨ n = fdtNop then d.searchTop m fuel (p + fdtTokenByte) cells
    else .ok none

/-- What the `while` loop does with the result of one search. -/
def searchStep (d : Dtb) (m : Matcher) (cells : Cells) (fuel : ℕ) :
    Except Fault (Option DtbNode × ℕ) → Except Fault (Option DtbNode)
  | .error .err => .ok none
  | .error e => .error e
  | .ok (some n, _) => .ok (some n)
  | .ok (none, pointer) => searchNext d m cells pointer fuel

theorem searchTop_step {t : List UInt8} {found : Except Fault (Option DtbNode × ℕ)}
    {r : Except Fault (Option DtbNode)} (hread : d.readNode p = .ok t)
    (h : Settles (fun fuel => d.searchFrom m fuel p cells) found)
    (hnext : Settles (fun fuel => searchStep d m cells fuel found) r) :
    Settles (fun fuel => d.searchTop m fuel p cells) r := by
  refine Settles.succ ((h.andThen hnext).congr fun fuel => ?_)
  rw [searchTop, hread]
  cases d.searchFrom m fuel p cells with
  | error e => cases e <;> rfl
  | ok found =>
    obtain ⟨n, pointer⟩ := found
    cases n <;> rfl

/-- The `while` loop from any of the NOPs at the head of the siblings settles on the
first node from there on. -/
def TopFinds (d : Dtb) (m : Matcher) (query : Query) (finish : ℕ) (ns : Nodes) (behind : Behind) :
    Prop :=
  ∀ p cells parent j, p % 4 = 0 → ns.Holds d p → behind.Holds d finish (p + ns.size) →
    j ≤ (headToken finish ns behind).1 →
    Settles (fun fuel => d.searchTop m fuel (p + 4 * j) cells)
      (.ok ((firstFrom query ns p parent behind).map (Hit.node d cells)))

/-- A search that starts at an end token finds nothing and stays there. -/
theorem searchFrom_end (m : Matcher) (cells : Cells) {n : ℕ} {t : List UInt8} (hnops : d.Nops p n)
    (htoken : d.readNode (p + 4 * n) = .ok t) (ht : t = fdtEndNode ∨ t = fdtEnd) :
    Settles (fun fuel => d.searchFrom m fuel p cells) (.ok (none, p + 4 * n)) := by
  have hne : t ≠ fdtNop ∧ t ≠ fdtBeginNode := by
    obtain rfl | rfl := ht <;> decide
  refine Settles.succ ?_
  simp only [searchFrom]
  refine (skipNop_settles hnops htoken hne.1).bind ?_
  simp only [htoken, ok_bind, ne_eq, hne.2, not_false_eq_true, if_true, ht]
  exact Settles.const _

/-- After a search that found nothing the loop goes on with the siblings. -/
theorem searchNext_siblings {finish : ℕ} {r : Except Fault (Option DtbNode)}
    (h : ns.Holds d p) (hbehind : behind.Holds d finish (p + ns.size))
    (htop : ∀ j ≤ (headToken finish ns behind).1,
      Settles (fun fuel => d.searchTop m fuel (p + 4 * j) cells) r)
    (hclimb : ns = .nil → Settles (fun fuel => searchNext d m cells
      (p + 4 * (headToken finish ns behind).1) fuel) r) :
    Settles (fun fuel => searchNext d m cells p fuel) r := by
  obtain ⟨hnops, htoken⟩ := headToken_holds h hbehind
  generalize hhead : headToken finish ns behind = head at *
  obtain ⟨n, t⟩ := head
  cases n with
  | zero =>
    cases ns with
    | nil => exact hclimb rfl
    | cons nops name qs children endNops rest =>
      obtain ⟨-, rfl⟩ := Prod.mk.injEq .. ▸ hhead
      have hread : d.readNode p = .ok fdtBeginNode := htoken
      refine (htop 0 le_rfl).congr fun fuel => ?_
      rw [searchNext, hread]
      rfl
  | succ n =>
    have hread : d.readNode p = .ok fdtNop := hnops 0 (by omega)
    refine (htop 1 (by omega)).congr fun fuel => ?_
    rw [searchNext, hread]
    rfl

/-- The loop climbs out of the enclosing node and goes on behind it. -/
theorem searchNext_climbs {finish : ℕ} (hmod : p % 4 = 0)
    (hbehind : behind.Holds d finish p)
    (hnext : ∀ level rest, behind = level :: rest → TopFinds d m query finish level.siblings rest) :
    Settles (fun fuel => searchNext d m cells (p + 4 * (headToken finish .nil behind).1) fuel)
      (.ok ((Behind.first query behind p).map (Hit.node d cells))) := by
  cases behind with
  | nil =>
    refine (Settles.const _).congr fun fuel => ?_
    rw [searchNext, headToken, hbehind.2]
    rfl
  | cons level behind =>
    obtain ⟨endNops, ns, parent⟩ := level
    obtain ⟨⟨-, hend⟩, hns, hrest⟩ := hbehind
    have htop := hnext _ behind rfl (p + (4 * endNops + 4)) cells parent 0 (by omega) hns hrest
      (Nat.zero_le _)
    refine htop.congr fun fuel => ?_
    rw [searchNext, headToken, hend]
    rfl

/-- From a list of siblings without a node the loop climbs at once. -/
theorem topFinds_nil {finish : ℕ}
    (hnext : ∀ level rest, behind = level :: rest → TopFinds d m query finish level.siblings rest) :
    TopFinds d m query finish .nil behind := by
  intro p cells parent j hmod h hbehind hj
  obtain ⟨hnops, htoken⟩ := headToken_holds h hbehind
  have hend : (headToken finish .nil behind).2 = fdtEndNode ∨
      (headToken finish .nil behind).2 = fdtEnd := by
    cases behind with
    | nil => exact .inr rfl
    | cons b behind => exact .inl rfl
  obtain ⟨t, hread⟩ : ∃ t, d.readNode (p + 4 * j) = .ok t := by
    obtain hlt | heq := hj.lt_or_eq
    · exact ⟨_, hnops j hlt⟩
    · exact ⟨_, heq ▸ htoken⟩
  have hsum : p + 4 * j + 4 * ((headToken finish .nil behind).1 - j) =
      p + 4 * (headToken finish .nil behind).1 := by omega
  have hfrom := searchFrom_end m cells (hnops.drop hj)
    (by rw [hsum]; exact htoken) hend
  rw [hsum] at hfrom
  exact searchTop_step hread hfrom (searchNext_climbs hmod hbehind hnext)

theorem firstFrom_cons {nops endNops : ℕ} {name : List UInt8} {children rest : Nodes} :
    firstFrom query (.cons nops name qs children endNops rest) p parent behind =
      let q := p + headSize nops name
      let within := q + propertiesSize qs
      let behindNode := ⟨endNops, rest, parent⟩ :: behind
      match query.atNode ⟨q, name, qs, parent, children, behindNode⟩
          (children.first query within qs behindNode) with
      | some hit => some hit
      | none => firstFrom query rest (within + children.size + (4 * endNops + 4)) parent behind := by
  simp only [firstFrom, Nodes.first, add_size_cons]
  generalize query.atNode _ _ = found
  cases found <;> rfl

theorem topFinds_siblings {finish : ℕ} (hm : m.Decides d query)
    (hnext : ∀ level rest, behind = level :: rest → TopFinds d m query finish level.siblings rest)
    (ns : Nodes) : TopFinds d m query finish ns behind := by
  induction ns with
  | nil => exact topFinds_nil hnext
  | cons nops name qs children endNops rest ihc ihr =>
    intro p cells parent j hmod h hbehind hj
    have hhead := headSize_mod nops name
    have hpropertiesMod := propertiesSize_mod qs
    have hsizeMod := children.size_mod
    obtain ⟨hyes, hno⟩ := searchFrom_node cells parent behind hm
      hmod h hj (loopFinds hm children)
    obtain ⟨⟨hnops, hbegin, -⟩, -, -, -, hrest⟩ := h
    obtain ⟨t, hread⟩ : ∃ t, d.readNode (p + 4 * j) = .ok t := by
      obtain hlt | rfl := Nat.lt_or_eq_of_le hj
      · exact ⟨_, hnops j hlt⟩
      · exact ⟨_, hbegin⟩
    rw [add_size_cons] at hbehind
    rw [firstFrom_cons]
    dsimp only
    split
    · rename_i hit hfound
      obtain ⟨pointer, hpointer⟩ := hyes hit hfound
      exact searchTop_step hread hpointer (Settles.const _)
    · rename_i hfound
      refine searchTop_step hread (hno hfound) (searchNext_siblings hrest hbehind
        (fun j hj => ihr _ cells parent j (by omega) hrest hbehind hj) fun hnil => ?_)
      subst hnil
      exact searchNext_climbs (by omega) hbehind hnext

theorem topFinds (hm : m.Decides d query) (finish : ℕ) (ns : Nodes) (behind : Behind) :
    TopFinds d m query finish ns behind := by
  induction behind generalizing ns with
  | nil => exact topFinds_siblings hm (by simp) ns
  | cons level behind ih =>
    refine topFinds_siblings hm (fun level' rest heq => ?_) ns
    obtain ⟨-, rfl⟩ := List.cons.inj heq
    exact ih _

end Dtb

end MiniVisor
