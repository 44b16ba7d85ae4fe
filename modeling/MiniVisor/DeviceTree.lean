import MiniVisor.Dtb

/-!
# Flattened device trees

A device tree comes with the choices of one flattening: how many NOP tokens stand
before each token and where in the strings block a property finds its name. `Holds`
says that memory has this flattening at a position. The elementary readers of the
walks are described here in terms of the tree.
-/
namespace MiniVisor

open Fuel

/-! ## Trees -/

structure Property where
  /-- NOP tokens before the property. -/
  nops : ℕ
  /-- The offset of the name in the strings block. -/
  nameOffset : ℕ
  name : List UInt8
  value : List UInt8
  deriving DecidableEq

/-- A list of sibling nodes: the first one with its children, and the others. -/
inductive Nodes where
  | nil
  | cons (nops : ℕ) (name : List UInt8) (properties : List Property) (children : Nodes)
      (endNops : ℕ) (rest : Nodes)
  deriving DecidableEq

/-- The length of `n` bytes with their padding. -/
def padded (n : ℕ) : ℕ := (n + 3) / 4 * 4

def Property.size (q : Property) : ℕ := 4 * q.nops + 12 + padded q.value.length

def propertiesSize : List Property → ℕ
  | [] => 0
  | q :: qs => q.size + propertiesSize qs

/-- NOPs, the token and the padded name. -/
def headSize (nops : ℕ) (name : List UInt8) : ℕ := 4 * nops + 4 + padded (name.length + 1)

def Nodes.size : Nodes → ℕ
  | .nil => 0
  | .cons nops name properties children endNops rest =>
    headSize nops name + propertiesSize properties + children.size + (4 * endNops + 4) + rest.size

theorem padded_mod (n : ℕ) : padded n % 4 = 0 := Nat.mul_mod_left _ _

theorem propertiesSize_mod (qs : List Property) : propertiesSize qs % 4 = 0 := by
  induction qs with
  | nil => rfl
  | cons q qs ih =>
    have := padded_mod q.value.length
    rw [propertiesSize, Property.size]
    omega

theorem headSize_mod (nops : ℕ) (name : List UInt8) : headSize nops name % 4 = 0 := by
  have := padded_mod (name.length + 1)
  rw [headSize]
  omega

theorem Nodes.size_mod (ns : Nodes) : ns.size % 4 = 0 := by
  induction ns with
  | nil => rfl
  | cons nops name properties children endNops rest ihc ihr =>
    have := headSize_mod nops name
    have := propertiesSize_mod properties
    rw [Nodes.size]
    omega

/-! ## String lists -/

/-- Strings with their terminators. -/
def joined (strings : List (List UInt8)) : List UInt8 := strings.flatMap (· ++ [0])

/-- The strings of a value. -/
def stringList : List UInt8 → List (List UInt8)
  | [] => []
  | b :: value =>
    if b = 0 then [] :: stringList value
    else
      match stringList value with
      | [] => []
      | s :: strings => (b :: s) :: strings

theorem zero_not_mem_stringList (value : List UInt8) : ∀ s ∈ stringList value, 0 ∉ s := by
  induction value with
  | nil => simp [stringList]
  | cons b value ih =>
    rw [stringList]
    split_ifs with hb
    · exact List.forall_mem_cons.2 ⟨by simp, ih⟩
    · cases hvalue : stringList value with
      | nil => simp
      | cons s strings =>
        rw [hvalue] at ih
        obtain ⟨hs, hstrings⟩ := List.forall_mem_cons.1 ih
        refine List.forall_mem_cons.2 ⟨fun hmem => ?_, hstrings⟩
        obtain hzero | hmem := List.mem_cons.1 hmem
        · exact hb hzero.symm
        · exact hs hmem

namespace Dtb

variable {d : Dtb} {p : ℕ} {l l' : List UInt8}

/-! ## Memory -/

/-- Memory has the bytes `l` from `p` on. -/
def Bytes (d : Dtb) : ℕ → List UInt8 → Prop
  | _, [] => True
  | p, b :: l => d.memory p = b ∧ d.Bytes (p + 1) l

theorem bytes_append : d.Bytes p (l ++ l') ↔ d.Bytes p l ∧ d.Bytes (p + l.length) l' := by
  induction l generalizing p with
  | nil => simp [Bytes]
  | cons b l ih =>
    rw [List.cons_append, Bytes, Bytes, ih, List.length_cons, and_assoc]
    have hlen : p + 1 + l.length = p + (l.length + 1) := by omega
    rw [hlen]

/-- `n` NOP tokens inside the block. -/
def Nops (d : Dtb) (p n : ℕ) : Prop := ∀ i < n, d.readNode (p + 4 * i) = .ok fdtNop

/-- The string `s` with its terminator. -/
def String (d : Dtb) (p : ℕ) (s : List UInt8) : Prop := 0 ∉ s ∧ d.Bytes p (s ++ [0])

/-- Zeros up to the next multiple of four behind `n` bytes. -/
def Padding (d : Dtb) (p n : ℕ) : Prop := ∀ i < padded n, n ≤ i → d.memory (p + i) = 0

end Dtb

/-- A property in memory. A further token follows it, so its value starts inside the
block; `compatible` is a list of strings. -/
structure Property.Holds (q : Property) (d : Dtb) (p : ℕ) : Prop where
  nops : d.Nops p q.nops
  token : d.readNode (p + 4 * q.nops) = .ok Dtb.fdtProp
  length : (d.readNode (p + 4 * q.nops + 4)).map Dtb.fromBeBytes = .ok q.value.length
  offset : (d.readNode (p + 4 * q.nops + 8)).map Dtb.fromBeBytes = .ok q.nameOffset
  named : q.nameOffset < d.getStringSize ∧ d.String (d.getStringOffset + q.nameOffset) q.name
  value : d.Bytes (p + 4 * q.nops + 12) q.value
  inside : p + 4 * q.nops + 12 < d.getStructOffset + d.getStructSize
  strings : q.name = Dtb.propCompatible → joined (stringList q.value) = q.value

/-- The properties of a node in memory, each name once. -/
def PropertiesHold (d : Dtb) : List Property → ℕ → Prop
  | [], _ => True
  | q :: qs, p => q.Holds d p ∧ (∀ q' ∈ qs, q'.name ≠ q.name) ∧ PropertiesHold d qs (p + q.size)

/-- The nodes in memory. -/
def Nodes.Holds (d : Dtb) : Nodes → ℕ → Prop
  | .nil, _ => True
  | .cons nops name properties children endNops rest, p =>
    let q := p + headSize nops name
    let r := q + propertiesSize properties + children.size
    (d.Nops p nops ∧ d.readNode (p + 4 * nops) = .ok Dtb.fdtBeginNode ∧
      d.String (p + 4 * nops + 4) name ∧ d.Padding (p + 4 * nops + 4) (name.length + 1)) ∧
    PropertiesHold d properties q ∧ children.Holds d (q + propertiesSize properties) ∧
    (d.Nops r endNops ∧ d.readNode (r + 4 * endNops) = .ok Dtb.fdtEndNode) ∧
    rest.Holds d (r + (4 * endNops + 4))

section Decidable

variable {d : Dtb}

instance decidableBytes : (p : ℕ) → (l : List UInt8) → Decidable (d.Bytes p l)
  | _, [] => .isTrue trivial
  | p, b :: l => @instDecidableAnd (d.memory p = b) (d.Bytes (p + 1) l) _ (decidableBytes (p + 1) l)

instance (p n : ℕ) : Decidable (d.Nops p n) := inferInstanceAs (Decidable (∀ i < n, _))

instance (p : ℕ) (s : List UInt8) : Decidable (d.String p s) :=
  inferInstanceAs (Decidable (_ ∧ _))

instance (p n : ℕ) : Decidable (d.Padding p n) := inferInstanceAs (Decidable (∀ i < padded n, _))

theorem Property.holds_iff {q : Property} {p : ℕ} : q.Holds d p ↔
    d.Nops p q.nops ∧ d.readNode (p + 4 * q.nops) = .ok Dtb.fdtProp ∧
      (d.readNode (p + 4 * q.nops + 4)).map Dtb.fromBeBytes = .ok q.value.length ∧
      (d.readNode (p + 4 * q.nops + 8)).map Dtb.fromBeBytes = .ok q.nameOffset ∧
      (q.nameOffset < d.getStringSize ∧ d.String (d.getStringOffset + q.nameOffset) q.name) ∧
      d.Bytes (p + 4 * q.nops + 12) q.value ∧
      p + 4 * q.nops + 12 < d.getStructOffset + d.getStructSize ∧
      (q.name = Dtb.propCompatible → joined (stringList q.value) = q.value) :=
  ⟨fun h => ⟨h.nops, h.token, h.length, h.offset, h.named, h.value, h.inside, h.strings⟩,
    fun ⟨hnops, htoken, hlength, hoffset, hnamed, hvalue, hinside, hstrings⟩ =>
      ⟨hnops, htoken, hlength, hoffset, hnamed, hvalue, hinside, hstrings⟩⟩

instance (q : Property) (p : ℕ) : Decidable (q.Holds d p) :=
  decidable_of_iff _ Property.holds_iff.symm

instance decidablePropertiesHold : (qs : List Property) → (p : ℕ) →
    Decidable (PropertiesHold d qs p)
  | [], _ => .isTrue trivial
  | q :: qs, p =>
    @instDecidableAnd (q.Holds d p) _ _
      (@instDecidableAnd (∀ q' ∈ qs, q'.name ≠ q.name) (PropertiesHold d qs (p + q.size)) _
        (decidablePropertiesHold qs (p + q.size)))

instance decidableHolds : (ns : Nodes) → (p : ℕ) → Decidable (ns.Holds d p)
  | .nil, _ => .isTrue trivial
  | .cons nops name properties children endNops rest, p =>
    have := decidableHolds children (p + headSize nops name + propertiesSize properties)
    have := decidableHolds rest
      (p + headSize nops name + propertiesSize properties + children.size + (4 * endNops + 4))
    inferInstanceAs (Decidable ((_ ∧ _ ∧ _ ∧ _) ∧ _ ∧ _ ∧ (_ ∧ _) ∧ _))

end Decidable

/-- The structure block is the flattening of the tree. -/
structure Flattened (d : Dtb) (tree : Nodes) : Prop where
  aligned : d.getStructOffset % 4 = 0
  holds : tree.Holds d d.getStructOffset
  finish : ∃ n, d.Nops (d.getStructOffset + tree.size) n ∧
    d.readNode (d.getStructOffset + tree.size + 4 * n) = .ok Dtb.fdtEnd

namespace Dtb

variable {d : Dtb} {p n : ℕ} {s t name : List UInt8} {q : Property} {qs : List Property}

/-! ## Readers -/

theorem skipPadding_eq (hmod : p % 4 = 0) (hpos : 0 < p + n) :
    skipPadding (p + n) = p + padded n := by
  rw [skipPadding, padded, fdtTokenByte]
  omega

theorem skipPadding_self (hmod : p % 4 = 0) (hpos : 0 < p) : skipPadding p = p :=
  skipPadding_eq (n := 0) hmod hpos

theorem skipNop_settles (hnops : d.Nops p n) (htoken : d.readNode (p + 4 * n) = .ok t)
    (ht : t ≠ fdtNop) : Settles (fun fuel => d.skipNop fuel p) (.ok (p + 4 * n)) := by
  induction n generalizing p with
  | zero =>
    refine Settles.succ ((Settles.const _).congr fun fuel => ?_)
    rw [Nat.mul_zero, Nat.add_zero] at htoken
    rw [skipNop, htoken]
    exact if_neg ht
  | succ n ih =>
    have hfirst : d.readNode p = .ok fdtNop := hnops 0 (by omega)
    have hshift : ∀ i, p + fdtTokenByte + 4 * i = p + 4 * (i + 1) := fun i => by
      rw [fdtTokenByte]
      omega
    have hrest := ih (p := p + fdtTokenByte)
      (fun i hi => by rw [hshift]; exact hnops (i + 1) (by omega)) (by rw [hshift]; exact htoken)
    rw [hshift] at hrest
    refine Settles.succ (hrest.congr fun fuel => ?_)
    rw [skipNop, hfirst]
    rfl

theorem skipString_settles (h : d.String p s) :
    Settles (fun fuel => d.skipString fuel p) (.ok (skipPadding (p + s.length + 1))) := by
  obtain ⟨hfree, hbytes⟩ := h
  induction s generalizing p with
  | nil =>
    refine Settles.succ ((Settles.const _).congr fun fuel => ?_)
    rw [skipString, if_neg (not_not.2 hbytes.1)]
    rfl
  | cons b s ih =>
    obtain ⟨hb, hs⟩ := not_or.1 (List.mem_cons.not.1 hfree)
    have hrest := ih hs hbytes.2
    have hlen : p + 1 + s.length + 1 = p + (s.length + 1) + 1 := by omega
    rw [hlen] at hrest
    refine Settles.succ (hrest.congr fun fuel => ?_)
    rw [skipString, if_pos (by rw [hbytes.1]; exact Ne.symm hb)]

/-- The name of a node up to its unit address. -/
def segment (name : List UInt8) : List UInt8 := name.takeWhile (· ≠ 0x40)

theorem compareString_settles (h : d.String p s) (hzero : 0 ∉ name) (hat : 0x40 ∉ name) :
    Settles (fun fuel => d.compareString fuel nodeDelimiter name p)
      (.ok (decide (segment s = name), skipPadding (p + s.length + 1))) := by
  induction name generalizing p s with
  | nil =>
    have hfound : (nodeDelimiter ++ [0]).contains (d.memory p) = decide (segment s = []) := by
      obtain ⟨hfree, hbytes⟩ := h
      cases s with
      | nil =>
        have hp : d.memory p = 0 := hbytes.1
        rw [hp]
        rfl
      | cons b s =>
        have hp : d.memory p = b := hbytes.1
        have hb : b ≠ 0 := fun hb => hfree (by simp [hb])
        by_cases hat : b = 0x40 <;> simp [hp, segment, nodeDelimiter, hat, hb]
    rw [← hfound]
    exact (skipString_settles h).map fun r =>
      r >>= fun pointer => pure ((nodeDelimiter ++ [0]).contains (d.memory p), pointer)
  | cons c name ih =>
    obtain ⟨hc, hzero⟩ := not_or.1 (List.mem_cons.not.1 hzero)
    obtain ⟨hcat, hat⟩ := not_or.1 (List.mem_cons.not.1 hat)
    have hfail : c ≠ d.memory p → segment s ≠ c :: name →
        Settles (fun fuel => d.compareString fuel nodeDelimiter (c :: name) p)
          (.ok (decide (segment s = c :: name), skipPadding (p + s.length + 1))) := by
      intro hne hseg
      rw [decide_eq_false hseg]
      refine ((skipString_settles h).map fun r => r >>= fun pointer => pure (false, pointer)).congr
        fun fuel => ?_
      rw [compareString, if_pos hne]
    cases s with
    | nil =>
      have hp : d.memory p = 0 := h.2.1
      exact hfail (by rw [hp]; exact Ne.symm hc) (by simp [segment])
    | cons b s =>
      have hp : d.memory p = b := h.2.1
      by_cases hcb : c = b
      · subst hcb
        have hrest := ih (p := p + 1) (s := s)
          ⟨fun hs => h.1 (List.mem_cons_of_mem c hs), h.2.2⟩ hzero hat
        have hlen : p + 1 + s.length + 1 = p + (c :: s).length + 1 := by
          rw [List.length_cons]
          omega
        have hseg : segment (c :: s) = c :: segment s := by
          simp [segment, Ne.symm hcat]
        have hsame : (segment (c :: s) = c :: name) = (segment s = name) := by simp [hseg]
        simp only [hsame]
        rw [hlen] at hrest
        refine hrest.congr fun fuel => ?_
        rw [compareString, if_neg (not_not.2 hp.symm)]
      · refine hfail (by rw [hp]; exact hcb) fun hseg => ?_
        rw [segment, List.takeWhile_cons] at hseg
        split_ifs at hseg
        exact hcb (List.cons.inj hseg).1.symm

theorem compareAt_eq (h : d.String p s) (hzero : 0 ∉ name) :
    d.compareAt [] name p = decide (s = name) := by
  obtain ⟨hfree, hbytes⟩ := h
  induction name generalizing p s with
  | nil =>
    cases s with
    | nil =>
      have hp : d.memory p = 0 := hbytes.1
      rw [compareAt, hp]
      rfl
    | cons b s =>
      have hp : d.memory p = b := hbytes.1
      have hb : b ≠ 0 := fun hb => hfree (by simp [hb])
      simp [compareAt, hp, hb]
  | cons c name ih =>
    obtain ⟨hc, hzero⟩ := not_or.1 (List.mem_cons.not.1 hzero)
    cases s with
    | nil =>
      have hp : d.memory p = 0 := hbytes.1
      simp [compareAt, hp, Ne.symm hc]
    | cons b s =>
      have hp : d.memory p = b := hbytes.1
      have hrest := ih hzero (fun hs => hfree (List.mem_cons_of_mem b hs)) hbytes.2
      rw [compareAt, hp, hrest]
      by_cases hcb : c = b
      · simp [hcb]
      · simp [hcb, Ne.symm hcb]

theorem compareNameSegment_eq (h : q.Holds d p) (hzero : 0 ∉ name) :
    d.compareNameSegment q.nameOffset name [] = .ok (decide (q.name = name)) := by
  rw [compareNameSegment, if_neg (not_le.2 h.named.1), compareAt_eq h.named.2 hzero]

/-- The cells after a property: a definition of cells replaces one of them. -/
def cellsAfter (d : Dtb) (q : Property) (p : ℕ) (cells : Cells) : Cells :=
  if q.name = propAddressCells then
    { cells with addressCells := fromBeBytes (d.bytes4 (p + 4 * q.nops + 12)) }
  else if q.name = propSizeCells then
    { cells with sizeCells := fromBeBytes (d.bytes4 (p + 4 * q.nops + 12)) }
  else cells

theorem checkAddressAndSizeCells_eq (h : q.Holds d p) (cells : Cells) :
    d.checkAddressAndSizeCells q.nameOffset (p + 4 * q.nops + 12) cells =
      .ok (d.cellsAfter q p cells) := by
  have hread : d.readNode (p + 4 * q.nops + 12) = .ok (d.bytes4 (p + 4 * q.nops + 12)) :=
    if_neg (not_le.2 h.inside)
  rw [checkAddressAndSizeCells, compareNameSegment_eq h (by decide),
    compareNameSegment_eq h (by decide), hread, cellsAfter]
  have hne : propSizeCells ≠ propAddressCells := by decide
  by_cases haddress : q.name = propAddressCells
  · simp [haddress, bind, Except.bind, pure, Except.pure]
  · by_cases hsize : q.name = propSizeCells <;>
      simp [haddress, hsize, hne, bind, Except.bind, pure, Except.pure]

/-! ## `compatible` -/

section Compatible

variable {info : DtbProperty} {compatible : List UInt8} {j : ℕ}

/-- Where the comparison with one string of the list stops. -/
theorem compareEntry_eq (h : d.String (info.address + j) s) (hzero : 0 ∉ compatible) :
    (s = compatible ∧ ∃ k, d.compareEntry info.address (compatible ++ [0]) j = (k, true)) ∨
      (s ≠ compatible ∧ ∃ u v, s = u ++ v ∧
        d.compareEntry info.address (compatible ++ [0]) j = (j + u.length, false)) := by
  obtain ⟨hfree, hbytes⟩ := h
  induction compatible generalizing j s with
  | nil =>
    cases s with
    | nil =>
      have hj : d.memory (info.address + j) = 0 := hbytes.1
      exact .inl ⟨rfl, j + 1, by simp [compareEntry, hj]⟩
    | cons b s =>
      have hj : d.memory (info.address + j) = b := hbytes.1
      have hb : b ≠ 0 := fun hb => hfree (by simp [hb])
      exact .inr ⟨by simp, [], b :: s, rfl, by simp [compareEntry, hj, hb]⟩
  | cons c compatible ih =>
    obtain ⟨hc, hrest⟩ := not_or.1 (List.mem_cons.not.1 hzero)
    cases s with
    | nil =>
      have hj : d.memory (info.address + j) = 0 := hbytes.1
      exact .inr ⟨by simp, [], [], rfl, by simp [compareEntry, hj, hc]⟩
    | cons b s =>
      have hj : d.memory (info.address + j) = b := hbytes.1
      by_cases hbc : b = c
      · subst hbc
        have hstep : d.compareEntry info.address (b :: compatible ++ [0]) j =
            d.compareEntry info.address (compatible ++ [0]) (j + 1) := by
          simp [compareEntry, hj]
        rw [hstep]
        obtain ⟨rfl, k, hk⟩ | ⟨hne, u, v, rfl, hk⟩ :=
          ih (j := j + 1) hrest (fun hs => hfree (List.mem_cons_of_mem b hs)) hbytes.2
        · exact .inl ⟨rfl, k, hk⟩
        · refine .inr ⟨by simpa using hne, b :: u, v, rfl, ?_⟩
          rw [hk, List.length_cons, Nat.add_right_comm, Nat.add_assoc]
      · exact .inr ⟨by simp [hbc], [], b :: s, rfl, by simp [compareEntry, hj, hbc]⟩

/-- The rest of a string is skipped. -/
theorem compatibleLoop_skip (h : d.String (info.address + j) s) (hlen : j + s.length < info.len)
    {r : Except Fault Bool}
    (hrest : Settles (fun fuel => d.compatibleLoop info compatible fuel (j + s.length + 1) false) r) :
    Settles (fun fuel => d.compatibleLoop info compatible fuel j true) r := by
  obtain ⟨hfree, hbytes⟩ := h
  induction s generalizing j with
  | nil =>
    have hj : d.memory (info.address + j) = 0 := hbytes.1
    refine Settles.succ (hrest.congr fun fuel => ?_)
    rw [compatibleLoop, if_pos (by simpa using hlen), if_pos rfl, hj]
    rfl
  | cons b s ih =>
    obtain ⟨hb, hs⟩ := not_or.1 (List.mem_cons.not.1 hfree)
    have hj : d.memory (info.address + j) = b := hbytes.1
    rw [List.length_cons] at hlen hrest
    have hlen' : j + (s.length + 1) = j + 1 + s.length := by omega
    rw [hlen'] at hlen hrest
    refine Settles.succ ((ih hlen hrest hs hbytes.2).congr fun fuel => ?_)
    rw [compatibleLoop, if_pos (by omega), if_pos rfl, hj]
    simp [Ne.symm hb]

/-- The list contains the string. -/
theorem compatibleLoop_settles {strings : List (List UInt8)} (hfree : ∀ s ∈ strings, 0 ∉ s)
    (hzero : 0 ∉ compatible) (hbytes : d.Bytes (info.address + j) (joined strings))
    (hlen : j + (joined strings).length = info.len) :
    Settles (fun fuel => d.compatibleLoop info compatible fuel j false)
      (.ok (decide (compatible ∈ strings))) := by
  induction strings generalizing j with
  | nil =>
    refine Settles.succ ((Settles.const _).congr fun fuel => ?_)
    rw [compatibleLoop, if_neg (by simp [joined] at hlen; omega)]
    rfl
  | cons s strings ih =>
    have hjoin : joined (s :: strings) = (s ++ [0]) ++ joined strings := by simp [joined]
    rw [hjoin] at hbytes hlen
    obtain ⟨hhead, htail⟩ := bytes_append.1 hbytes
    simp only [List.length_append, List.length_singleton] at hlen htail
    have hs : d.String (info.address + j) s := ⟨hfree s (by simp), hhead⟩
    obtain ⟨rfl, k, hk⟩ | ⟨hne, u, v, rfl, hk⟩ := compareEntry_eq hs hzero
    · refine Settles.succ ((Settles.const _).congr fun fuel => ?_)
      rw [compatibleLoop, if_pos (by omega), if_neg (by simp), hk]
      simp
    · have hv : d.String (info.address + (j + u.length)) v := by
        refine ⟨fun hv => hs.1 (List.mem_append_right u hv), ?_⟩
        have := (bytes_append.1 (by simpa using hs.2 : d.Bytes (info.address + j) (u ++ (v ++ [0])))).2
        rwa [Nat.add_assoc] at this
      have hpos : j + u.length + v.length + 1 = j + ((u ++ v).length + 1) := by
        rw [List.length_append]
        omega
      have hrest := ih (j := j + ((u ++ v).length + 1)) (fun t ht => hfree t (by simp [ht]))
        (by rwa [← Nat.add_assoc]) (by omega)
      have hmem : (compatible ∈ (u ++ v) :: strings) = (compatible ∈ strings) := by
        simp [Ne.symm hne]
      simp only [hmem]
      rw [← hpos] at hrest
      have hskip := compatibleLoop_skip hv (by rw [List.length_append] at hlen; omega) hrest
      refine Settles.succ (hskip.congr fun fuel => ?_)
      rw [compatibleLoop, if_pos (by omega), if_neg (by simp), hk]

end Compatible

end Dtb

end MiniVisor
