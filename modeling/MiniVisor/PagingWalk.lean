import MiniVisor.Paging
import MiniVisor.Library.Masks
import MiniVisor.Library.RadixTree

/-!
# Descriptors and the stage-2 walk

The descriptors that the code builds are read back by the walk as the output
address and the permissions they were built from, and the walk is a walk in a
radix tree with 512 cells to a table.
-/
namespace MiniVisor

namespace Paging

open Descriptor

/-! ## Fields of a descriptor -/

/-- A word by its upper 52 and its lower 12 bits. -/
def withLow (h : BitVec 52) (l : BitVec 12) : BitVec 64 := h ++ l

theorem withLow_or (h h' : BitVec 52) (l l' : BitVec 12) :
    withLow h l ||| withLow h' l' = withLow (h ||| h') (l ||| l') := BitVec.or_append

theorem withLow_and (h h' : BitVec 52) (l l' : BitVec 12) :
    withLow h l &&& withLow h' l' = withLow (h &&& h') (l &&& l') := BitVec.and_append

theorem ofNat_eq_withLow {pa : ℕ} (h : pa % 4096 = 0) :
    BitVec.ofNat 64 pa = withLow (BitVec.ofNat 52 (pa / 4096)) 0 := by
  apply BitVec.eq_of_toNat_eq
  have hzero : (0#12).toNat = 0 := rfl
  rw [withLow, BitVec.toNat_append, BitVec.toNat_ofNat, BitVec.toNat_ofNat]
  simp only [BitVec.ofNat_eq_ofNat, hzero, Nat.or_zero, Nat.shiftLeft_eq]
  omega

theorem withLow_toNat {pa c : ℕ} (h : pa % 4096 = 0) (hlt : pa < 2 ^ 48) (hc : c < 4096) :
    (withLow (BitVec.ofNat 52 (pa / 4096)) (BitVec.ofNat 12 c)).toNat = pa + c := by
  rw [withLow, BitVec.toNat_append, BitVec.toNat_ofNat, BitVec.toNat_ofNat,
    Nat.mod_eq_of_lt (by omega : c < 2 ^ 12), ← Nat.shiftLeft_add_eq_or_of_lt (by omega),
    Nat.shiftLeft_eq]
  omega

/-- The access permissions as the claim on S2AP has them: write, then read. -/
def accessBits (isReadable isWritable : Bool) : ℕ := 2 * isWritable.toNat + isReadable.toNat

theorem accessBits_lt (r w : Bool) : accessBits r w < 4 := by
  cases r <;> cases w <;> decide

theorem output_value {pa : ℕ} (h : pa % 4096 = 0) (r w : Bool) :
    (output pa (permissionBits r w)).value =
      withLow (BitVec.ofNat 52 (pa / 4096)) (BitVec.ofNat 12 (0x73C + 64 * accessBits r w)) := by
  have haf : af = withLow 0 0x400 := by decide
  have hs2ap : ~~~ s2ap = withLow (BitVec.allOnes 52) (~~~ 0xC0) := by decide
  have hattr : ~~~ attrIndex = withLow (BitVec.allOnes 52) (~~~ 0x3C) := by decide
  have hwb : attrWriteBack = withLow 0 0x3C := by decide
  have hsh : ~~~ sh = withLow (BitVec.allOnes 52) (~~~ 0x300) := by decide
  have hin : Shareability.innerShareable.bits <<< 8 = withLow 0 0x300 := by decide
  have hperm : permissionBits r w <<< 6 = withLow 0 (BitVec.ofNat 12 (64 * accessBits r w)) := by
    cases r <;> cases w <;> decide
  simp only [output, new, setOutputAddress, setPermission, setMemoryAttributeWriteBack,
    setShareability, ofNat_eq_withLow h, haf, hs2ap, hattr, hwb, hsh, hin, hperm]
  simp only [BitVec.ofNat_eq_ofNat, BitVec.zero_and, BitVec.zero_or, withLow_or, withLow_and,
    BitVec.or_zero, BitVec.and_allOnes]
  congr 1
  cases r <;> cases w <;> decide

theorem page_toNat {pa : ℕ} (h : pa % 4096 = 0) (hlt : pa < 2 ^ 48) (r w : Bool) :
    (page pa (permissionBits r w)).value.toNat = pa + (0x73F + 64 * accessBits r w) := by
  have hvalid : (0b11 : BitVec 64) = withLow 0 0b11 := by decide
  have hlow : BitVec.ofNat 12 (0x73C + 64 * accessBits r w) ||| 0b11 =
      BitVec.ofNat 12 (0x73F + 64 * accessBits r w) := by
    cases r <;> cases w <;> decide
  have hperm := accessBits_lt r w
  rw [page, validateAsPageDescriptor, output_value h, hvalid, withLow_or, hlow]
  simp only [BitVec.ofNat_eq_ofNat, BitVec.or_zero]
  exact withLow_toNat h hlt (by omega)

theorem block_toNat {pa : ℕ} (h : pa % 4096 = 0) (hlt : pa < 2 ^ 48) (r w : Bool) :
    (block pa (permissionBits r w)).value.toNat = pa + (0x73D + 64 * accessBits r w) := by
  have hvalid : (0b01 : BitVec 64) = withLow 0 0b01 := by decide
  have hlow : BitVec.ofNat 12 (0x73C + 64 * accessBits r w) ||| 0b01 =
      BitVec.ofNat 12 (0x73D + 64 * accessBits r w) := by
    cases r <;> cases w <;> decide
  have hperm := accessBits_lt r w
  rw [block, validateAsBlockDescriptor, output_value h, hvalid, withLow_or, hlow]
  simp only [BitVec.ofNat_eq_ofNat, BitVec.or_zero]
  exact withLow_toNat h hlt (by omega)

theorem table_toNat {q : ℕ} (h : q % 4096 = 0) (hlt : q < 2 ^ 48) :
    (table q).value.toNat = q + 0x403 := by
  have hvalid : (0b11 : BitVec 64) = withLow 0 0b11 := by decide
  have haf : af = withLow 0 0x400 := by decide
  rw [table, validateAsTableDescriptor, setOutputAddress, new, hvalid, haf, ofNat_eq_withLow h]
  simp only [BitVec.ofNat_eq_ofNat, BitVec.zero_and, BitVec.zero_or, withLow_or, BitVec.or_zero]
  exact withLow_toNat (c := 0x403) h hlt (by omega)

/-- The two low bits, as a number. -/
theorem and_three_eq (v : BitVec 64) (k : ℕ) (hk : k < 4) :
    v &&& 0b11 = BitVec.ofNat 64 k ↔ v.toNat % 4 = k := by
  have hand : (v &&& 0b11#64).toNat = v.toNat % 4 := by
    rw [BitVec.toNat_and]
    exact Nat.and_two_pow_sub_one_eq_mod v.toNat 2
  rw [← hand]
  constructor
  · intro heq
    rw [show v &&& 0b11#64 = BitVec.ofNat 64 k from heq, BitVec.toNat_ofNat]
    omega
  · intro heq
    apply BitVec.eq_of_toNat_eq
    rw [BitVec.toNat_ofNat]
    exact heq.trans (by omega)

theorem isTableDescriptor_iff (d : Descriptor) :
    d.isTableDescriptor = true ↔ d.value.toNat % 4 = 3 := by
  rw [isTableDescriptor, beq_iff_eq]
  exact and_three_eq d.value 3 (by decide)

theorem isLeaf_iff (depth : ℕ) (d : Descriptor) :
    isLeaf depth d = true ↔ d.value.toNat / 1024 % 2 = 1 ∧
      if depth = 0 then d.value.toNat % 4 = 3 else depth ≤ 2 ∧ d.value.toNat % 4 = 1 := by
  have haf : d.value.getLsbD 10 = true ↔ d.value.toNat / 1024 % 2 = 1 := by
    rw [BitVec.getLsbD, Nat.testBit_eq_decide_div_mod_eq, decide_eq_true_iff]
  rw [isLeaf, Bool.and_eq_true, haf]
  split_ifs with hzero
  · rw [beq_iff_eq]
    exact and_congr_right fun _ => and_three_eq d.value 3 (by decide)
  · rw [Bool.and_eq_true, decide_eq_true_iff, beq_iff_eq]
    exact and_congr_right fun _ => and_congr_right fun _ => and_three_eq d.value 1 (by decide)

theorem getNextLevelTableAddress_eq {d : Descriptor} (h : d.value.toNat < 2 ^ 48) :
    d.getNextLevelTableAddress = walkTableAddress d := by
  have hmask : tableAddressMask.toNat = (2 ^ 40 - 1) <<< 12 := by decide
  rw [getNextLevelTableAddress, walkTableAddress, BitVec.toNat_and, hmask]
  have hand : d.value.toNat &&& (2 ^ 40 - 1) <<< 12 =
      ((d.value.toNat >>> 12) &&& (2 ^ 40 - 1)) <<< 12 := by
    apply Nat.eq_of_testBit_eq
    intro i
    simp only [Nat.testBit_and, Nat.testBit_shiftLeft, Nat.testBit_shiftRight]
    by_cases hi : 12 ≤ i
    · simp [hi]
    · simp [hi]
  rw [hand, Nat.and_two_pow_sub_one_eq_mod, Nat.shiftRight_eq_div_pow, Nat.shiftLeft_eq]
  omega

/-! ## What the walk reads back -/

theorem leaf_page {pa : ℕ} (h : pa % 4096 = 0) (hlt : pa < 2 ^ 48) (r w : Bool) (x : ℕ) :
    leaf 0 (page pa (permissionBits r w)) x = some (pa + x % 4096, accessBits r w) := by
  have hperm := accessBits_lt r w
  have hvalue := page_toNat h hlt r w
  have hleaf : isLeaf 0 (page pa (permissionBits r w)) = true := by
    rw [isLeaf_iff, hvalue, if_pos rfl]
    omega
  rw [leaf, if_pos hleaf, hvalue, Option.some.injEq, Prod.mk.injEq]
  omega

theorem leaf_block {pa depth : ℕ} (hdepth : 1 ≤ depth) (hle : depth ≤ 2)
    (h : pa % 2 ^ (12 + 9 * depth) = 0) (hlt : pa < 2 ^ 48) (r w : Bool) (x : ℕ) :
    leaf depth (block pa (permissionBits r w)) x =
      some (pa + x % 2 ^ (12 + 9 * depth), accessBits r w) := by
  have hperm := accessBits_lt r w
  have hpage : pa % 4096 = 0 := by
    have hdvd : 4096 ∣ 2 ^ (12 + 9 * depth) := pow_dvd_pow 2 (by omega : 12 ≤ 12 + 9 * depth)
    exact Nat.mod_eq_zero_of_dvd (hdvd.trans (Nat.dvd_of_mod_eq_zero h))
  have hvalue := block_toNat hpage hlt r w
  have hleaf : isLeaf depth (block pa (permissionBits r w)) = true := by
    rw [isLeaf_iff, hvalue, if_neg (by omega)]
    omega
  rw [leaf, if_pos hleaf, hvalue, Option.some.injEq, Prod.mk.injEq]
  have hcases : depth = 1 ∨ depth = 2 := by omega
  obtain rfl | rfl := hcases <;> omega

theorem isTableDescriptor_block {pa : ℕ} (h : pa % 4096 = 0) (r w : Bool) :
    (block pa (permissionBits r w)).isTableDescriptor = false := by
  have hlow : BitVec.ofNat 12 (0x73C + 64 * accessBits r w) &&& 0b11 = 0 := by
    cases r <;> cases w <;> decide
  have hmask : (0b11 : BitVec 64) = withLow 0 0b11 := by decide
  have hvalid : (0b01 : BitVec 64) = withLow 0 0b01 := by decide
  have hand : (block pa (permissionBits r w)).value &&& 0b11 = 0b01 := by
    rw [block, validateAsBlockDescriptor, output_value h, Masks.or_and, hmask, withLow_and, hlow,
      hvalid, withLow_and]
    simp only [BitVec.ofNat_eq_ofNat, BitVec.and_zero, withLow_or]
    decide
  rw [isTableDescriptor, hand]
  decide

theorem isTableDescriptor_table {q : ℕ} (h : q % 4096 = 0) (hlt : q < 2 ^ 47) :
    (table q).isTableDescriptor = true ∧ walkTableAddress (table q) = q ∧
      (table q).getNextLevelTableAddress = q := by
  have hvalue := table_toNat h (by omega : q < 2 ^ 48)
  have hwalk : walkTableAddress (table q) = q := by
    rw [walkTableAddress, hvalue]
    omega
  refine ⟨?_, hwalk, ?_⟩
  · rw [isTableDescriptor_iff, hvalue]
    omega
  · rw [getNextLevelTableAddress_eq (by rw [hvalue]; omega), hwalk]

theorem leaf_new (depth x : ℕ) : leaf depth new x = none := by
  have hleaf : ¬isLeaf depth new = true := by
    rw [isLeaf_iff]
    rintro ⟨haf, -⟩
    exact absurd haf (by decide)
  rw [leaf, if_neg hleaf]

/-! ## The walk as a walk in a radix tree -/

def layout : RadixTree.Layout where
  fanout := 512
  stride := 8
  unit := 4096
  fanout_pos := by decide
  stride_pos := by decide
  unit_pos := by decide

theorem layout_size (depth : ℕ) : layout.size depth = 2 ^ (12 + 9 * depth) := by
  rw [RadixTree.Layout.size, pow_add, pow_mul]
  rfl

/-- The table that a descriptor above level 3 points to. -/
def nextTable (d : Descriptor) : Option ℕ :=
  if d.isTableDescriptor then some (walkTableAddress d) else none

theorem nextTable_eq_none {d : Descriptor} (h : d.isTableDescriptor = false) :
    nextTable d = none := by
  rw [nextTable, h]
  rfl

theorem nextTable_eq_some {d : Descriptor} {q : ℕ} (h : nextTable d = some q) :
    d.isTableDescriptor = true ∧ q = walkTableAddress d := by
  unfold nextTable at h
  split_ifs at h with htable
  exact ⟨htable, (Option.some.inj h).symm⟩

theorem nextTable_table {q : ℕ} (h : q % 4096 = 0) (hlt : q < 2 ^ 47) :
    nextTable (table q) = some q := by
  obtain ⟨htable, hwalk, -⟩ := isTableDescriptor_table h hlt
  rw [nextTable, if_pos htable, hwalk]

theorem nextTable_new : nextTable new = none := nextTable_eq_none (by decide)

abbrev descend (memory : Memory) (depth a x : ℕ) : ℕ × Descriptor :=
  RadixTree.descend layout nextTable memory depth a x

theorem walk_eq (memory : Memory) (depth a x : ℕ) :
    walk memory depth a x =
      leaf (descend memory depth a x).1 (descend memory depth a x).2 x := by
  induction depth generalizing a with
  | zero => rfl
  | succ depth ih =>
    have hslot : ∀ q, layout.slot q depth x = q + 8 * (x / 2 ^ (12 + 9 * depth) % 512) := by
      intro q
      rw [RadixTree.Layout.slot, RadixTree.Layout.region, layout_size]
      rfl
    have hwalk : walk memory (depth + 1) a x = if (memory a).isTableDescriptor = true then
        walk memory depth (walkTableAddress (memory a) + 8 * (x / 2 ^ (12 + 9 * depth) % 512)) x
      else leaf (depth + 1) (memory a) x := rfl
    rw [hwalk]
    by_cases htable : (memory a).isTableDescriptor = true
    · have hnext : nextTable (memory a) = some (walkTableAddress (memory a)) := if_pos htable
      rw [if_pos htable, ih, descend, descend, RadixTree.descend_of_next hnext, hslot]
    · have hnext : nextTable (memory a) = none := if_neg htable
      rw [if_neg htable, descend, RadixTree.descend_of_none hnext]

/-- Addresses that the walk does not tell apart have both a translation or both none. -/
theorem leaf_isSome (depth : ℕ) (d : Descriptor) (x : ℕ) :
    (leaf depth d x).isSome = isLeaf depth d := by
  unfold leaf
  split_ifs with h <;> simp [h]

end Paging

end MiniVisor
