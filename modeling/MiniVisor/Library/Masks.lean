import Mathlib.Data.Nat.Bitwise
import Mathlib.Tactic

/-!
# Fields of machine words

A field of a word is a mask. Writing a field clears its mask and ors the new
value in; the lemmas below say what a read of the same or of another field sees.
The disjointness side conditions are closed terms and are left to `decide`.
-/
namespace Masks

variable {w : ℕ} {x m a v : BitVec w}

theorem or_and (x a v : BitVec w) : (x ||| a) &&& v = (x &&& v) ||| (a &&& v) := by
  rw [BitVec.and_comm, BitVec.and_or_distrib_left, BitVec.and_comm v x, BitVec.and_comm v a]

/-- A read of field `v` does not see a value that lies outside it. -/
theorem or_and_of_disjoint (h : a &&& v = 0#w) : (x ||| a) &&& v = x &&& v := by
  rw [or_and, h, BitVec.or_zero]

/-- A read of field `v` does not see the clearing of bits outside it. -/
theorem and_not_and_of_disjoint (h : m &&& v = 0#w) : (x &&& ~~~ m) &&& v = x &&& v := by
  have hv : ~~~ m &&& v = v := by
    ext i hi
    have hb := congrArg (fun y : BitVec w => y[i]) h
    simp only [BitVec.getElem_and, BitVec.getElem_not] at hb ⊢
    cases hm : m[i] <;> simp_all
  rw [BitVec.and_assoc, hv]

/-- A read of the written field sees the new value. -/
theorem write_and_self (ha : a &&& m = a) : ((x &&& ~~~ m) ||| a) &&& m = a := by
  have hm : ~~~ m &&& m = 0#w := by rw [BitVec.and_comm, BitVec.and_not_self]; rfl
  rw [or_and, ha, BitVec.and_assoc, hm, BitVec.and_zero, BitVec.zero_or]

/-- A read of another field does not see the write. -/
theorem write_and_of_disjoint (hm : m &&& v = 0#w) (ha : a &&& v = 0#w) :
    ((x &&& ~~~ m) ||| a) &&& v = x &&& v := by
  rw [or_and_of_disjoint ha, and_not_and_of_disjoint hm]

/-- Masking with one keeps the lowest bit. -/
theorem and_one : x &&& 1#w = if x.getLsbD 0 then 1#w else 0#w := by
  apply BitVec.eq_of_getLsbD_eq
  intro i hi
  rw [BitVec.getLsbD_and]
  by_cases h0 : i = 0
  · subst h0
    cases x.getLsbD 0 <;> simp
  · cases x.getLsbD 0 <;> simp [h0]

/-- A bit raised in a word. -/
theorem getLsbD_or_one (x : BitVec w) {l i : ℕ} (hi : i < w) :
    (x ||| (1#w <<< l)).getLsbD i = if i = l then true else x.getLsbD i := by
  rw [BitVec.getLsbD_or, BitVec.getLsbD_shiftLeft, BitVec.getLsbD_one]
  by_cases h : i = l
  · subst h
    simp [hi, show 0 < w by omega]
  · rw [if_neg h]
    by_cases hle : l ≤ i
    · have hne : i - l ≠ 0 := by omega
      simp [hne]
    · simp [Nat.lt_of_not_le hle]

/-- A bit cleared in a word. -/
theorem getLsbD_andNot_one (x : BitVec w) {l i : ℕ} (hi : i < w) :
    (x &&& ~~~ (1#w <<< l)).getLsbD i = if i = l then false else x.getLsbD i := by
  rw [BitVec.getLsbD_and, BitVec.getLsbD_not, BitVec.getLsbD_shiftLeft, BitVec.getLsbD_one]
  by_cases h : i = l
  · subst h
    simp [hi, show 0 < w by omega]
  · rw [if_neg h]
    by_cases hle : l ≤ i
    · have hne : i - l ≠ 0 := by omega
      simp [hi, hne]
    · simp [hi, Nat.lt_of_not_le hle]

/-- A bit tested in a word. -/
theorem and_bit_ne_zero (x : BitVec w) {l : ℕ} (hl : l < w) :
    x &&& (1#w <<< l) ≠ 0#w ↔ x.getLsbD l = true := by
  have hbit (i : ℕ) : (x &&& (1#w <<< l)).getLsbD i = (decide (i = l) && x.getLsbD l) := by
    rw [BitVec.getLsbD_and, BitVec.getLsbD_shiftLeft, BitVec.getLsbD_one]
    by_cases h : i = l
    · subst h
      simp [hl, show 0 < w by omega]
    · by_cases hle : l ≤ i
      · have hne : i - l ≠ 0 := by omega
        simp [h, hne]
      · simp [h, Nat.lt_of_not_le hle]
  constructor
  · intro hne
    by_contra hclear
    rw [Bool.not_eq_true] at hclear
    refine hne (BitVec.eq_of_getLsbD_eq fun i _ => ?_)
    rw [hbit, hclear, Bool.and_false, BitVec.getLsbD_zero]
  · intro hset hzero
    have hat := hbit l
    rw [hzero, hset, BitVec.getLsbD_zero] at hat
    simp at hat

/-! ## Bytes -/

/-- The byte of a word at bit `p`. -/
def byteAt (x : BitVec w) (p : ℕ) : BitVec 8 := (x >>> p).setWidth 8

theorem getLsbD_byteAt (x : BitVec w) (p k : ℕ) :
    (byteAt x p).getLsbD k = (decide (k < 8) && x.getLsbD (p + k)) := by
  rw [byteAt, BitVec.getLsbD_setWidth, BitVec.getLsbD_ushiftRight]

/-- Masking with `0xFF` keeps the lowest byte. -/
theorem and_ff (x : BitVec w) : x &&& BitVec.ofNat w 0xFF = (x.setWidth 8).setWidth w := by
  apply BitVec.eq_of_getLsbD_eq
  intro k hk
  have hff : (BitVec.ofNat w 0xFF).getLsbD k = decide (k < 8) := by
    rw [BitVec.getLsbD_ofNat, show 0xFF = 2 ^ 8 - 1 by norm_num, Nat.testBit_two_pow_sub_one]
    simp [hk]
  rw [BitVec.getLsbD_and, hff, BitVec.getLsbD_setWidth, BitVec.getLsbD_setWidth]
  by_cases h8 : k < 8 <;> simp [h8, hk]

/-- A read-modify-write of the field `[p, p + n)`, bit by bit. -/
theorem getLsbD_putField {n : ℕ} (hm : ∀ k, m.getLsbD k = decide (k < n ∧ k < w))
    (hv : ∀ k, n ≤ k → v.getLsbD k = false) (x : BitVec w) (p : ℕ) {k : ℕ} (hk : k < w) :
    ((x &&& ~~~ (m <<< p)) ||| (v <<< p)).getLsbD k =
      if p ≤ k ∧ k < p + n then v.getLsbD (k - p) else x.getLsbD k := by
  rw [BitVec.getLsbD_or, BitVec.getLsbD_and, BitVec.getLsbD_not, BitVec.getLsbD_shiftLeft,
    BitVec.getLsbD_shiftLeft, hm]
  by_cases hp : p ≤ k
  · have hlt : (k < p + n) ↔ (k - p < n) := by omega
    by_cases hin : k - p < n
    · simp [hk, hp, hlt, hin, show k - p < w by omega, show ¬ k < p by omega]
    · simp [hk, hp, hlt, hin, hv (k - p) (by omega)]
  · simp [hk, hp, show k < p by omega]

end Masks
