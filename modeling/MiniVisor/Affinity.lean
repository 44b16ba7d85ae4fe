import MiniVisor.TriggerOutcomes

/-!
# Affinities and the injection SGI

The four affinity bytes of a CPU appear in four layouts: `MPIDR_EL1` and the
routing registers, `GICR_TYPER`, the packed 32-bit form, and `ICC_SGI1R_EL1`.
The decoders below follow the architecture; the encoders are the source's. All
agree but the last one, which shifts `Aff1` by 48 and not by 16.
-/
namespace MiniVisor

open Masks

/-- A processing element, named by its affinity bytes. -/
structure Pe where
  aff3 : BitVec 8
  aff2 : BitVec 8
  aff1 : BitVec 8
  aff0 : BitVec 8
  deriving DecidableEq

namespace Pe

/-- Layout of `MPIDR_EL1` and `GICD_IROUTER`. -/
def ofAffinity (x : BitVec 64) : Pe := ⟨byteAt x 32, byteAt x 16, byteAt x 8, byteAt x 0⟩

/-- Layout of `GICR_TYPER`. -/
def ofTyper (x : BitVec 64) : Pe := ⟨byteAt x 56, byteAt x 48, byteAt x 40, byteAt x 32⟩

/-- Layout of a packed affinity. -/
def ofPacked (x : BitVec 32) : Pe := ⟨byteAt x 24, byteAt x 16, byteAt x 8, byteAt x 0⟩

end Pe

/-- The interrupt that an `ICC_SGI1R_EL1` value raises. -/
def sgiIntId (value : BitVec 64) : BitVec 4 := (value >>> 24).setWidth 4

/-- The processing elements that an `ICC_SGI1R_EL1` value names. -/
def sgiTargets (value : BitVec 64) : Set Pe :=
  {pe | pe.aff3 = byteAt value 48 ∧ pe.aff2 = byteAt value 32 ∧ pe.aff1 = byteAt value 16 ∧
    pe.aff0.toNat < 16 ∧ value.getLsbD pe.aff0.toNat = true}

/-! ## The affinity fields of the source -/

theorem getLsbD_mask40 : ∀ i < 64, ((1#64 <<< 40) - 1).getLsbD i = decide (i < 40) := by decide
theorem getLsbD_mask24 : ∀ i < 64, ((1#64 <<< 24) - 1#64).getLsbD i = decide (i < 24) := by decide
theorem getLsbD_mask16 : ∀ i < 64, ((1#64 <<< 16) - 1).getLsbD i = decide (i < 16) := by decide
theorem getLsbD_mask8 : ∀ i < 64, ((1#64 <<< 8) - 1).getLsbD i = decide (i < 8) := by decide

/-- Cutting off above bit `p + 8` and shifting down by `p` leaves the byte at `p`. -/
theorem masked_shift_eq_byteAt (x mask : BitVec 64) (p : ℕ) (hp : p + 8 ≤ 64)
    (hmask : ∀ i < 64, mask.getLsbD i = decide (i < p + 8)) :
    (x &&& mask) >>> p = (byteAt x p).setWidth 64 := by
  apply BitVec.eq_of_getLsbD_eq
  intro k hk
  rw [BitVec.getLsbD_ushiftRight, BitVec.getLsbD_and, BitVec.getLsbD_setWidth, getLsbD_byteAt]
  by_cases h8 : k < 8
  · rw [hmask (p + k) (by omega)]
    simp [h8, hk]
  · by_cases h64 : p + k < 64
    · rw [hmask (p + k) h64]
      simp [h8]
    · rw [BitVec.getLsbD_of_ge x (p + k) (by omega)]
      simp [h8]

theorem aff3_eq (x : BitVec 64) : aff3 x = (byteAt x 32).setWidth 64 :=
  masked_shift_eq_byteAt x _ 32 (by decide) getLsbD_mask40

theorem aff2_eq (x : BitVec 64) : aff2 x = (byteAt x 16).setWidth 64 :=
  masked_shift_eq_byteAt x _ 16 (by decide) getLsbD_mask24

theorem aff1_eq (x : BitVec 64) : aff1 x = (byteAt x 8).setWidth 64 :=
  masked_shift_eq_byteAt x _ 8 (by decide) getLsbD_mask16

theorem aff0_eq (x : BitVec 64) : aff0 x = (byteAt x 0).setWidth 64 := by
  rw [← masked_shift_eq_byteAt x _ 0 (by decide) getLsbD_mask8, BitVec.ushiftRight_zero, aff0]

theorem toNat_aff0 (x : BitVec 64) : (aff0 x).toNat = (byteAt x 0).toNat := by
  rw [aff0_eq, BitVec.toNat_setWidth]
  exact Nat.mod_eq_of_lt (by have := (byteAt x 0).isLt; omega)

/-- A byte shifted to bit `p`, as it stands in a 64-bit register. -/
theorem getLsbD_byte_shiftLeft (b : BitVec 8) (p : ℕ) {k : ℕ} (hk : k < 64) :
    ((b.setWidth 64 : BitVec 64) <<< p).getLsbD k =
      (decide (p ≤ k) && b.getLsbD (k - p)) := by
  rw [BitVec.getLsbD_shiftLeft, BitVec.getLsbD_setWidth]
  by_cases hp : p ≤ k
  · simp [hk, hp, show k - p < 64 by omega]
  · simp [hp]

/-! ## The value written to `ICC_SGI1R_EL1` -/

theorem getLsbD_injectIntId : ∀ k < 64, (injectInterruptIntId.setWidth 64 <<< 24).getLsbD k =
    decide (k = 24 ∨ k = 25 ∨ k = 27) := by decide

theorem getLsbD_injectSgi (a : BitVec 64) {k : ℕ} (hk : k < 64) :
    (injectSgi a).getLsbD k =
      ((decide (48 ≤ k) && ((byteAt a 32).getLsbD (k - 48) || (byteAt a 8).getLsbD (k - 48))) ||
        (decide (32 ≤ k) && (byteAt a 16).getLsbD (k - 32)) ||
        decide (k = 24 ∨ k = 25 ∨ k = 27) || decide (k = (byteAt a 0).toNat)) := by
  have hbit : (1#64 <<< (aff0 a).toNat).getLsbD k = decide (k = (byteAt a 0).toNat) := by
    rw [toNat_aff0, ← BitVec.twoPow_eq, BitVec.getLsbD_twoPow]
    by_cases h : k = (byteAt a 0).toNat
    · simp [← h, hk]
    · simp [h, Ne.symm h]
  simp only [injectSgi, aff3_eq, aff2_eq, aff1_eq, BitVec.getLsbD_or, hbit, getLsbD_injectIntId k hk,
    getLsbD_byte_shiftLeft _ _ hk]
  cases decide (48 ≤ k) <;> cases (byteAt a 32).getLsbD (k - 48) <;>
    cases (byteAt a 8).getLsbD (k - 48) <;> simp

theorem byteAt_getLsbD_of_ge (a : BitVec 64) (p : ℕ) {k : ℕ} (hk : 8 ≤ k) :
    (byteAt a p).getLsbD k = false :=
  BitVec.getLsbD_of_ge _ k hk

/-- The `Aff3` field of the value mixes `Aff3` and `Aff1` of the target. -/
theorem byteAt_injectSgi_aff3 (a : BitVec 64) (haff0 : (byteAt a 0).toNat < 16) :
    byteAt (injectSgi a) 48 = byteAt a 32 ||| byteAt a 8 := by
  apply BitVec.eq_of_getLsbD_eq
  intro k hk
  rw [getLsbD_byteAt, getLsbD_injectSgi a (by omega), BitVec.getLsbD_or,
    byteAt_getLsbD_of_ge a 16 (by omega : 8 ≤ 48 + k - 32)]
  have hone : ¬ (48 + k = (byteAt a 0).toNat) := by omega
  simp [hk, hone, show ¬ (48 + k = 24 ∨ 48 + k = 25 ∨ 48 + k = 27) by omega]

theorem byteAt_injectSgi_aff2 (a : BitVec 64) (haff0 : (byteAt a 0).toNat < 16) :
    byteAt (injectSgi a) 32 = byteAt a 16 := by
  apply BitVec.eq_of_getLsbD_eq
  intro k hk
  rw [getLsbD_byteAt, getLsbD_injectSgi a (by omega)]
  have hone : ¬ (32 + k = (byteAt a 0).toNat) := by omega
  simp [hk, hone, show ¬ 48 ≤ 32 + k by omega,
    show ¬ (32 + k = 24 ∨ 32 + k = 25 ∨ 32 + k = 27) by omega]

/-- The `Aff1` field of the value is always zero. -/
theorem byteAt_injectSgi_aff1 (a : BitVec 64) (haff0 : (byteAt a 0).toNat < 16) :
    byteAt (injectSgi a) 16 = 0#8 := by
  apply BitVec.eq_of_getLsbD_eq
  intro k hk
  rw [getLsbD_byteAt, getLsbD_injectSgi a (by omega)]
  have hone : ¬ (16 + k = (byteAt a 0).toNat) := by omega
  simp [hone, show ¬ 48 ≤ 16 + k by omega, show ¬ 32 ≤ 16 + k by omega,
    show ¬ (16 + k = 24 ∨ 16 + k = 25 ∨ 16 + k = 27) by omega]

theorem getLsbD_injectSgi_list (a : BitVec 64) {k : ℕ} (hk : k < 16) :
    (injectSgi a).getLsbD k = decide (k = (byteAt a 0).toNat) := by
  rw [getLsbD_injectSgi a (by omega)]
  simp [show ¬ 48 ≤ k by omega, show ¬ 32 ≤ k by omega,
    show ¬ (k = 24 ∨ k = 25 ∨ k = 27) by omega]

theorem sgiIntId_injectSgi (a : BitVec 64) (haff0 : (byteAt a 0).toNat < 16) :
    sgiIntId (injectSgi a) = 11#4 := by
  apply BitVec.eq_of_getLsbD_eq
  intro k hk
  rw [sgiIntId, BitVec.getLsbD_setWidth, BitVec.getLsbD_ushiftRight,
    getLsbD_injectSgi a (by omega)]
  have hone : ¬ (24 + k = (byteAt a 0).toNat) := by omega
  have hcases : k = 0 ∨ k = 1 ∨ k = 2 ∨ k = 3 := by omega
  obtain rfl | rfl | rfl | rfl := hcases <;> simp [hone]

/-- The value names the intended target, and no other, exactly when `Aff1` is zero. -/
theorem sgiTargets_injectSgi_iff (a : BitVec 64) (haff0 : (byteAt a 0).toNat < 16) :
    sgiTargets (injectSgi a) = {Pe.ofAffinity a} ↔ byteAt a 8 = 0#8 := by
  constructor
  · intro h
    have hmem : Pe.ofAffinity a ∈ sgiTargets (injectSgi a) := h ▸ Set.mem_singleton _
    exact hmem.2.2.1.trans (byteAt_injectSgi_aff1 a haff0)
  · intro hzero
    ext pe
    simp only [sgiTargets, Set.mem_ofPred_eq, Set.mem_singleton_iff, byteAt_injectSgi_aff3 a haff0,
      byteAt_injectSgi_aff2 a haff0, byteAt_injectSgi_aff1 a haff0, hzero, BitVec.or_zero]
    constructor
    · rintro ⟨h3, h2, h1, h0, hbit⟩
      rw [getLsbD_injectSgi_list a h0] at hbit
      have heq : pe.aff0 = byteAt a 0 := BitVec.eq_of_toNat_eq (of_decide_eq_true hbit)
      cases pe
      simp_all [Pe.ofAffinity]
    · rintro rfl
      refine ⟨rfl, rfl, hzero, haff0, ?_⟩
      exact (getLsbD_injectSgi_list a haff0).trans (decide_eq_true rfl)

/-! ## The other two layouts -/

theorem getLsbD_typerLast : ∀ k < 64, (gicrTyperLast.setWidth 64).getLsbD k = decide (k = 4) := by
  decide

theorem getLsbD_generateTyper (r : GicRedistributorMmio) {k : ℕ} (hk : k < 64) :
    r.generateTyper.getLsbD k =
      (decide (k = 4) || (decide (32 ≤ k) && (byteAt r.affinity 0).getLsbD (k - 32)) ||
        (decide (40 ≤ k) && (byteAt r.affinity 8).getLsbD (k - 40)) ||
        (decide (48 ≤ k) && (byteAt r.affinity 16).getLsbD (k - 48)) ||
        (decide (56 ≤ k) && (byteAt r.affinity 32).getLsbD (k - 56))) := by
  simp only [GicRedistributorMmio.generateTyper, aff3_eq, aff2_eq, aff1_eq, aff0_eq,
    BitVec.getLsbD_or, getLsbD_typerLast k hk, getLsbD_byte_shiftLeft _ _ hk]

theorem ofTyper_generateTyper (r : GicRedistributorMmio) :
    Pe.ofTyper r.generateTyper = Pe.ofAffinity r.affinity := by
  have hfield : ∀ p q : ℕ, (p = 32 ∧ q = 0) ∨ (p = 40 ∧ q = 8) ∨ (p = 48 ∧ q = 16) ∨
      (p = 56 ∧ q = 32) → byteAt r.generateTyper p = byteAt r.affinity q := by
    intro p q hpq
    apply BitVec.eq_of_getLsbD_eq
    intro k hk
    rw [getLsbD_byteAt, getLsbD_generateTyper r (by omega)]
    obtain ⟨rfl, rfl⟩ | ⟨rfl, rfl⟩ | ⟨rfl, rfl⟩ | ⟨rfl, rfl⟩ := hpq
    · simp [hk, show ¬ 32 + k = 4 by omega, show ¬ 40 ≤ 32 + k by omega,
        show ¬ 48 ≤ 32 + k by omega, show ¬ 56 ≤ 32 + k by omega]
    · rw [byteAt_getLsbD_of_ge r.affinity 0 (by omega : 8 ≤ 40 + k - 32)]
      simp [hk, show ¬ 40 + k = 4 by omega, show ¬ 48 ≤ 40 + k by omega,
        show ¬ 56 ≤ 40 + k by omega]
    · rw [byteAt_getLsbD_of_ge r.affinity 0 (by omega : 8 ≤ 48 + k - 32),
        byteAt_getLsbD_of_ge r.affinity 8 (by omega : 8 ≤ 48 + k - 40)]
      simp [hk, show ¬ 48 + k = 4 by omega, show ¬ 56 ≤ 48 + k by omega]
    · rw [byteAt_getLsbD_of_ge r.affinity 0 (by omega : 8 ≤ 56 + k - 32),
        byteAt_getLsbD_of_ge r.affinity 8 (by omega : 8 ≤ 56 + k - 40),
        byteAt_getLsbD_of_ge r.affinity 16 (by omega : 8 ≤ 56 + k - 48)]
      simp [hk, show ¬ 56 + k = 4 by omega]
  simp only [Pe.ofTyper, Pe.ofAffinity, hfield 56 32 (by omega), hfield 48 16 (by omega),
    hfield 40 8 (by omega), hfield 32 0 (by omega)]

theorem getLsbD_affinityMask : ∀ k < 64,
    (~~~ ((1#64 <<< 31) ||| (1#64 <<< 30))).getLsbD k = decide (k ≠ 30 ∧ k ≠ 31) := by decide

theorem getLsbD_aff3Mask : ∀ k < 64,
    (0xff#64 <<< 32).getLsbD k = decide (32 ≤ k ∧ k < 40) := by decide

theorem getLsbD_getPackedAffinity (mpidr : BitVec 64) {k : ℕ} (hk : k < 32) :
    (getPackedAffinity mpidr).getLsbD k =
      if k < 24 then mpidr.getLsbD k else mpidr.getLsbD (8 + k) := by
  have hclear : ∀ j < 64, (mpidrToAffinity mpidr).getLsbD j =
      (mpidr.getLsbD j && decide (j ≠ 30 ∧ j ≠ 31)) := fun j hj => by
    rw [mpidrToAffinity, BitVec.getLsbD_and, getLsbD_affinityMask j hj]
  rw [getPackedAffinity, BitVec.getLsbD_setWidth, BitVec.getLsbD_or, BitVec.getLsbD_and,
    BitVec.getLsbD_ushiftRight, BitVec.getLsbD_and, getLsbD_mask24 k (by omega),
    show 32 - 24 = 8 from rfl, getLsbD_aff3Mask (8 + k) (by omega), hclear k (by omega),
    hclear (8 + k) (by omega)]
  by_cases h24 : k < 24
  · simp [hk, h24, show k ≠ 30 ∧ k ≠ 31 by omega, show ¬ 32 ≤ 8 + k by omega]
  · simp [hk, h24, show 8 + k ≠ 30 ∧ 8 + k ≠ 31 by omega, show 32 ≤ 8 + k ∧ 8 + k < 40 by omega]

theorem ofPacked_getPackedAffinity (mpidr : BitVec 64) :
    Pe.ofPacked (getPackedAffinity mpidr) = Pe.ofAffinity (mpidrToAffinity mpidr) := by
  have hbyte : ∀ p q : ℕ, (p < 24 ∧ p + 8 ≤ 24 ∧ q = p) ∨ (p = 24 ∧ q = 32) →
      byteAt (getPackedAffinity mpidr) p = byteAt (mpidrToAffinity mpidr) q := by
    intro p q hpq
    apply BitVec.eq_of_getLsbD_eq
    intro k hk
    rw [getLsbD_byteAt, getLsbD_byteAt, getLsbD_getPackedAffinity mpidr (by omega), mpidrToAffinity,
      BitVec.getLsbD_and, getLsbD_affinityMask (q + k) (by omega)]
    have hkeep : q + k ≠ 30 ∧ q + k ≠ 31 := by omega
    obtain ⟨_, _, rfl⟩ | ⟨rfl, rfl⟩ := hpq
    · simp [hkeep, show q + k < 24 by omega]
    · simp [hkeep, show 8 + (24 + k) = 32 + k by omega]
  simp only [Pe.ofPacked, Pe.ofAffinity, hbyte 24 32 (by omega), hbyte 16 16 (by omega),
    hbyte 8 8 (by omega), hbyte 0 0 (by omega)]

/-! ## The remote path -/

/-- The value raises the injection interrupt on the one PE with this affinity, which is
the PE that `GICR_TYPER` and the packed affinity name. -/
structure Reaches (value affinity : BitVec 64) : Prop where
  intId : sgiIntId value = 11#4
  targets : sgiTargets value = {Pe.ofAffinity affinity}
  typer : ∀ r : GicRedistributorMmio, r.affinity = affinity →
    Pe.ofTyper r.generateTyper = Pe.ofAffinity affinity
  packed : ∀ mpidr, mpidrToAffinity mpidr = affinity →
    Pe.ofPacked (getPackedAffinity mpidr) = Pe.ofAffinity affinity

theorem reaches_injectSgi_iff (a : BitVec 64) (haff0 : (aff0 a).toNat < 16) :
    Reaches (injectSgi a) a ↔ aff1 a = 0#64 := by
  rw [toNat_aff0] at haff0
  have hzero : aff1 a = 0#64 ↔ byteAt a 8 = 0#8 := by
    rw [aff1_eq]
    refine ⟨fun h => ?_, fun h => by rw [h]; rfl⟩
    have hback := congrArg (BitVec.setWidth 8) h
    simpa using hback
  rw [hzero, ← sgiTargets_injectSgi_iff a haff0]
  refine ⟨fun h => h.targets, fun h => ⟨sgiIntId_injectSgi a haff0, h, ?_, ?_⟩⟩
  · rintro r rfl
    exact ofTyper_generateTyper r
  · rintro mpidr rfl
    exact ofPacked_getPackedAffinity mpidr

/-- A trigger that raises an SGI reaches the CPU of the route exactly when its `Aff1` is
zero; so does one of the redistributor for the CPU of its affinity. -/
theorem injection_reaches_iff (cpu : Pcpu) (intId : BitVec 32) (physicalIntId : Option (BitVec 32)) :
    (∀ (d : GicDistributorMmio) (s' : GicDistributorMmio × Pcpu),
      d.triggerInterrupt cpu intId physicalIntId = some s' →
      s'.2.sgis ≠ cpu.sgis → ∃ router value, d.getRouter intId = some router ∧
        (aff0 router).toNat < 16 ∧ s'.2.sgis = cpu.sgis ++ [value] ∧
        (Reaches value router ↔ aff1 router = 0#64)) ∧
    (∀ (r : GicRedistributorMmio) (s' : GicRedistributorMmio × Pcpu),
      r.triggerInterrupt cpu intId physicalIntId = some s' →
      s'.2.sgis ≠ cpu.sgis → (aff0 r.affinity).toNat < 16 ∧ ∃ value,
        s'.2.sgis = cpu.sgis ++ [value] ∧ (Reaches value r.affinity ↔ aff1 r.affinity = 0#64)) := by
  constructor
  · intro d s' h hsgi
    by_cases hid : intId.toNat < 1024
    · have ho := d.triggerInterrupt_outcome cpu physicalIntId hid
      rw [h] at ho
      cases ho with
      | off | masked | unrouted | loaded => exact absurd rfl hsgi
      | sent p router priority _ _ _ hrouter _ haff0 =>
        exact ⟨router, _, hrouter, haff0, rfl, reaches_injectSgi_iff router haff0⟩
    · rw [d.triggerInterrupt_of_ge cpu physicalIntId (by omega)] at h
      split_ifs at h
      obtain rfl := Option.some.inj h
      exact absurd rfl hsgi
  · intro r s' h hsgi
    by_cases hid : intId.toNat < 32
    · have ho := r.triggerInterrupt_outcome cpu physicalIntId hid
      rw [h] at ho
      cases ho with
      | asleep | masked | loaded => exact absurd rfl hsgi
      | sent priority _ _ haff0 =>
        exact ⟨haff0, _, rfl, reaches_injectSgi_iff r.affinity haff0⟩
    · rw [r.triggerInterrupt_of_ge cpu physicalIntId (by omega)] at h
      split_ifs at h
      obtain rfl := Option.some.inj h
      exact absurd rfl hsgi

/-- A distributor with interrupt 40 enabled and routed to `router`. -/
def routed40 (router : BitVec 64) : GicDistributorMmio :=
  { GicDistributorMmio.new 0 with
    ctlr := 0x12
    enable := Vector.replicate 32 0xFFFFFFFF
    router := Vector.replicate 1020 router }

/-- From CPU 0, a route to CPU 1 of the same cluster is reached. -/
theorem injection_reaches_cpu1 :
    ∃ value s', (routed40 1).triggerInterrupt (.idle 0 3 0) 40 none = some s' ∧
      s'.2.sgis = [value] ∧ Reaches value 1 := by
  obtain ⟨s', hs'⟩ : ∃ s', (routed40 1).triggerInterrupt (.idle 0 3 0) 40 none = some s' := ⟨_, rfl⟩
  obtain ⟨router, value, hrouter, -, hsgis, hreach⟩ := (injection_reaches_iff _ _ _).1 _ s' hs' (by
    obtain rfl := Option.some.inj hs'
    decide)
  obtain rfl : 1 = router := Option.some.inj hrouter
  exact ⟨value, s', hs', hsgis, hreach.2 (by decide)⟩

/-- From CPU 0, a route to CPU 0 of cluster 1 is not reached. -/
theorem injection_misses_cluster1 :
    ∃ value s', (routed40 0x100).triggerInterrupt (.idle 0 3 0) 40 none = some s' ∧
      s'.2.sgis = [value] ∧ ¬ Reaches value 0x100 := by
  refine ⟨_, _, rfl, rfl, fun h => ?_⟩
  exact absurd ((reaches_injectSgi_iff 0x100 (by decide)).1 h) (by decide)

end MiniVisor
