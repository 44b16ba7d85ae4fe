import MiniVisor.ControllerWrites

/-!
# Every outcome of a trigger

`ControllerView.Triggered` says what a call of `trigger_interrupt` that returns
may have done. The relations here also say which calls panic and give the
concrete state of the others, so that a call is decided by the registers it
reads. The loop over the set bits of a register value then has one rule for
what it preserves and one for whether it panics.
-/
namespace MiniVisor

/-- A CPU with empty list registers that has sent no SGI yet. -/
def Pcpu.idle (mpidrEl1 ichVtrEl2 : BitVec 64) (tpidrEl2 : ℕ) : Pcpu where
  mpidrEl1 := mpidrEl1
  tpidrEl2 := tpidrEl2
  ichVtrEl2 := ichVtrEl2
  ichLr _ := 0
  sgis := []
  loads := []

theorem bankBit_of_lt (bank : Vector (BitVec 32) 32) {intId : BitVec 32} (h : intId.toNat < 1024) :
    bankBit bank intId = some (if bankTest bank intId.toNat then 1 else 0) := by
  have hreg : intId.toNat / 32 < 32 := by omega
  have hindex : Checked.index bank (intId.toNat / 32) = some bank[intId.toNat / 32] :=
    Checked.index_eq_some.2 ⟨hreg, rfl⟩
  change (Checked.index bank (intId.toNat / 32)).bind _ = _
  rw [hindex, Option.bind_some, shiftRight_and_one]
  simp [bankTest, hreg]

theorem changeBankBit_of_lt (bank : Vector (BitVec 32) 32) {intId : BitVec 32} (value : Bool)
    (h : intId.toNat < 1024) : ∃ bank', changeBankBit bank intId value = some bank' :=
  ⟨_, Checked.modify_eq_some.2 ⟨by omega, rfl⟩⟩

namespace GicDistributorMmio

/-- The interrupt passes the enable and security checks of `trigger_interrupt`. -/
structure Passes (d : GicDistributorMmio) (n : ℕ) : Prop where
  grp1ns : d.ctlr &&& gicdCtlrEnableGrp1ns ≠ 0
  enabled : bankTest d.enable n = true
  nonsecure : bankTest d.groupModifier n = false

/-- The list entry that a trigger of the interrupt creates. -/
def entryOf (d : GicDistributorMmio) (intId : BitVec 32) (physicalIntId : Option (BitVec 32))
    (priority : BitVec 32) : ListEntry :=
  ⟨Vgic.createListRegisterEntry intId (if bankTest d.group intId.toNat then 1 else 0) priority
    physicalIntId, d.owner⟩

/-- The outcomes of `trigger_interrupt` for an interrupt below 1024. -/
inductive Outcome (d : GicDistributorMmio) (cpu : Pcpu) (intId : BitVec 32)
    (physicalIntId : Option (BitVec 32)) : Option (GicDistributorMmio × Pcpu) → Prop
  | off : d.ctlr &&& gicdCtlrEnableGrp1ns = 0 → Outcome d cpu intId physicalIntId (some (d, cpu))
  | masked (p : Vector (BitVec 32) 32) : d.ctlr &&& gicdCtlrEnableGrp1ns ≠ 0 →
      ¬ d.Passes intId.toNat → changeBankBit d.pending intId true = some p →
      Outcome d cpu intId physicalIntId (some ({ d with pending := p }, cpu))
  /-- Priority 255 or route 1020 and above: an index out of bounds. -/
  | beyond : d.Passes intId.toNat → 1020 ≤ intId.toNat → Outcome d cpu intId physicalIntId none
  | unrouted (p : Vector (BitVec 32) 32) : d.Passes intId.toNat → intId.toNat < 1020 →
      d.ctlr &&& gicdCtlrAreS = 0 → changeBankBit d.pending intId true = some p →
      Outcome d cpu intId physicalIntId (some ({ d with pending := p }, cpu))
  | loaded (p : Vector (BitVec 32) 32) (router : BitVec 64) (priority : BitVec 32) : d.Passes intId.toNat →
      intId.toNat < 1020 → d.ctlr &&& gicdCtlrAreS ≠ 0 → d.getRouter intId = some router →
      RoutedTo router cpu.mpidrEl1 → changeBankBit d.pending intId true = some p →
      d.getPriority intId = some priority →
      Outcome d cpu intId physicalIntId (some ({ d with pending := p },
        cpu.addVirtualInterrupt (d.entryOf intId physicalIntId priority)))
  | sent (p : Vector (BitVec 32) 32) (router : BitVec 64) (priority : BitVec 32) : d.Passes intId.toNat →
      intId.toNat < 1020 → d.ctlr &&& gicdCtlrAreS ≠ 0 → d.getRouter intId = some router →
      ¬ RoutedTo router cpu.mpidrEl1 → (aff0 router).toNat < 16 →
      changeBankBit d.pending intId true = some p →
      d.getPriority intId = some priority →
      Outcome d cpu intId physicalIntId (some
        ({ d with
          pending := p
          toInjectInterrupt := d.toInjectInterrupt ++
            [d.entryOf intId physicalIntId priority] },
          cpu.setIccSgi1rEl1 (injectSgi router)))
  /-- The assertion that `Aff0` fits the target list. -/
  | unsendable (router : BitVec 64) : d.Passes intId.toNat → intId.toNat < 1020 →
      d.ctlr &&& gicdCtlrAreS ≠ 0 → d.getRouter intId = some router →
      ¬ RoutedTo router cpu.mpidrEl1 → 16 ≤ (aff0 router).toNat →
      Outcome d cpu intId physicalIntId none

theorem getRouter_of_lt (d : GicDistributorMmio) {intId : BitVec 32} (h : intId.toNat < 1020) :
    ∃ router, d.getRouter intId = some router :=
  ⟨_, Checked.index_eq_some.2 ⟨h, rfl⟩⟩

theorem getPriority_of_lt (d : GicDistributorMmio) {intId : BitVec 32} (h : intId.toNat < 1020) :
    ∃ priority, d.getPriority intId = some priority := by
  obtain ⟨register, hindex⟩ : ∃ register, Checked.index d.priority (intId.toNat / 4) = some register :=
    ⟨_, Checked.index_eq_some.2 ⟨by omega, rfl⟩⟩
  rw [getPriority, hindex]
  exact ⟨_, rfl⟩

theorem getPriority_of_ge (d : GicDistributorMmio) {intId : BitVec 32} (h : 1020 ≤ intId.toNat) :
    d.getPriority intId = none := by
  have hindex : Checked.index d.priority (intId.toNat / 4) = none := by
    rw [Checked.index, Vector.getElem?_eq_none (by omega)]
  rw [getPriority, hindex]
  rfl

theorem triggerInterrupt_outcome (d : GicDistributorMmio) (cpu : Pcpu) {intId : BitVec 32}
    (physicalIntId : Option (BitVec 32)) (hid : intId.toNat < 1024) :
    d.Outcome cpu intId physicalIntId (d.triggerInterrupt cpu intId physicalIntId) := by
  unfold triggerInterrupt
  by_cases hgrp : d.ctlr &&& gicdCtlrEnableGrp1ns = 0
  · rw [if_pos hgrp]
    exact .off hgrp
  rw [if_neg hgrp]
  obtain ⟨p, hp⟩ := changeBankBit_of_lt d.pending true hid
  simp only [bind, pure, changePendingStatus, hp, Option.map_some, Option.bind_some, getEnable,
    getGroupModifier, getGroup, bankBit_of_lt _ hid]
  by_cases hpass : d.Passes intId.toNat
  · simp only [hpass.enabled, hpass.nonsecure, if_true]
    rw [if_neg (by decide), if_neg (by decide)]
    by_cases hlt : intId.toNat < 1020
    · obtain ⟨priority, hpriority⟩ := d.getPriority_of_lt hlt
      obtain ⟨router, hrouter⟩ := d.getRouter_of_lt hlt
      have hpriority' : ({ d with pending := p } : GicDistributorMmio).getPriority intId = some priority :=
        hpriority
      have hrouter' : ({ d with pending := p } : GicDistributorMmio).getRouter intId = some router :=
        hrouter
      simp only [hpriority', hrouter', Option.bind_some]
      by_cases hare : d.ctlr &&& gicdCtlrAreS = 0
      · rw [if_pos hare]
        exact .unrouted p hpass hlt hare hp
      rw [if_neg hare]
      by_cases hroute : RoutedTo router cpu.mpidrEl1
      · rw [if_pos hroute]
        exact .loaded p router priority hpass hlt hare hrouter hroute hp hpriority
      rw [if_neg hroute]
      by_cases haff : (aff0 router).toNat < 16
      · rw [Checked.require, if_pos haff]
        exact .sent p router priority hpass hlt hare hrouter hroute haff hp hpriority
      · rw [Checked.require, if_neg haff]
        exact .unsendable router hpass hlt hare hrouter hroute (by omega)
    · have hpriority : ({ d with pending := p } : GicDistributorMmio).getPriority intId = none :=
        d.getPriority_of_ge (by omega)
      simp only [hpriority, Option.bind_none]
      exact .beyond hpass (by omega)
  · have hmask : d.Outcome cpu intId physicalIntId (some ({ d with pending := p }, cpu)) :=
      .masked p hgrp hpass hp
    cases henable : bankTest d.enable intId.toNat with
    | false => exact hmask
    | true =>
      cases hsecure : bankTest d.groupModifier intId.toNat with
      | false => exact absurd ⟨hgrp, henable, hsecure⟩ hpass
      | true => exact hmask

theorem triggerInterrupt_of_ge (d : GicDistributorMmio) (cpu : Pcpu) {intId : BitVec 32}
    (physicalIntId : Option (BitVec 32)) (hid : 1024 ≤ intId.toNat) :
    d.triggerInterrupt cpu intId physicalIntId =
      if d.ctlr &&& gicdCtlrEnableGrp1ns = 0 then some (d, cpu) else none := by
  have hbank : changeBankBit d.pending intId true = none := by
    rw [changeBankBit, Checked.modify, dif_neg (by omega)]
  unfold triggerInterrupt
  split_ifs
  · rfl
  · simp [changePendingStatus, hbank]

/-- A trigger changes pending bits, the injection queue and the CPU's interrupt state only. -/
structure TriggerFrame (s s' : GicDistributorMmio × Pcpu) : Prop where
  registers : s'.1 = { s.1 with
    pending := s'.1.pending
    toInjectInterrupt := s'.1.toInjectInterrupt }
  mpidrEl1 : s'.2.mpidrEl1 = s.2.mpidrEl1
  ichVtrEl2 : s'.2.ichVtrEl2 = s.2.ichVtrEl2

theorem triggerInterrupt_frame {d : GicDistributorMmio} {cpu : Pcpu} {intId : BitVec 32}
    {physicalIntId : Option (BitVec 32)} {s' : GicDistributorMmio × Pcpu}
    (h : d.triggerInterrupt cpu intId physicalIntId = some s') : TriggerFrame (d, cpu) s' := by
  by_cases hid : intId.toNat < 1024
  · have ho := d.triggerInterrupt_outcome cpu physicalIntId hid
    rw [h] at ho
    cases ho <;> exact ⟨rfl, rfl, rfl⟩
  · rw [triggerInterrupt_of_ge d cpu physicalIntId (by omega)] at h
    split_ifs at h
    obtain rfl := Option.some.inj h
    exact ⟨rfl, rfl, rfl⟩

theorem TriggerFrame.trans {s s₁ s' : GicDistributorMmio × Pcpu} (h : TriggerFrame s s₁)
    (h' : TriggerFrame s₁ s') : TriggerFrame s s' where
  registers := by
    rw [h'.registers, h.registers]
  mpidrEl1 := h'.mpidrEl1.trans h.mpidrEl1
  ichVtrEl2 := h'.ichVtrEl2.trans h.ichVtrEl2

end GicDistributorMmio

namespace GicRedistributorMmio

structure Passes (r : GicRedistributorMmio) (n : ℕ) : Prop where
  awake : r.waker &&& gicrWakerChildrenAsleep = 0
  enabled : r.enable.getLsbD n = true
  nonsecure : r.groupModifier.getLsbD n = false

def entryOf (r : GicRedistributorMmio) (intId : BitVec 32) (physicalIntId : Option (BitVec 32))
    (priority : BitVec 32) : ListEntry :=
  ⟨Vgic.createListRegisterEntry intId (if r.group.getLsbD intId.toNat then 1 else 0) priority
    physicalIntId, r.owner⟩

/-- The pending bit of the interrupt is set. -/
def pend (r : GicRedistributorMmio) (intId : BitVec 32) : GicRedistributorMmio :=
  { r with pending := r.pending ||| (1#32 <<< intId.toNat) }

/-- The outcomes of `trigger_interrupt` for an interrupt below 32. -/
inductive Outcome (r : GicRedistributorMmio) (cpu : Pcpu) (intId : BitVec 32)
    (physicalIntId : Option (BitVec 32)) : Option (GicRedistributorMmio × Pcpu) → Prop
  | asleep : r.waker &&& gicrWakerChildrenAsleep ≠ 0 →
      Outcome r cpu intId physicalIntId (some (r, cpu))
  | masked : r.waker &&& gicrWakerChildrenAsleep = 0 → ¬ r.Passes intId.toNat →
      Outcome r cpu intId physicalIntId (some (r.pend intId, cpu))
  | loaded (priority : BitVec 32) : r.Passes intId.toNat →
      r.affinity = mpidrToAffinity cpu.mpidrEl1 → r.getPriority intId = some priority →
      Outcome r cpu intId physicalIntId (some (r.pend intId,
        cpu.addVirtualInterrupt (r.entryOf intId physicalIntId priority)))
  | sent (priority : BitVec 32) : r.Passes intId.toNat →
      r.affinity ≠ mpidrToAffinity cpu.mpidrEl1 → (aff0 r.affinity).toNat < 16 →
      r.getPriority intId = some priority →
      Outcome r cpu intId physicalIntId (some
        ({ r.pend intId with
          toInjectInterrupt := r.toInjectInterrupt ++ [r.entryOf intId physicalIntId priority] },
          cpu.setIccSgi1rEl1 (injectSgi r.affinity)))
  | unsendable : r.Passes intId.toNat → r.affinity ≠ mpidrToAffinity cpu.mpidrEl1 →
      16 ≤ (aff0 r.affinity).toNat → Outcome r cpu intId physicalIntId none

theorem registerBit_of_lt (register : BitVec 32) {intId : BitVec 32} (h : intId.toNat < 32) :
    registerBit register intId = some (if register.getLsbD intId.toNat then 1 else 0) := by
  rw [registerBit, if_pos h, shiftRight_and_one]

theorem getPriority_of_lt (r : GicRedistributorMmio) {intId : BitVec 32} (h : intId.toNat < 32) :
    ∃ priority, r.getPriority intId = some priority := by
  obtain ⟨register, hindex⟩ : ∃ register, Checked.index r.priority (intId.toNat / 4) = some register :=
    ⟨_, Checked.index_eq_some.2 ⟨by omega, rfl⟩⟩
  rw [getPriority, hindex]
  exact ⟨_, rfl⟩

theorem triggerInterrupt_outcome (r : GicRedistributorMmio) (cpu : Pcpu) {intId : BitVec 32}
    (physicalIntId : Option (BitVec 32)) (hid : intId.toNat < 32) :
    r.Outcome cpu intId physicalIntId (r.triggerInterrupt cpu intId physicalIntId) := by
  unfold triggerInterrupt
  by_cases hwaker : r.waker &&& gicrWakerChildrenAsleep = 0
  swap
  · rw [if_pos hwaker]
    exact .asleep hwaker
  rw [if_neg (not_not.2 hwaker)]
  simp only [bind, pure, changePendingStatus, changeRegisterBit, if_pos hid, if_true,
    Option.map_some, Option.bind_some, getEnable, getGroupModifier, getGroup,
    registerBit_of_lt _ hid]
  by_cases hpass : r.Passes intId.toNat
  · simp only [hpass.enabled, hpass.nonsecure, if_true]
    rw [if_neg (by decide), if_neg (by decide)]
    obtain ⟨priority, hpriority⟩ := r.getPriority_of_lt hid
    have hpriority' : (r.pend intId).getPriority intId = some priority := hpriority
    change (((r.pend intId).getPriority intId).bind fun priority => _) |> r.Outcome cpu intId physicalIntId
    rw [hpriority', Option.bind_some]
    by_cases hlocal : r.affinity = mpidrToAffinity cpu.mpidrEl1
    · rw [if_pos hlocal]
      exact .loaded priority hpass hlocal hpriority
    rw [if_neg hlocal]
    by_cases haff : (aff0 r.affinity).toNat < 16
    · rw [Checked.require, if_pos haff]
      exact .sent priority hpass hlocal haff hpriority
    · rw [Checked.require, if_neg haff]
      exact .unsendable hpass hlocal (by omega)
  · have hmask : r.Outcome cpu intId physicalIntId (some (r.pend intId, cpu)) := .masked hwaker hpass
    cases henable : r.enable.getLsbD intId.toNat with
    | false => exact hmask
    | true =>
      cases hsecure : r.groupModifier.getLsbD intId.toNat with
      | false => exact absurd ⟨hwaker, henable, hsecure⟩ hpass
      | true => exact hmask

theorem triggerInterrupt_of_ge (r : GicRedistributorMmio) (cpu : Pcpu) {intId : BitVec 32}
    (physicalIntId : Option (BitVec 32)) (hid : 32 ≤ intId.toNat) :
    r.triggerInterrupt cpu intId physicalIntId =
      if r.waker &&& gicrWakerChildrenAsleep ≠ 0 then some (r, cpu) else none := by
  have hbit : changeRegisterBit r.pending intId true = none := by
    rw [changeRegisterBit, if_neg (by omega)]
  unfold triggerInterrupt
  split_ifs
  · rfl
  · simp [changePendingStatus, hbit]

end GicRedistributorMmio

/-! ## The loop over set bits -/

section Loop

variable {σ : Type} {test : σ → BitVec 32 → Option Bool} {trigger : σ → BitVec 32 → Option σ}
  {I : σ → Prop} {fuel : ℕ} {value : BitVec 64} {base : BitVec 32} {s s' : σ}

/-- What every trigger of a tested interrupt preserves holds after the loop. -/
theorem forSetBits_invariant
    (hstep : ∀ s i s', I s → test s i = some true → trigger s i = some s' → I s') (hs : I s)
    (h : forSetBits test trigger fuel value base s = some s') : I s' := by
  induction fuel generalizing value base s with
  | zero =>
    obtain rfl := Option.some.inj h
    exact hs
  | succ fuel ih =>
    unfold forSetBits at h
    by_cases hzero : value = 0
    · rw [if_pos hzero] at h
      obtain rfl := Option.some.inj h
      exact hs
    rw [if_neg hzero] at h
    obtain ⟨hit, hhit, h⟩ := Option.bind_eq_some_iff.1 h
    obtain ⟨s₁, hs₁, h⟩ := Option.bind_eq_some_iff.1 h
    refine ih ?_ h
    cases hit with
    | false =>
      obtain rfl := Option.some.inj hs₁
      exact hs
    | true =>
      have htest : test s base = some true := by
        split_ifs at hhit
        · exact hhit
        · exact absurd hhit (by simp)
      exact hstep s base s₁ hs htest hs₁

/-- A bit loop of the distributor keeps what single triggers keep. -/
theorem forSetBits_triggerFrame
    {test : GicDistributorMmio × Pcpu → BitVec 32 → Option Bool} {s s' : GicDistributorMmio × Pcpu}
    (h : forSetBits test (fun s intId => s.1.triggerInterrupt s.2 intId none) fuel value base s =
      some s') : GicDistributorMmio.TriggerFrame s s' :=
  forSetBits_invariant
    (fun _ _ _ ht _ hs => ht.trans (GicDistributorMmio.triggerInterrupt_frame hs))
    ⟨rfl, rfl, rfl⟩ h

/-- A loop whose tests and triggers all return ends, in a state that keeps the invariant. -/
theorem forSetBits_returns (I : σ → Prop) (ids : ℕ → Prop)
    (htest : ∀ s i, I s → ids i.toNat → ∃ b, test s i = some b)
    (htrigger : ∀ s i, I s → ids i.toNat → ∃ s', trigger s i = some s' ∧ I s')
    (hs : I s) (hids : ∀ k < fuel, ids (base.toNat + k)) (hbase : base.toNat + fuel < 2 ^ 32) :
    ∃ s', forSetBits test trigger fuel value base s = some s' ∧ I s' := by
  induction fuel generalizing value base s with
  | zero => exact ⟨s, rfl, hs⟩
  | succ fuel ih =>
    have hnext : (base + 1).toNat = base.toNat + 1 := by
      rw [BitVec.toNat_add]
      exact Nat.mod_eq_of_lt (by simp; omega)
    have hrest : ∀ s₁, I s₁ → ∃ s', forSetBits test trigger fuel (value >>> 1) (base + 1) s₁ =
        some s' ∧ I s' := fun s₁ hs₁ =>
      ih hs₁ (fun k hk => by rw [hnext, Nat.add_assoc, Nat.add_comm 1 k]; exact hids (k + 1) (by omega))
        (by omega)
    have hid : ids base.toNat := hids 0 (by omega)
    unfold forSetBits
    by_cases hzero : value = 0
    · exact ⟨s, by rw [if_pos hzero], hs⟩
    rw [if_neg hzero]
    obtain ⟨b, hb⟩ : ∃ b, (if value &&& 1 ≠ 0 then test s base else some false) = some b := by
      split_ifs
      · exact htest s base hs hid
      · exact ⟨false, rfl⟩
    rw [hb, Option.bind_some]
    cases b with
    | false => exact hrest s hs
    | true =>
      obtain ⟨s₁, hs₁, hI⟩ := htrigger s base hs hid
      rw [if_pos rfl, hs₁, Option.bind_some]
      exact hrest s₁ hI

/-- When the test and the panics of a trigger are fixed by an invariant of the loop,
the loop panics exactly at a set bit that is tested and whose trigger panics. -/
theorem forSetBits_eq_none_iff (I : σ → Prop) (ids hit bad : ℕ → Prop)
    (htest : ∀ s i, I s → ids i.toNat → ∃ b, test s i = some b ∧ (b = true ↔ hit i.toNat))
    (htrigger : ∀ s i, I s → ids i.toNat → hit i.toNat →
      (trigger s i = none ↔ bad i.toNat) ∧ ∀ s', trigger s i = some s' → I s')
    (hs : I s) (hids : ∀ k, value.getLsbD k = true → ids (base.toNat + k))
    (hbase : base.toNat + fuel < 2 ^ 32) :
    forSetBits test trigger fuel value base s = none ↔
      ∃ k < fuel, value.getLsbD k = true ∧ hit (base.toNat + k) ∧ bad (base.toNat + k) := by
  induction fuel generalizing value base s with
  | zero => simp [forSetBits]
  | succ fuel ih =>
    unfold forSetBits
    by_cases hzero : value = 0
    · rw [if_pos hzero]
      simp [hzero]
    rw [if_neg hzero]
    have hnext : (base + 1).toNat = base.toNat + 1 := by
      rw [BitVec.toNat_add]
      exact Nat.mod_eq_of_lt (by simp; omega)
    have hrest : ∀ s₁, I s₁ → (forSetBits test trigger fuel (value >>> 1) (base + 1) s₁ = none ↔
        ∃ k < fuel, value.getLsbD (k + 1) = true ∧ hit (base.toNat + (k + 1)) ∧
          bad (base.toNat + (k + 1))) := by
      intro s₁ hs₁
      have hshift : ∀ k, (value >>> 1).getLsbD k = value.getLsbD (k + 1) := fun k => by
        rw [BitVec.getLsbD_ushiftRight, Nat.add_comm]
      have hsum : ∀ k, (base + 1).toNat + k = base.toNat + (k + 1) := fun k => by omega
      rw [ih hs₁ (fun k hk => hsum k ▸ hids (k + 1) (hshift k ▸ hk)) (by omega)]
      simp only [hshift, hsum]
    -- The first bit decides, or the rest of the loop does.
    have hsplit : (∃ k < fuel + 1, value.getLsbD k = true ∧ hit (base.toNat + k) ∧
          bad (base.toNat + k)) ↔
        (value.getLsbD 0 = true ∧ hit base.toNat ∧ bad base.toNat) ∨
          ∃ k < fuel, value.getLsbD (k + 1) = true ∧ hit (base.toNat + (k + 1)) ∧
            bad (base.toNat + (k + 1)) := by
      constructor
      · rintro ⟨k, hk, h⟩
        cases k with
        | zero => exact .inl h
        | succ k => exact .inr ⟨k, by omega, h⟩
      · rintro (h | ⟨k, hk, h⟩)
        · exact ⟨0, by omega, h⟩
        · exact ⟨k + 1, by omega, h⟩
    rw [hsplit]
    by_cases hbit : value.getLsbD 0 = true
    · rw [if_pos ((and_one_ne_zero value).2 hbit)]
      obtain ⟨b, hb, hhit⟩ := htest s base hs (hids 0 hbit)
      rw [hb, Option.bind_some]
      cases b with
      | false =>
        have hnot : ¬ hit base.toNat := fun h => Bool.false_ne_true (hhit.2 h)
        simpa [hnot] using hrest s hs
      | true =>
        have hyes : hit base.toNat := hhit.1 rfl
        obtain ⟨hnone, hkeep⟩ := htrigger s base hs (hids 0 hbit) hyes
        rw [if_pos rfl]
        cases htr : trigger s base with
        | none =>
          have hbad := hnone.1 htr
          simp [hbit, hyes, hbad]
        | some s₁ =>
          have hgood : ¬ bad base.toNat := fun h => by simp [hnone.2 h] at htr
          simpa [hgood] using hrest s₁ (hkeep s₁ htr)
    · rw [if_neg (fun h => hbit ((and_one_ne_zero value).1 h)), or_iff_right (fun h => hbit h.1)]
      exact hrest s hs

end Loop

/-! ## Writes to the distributor -/

namespace GicDistributorMmio

/-- The two bit loops of `write`. -/
def enableLoop (s : GicDistributorMmio × Pcpu) (register : ℕ) (value : BitVec 64) :
    Option (GicDistributorMmio × Pcpu) :=
  forSetBits (fun s intId => s.1.getPending intId)
    (fun s intId => s.1.triggerInterrupt s.2 intId none) 64 value
    (BitVec.ofNat 32 (register * 32)) s

def pendLoop (s : GicDistributorMmio × Pcpu) (register : ℕ) (value : BitVec 64) :
    Option (GicDistributorMmio × Pcpu) :=
  forSetBits (fun s intId => s.1.getEnable intId)
    (fun s intId => s.1.triggerInterrupt s.2 intId none) 64 value
    (BitVec.ofNat 32 (register * 32)) s

/-- The outcomes of a guest write, by the kind of register it falls on. -/
inductive WriteOutcome (d : GicDistributorMmio) (cpu : Pcpu) (offset accessWidth : ℕ)
    (value : BitVec 64) : Option (GicDistributorMmio × Pcpu) → Prop
  | enables (k : ℕ) (hk : k < 32) : Hits gicdIsenabler0 gicdIsenabler31 offset accessWidth →
      k = (offset - gicdIsenabler0) / 4 →
      WriteOutcome d cpu offset accessWidth value (enableLoop
        ({ d with enable := d.enable.set k (d.enable[k] ||| value.setWidth 32) }, cpu) k value)
  | pends (k : ℕ) (hk : k < 32) : Hits gicdIspendr0 gicdIspendr31 offset accessWidth →
      k = (offset - gicdIspendr0) / 4 →
      WriteOutcome d cpu offset accessWidth value (pendLoop
        ({ d with pending := d.pending.set k (d.pending[k] ||| value.setWidth 32) }, cpu) k value)
  /-- Behind the 32 group modifiers but within the bound the source compares with. -/
  | beyond : Hits 0xD80 gicdIgrpmodr31 offset accessWidth →
      WriteOutcome d cpu offset accessWidth value none
  | routes (i : ℕ) (hi : i < 1020) : accessWidth = 64 → gicdIrouter0 ≤ offset →
      offset ≤ gicdIrouter1019 → i = (offset - gicdIrouter0) / 8 →
      WriteOutcome d cpu offset accessWidth value
        (some ({ d with router := d.router.set i value }, cpu))
  /-- A register that triggers nothing and is no route, or no register at all. -/
  | plain (d' : GicDistributorMmio) : ¬ Hits gicdIsenabler0 gicdIsenabler31 offset accessWidth →
      ¬ Hits gicdIspendr0 gicdIspendr31 offset accessWidth →
      ¬ Hits 0xD80 gicdIgrpmodr31 offset accessWidth →
      (accessWidth = 64 → offset < gicdIrouter0 ∨ gicdIrouter1019 < offset) →
      d'.router = d.router → d'.toInjectInterrupt = d.toInjectInterrupt →
      WriteOutcome d cpu offset accessWidth value (some (d', cpu))

theorem modify_of_lt {α : Type} {n i : ℕ} (v : Vector α n) (f : α → α) (h : i < n) :
    Checked.modify v i f = some (v.set i (f v[i])) :=
  Checked.modify_eq_some.2 ⟨h, rfl⟩

theorem writePriority_isSome {n : ℕ} (priority : Vector (BitVec 32) n) (position accessWidth : ℕ)
    (value : BitVec 64) (h : position / 4 < n) :
    ∃ priority', writePriority priority position accessWidth value = some priority' := by
  unfold writePriority
  dsimp only
  split_ifs
  · exact ⟨_, modify_of_lt _ _ h⟩
  · exact ⟨_, modify_of_lt _ _ h⟩
  · exact ⟨_, rfl⟩

/-- A 32-bit access inside one bank that is no trigger register. -/
theorem WriteOutcome.bank {d d' : GicDistributorMmio} {cpu : Pcpu} {offset accessWidth : ℕ}
    {value : BitVec 64} (hwidth : accessWidth = 32)
    (hisen : offset < 0x100 ∨ 0x17C < offset) (hispend : offset < 0x200 ∨ 0x27C < offset)
    (hgrpmod : offset < 0xD80) (hrouter : d'.router = d.router)
    (hqueue : d'.toInjectInterrupt = d.toInjectInterrupt) :
    d.WriteOutcome cpu offset accessWidth value (some (d', cpu)) := by
  refine .plain d' ?_ ?_ ?_ (fun h => absurd (hwidth.symm.trans h) (by decide)) hrouter hqueue
  · rintro ⟨hlow, hhigh, -⟩
    simp only [gicdIsenabler0, gicdIsenabler31] at hlow hhigh
    omega
  · rintro ⟨hlow, hhigh, -⟩
    simp only [gicdIspendr0, gicdIspendr31] at hlow hhigh
    omega
  · rintro ⟨hlow, -, -⟩
    omega

theorem write_outcome (d : GicDistributorMmio) (cpu : Pcpu) (offset accessWidth : ℕ)
    (value : BitVec 64) :
    d.WriteOutcome cpu offset accessWidth value (d.write cpu offset accessWidth value) := by
  unfold write
  dsimp only
  by_cases hctlr : offset = gicdCtlr ∧ accessWidth = 32
  · rw [if_pos hctlr]
    simp only [gicdCtlr] at hctlr
    exact .bank hctlr.2 (by omega) (by omega) (by omega) rfl rfl
  rw [if_neg hctlr]
  by_cases hgroup : Hits gicdIgroupr0 gicdIgroupr31 offset accessWidth
  · rw [if_pos hgroup]
    simp only [Hits, gicdIgroupr0, gicdIgroupr31] at hgroup ⊢
    rw [modify_of_lt _ _ (by omega)]
    exact .bank hgroup.2.2 (by omega) (by omega) (by omega) rfl rfl
  rw [if_neg hgroup]
  by_cases hisen : Hits gicdIsenabler0 gicdIsenabler31 offset accessWidth
  · rw [if_pos hisen]
    have hk : (offset - gicdIsenabler0) / 4 < 32 := by
      simp only [Hits, gicdIsenabler0, gicdIsenabler31] at hisen ⊢
      omega
    rw [modify_of_lt _ _ hk]
    exact .enables _ hk hisen rfl
  rw [if_neg hisen]
  by_cases hicen : Hits gicdIcenabler0 gicdIcenabler31 offset accessWidth
  · rw [if_pos hicen]
    simp only [Hits, gicdIcenabler0, gicdIcenabler31] at hicen ⊢
    rw [modify_of_lt _ _ (by omega)]
    exact .bank hicen.2.2 (by omega) (by omega) (by omega) rfl rfl
  rw [if_neg hicen]
  by_cases hispend : Hits gicdIspendr0 gicdIspendr31 offset accessWidth
  · rw [if_pos hispend]
    have hk : (offset - gicdIspendr0) / 4 < 32 := by
      simp only [Hits, gicdIspendr0, gicdIspendr31] at hispend ⊢
      omega
    rw [modify_of_lt _ _ hk]
    exact .pends _ hk hispend rfl
  rw [if_neg hispend]
  by_cases hicpend : Hits gicdIcpendr0 gicdIcpendr31 offset accessWidth
  · rw [if_pos hicpend]
    simp only [Hits, gicdIcpendr0, gicdIcpendr31] at hicpend ⊢
    rw [modify_of_lt _ _ (by omega)]
    exact .bank hicpend.2.2 (by omega) (by omega) (by omega) rfl rfl
  rw [if_neg hicpend]
  by_cases hisact : Hits gicdIsactiver0 gicdIsactiver31 offset accessWidth
  · rw [if_pos hisact]
    simp only [Hits, gicdIsactiver0, gicdIsactiver31] at hisact ⊢
    rw [modify_of_lt _ _ (by omega)]
    exact .bank hisact.2.2 (by omega) (by omega) (by omega) rfl rfl
  rw [if_neg hisact]
  by_cases hicact : Hits gicdIcactiver0 gicdIcactiver31 offset accessWidth
  · rw [if_pos hicact]
    simp only [Hits, gicdIcactiver0, gicdIcactiver31] at hicact ⊢
    rw [modify_of_lt _ _ (by omega)]
    exact .bank hicact.2.2 (by omega) (by omega) (by omega) rfl rfl
  rw [if_neg hicact]
  by_cases hprio : gicdIpriorityr0 ≤ offset ∧ offset < gicdIpriorityr254 + 4
  · rw [if_pos hprio]
    simp only [gicdIpriorityr0, gicdIpriorityr254] at hprio ⊢
    obtain ⟨priority, hpriority⟩ :=
      writePriority_isSome d.priority (offset - 0x400) accessWidth value (by omega)
    rw [hpriority]
    have hrouter0 : offset < gicdIrouter0 := Nat.lt_trans hprio.2 (by decide)
    have hgrpmod : ¬ Hits 0xD80 gicdIgrpmodr31 offset accessWidth := fun h => absurd h.1 (by omega)
    exact .plain _ hisen hispend hgrpmod (fun _ => .inl hrouter0) rfl rfl
  rw [if_neg hprio]
  by_cases hcfg : Hits gicdIcfgr0 gicdIcfgr63 offset accessWidth
  · rw [if_pos hcfg]
    simp only [Hits, gicdIcfgr0, gicdIcfgr63] at hcfg ⊢
    rw [modify_of_lt _ _ (by omega)]
    exact .bank hcfg.2.2 (by omega) (by omega) (by omega) rfl rfl
  rw [if_neg hcfg]
  by_cases hgrpmod : Hits gicdIgrpmodr0 gicdIgrpmodr31 offset accessWidth
  · rw [if_pos hgrpmod]
    simp only [Hits, gicdIgrpmodr0, gicdIgrpmodr31] at hgrpmod ⊢
    by_cases hin : offset < 0xD80
    · rw [modify_of_lt _ _ (by omega)]
      exact .bank hgrpmod.2.2 (by omega) (by omega) (by omega) rfl rfl
    · rw [Checked.modify, dif_neg (by omega)]
      exact .beyond ⟨by omega, hgrpmod.2⟩
  rw [if_neg hgrpmod]
  by_cases hrouter : gicdIrouter0 ≤ offset ∧ offset ≤ gicdIrouter1019 ∧ accessWidth = 64
  · rw [if_pos hrouter]
    have hi : (offset - gicdIrouter0) / 8 < 1020 := by
      simp only [gicdIrouter0, gicdIrouter1019] at hrouter ⊢
      omega
    rw [modify_of_lt _ _ hi]
    exact .routes _ hi hrouter.2.2 hrouter.1 hrouter.2.1 rfl
  rw [if_neg hrouter]
  refine .plain d hisen hispend (fun h => hgrpmod ⟨Nat.le_trans (by decide) h.1, h.2⟩) ?_ rfl rfl
  intro hwidth
  simp only [not_and_or, not_le, hwidth, not_true_eq_false, or_false] at hrouter
  exact hrouter

end GicDistributorMmio

end MiniVisor
