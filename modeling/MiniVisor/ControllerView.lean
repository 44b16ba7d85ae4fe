import MiniVisor.GicMmio

/-!
# What an interrupt controller does, abstractly

The distributor and the redistributor keep the same facts in different layouts.
`ControllerView` is the common abstract state, indexed by interrupt number, and
`Triggered` says everything one `trigger_interrupt` call can do to it and to the
physical CPU it runs on. Both controllers refine it.
-/
namespace MiniVisor

structure ControllerView where
  /-- Group enable and affinity routing set, or redistributor awake. -/
  on : Bool
  pending : ℕ → Bool
  enable : ℕ → Bool
  secure : ℕ → Bool
  queue : List ListEntry
  owner : ℕ

namespace ControllerView

/-- The interrupt should be on its way to the guest. -/
def Due (c : ControllerView) (n : ℕ) : Prop :=
  c.on = true ∧ c.pending n = true ∧ c.enable n = true ∧ c.secure n = false

def setPending (c : ControllerView) (n : ℕ) : ControllerView :=
  { c with pending := Function.update c.pending n true }

def enqueue (c : ControllerView) (e : ListEntry) : ControllerView :=
  { c with queue := c.queue ++ [e] }

/-- The entry stands for interrupt `n` of this controller. -/
def Makes (c : ControllerView) (n : ℕ) (e : ListEntry) : Prop :=
  Vgic.vintid e.value = BitVec.ofNat 64 n ∧ ¬ Vgic.Inactive e.value ∧ e.creator = c.owner

/-- Everything a `trigger_interrupt` call for interrupt `n` can do. `local` is
the comparison of the route with the running CPU. -/
inductive Triggered (c : ControllerView) (cpu : Pcpu) (n : ℕ) (isLocal : Prop) :
    ControllerView → Pcpu → Prop
  | disabled : c.on = false → Triggered c cpu n isLocal c cpu
  | masked : ¬ (c.setPending n).Due n → Triggered c cpu n isLocal (c.setPending n) cpu
  | loaded (e : ListEntry) : isLocal → (c.setPending n).Due n → c.Makes n e →
      Triggered c cpu n isLocal (c.setPending n) (cpu.addVirtualInterrupt e)
  | queued (e : ListEntry) (sgi : BitVec 64) : ¬ isLocal → (c.setPending n).Due n →
      c.Makes n e →
      Triggered c cpu n isLocal ((c.setPending n).enqueue e) (cpu.setIccSgi1rEl1 sgi)

end ControllerView

/-! ## Entries of list registers -/

namespace Vgic

theorem getLsbD_status : ∀ i < 64, ichLrnEl2Status.getLsbD i = decide (62 ≤ i) := by decide

theorem getLsbD_vintid : ∀ i < 64, ichLrnEl2Vintid.getLsbD i = decide (i < 32) := by decide

/-- No flag that an entry is composed of reaches into the interrupt number. -/
theorem getLsbD_flags : ∀ i < 32, ichLrnEl2StatusPending.getLsbD i = false ∧
    ichLrnEl2Hw.getLsbD i = false ∧ ichLrnEl2Eoi.getLsbD i = false := by decide

theorem inactive_iff (x : BitVec 64) :
    Inactive x ↔ x.getLsbD 62 = false ∧ x.getLsbD 63 = false := by
  constructor
  · intro h
    have hb := fun i => congrArg (fun y : BitVec 64 => y.getLsbD i) h
    have h62 := hb 62
    have h63 := hb 63
    simp [status, ichLrnEl2Status, ichLrnEl2StatusInactive] at h62 h63
    exact ⟨h62, h63⟩
  · rintro ⟨h62, h63⟩
    apply BitVec.eq_of_getLsbD_eq
    intro i hi
    have hzero : ichLrnEl2StatusInactive.getLsbD i = false := by
      rw [show ichLrnEl2StatusInactive = 0#64 from rfl, BitVec.getLsbD_zero]
    rw [status, BitVec.getLsbD_and, getLsbD_status i hi, hzero]
    have hcases : i = 62 ∨ i = 63 ∨ i < 62 := by omega
    obtain rfl | rfl | hlt := hcases
    · rw [h62, Bool.false_and]
    · rw [h63, Bool.false_and]
    · simp [hlt]

theorem createListRegisterEntry_not_inactive (intId group priority : BitVec 32)
    (physicalIntId : Option (BitVec 32)) :
    ¬ Inactive (createListRegisterEntry intId group priority physicalIntId) := by
  rw [inactive_iff]
  rintro ⟨h62, -⟩
  cases physicalIntId <;>
    simp [createListRegisterEntry, ichLrnEl2StatusPending] at h62

theorem vintid_createListRegisterEntry (intId group priority : BitVec 32)
    (physicalIntId : Option (BitVec 32)) :
    vintid (createListRegisterEntry intId group priority physicalIntId) = intId.setWidth 64 := by
  apply BitVec.eq_of_getLsbD_eq
  intro i hi
  rw [vintid, BitVec.getLsbD_and, getLsbD_vintid i hi]
  by_cases hlow : i < 32
  · obtain ⟨hp, hh, he⟩ := getLsbD_flags i hlow
    have h60 : i < 60 := by omega
    have h48 : i < 48 := by omega
    cases physicalIntId <;>
      simp only [createListRegisterEntry, BitVec.getLsbD_or, BitVec.getLsbD_shiftLeft,
        BitVec.getLsbD_setWidth, hp, hh, he, hi, hlow, h60, h48, decide_true,
        Bool.not_true, Bool.and_false, Bool.false_and, Bool.or_false, Bool.false_or, Bool.true_and,
        Bool.and_true]
  · rw [BitVec.getLsbD_setWidth, BitVec.getLsbD_of_ge intId i (by omega)]
    simp [hlow]

end Vgic

/-! ## Register bits -/

/-- Bit `n` of a bank of 32-bit registers; interrupts past the bank read clear. -/
def bankTest (bank : Vector (BitVec 32) 32) (n : ℕ) : Bool :=
  if h : n / 32 < 32 then bank[n / 32].getLsbD (n % 32) else false

theorem shiftRight_and_one (x : BitVec 32) (k : ℕ) :
    (x >>> k) &&& 1 = if x.getLsbD k then 1 else 0 := by
  have h := Masks.and_one (x := x >>> k)
  rw [BitVec.getLsbD_ushiftRight, Nat.add_zero] at h
  exact h

theorem getLsbD_or_bit (x : BitVec 32) {k j : ℕ} (hj : j < 32) :
    (x ||| (1#32 <<< k)).getLsbD j = if j = k then true else x.getLsbD j := by
  rw [BitVec.getLsbD_or, ← BitVec.twoPow_eq, BitVec.getLsbD_twoPow]
  by_cases h : j = k
  · simp [h, h ▸ hj]
  · simp [h, Ne.symm h]

theorem getLsbD_and_not_bit (x : BitVec 32) {k j : ℕ} (hj : j < 32) :
    (x &&& ~~~ (1#32 <<< k)).getLsbD j = if j = k then false else x.getLsbD j := by
  rw [BitVec.getLsbD_and, BitVec.getLsbD_not, ← BitVec.twoPow_eq, BitVec.getLsbD_twoPow]
  by_cases h : j = k
  · simp [h, h ▸ hj]
  · simp [h, Ne.symm h, hj]

theorem bankBit_eq {bank : Vector (BitVec 32) 32} {intId b : BitVec 32}
    (h : bankBit bank intId = some b) : b = if bankTest bank intId.toNat then 1 else 0 := by
  simp only [bankBit, bind, Option.bind_eq_some_iff, Checked.index_eq_some] at h
  obtain ⟨register, ⟨hlt, rfl⟩, hb⟩ := h
  rw [shiftRight_and_one] at hb
  simpa [bankTest, hlt] using hb.symm

theorem changeBankBit_eq {bank bank' : Vector (BitVec 32) 32} {intId : BitVec 32} {value : Bool}
    (h : changeBankBit bank intId value = some bank') :
    bankTest bank' = Function.update (bankTest bank) intId.toNat value := by
  obtain ⟨hlt, rfl⟩ := Checked.modify_eq_some.1 h
  funext n
  by_cases hreg : n / 32 = intId.toNat / 32
  · have hn : n / 32 < 32 := hreg ▸ hlt
    have hbit : n % 32 = intId.toNat % 32 ↔ n = intId.toNat := by omega
    have hmod : n % 32 < 32 := Nat.mod_lt _ (by decide)
    cases value
    · simp [bankTest, hreg, hlt, getLsbD_and_not_bit _ hmod, hbit, Function.update_apply]
    · simp [bankTest, hreg, hlt, getLsbD_or_bit _ hmod, hbit, Function.update_apply]
  · have hne : n ≠ intId.toNat := fun hn => hreg (by rw [hn])
    simp [bankTest, hne, Ne.symm hreg]

/-! ## The controllers refine the abstract one -/

theorem ofNat_toNat_eq_setWidth (intId : BitVec 32) :
    BitVec.ofNat 64 intId.toNat = intId.setWidth 64 := by
  apply BitVec.eq_of_toNat_eq
  simp

namespace GicDistributorMmio

def view (d : GicDistributorMmio) : ControllerView where
  on := decide (d.ctlr &&& gicdCtlrEnableGrp1ns ≠ 0 ∧ d.ctlr &&& gicdCtlrAreS ≠ 0)
  pending := bankTest d.pending
  enable := bankTest d.enable
  secure := bankTest d.groupModifier
  queue := d.toInjectInterrupt
  owner := d.owner

/-- The route of the interrupt names the CPU the handler runs on. -/
def IsLocal (d : GicDistributorMmio) (cpu : Pcpu) (intId : BitVec 32) : Prop :=
  ∃ router, d.getRouter intId = some router ∧ RoutedTo router cpu.mpidrEl1

theorem getEnable_eq {d : GicDistributorMmio} {intId : BitVec 32} {b : Bool}
    (h : d.getEnable intId = some b) : b = d.view.enable intId.toNat := by
  obtain ⟨x, hx, rfl⟩ := Option.map_eq_some_iff.1 h
  rw [bankBit_eq hx, view]
  cases hb : bankTest d.enable intId.toNat <;> simp [hb]

theorem getPending_eq {d : GicDistributorMmio} {intId : BitVec 32} {b : Bool}
    (h : d.getPending intId = some b) : b = d.view.pending intId.toNat := by
  obtain ⟨x, hx, rfl⟩ := Option.map_eq_some_iff.1 h
  rw [bankBit_eq hx, view]
  cases hb : bankTest d.pending intId.toNat <;> simp [hb]

theorem getGroupModifier_eq {d : GicDistributorMmio} {intId b : BitVec 32}
    (h : d.getGroupModifier intId = some b) : b = 1 ↔ d.view.secure intId.toNat = true := by
  rw [bankBit_eq h, view]
  cases hb : bankTest d.groupModifier intId.toNat <;> simp [hb]

theorem changePendingStatus_eq {d d' : GicDistributorMmio} {intId : BitVec 32} {value : Bool}
    (h : d.changePendingStatus intId value = some d') :
    ∃ p, d' = { d with pending := p } ∧
      bankTest p = Function.update (bankTest d.pending) intId.toNat value := by
  obtain ⟨p, hp, rfl⟩ := Option.map_eq_some_iff.1 h
  exact ⟨p, rfl, changeBankBit_eq hp⟩

theorem triggerInterrupt_triggered {d d' : GicDistributorMmio} {cpu cpu' : Pcpu}
    {intId : BitVec 32} {physicalIntId : Option (BitVec 32)}
    (h : d.triggerInterrupt cpu intId physicalIntId = some (d', cpu')) :
    d.view.Triggered cpu intId.toNat (d.IsLocal cpu intId) d'.view cpu' := by
  unfold triggerInterrupt at h
  by_cases hgrp : d.ctlr &&& gicdCtlrEnableGrp1ns = 0
  · rw [if_pos hgrp] at h
    obtain ⟨rfl, rfl⟩ : d = d' ∧ cpu = cpu' := by simpa using h
    exact .disabled (by simp [view, hgrp])
  rw [if_neg hgrp] at h
  simp only [bind, Option.bind_eq_some_iff] at h
  obtain ⟨d₁, hd₁, enabled, henabled, h⟩ := h
  obtain ⟨p, rfl, hp⟩ := changePendingStatus_eq hd₁
  have hview : ({ d with pending := p } : GicDistributorMmio).view =
      d.view.setPending intId.toNat := by
    simp [view, ControllerView.setPending, hp]
  have henable := getEnable_eq henabled
  rw [hview] at henable
  cases enabled with
  | false =>
    obtain ⟨rfl, rfl⟩ : { d with pending := p } = d' ∧ cpu = cpu' := by simpa using h
    rw [hview]
    exact .masked fun hdue => Bool.false_ne_true (henable.trans hdue.2.2.1)
  | true =>
    simp only [Bool.not_true, Bool.false_eq_true, if_false, Option.bind_eq_some_iff] at h
    obtain ⟨gm, hgm, h⟩ := h
    have hsecure := getGroupModifier_eq hgm
    rw [hview] at hsecure
    by_cases hgm1 : gm = 1
    · rw [if_pos hgm1] at h
      obtain ⟨rfl, rfl⟩ : { d with pending := p } = d' ∧ cpu = cpu' := by simpa using h
      rw [hview]
      exact .masked fun hdue => Bool.false_ne_true (hdue.2.2.2.symm.trans (hsecure.1 hgm1))
    rw [if_neg hgm1] at h
    simp only [Option.bind_eq_some_iff] at h
    obtain ⟨group, -, priority, -, router, hrouter, h⟩ := h
    by_cases hare : d.ctlr &&& gicdCtlrAreS = 0
    · rw [if_pos hare] at h
      obtain ⟨rfl, rfl⟩ : { d with pending := p } = d' ∧ cpu = cpu' := by simpa using h
      rw [hview]
      exact .masked fun hdue => (of_decide_eq_true hdue.1).2 hare
    rw [if_neg hare] at h
    have hdue : (d.view.setPending intId.toNat).Due intId.toNat := by
      refine ⟨?_, ?_, henable.symm, ?_⟩
      · exact decide_eq_true ⟨hgrp, hare⟩
      · simp [ControllerView.setPending]
      · exact Bool.eq_false_iff.2 fun ht => hgm1 (hsecure.2 ht)
    have hmakes : d.view.Makes intId.toNat
        ⟨Vgic.createListRegisterEntry intId group priority physicalIntId, d.owner⟩ :=
      ⟨by rw [Vgic.vintid_createListRegisterEntry, ofNat_toNat_eq_setWidth],
        Vgic.createListRegisterEntry_not_inactive _ _ _ _, rfl⟩
    by_cases hroute : RoutedTo router cpu.mpidrEl1
    · rw [if_pos hroute] at h
      obtain ⟨rfl, rfl⟩ : { d with pending := p } = d' ∧ _ = cpu' := by simpa using h
      rw [hview]
      exact .loaded _ ⟨router, hrouter, hroute⟩ hdue hmakes
    · rw [if_neg hroute] at h
      simp only [Option.bind_eq_some_iff] at h
      obtain ⟨-, -, h⟩ := h
      obtain ⟨rfl, rfl⟩ : _ = d' ∧ _ = cpu' := by simpa using h
      have hnot : ¬ d.IsLocal cpu intId := by
        rintro ⟨router', hrouter', hroute'⟩
        have : some router' = some router := hrouter'.symm.trans hrouter
        exact hroute (Option.some.inj this ▸ hroute')
      have hq : ({ d with
          pending := p
          toInjectInterrupt := d.toInjectInterrupt ++
            [⟨Vgic.createListRegisterEntry intId group priority physicalIntId, d.owner⟩] } :
            GicDistributorMmio).view = (d.view.setPending intId.toNat).enqueue
            ⟨Vgic.createListRegisterEntry intId group priority physicalIntId, d.owner⟩ := by
        rw [← hview]
        rfl
      rw [hq]
      exact .queued _ _ hnot hdue hmakes

end GicDistributorMmio

namespace GicRedistributorMmio

def view (r : GicRedistributorMmio) : ControllerView where
  on := decide (r.waker &&& gicrWakerChildrenAsleep = 0)
  pending := r.pending.getLsbD
  enable := r.enable.getLsbD
  secure := r.groupModifier.getLsbD
  queue := r.toInjectInterrupt
  owner := r.owner

/-- The redistributor belongs to the CPU the handler runs on. -/
def IsLocal (r : GicRedistributorMmio) (cpu : Pcpu) : Prop :=
  r.affinity = mpidrToAffinity cpu.mpidrEl1

theorem registerBit_eq {register intId b : BitVec 32} (h : registerBit register intId = some b) :
    b = if register.getLsbD intId.toNat then 1 else 0 := by
  unfold registerBit at h
  split_ifs at h
  rw [← shiftRight_and_one]
  exact (Option.some.inj h).symm

theorem changeRegisterBit_eq {register register' intId : BitVec 32} {value : Bool}
    (h : changeRegisterBit register intId value = some register') :
    register'.getLsbD = Function.update register.getLsbD intId.toNat value := by
  unfold changeRegisterBit at h
  split_ifs at h with hlt hv
  · obtain rfl := Option.some.inj h
    funext n
    by_cases hn : n < 32
    · simp [getLsbD_or_bit _ hn, Function.update_apply, hv]
    · have hne : n ≠ intId.toNat := by omega
      simp [hne, BitVec.getLsbD_of_ge _ n (by omega : 32 ≤ n)]
  · obtain rfl := Option.some.inj h
    funext n
    by_cases hn : n < 32
    · simp [getLsbD_and_not_bit _ hn, Function.update_apply, hv]
    · have hne : n ≠ intId.toNat := by omega
      simp [hne, BitVec.getLsbD_of_ge _ n (by omega : 32 ≤ n)]

theorem getEnable_eq {r : GicRedistributorMmio} {intId : BitVec 32} {b : Bool}
    (h : r.getEnable intId = some b) : b = r.view.enable intId.toNat := by
  obtain ⟨x, hx, rfl⟩ := Option.map_eq_some_iff.1 h
  rw [registerBit_eq hx, view]
  cases hb : r.enable.getLsbD intId.toNat <;> simp [hb]

theorem getPending_eq {r : GicRedistributorMmio} {intId : BitVec 32} {b : Bool}
    (h : r.getPending intId = some b) : b = r.view.pending intId.toNat := by
  obtain ⟨x, hx, rfl⟩ := Option.map_eq_some_iff.1 h
  rw [registerBit_eq hx, view]
  cases hb : r.pending.getLsbD intId.toNat <;> simp [hb]

theorem getGroupModifier_eq {r : GicRedistributorMmio} {intId b : BitVec 32}
    (h : r.getGroupModifier intId = some b) : b = 1 ↔ r.view.secure intId.toNat = true := by
  rw [registerBit_eq h, view]
  cases hb : r.groupModifier.getLsbD intId.toNat <;> simp [hb]

theorem changePendingStatus_eq {r r' : GicRedistributorMmio} {intId : BitVec 32} {value : Bool}
    (h : r.changePendingStatus intId value = some r') :
    ∃ p, r' = { r with pending := p } ∧
      p.getLsbD = Function.update r.pending.getLsbD intId.toNat value := by
  obtain ⟨p, hp, rfl⟩ := Option.map_eq_some_iff.1 h
  exact ⟨p, rfl, changeRegisterBit_eq hp⟩

theorem triggerInterrupt_triggered {r r' : GicRedistributorMmio} {cpu cpu' : Pcpu}
    {intId : BitVec 32} {physicalIntId : Option (BitVec 32)}
    (h : r.triggerInterrupt cpu intId physicalIntId = some (r', cpu')) :
    r.view.Triggered cpu intId.toNat (r.IsLocal cpu) r'.view cpu' := by
  unfold triggerInterrupt at h
  by_cases hwake : r.waker &&& gicrWakerChildrenAsleep ≠ 0
  · rw [if_pos hwake] at h
    obtain ⟨rfl, rfl⟩ : r = r' ∧ cpu = cpu' := by simpa using h
    exact .disabled (decide_eq_false hwake)
  rw [if_neg hwake] at h
  simp only [bind, Option.bind_eq_some_iff] at h
  obtain ⟨r₁, hr₁, enabled, henabled, h⟩ := h
  obtain ⟨p, rfl, hp⟩ := changePendingStatus_eq hr₁
  have hview : ({ r with pending := p } : GicRedistributorMmio).view =
      r.view.setPending intId.toNat := by
    simp [view, ControllerView.setPending, hp]
  have henable := getEnable_eq henabled
  rw [hview] at henable
  cases enabled with
  | false =>
    obtain ⟨rfl, rfl⟩ : { r with pending := p } = r' ∧ cpu = cpu' := by simpa using h
    rw [hview]
    exact .masked fun hdue => Bool.false_ne_true (henable.trans hdue.2.2.1)
  | true =>
    simp only [Bool.not_true, Bool.false_eq_true, if_false, Option.bind_eq_some_iff] at h
    obtain ⟨gm, hgm, h⟩ := h
    have hsecure := getGroupModifier_eq hgm
    rw [hview] at hsecure
    by_cases hgm1 : gm = 1
    · rw [if_pos hgm1] at h
      obtain ⟨rfl, rfl⟩ : { r with pending := p } = r' ∧ cpu = cpu' := by simpa using h
      rw [hview]
      exact .masked fun hdue => Bool.false_ne_true (hdue.2.2.2.symm.trans (hsecure.1 hgm1))
    rw [if_neg hgm1] at h
    simp only [Option.bind_eq_some_iff] at h
    obtain ⟨group, -, priority, -, h⟩ := h
    have hdue : (r.view.setPending intId.toNat).Due intId.toNat := by
      refine ⟨decide_eq_true (not_not.1 hwake), ?_, henable.symm, ?_⟩
      · simp [ControllerView.setPending]
      · exact Bool.eq_false_iff.2 fun ht => hgm1 (hsecure.2 ht)
    have hmakes : r.view.Makes intId.toNat
        ⟨Vgic.createListRegisterEntry intId group priority physicalIntId, r.owner⟩ :=
      ⟨by rw [Vgic.vintid_createListRegisterEntry, ofNat_toNat_eq_setWidth],
        Vgic.createListRegisterEntry_not_inactive _ _ _ _, rfl⟩
    by_cases hroute : r.affinity = mpidrToAffinity cpu.mpidrEl1
    · rw [if_pos hroute] at h
      obtain ⟨rfl, rfl⟩ : { r with pending := p } = r' ∧ _ = cpu' := by simpa using h
      rw [hview]
      exact .loaded _ hroute hdue hmakes
    · rw [if_neg hroute] at h
      simp only [Option.bind_eq_some_iff] at h
      obtain ⟨-, -, h⟩ := h
      obtain ⟨rfl, rfl⟩ : _ = r' ∧ _ = cpu' := by simpa using h
      have hq : ({ r with
          pending := p
          toInjectInterrupt := r.toInjectInterrupt ++
            [⟨Vgic.createListRegisterEntry intId group priority physicalIntId, r.owner⟩] } :
            GicRedistributorMmio).view = (r.view.setPending intId.toNat).enqueue
            ⟨Vgic.createListRegisterEntry intId group priority physicalIntId, r.owner⟩ := by
        rw [← hview]
        rfl
      rw [hq]
      exact .queued _ _ hroute hdue hmakes

end GicRedistributorMmio

end MiniVisor
