import MiniVisor.ControllerView

/-!
# Guest writes to the emulated controllers

A write to `ISENABLER` or `ISPENDR` first raises register bits and then triggers
the interrupts of the set bits one by one. Every other write only changes
registers. `Written` says what such a write can do to the abstract controller;
the last two theorems show that both `write` handlers stay within it.
-/
namespace MiniVisor

namespace ControllerView

/-- A sequence of `trigger_interrupt` calls, one for each listed interrupt. -/
inductive TriggerRun : ControllerView → Pcpu → List ℕ → ControllerView → Pcpu → Prop
  | nil (c : ControllerView) (cpu : Pcpu) : TriggerRun c cpu [] c cpu
  | cons {c c₁ c' : ControllerView} {cpu cpu₁ cpu' : Pcpu} {n : ℕ} {ns : List ℕ}
      {isLocal : Prop} : c.Triggered cpu n isLocal c₁ cpu₁ → TriggerRun c₁ cpu₁ ns c' cpu' →
      TriggerRun c cpu (n :: ns) c' cpu'

theorem TriggerRun.append {c c₁ c' : ControllerView} {cpu cpu₁ cpu' : Pcpu} {ns ns' : List ℕ}
    (h : TriggerRun c cpu ns c₁ cpu₁) (h' : TriggerRun c₁ cpu₁ ns' c' cpu') :
    TriggerRun c cpu (ns ++ ns') c' cpu' := by
  induction h with
  | nil => exact h'
  | cons htr _ ih => exact .cons htr (ih h')

/-- Pending and enabled, but held back by the controller. -/
def Blocked (c : ControllerView) (n : ℕ) : Prop :=
  c.pending n = true ∧ c.enable n = true ∧ ¬ c.Due n

/-- What a register write can do. `uncovers` names the interrupts that the write
makes deliverable without triggering them. -/
inductive Written (c : ControllerView) (cpu : Pcpu) (uncovers : ℕ → Prop) :
    ControllerView → Pcpu → Prop
  | quiet (c' : ControllerView) : c'.queue = c.queue → c'.owner = c.owner →
      (∀ n, c'.Due n → c.Due n ∨ uncovers n) → Written c cpu uncovers c' cpu
  | raised (c₁ c' : ControllerView) (cpu' : Pcpu) (ns : List ℕ) :
      c₁.queue = c.queue → c₁.owner = c.owner → (∀ n, c₁.Due n → c.Due n ∨ n ∈ ns) →
      TriggerRun c₁ cpu ns c' cpu' → Written c cpu uncovers c' cpu'

theorem Triggered.pending_mono {c c' : ControllerView} {cpu cpu' : Pcpu} {n m : ℕ}
    {isLocal : Prop} (h : c.Triggered cpu n isLocal c' cpu') (hm : c.pending m = true) :
    c'.pending m = true := by
  have hset : (c.setPending n).pending m = true := by
    by_cases hmn : m = n <;> simp [setPending, hmn, hm]
  cases h with
  | disabled => exact hm
  | masked => exact hset
  | loaded => exact hset
  | queued => exact hset

theorem Triggered.enable_eq {c c' : ControllerView} {cpu cpu' : Pcpu} {n : ℕ}
    {isLocal : Prop} (h : c.Triggered cpu n isLocal c' cpu') : c'.enable = c.enable := by
  cases h <;> rfl

end ControllerView

open ControllerView

theorem and_one_ne_zero (x : BitVec 64) : x &&& 1 ≠ 0 ↔ x.getLsbD 0 = true := by
  rw [show (1 : BitVec 64) = 1#64 from rfl, Masks.and_one]
  cases x.getLsbD 0 <;> simp

/-- The bit loop is a sequence of triggers, and it triggers every set bit whose
test already holds when the loop starts: no later trigger takes a test back. -/
theorem forSetBits_triggerRun {σ : Type} (view : σ → ControllerView) (cpuOf : σ → Pcpu)
    {test : σ → BitVec 32 → Option Bool} {trigger : σ → BitVec 32 → Option σ}
    (tested : ControllerView → ℕ → Bool)
    (htrigger : ∀ s i s', trigger s i = some s' →
      ∃ isLocal, (view s).Triggered (cpuOf s) i.toNat isLocal (view s') (cpuOf s'))
    (htest : ∀ s i b, test s i = some b → b = tested (view s) i.toNat)
    (hmono : ∀ c cpu n isLocal c' cpu', Triggered c cpu n isLocal c' cpu' →
      ∀ m, tested c m = true → tested c' m = true)
    (fuel : ℕ) (value : BitVec 64) (base : BitVec 32) (s s' : σ)
    (hbase : base.toNat + fuel < 2 ^ 32)
    (h : forSetBits test trigger fuel value base s = some s') :
    ∃ ns, TriggerRun (view s) (cpuOf s) ns (view s') (cpuOf s') ∧
      ∀ k < fuel, value.getLsbD k = true → tested (view s) (base.toNat + k) = true →
        base.toNat + k ∈ ns := by
  induction fuel generalizing value base s with
  | zero =>
    obtain rfl := Option.some.inj h
    exact ⟨[], .nil _ _, fun k hk => absurd hk (by omega)⟩
  | succ fuel ih =>
    unfold forSetBits at h
    by_cases hzero : value = 0
    · rw [if_pos hzero] at h
      obtain rfl := Option.some.inj h
      refine ⟨[], .nil _ _, fun k _ hbit => ?_⟩
      rw [hzero] at hbit
      simp at hbit
    rw [if_neg hzero] at h
    simp only [Option.bind_eq_some_iff] at h
    obtain ⟨hit, hhit, s₁, hs₁, hrest⟩ := h
    have hnext : (base + 1).toNat = base.toNat + 1 := by
      rw [BitVec.toNat_add]
      exact Nat.mod_eq_of_lt (by simp; omega)
    have hlow : (value &&& 1 ≠ 0) ↔ value.getLsbD 0 = true := and_one_ne_zero value
    have hstep : ∃ ns₁, TriggerRun (view s) (cpuOf s) ns₁ (view s₁) (cpuOf s₁) ∧
        (∀ m, tested (view s) m = true → tested (view s₁) m = true) ∧
        (value.getLsbD 0 = true → tested (view s) base.toNat = true → base.toNat ∈ ns₁) := by
      cases hit with
      | true =>
        obtain ⟨isLocal, htr⟩ := htrigger s base s₁ (by simpa using hs₁)
        exact ⟨[base.toNat], .cons htr (.nil _ _), hmono _ _ _ _ _ _ htr, fun _ _ => by simp⟩
      | false =>
        obtain rfl : s = s₁ := by simpa using hs₁
        refine ⟨[], .nil _ _, fun _ hm => hm, fun hbit htst => ?_⟩
        rw [if_pos (hlow.2 hbit)] at hhit
        exact absurd (htest s base false hhit) (by simp [htst])
    obtain ⟨ns₁, hrun₁, hmono₁, hfirst⟩ := hstep
    obtain ⟨ns₂, hrun₂, hall⟩ := ih (value >>> 1) (base + 1) s₁ (by omega) hrest
    refine ⟨ns₁ ++ ns₂, ?_, ?_⟩
    · exact hrun₁.append hrun₂
    · intro k hk hbit htst
      rw [List.mem_append]
      cases k with
      | zero => exact .inl (hfirst hbit htst)
      | succ k =>
        right
        have hmem := hall k (by omega)
        rw [hnext, BitVec.getLsbD_ushiftRight, show base.toNat + 1 + k = base.toNat + (k + 1) by omega,
          Nat.add_comm 1 k] at hmem
        exact hmem hbit (hmono₁ _ htst)

/-! ## Register banks under a write -/

theorem bankTest_modify {bank bank' : Vector (BitVec 32) 32} {register : ℕ}
    {f : BitVec 32 → BitVec 32} (h : Checked.modify bank register f = some bank') (n : ℕ) :
    ∃ old : BitVec 32, (n / 32 = register → bankTest bank n = old.getLsbD (n % 32)) ∧
      bankTest bank' n =
        if n / 32 = register then (f old).getLsbD (n % 32) else bankTest bank n := by
  obtain ⟨hlt, rfl⟩ := Checked.modify_eq_some.1 h
  refine ⟨bank[register], ?_, ?_⟩
  · rintro rfl
    simp [bankTest, hlt]
  · by_cases hn : n / 32 = register
    · subst hn
      simp [bankTest, hlt]
    · simp [bankTest, Ne.symm hn, hn]

/-- Raising bits of a register: a bit that reads set was set or is in the word. -/
theorem bankTest_or {bank bank' : Vector (BitVec 32) 32} {register : ℕ} {word : BitVec 32}
    (h : Checked.modify bank register (· ||| word) = some bank') {n : ℕ}
    (hn : bankTest bank' n = true) :
    bankTest bank n = true ∨ n / 32 = register ∧ word.getLsbD (n % 32) = true := by
  obtain ⟨old, hold, hnew⟩ := bankTest_modify h n
  by_cases hreg : n / 32 = register
  · rw [hnew, if_pos hreg, BitVec.getLsbD_or, Bool.or_eq_true] at hn
    rw [hold hreg]
    exact hn.imp id fun hw => ⟨hreg, hw⟩
  · rw [hnew, if_neg hreg] at hn
    exact .inl hn

/-- Clearing bits of a register: a bit that reads set was set. -/
theorem bankTest_and_not {bank bank' : Vector (BitVec 32) 32} {register : ℕ} {word : BitVec 32}
    (h : Checked.modify bank register (· &&& ~~~ word) = some bank') {n : ℕ}
    (hn : bankTest bank' n = true) : bankTest bank n = true := by
  obtain ⟨old, hold, hnew⟩ := bankTest_modify h n
  by_cases hreg : n / 32 = register
  · rw [hnew, if_pos hreg, BitVec.getLsbD_and, Bool.and_eq_true] at hn
    rw [hold hreg]
    exact hn.1
  · rw [hnew, if_neg hreg] at hn
    exact hn

theorem getLsbD_word {value : BitVec 64} {k : ℕ}
    (h : (value.setWidth 32).getLsbD k = true) : value.getLsbD k = true := by
  rw [BitVec.getLsbD_setWidth, Bool.and_eq_true] at h
  exact h.2

/-! ## The write handlers -/

namespace GicDistributorMmio

/-- A blocked interrupt that a write of `GICD_CTLR` or `GICD_IGRPMODR<n>` lets
through. Neither write looks at the pending bits. -/
def Uncovers (d : GicDistributorMmio) (offset accessWidth : ℕ) (value : BitVec 64) (n : ℕ) :
    Prop :=
  d.view.Blocked n ∧
    ((offset = gicdCtlr ∧ accessWidth = 32 ∧ value.setWidth 32 &&& gicdCtlrEnableGrp1ns ≠ 0 ∧
        value.setWidth 32 &&& gicdCtlrAreS ≠ 0 ∧ d.view.secure n = false) ∨
      (Hits gicdIgrpmodr0 gicdIgrpmodr31 offset accessWidth ∧ d.view.on = true ∧
        n / 32 = (offset - gicdIgrpmodr0) / 4 ∧
        (value.setWidth 32).getLsbD (n % 32) = false))

theorem forSetBits_getPending {d : GicDistributorMmio} {cpu : Pcpu} {value : BitVec 64}
    {register : ℕ} {s : GicDistributorMmio × Pcpu} (hreg : register < 32)
    (h : forSetBits (fun s intId => s.1.getPending intId)
      (fun s intId => s.1.triggerInterrupt s.2 intId none) 64 value
      (BitVec.ofNat 32 (register * 32)) (d, cpu) = some s) :
    ∃ ns, TriggerRun d.view cpu ns s.1.view s.2 ∧
      ∀ n, n / 32 = register → value.getLsbD (n % 32) = true → d.view.pending n = true →
        n ∈ ns := by
  have hbase : (BitVec.ofNat 32 (register * 32)).toNat = register * 32 := by
    rw [BitVec.toNat_ofNat]
    exact Nat.mod_eq_of_lt (by omega)
  obtain ⟨ns, hrun, hall⟩ := forSetBits_triggerRun
    (fun s : GicDistributorMmio × Pcpu => s.1.view) (fun s => s.2) (fun c => c.pending)
    (fun s i s' hs => ⟨_, triggerInterrupt_triggered hs⟩) (fun s i b hb => getPending_eq hb)
    (fun _ _ _ _ _ _ ht m hm => ht.pending_mono hm) 64 value _ (d, cpu) s
    (by rw [hbase]; omega) h
  refine ⟨ns, hrun, fun n hn hbit hp => ?_⟩
  have hsum : register * 32 + n % 32 = n := by omega
  rw [hbase] at hall
  exact hsum ▸ hall (n % 32) (by omega) hbit (by rw [hsum]; exact hp)

theorem forSetBits_getEnable {d : GicDistributorMmio} {cpu : Pcpu} {value : BitVec 64}
    {register : ℕ} {s : GicDistributorMmio × Pcpu} (hreg : register < 32)
    (h : forSetBits (fun s intId => s.1.getEnable intId)
      (fun s intId => s.1.triggerInterrupt s.2 intId none) 64 value
      (BitVec.ofNat 32 (register * 32)) (d, cpu) = some s) :
    ∃ ns, TriggerRun d.view cpu ns s.1.view s.2 ∧
      ∀ n, n / 32 = register → value.getLsbD (n % 32) = true → d.view.enable n = true →
        n ∈ ns := by
  have hbase : (BitVec.ofNat 32 (register * 32)).toNat = register * 32 := by
    rw [BitVec.toNat_ofNat]
    exact Nat.mod_eq_of_lt (by omega)
  obtain ⟨ns, hrun, hall⟩ := forSetBits_triggerRun
    (fun s : GicDistributorMmio × Pcpu => s.1.view) (fun s => s.2) (fun c => c.enable)
    (fun s i s' hs => ⟨_, triggerInterrupt_triggered hs⟩) (fun s i b hb => getEnable_eq hb)
    (fun _ _ _ _ _ _ ht m hm => by rw [ht.enable_eq]; exact hm) 64 value _ (d, cpu) s
    (by rw [hbase]; omega) h
  refine ⟨ns, hrun, fun n hn hbit hp => ?_⟩
  have hsum : register * 32 + n % 32 = n := by omega
  rw [hbase] at hall
  exact hsum ▸ hall (n % 32) (by omega) hbit (by rw [hsum]; exact hp)

theorem write_written {d d' : GicDistributorMmio} {cpu cpu' : Pcpu} {offset accessWidth : ℕ}
    {value : BitVec 64} (h : d.write cpu offset accessWidth value = some (d', cpu')) :
    d.view.Written cpu (d.Uncovers offset accessWidth value) d'.view cpu' := by
  unfold write at h
  by_cases hctlr : offset = gicdCtlr ∧ accessWidth = 32
  · rw [if_pos hctlr] at h
    obtain ⟨rfl, rfl⟩ : _ = d' ∧ cpu = cpu' := by simpa using h
    refine .quiet _ rfl rfl fun n hn => ?_
    by_cases hdue : d.view.Due n
    · exact .inl hdue
    · obtain ⟨hgrp, hare⟩ := of_decide_eq_true hn.1
      exact .inr ⟨⟨hn.2.1, hn.2.2.1, hdue⟩, .inl ⟨hctlr.1, hctlr.2, hgrp, hare, hn.2.2.2⟩⟩
  rw [if_neg hctlr] at h
  by_cases hgroup : Hits gicdIgroupr0 gicdIgroupr31 offset accessWidth
  · rw [if_pos hgroup] at h
    obtain ⟨group, -, hret⟩ := Option.bind_eq_some_iff.1 h
    obtain ⟨rfl, rfl⟩ : _ = d' ∧ cpu = cpu' := by simpa using hret
    exact .quiet _ rfl rfl fun n hn => .inl hn
  rw [if_neg hgroup] at h
  by_cases hisen : Hits gicdIsenabler0 gicdIsenabler31 offset accessWidth
  · rw [if_pos hisen] at h
    obtain ⟨enable, hen, hret⟩ := Option.bind_eq_some_iff.1 h
    have hreg := (Checked.modify_eq_some.1 hen).choose
    obtain ⟨ns, hrun, hall⟩ := forSetBits_getPending hreg hret
    refine .raised (view { d with enable := enable }) _ _ ns rfl rfl (fun n hn => ?_) hrun
    obtain hold | ⟨hr, hw⟩ := bankTest_or hen hn.2.2.1
    · exact .inl ⟨hn.1, hn.2.1, hold, hn.2.2.2⟩
    · exact .inr (hall n hr (getLsbD_word hw) hn.2.1)
  rw [if_neg hisen] at h
  by_cases hicen : Hits gicdIcenabler0 gicdIcenabler31 offset accessWidth
  · rw [if_pos hicen] at h
    obtain ⟨enable, hen, hret⟩ := Option.bind_eq_some_iff.1 h
    obtain ⟨rfl, rfl⟩ : _ = d' ∧ cpu = cpu' := by simpa using hret
    exact .quiet _ rfl rfl fun n hn =>
      .inl ⟨hn.1, hn.2.1, bankTest_and_not hen hn.2.2.1, hn.2.2.2⟩
  rw [if_neg hicen] at h
  by_cases hispend : Hits gicdIspendr0 gicdIspendr31 offset accessWidth
  · rw [if_pos hispend] at h
    obtain ⟨pending, hpend, hret⟩ := Option.bind_eq_some_iff.1 h
    have hreg := (Checked.modify_eq_some.1 hpend).choose
    obtain ⟨ns, hrun, hall⟩ := forSetBits_getEnable hreg hret
    refine .raised (view { d with pending := pending }) _ _ ns rfl rfl (fun n hn => ?_) hrun
    obtain hold | ⟨hr, hw⟩ := bankTest_or hpend hn.2.1
    · exact .inl ⟨hn.1, hold, hn.2.2.1, hn.2.2.2⟩
    · exact .inr (hall n hr (getLsbD_word hw) hn.2.2.1)
  rw [if_neg hispend] at h
  by_cases hicpend : Hits gicdIcpendr0 gicdIcpendr31 offset accessWidth
  · rw [if_pos hicpend] at h
    obtain ⟨pending, hpend, hret⟩ := Option.bind_eq_some_iff.1 h
    obtain ⟨rfl, rfl⟩ : _ = d' ∧ cpu = cpu' := by simpa using hret
    exact .quiet _ rfl rfl fun n hn =>
      .inl ⟨hn.1, bankTest_and_not hpend hn.2.1, hn.2.2.1, hn.2.2.2⟩
  rw [if_neg hicpend] at h
  by_cases hisact : Hits gicdIsactiver0 gicdIsactiver31 offset accessWidth
  · rw [if_pos hisact] at h
    obtain ⟨active, -, hret⟩ := Option.bind_eq_some_iff.1 h
    obtain ⟨rfl, rfl⟩ : _ = d' ∧ cpu = cpu' := by simpa using hret
    exact .quiet _ rfl rfl fun n hn => .inl hn
  rw [if_neg hisact] at h
  by_cases hicact : Hits gicdIcactiver0 gicdIcactiver31 offset accessWidth
  · rw [if_pos hicact] at h
    obtain ⟨active, -, hret⟩ := Option.bind_eq_some_iff.1 h
    obtain ⟨rfl, rfl⟩ : _ = d' ∧ cpu = cpu' := by simpa using hret
    exact .quiet _ rfl rfl fun n hn => .inl hn
  rw [if_neg hicact] at h
  by_cases hprio : gicdIpriorityr0 ≤ offset ∧ offset < gicdIpriorityr254 + 4
  · rw [if_pos hprio] at h
    obtain ⟨priority, -, hret⟩ := Option.bind_eq_some_iff.1 h
    obtain ⟨rfl, rfl⟩ : _ = d' ∧ cpu = cpu' := by simpa using hret
    exact .quiet _ rfl rfl fun n hn => .inl hn
  rw [if_neg hprio] at h
  by_cases hcfg : Hits gicdIcfgr0 gicdIcfgr63 offset accessWidth
  · rw [if_pos hcfg] at h
    obtain ⟨configuration, -, hret⟩ := Option.bind_eq_some_iff.1 h
    obtain ⟨rfl, rfl⟩ : _ = d' ∧ cpu = cpu' := by simpa using hret
    exact .quiet _ rfl rfl fun n hn => .inl hn
  rw [if_neg hcfg] at h
  by_cases hgrpmod : Hits gicdIgrpmodr0 gicdIgrpmodr31 offset accessWidth
  · rw [if_pos hgrpmod] at h
    obtain ⟨groupModifier, hgm, hret⟩ := Option.bind_eq_some_iff.1 h
    obtain ⟨rfl, rfl⟩ : _ = d' ∧ cpu = cpu' := by simpa using hret
    refine .quiet _ rfl rfl fun n hn => ?_
    by_cases hdue : d.view.Due n
    · exact .inl hdue
    obtain ⟨old, -, hnew⟩ := bankTest_modify hgm n
    have hclear : bankTest groupModifier n = false := hn.2.2.2
    rw [hnew] at hclear
    split_ifs at hclear with hreg
    · exact .inr ⟨⟨hn.2.1, hn.2.2.1, hdue⟩, .inr ⟨hgrpmod, hn.1, hreg, hclear⟩⟩
    · exact absurd ⟨hn.1, hn.2.1, hn.2.2.1, hclear⟩ hdue
  rw [if_neg hgrpmod] at h
  by_cases hrouter : gicdIrouter0 ≤ offset ∧ offset ≤ gicdIrouter1019 ∧ accessWidth = 64
  · rw [if_pos hrouter] at h
    obtain ⟨router, -, hret⟩ := Option.bind_eq_some_iff.1 h
    obtain ⟨rfl, rfl⟩ : _ = d' ∧ cpu = cpu' := by simpa using hret
    exact .quiet _ rfl rfl fun n hn => .inl hn
  rw [if_neg hrouter] at h
  obtain ⟨rfl, rfl⟩ : d = d' ∧ cpu = cpu' := by simpa using h
  exact .quiet _ rfl rfl fun n hn => .inl hn

end GicDistributorMmio

namespace GicRedistributorMmio

/-- A blocked interrupt that a write of `GICR_WAKER` or `GICR_IGRPMODR0` lets through. -/
def Uncovers (r : GicRedistributorMmio) (offset accessWidth : ℕ) (value : BitVec 64) (n : ℕ) :
    Prop :=
  r.view.Blocked n ∧
    ((offset = gicrWaker ∧ accessWidth = 32 ∧
        value.setWidth 32 &&& gicrWakerProcessorSleep = 0 ∧ r.view.secure n = false) ∨
      (offset = gicrIgrpmodr0 ∧ accessWidth = 32 ∧ r.view.on = true ∧
        (value.setWidth 32).getLsbD n = false))

theorem forSetBits_getPending {r : GicRedistributorMmio} {cpu : Pcpu} {value : BitVec 64}
    {s : GicRedistributorMmio × Pcpu}
    (h : forSetBits (fun s intId => s.1.getPending intId)
      (fun s intId => s.1.triggerInterrupt s.2 intId none) 32 value 0 (r, cpu) = some s) :
    ∃ ns, TriggerRun r.view cpu ns s.1.view s.2 ∧
      ∀ n < 32, value.getLsbD n = true → r.view.pending n = true → n ∈ ns := by
  obtain ⟨ns, hrun, hall⟩ := forSetBits_triggerRun
    (fun s : GicRedistributorMmio × Pcpu => s.1.view) (fun s => s.2) (fun c => c.pending)
    (fun s i s' hs => ⟨_, triggerInterrupt_triggered hs⟩) (fun s i b hb => getPending_eq hb)
    (fun _ _ _ _ _ _ ht m hm => ht.pending_mono hm) 32 value 0 (r, cpu) s (by decide) h
  refine ⟨ns, hrun, fun n hn hbit hp => ?_⟩
  simpa using hall n hn hbit (by simpa using hp)

theorem forSetBits_getEnable {r : GicRedistributorMmio} {cpu : Pcpu} {value : BitVec 64}
    {s : GicRedistributorMmio × Pcpu}
    (h : forSetBits (fun s intId => s.1.getEnable intId)
      (fun s intId => s.1.triggerInterrupt s.2 intId none) 32 value 0 (r, cpu) = some s) :
    ∃ ns, TriggerRun r.view cpu ns s.1.view s.2 ∧
      ∀ n < 32, value.getLsbD n = true → r.view.enable n = true → n ∈ ns := by
  obtain ⟨ns, hrun, hall⟩ := forSetBits_triggerRun
    (fun s : GicRedistributorMmio × Pcpu => s.1.view) (fun s => s.2) (fun c => c.enable)
    (fun s i s' hs => ⟨_, triggerInterrupt_triggered hs⟩) (fun s i b hb => getEnable_eq hb)
    (fun _ _ _ _ _ _ ht m hm => by rw [ht.enable_eq]; exact hm) 32 value 0 (r, cpu) s
    (by decide) h
  refine ⟨ns, hrun, fun n hn hbit hp => ?_⟩
  simpa using hall n hn hbit (by simpa using hp)

theorem lt_of_getLsbD {x : BitVec 32} {n : ℕ} (h : x.getLsbD n = true) : n < 32 := by
  by_contra hn
  rw [BitVec.getLsbD_of_ge x n (by omega)] at h
  exact Bool.false_ne_true h

theorem view_writeCtlr (r : GicRedistributorMmio) (offset accessWidth : ℕ) (value : BitVec 64) :
    (r.writeCtlr offset accessWidth value).view = r.view := by
  unfold writeCtlr
  split_ifs <;> rfl

theorem writeRegister_written {r r' : GicRedistributorMmio} {cpu cpu' : Pcpu}
    {offset accessWidth : ℕ} {value : BitVec 64}
    (h : r.writeRegister cpu offset accessWidth value = some (r', cpu')) :
    r.view.Written cpu (r.Uncovers offset accessWidth value) r'.view cpu' := by
  unfold writeRegister at h
  by_cases hwaker : offset = gicrWaker ∧ accessWidth = 32
  · rw [if_pos hwaker] at h
    by_cases hsleep : value.setWidth 32 &&& gicrWakerProcessorSleep = 0
    · rw [if_pos hsleep] at h
      obtain ⟨rfl, rfl⟩ : _ = r' ∧ cpu = cpu' := by simpa using h
      refine .quiet _ rfl rfl fun n hn => ?_
      by_cases hdue : r.view.Due n
      · exact .inl hdue
      · exact .inr ⟨⟨hn.2.1, hn.2.2.1, hdue⟩, .inl ⟨hwaker.1, hwaker.2, hsleep, hn.2.2.2⟩⟩
    · rw [if_neg hsleep] at h
      obtain ⟨rfl, rfl⟩ : _ = r' ∧ cpu = cpu' := by simpa using h
      -- the redistributor is asleep, so nothing is due
      have hasleep : (gicrWakerChildrenAsleep ||| gicrWakerProcessorSleep) &&&
          gicrWakerChildrenAsleep ≠ 0 := by decide
      exact .quiet _ rfl rfl fun n hn => absurd (of_decide_eq_true hn.1) hasleep
  rw [if_neg hwaker] at h
  by_cases hgroup : offset = gicrIgroupr0 ∧ accessWidth = 32
  · rw [if_pos hgroup] at h
    obtain ⟨rfl, rfl⟩ : _ = r' ∧ cpu = cpu' := by simpa using h
    exact .quiet _ rfl rfl fun n hn => .inl hn
  rw [if_neg hgroup] at h
  by_cases hisen : offset = gicrIsenabler0 ∧ accessWidth = 32
  · rw [if_pos hisen] at h
    obtain ⟨ns, hrun, hall⟩ := forSetBits_getPending h
    refine .raised (view { r with enable := r.enable ||| value.setWidth 32 }) _ _ ns rfl rfl
      (fun n hn => ?_) hrun
    have hlt := lt_of_getLsbD hn.2.2.1
    obtain ⟨hon, hpend, hen, hsec⟩ := hn
    change (r.enable ||| value.setWidth 32).getLsbD n = true at hen
    rw [BitVec.getLsbD_or, Bool.or_eq_true] at hen
    exact hen.imp (fun hold => ⟨hon, hpend, hold, hsec⟩)
      fun hw => hall n hlt (getLsbD_word hw) hpend
  rw [if_neg hisen] at h
  by_cases hicen : offset = gicrIcenabler0 ∧ accessWidth = 32
  · rw [if_pos hicen] at h
    obtain ⟨rfl, rfl⟩ : _ = r' ∧ cpu = cpu' := by simpa using h
    refine .quiet _ rfl rfl fun n hn => ?_
    obtain ⟨hon, hpend, hen, hsec⟩ := hn
    change (r.enable &&& ~~~ (value.setWidth 32)).getLsbD n = true at hen
    rw [BitVec.getLsbD_and, Bool.and_eq_true] at hen
    exact .inl ⟨hon, hpend, hen.1, hsec⟩
  rw [if_neg hicen] at h
  by_cases hispend : offset = gicrIspendr0 ∧ accessWidth = 32
  · rw [if_pos hispend] at h
    obtain ⟨ns, hrun, hall⟩ := forSetBits_getEnable h
    refine .raised (view { r with pending := r.pending ||| value.setWidth 32 }) _ _ ns rfl rfl
      (fun n hn => ?_) hrun
    have hlt := lt_of_getLsbD hn.2.1
    obtain ⟨hon, hpend, hen, hsec⟩ := hn
    change (r.pending ||| value.setWidth 32).getLsbD n = true at hpend
    rw [BitVec.getLsbD_or, Bool.or_eq_true] at hpend
    exact hpend.imp (fun hold => ⟨hon, hold, hen, hsec⟩)
      fun hw => hall n hlt (getLsbD_word hw) hen
  rw [if_neg hispend] at h
  by_cases hicpend : offset = gicrIcpendr0 ∧ accessWidth = 32
  · rw [if_pos hicpend] at h
    obtain ⟨rfl, rfl⟩ : _ = r' ∧ cpu = cpu' := by simpa using h
    refine .quiet _ rfl rfl fun n hn => ?_
    obtain ⟨hon, hpend, hen, hsec⟩ := hn
    change (r.pending &&& ~~~ (value.setWidth 32)).getLsbD n = true at hpend
    rw [BitVec.getLsbD_and, Bool.and_eq_true] at hpend
    exact .inl ⟨hon, hpend.1, hen, hsec⟩
  rw [if_neg hicpend] at h
  by_cases hisact : offset = gicrIsactiver0 ∧ accessWidth = 32
  · rw [if_pos hisact] at h
    obtain ⟨rfl, rfl⟩ : _ = r' ∧ cpu = cpu' := by simpa using h
    exact .quiet _ rfl rfl fun n hn => .inl hn
  rw [if_neg hisact] at h
  by_cases hicact : offset = gicrIcactiver0 ∧ accessWidth = 32
  · rw [if_pos hicact] at h
    obtain ⟨rfl, rfl⟩ : _ = r' ∧ cpu = cpu' := by simpa using h
    exact .quiet _ rfl rfl fun n hn => .inl hn
  rw [if_neg hicact] at h
  by_cases hprio : gicrIpriorityr0 ≤ offset ∧ offset < gicrIpriorityr7 + 4
  · rw [if_pos hprio] at h
    obtain ⟨priority, -, hret⟩ := Option.bind_eq_some_iff.1 h
    obtain ⟨rfl, rfl⟩ : _ = r' ∧ cpu = cpu' := by simpa using hret
    exact .quiet _ rfl rfl fun n hn => .inl hn
  rw [if_neg hprio] at h
  by_cases hcfg : GicDistributorMmio.Hits gicrIcfgr0 gicrIcfgr1 offset accessWidth
  · rw [if_pos hcfg] at h
    obtain ⟨configuration, -, hret⟩ := Option.bind_eq_some_iff.1 h
    obtain ⟨rfl, rfl⟩ : _ = r' ∧ cpu = cpu' := by simpa using hret
    exact .quiet _ rfl rfl fun n hn => .inl hn
  rw [if_neg hcfg] at h
  by_cases hgrpmod : offset = gicrIgrpmodr0 ∧ accessWidth = 32
  · rw [if_pos hgrpmod] at h
    obtain ⟨rfl, rfl⟩ : _ = r' ∧ cpu = cpu' := by simpa using h
    refine .quiet _ rfl rfl fun n hn => ?_
    by_cases hdue : r.view.Due n
    · exact .inl hdue
    · exact .inr ⟨⟨hn.2.1, hn.2.2.1, hdue⟩, .inr ⟨hgrpmod.1, hgrpmod.2, hn.1, hn.2.2.2⟩⟩
  rw [if_neg hgrpmod] at h
  obtain ⟨rfl, rfl⟩ : r = r' ∧ cpu = cpu' := by simpa using h
  exact .quiet _ rfl rfl fun n hn => .inl hn

theorem write_written {r r' : GicRedistributorMmio} {cpu cpu' : Pcpu} {offset accessWidth : ℕ}
    {value : BitVec 64} (h : r.write cpu offset accessWidth value = some (r', cpu')) :
    r.view.Written cpu (r.Uncovers offset accessWidth value) r'.view cpu' := by
  have hw := writeRegister_written h
  unfold Uncovers at hw
  rwa [view_writeCtlr] at hw

end GicRedistributorMmio

end MiniVisor
