import MiniVisor.Library.Runs
import MiniVisor.TriggerOutcomes

/-!
# Guest accesses that panic

A guest reads and writes the windows of both controllers in any order. An
access panics through an index out of bounds or a failed assertion; both
happen in the distributor only. `Crashes` is the exact condition on the state
and the access, so a run of accesses panics exactly at the first one that meets it.
-/
namespace MiniVisor

namespace GicDistributorMmio

/-- A trigger of the interrupt that gets past the enable check panics. -/
def Unroutable (d : GicDistributorMmio) (mpidrEl1 : BitVec 64) (n : ℕ) : Prop :=
  d.ctlr &&& gicdCtlrEnableGrp1ns ≠ 0 ∧ bankTest d.groupModifier n = false ∧
    (1020 ≤ n ∨ d.ctlr &&& gicdCtlrAreS ≠ 0 ∧ ∃ router,
      d.getRouter (BitVec.ofNat 32 n) = some router ∧ ¬ RoutedTo router mpidrEl1 ∧
        16 ≤ (aff0 router).toNat)

theorem triggerInterrupt_eq_none_iff (d : GicDistributorMmio) (cpu : Pcpu) {intId : BitVec 32}
    (physicalIntId : Option (BitVec 32)) (hid : intId.toNat < 1024)
    (henabled : bankTest d.enable intId.toNat = true) :
    d.triggerInterrupt cpu intId physicalIntId = none ↔ d.Unroutable cpu.mpidrEl1 intId.toNat := by
  have hofNat : BitVec.ofNat 32 intId.toNat = intId := by simp
  have ho := d.triggerInterrupt_outcome cpu physicalIntId hid
  generalize d.triggerInterrupt cpu intId physicalIntId = res at ho ⊢
  cases ho with
  | off hoff => exact iff_of_false (by simp) fun h => h.1 hoff
  | masked p hgrp hpass =>
    exact iff_of_false (by simp) fun h => hpass ⟨hgrp, henabled, h.2.1⟩
  | beyond hpass hge => exact iff_of_true rfl ⟨hpass.grp1ns, hpass.nonsecure, .inl hge⟩
  | unrouted p hpass hlt hare =>
    refine iff_of_false (by simp) fun h => ?_
    obtain hge | ⟨hare', -⟩ := h.2.2
    · omega
    · exact hare' hare
  | loaded p router priority hpass hlt hare hrouter hroute =>
    refine iff_of_false (by simp) fun h => ?_
    obtain hge | ⟨-, router', hrouter', hnot, -⟩ := h.2.2
    · omega
    · rw [hofNat, hrouter] at hrouter'
      exact hnot (Option.some.inj hrouter' ▸ hroute)
  | sent p router priority hpass hlt hare hrouter hroute haff =>
    refine iff_of_false (by simp) fun h => ?_
    obtain hge | ⟨-, router', hrouter', -, haff'⟩ := h.2.2
    · omega
    · rw [hofNat, hrouter] at hrouter'
      rw [← Option.some.inj hrouter'] at haff'
      omega
  | unsendable router hpass hlt hare hrouter hroute haff =>
    refine iff_of_true rfl ⟨hpass.grp1ns, hpass.nonsecure, .inr ⟨hare, router, ?_, hroute, haff⟩⟩
    rw [hofNat, hrouter]

theorem getPending_of_lt (d : GicDistributorMmio) {intId : BitVec 32} (h : intId.toNat < 1024) :
    d.getPending intId = some (bankTest d.pending intId.toNat) := by
  rw [getPending, bankBit_of_lt _ h]
  cases bankTest d.pending intId.toNat <;> rfl

theorem getEnable_of_lt (d : GicDistributorMmio) {intId : BitVec 32} (h : intId.toNat < 1024) :
    d.getEnable intId = some (bankTest d.enable intId.toNat) := by
  rw [getEnable, bankBit_of_lt _ h]
  cases bankTest d.enable intId.toNat <;> rfl

theorem TriggerFrame.unroutable_iff {s s' : GicDistributorMmio × Pcpu} (h : TriggerFrame s s')
    (n : ℕ) : s'.1.Unroutable s'.2.mpidrEl1 n ↔ s.1.Unroutable s.2.mpidrEl1 n := by
  rw [h.registers, h.mpidrEl1]
  exact Iff.rfl

/-- A trigger of an interrupt that is pending already changes no pending bit. -/
theorem triggerInterrupt_pending {d : GicDistributorMmio} {cpu : Pcpu} {intId : BitVec 32}
    {physicalIntId : Option (BitVec 32)} {s' : GicDistributorMmio × Pcpu}
    (h : d.triggerInterrupt cpu intId physicalIntId = some s')
    (hpending : bankTest d.pending intId.toNat = true) :
    bankTest s'.1.pending = bankTest d.pending := by
  have hset : ∀ {p}, changeBankBit d.pending intId true = some p →
      bankTest p = bankTest d.pending := fun hp => by
    rw [changeBankBit_eq hp, ← hpending, Function.update_eq_self]
  by_cases hid : intId.toNat < 1024
  · have ho := d.triggerInterrupt_outcome cpu physicalIntId hid
    rw [h] at ho
    cases ho with
    | off => rfl
    | masked p _ _ hp => exact hset hp
    | unrouted p _ _ _ hp => exact hset hp
    | loaded p _ _ _ _ _ _ _ hp => exact hset hp
    | sent p _ _ _ _ _ _ _ _ hp => exact hset hp
  · rw [triggerInterrupt_of_ge d cpu physicalIntId (by omega)] at h
    split_ifs at h
    obtain rfl := Option.some.inj h
    rfl

theorem lt_of_getLsbD_of_lt {value : BitVec 64} (hvalue : value.toNat < 2 ^ 32) {k : ℕ}
    (h : value.getLsbD k = true) : k < 32 := by
  by_contra hk
  rw [BitVec.getLsbD, Nat.testBit_lt_two_pow] at h
  · exact Bool.false_ne_true h
  · exact Nat.lt_of_lt_of_le hvalue (Nat.pow_le_pow_right (by decide) (by omega))

/-- The interrupts of register `k` whose bit is set in the value. -/
def Selected (k : ℕ) (value : BitVec 64) (n : ℕ) : Prop :=
  n / 32 = k ∧ value.getLsbD (n % 32) = true

/-- Bit positions of the loop against interrupt numbers. -/
theorem exists_bit_iff {value : BitVec 64} (hvalue : value.toNat < 2 ^ 32) (k : ℕ) (P : ℕ → Prop) :
    (∃ j < 64, value.getLsbD j = true ∧ P (k * 32 + j)) ↔ ∃ n, Selected k value n ∧ P n := by
  constructor
  · rintro ⟨j, -, hj, hP⟩
    have hlt := lt_of_getLsbD_of_lt hvalue hj
    refine ⟨k * 32 + j, ⟨by omega, ?_⟩, hP⟩
    rw [show (k * 32 + j) % 32 = j by omega]
    exact hj
  · rintro ⟨n, ⟨hk, hbit⟩, hP⟩
    refine ⟨n % 32, by omega, hbit, ?_⟩
    rw [show k * 32 + n % 32 = n by omega]
    exact hP

theorem toNat_base {k : ℕ} (hk : k < 32) : (BitVec.ofNat 32 (k * 32)).toNat = k * 32 := by
  rw [BitVec.toNat_ofNat]
  exact Nat.mod_eq_of_lt (by omega)

theorem enableLoop_eq_none_iff (s : GicDistributorMmio × Pcpu) {k : ℕ} (hk : k < 32)
    {value : BitVec 64} (hvalue : value.toNat < 2 ^ 32)
    (henabled : ∀ n, Selected k value n → bankTest s.1.enable n = true) :
    enableLoop s k value = none ↔ ∃ n, Selected k value n ∧ bankTest s.1.pending n = true ∧
      s.1.Unroutable s.2.mpidrEl1 n := by
  have hids : ∀ j, value.getLsbD j = true →
      k * 32 + j < 1024 ∧ bankTest s.1.enable (k * 32 + j) = true := by
    intro j hj
    have hlt := lt_of_getLsbD_of_lt hvalue hj
    refine ⟨by omega, henabled _ ⟨by omega, ?_⟩⟩
    rw [show (k * 32 + j) % 32 = j by omega]
    exact hj
  rw [← exists_bit_iff hvalue k
    fun n => bankTest s.1.pending n = true ∧ s.1.Unroutable s.2.mpidrEl1 n, ← toNat_base hk]
  refine forSetBits_eq_none_iff
    (fun t => TriggerFrame s t ∧ bankTest t.1.pending = bankTest s.1.pending)
    (fun n => n < 1024 ∧ bankTest s.1.enable n = true)
    (fun n => bankTest s.1.pending n = true) (fun n => s.1.Unroutable s.2.mpidrEl1 n)
    (fun t i ht hi => ⟨_, t.1.getPending_of_lt hi.1, by rw [ht.2]⟩) ?_
    ⟨⟨rfl, rfl, rfl⟩, rfl⟩ (by rw [toNat_base hk]; exact hids) (by rw [toNat_base hk]; omega)
  rintro t i ⟨hframe, hpend⟩ ⟨hi, hen⟩ hhit
  have hen' : bankTest t.1.enable i.toNat = true := by
    rw [hframe.registers]
    exact hen
  refine ⟨?_, fun t' ht' => ⟨hframe.trans (triggerInterrupt_frame ht'), ?_⟩⟩
  · rw [t.1.triggerInterrupt_eq_none_iff t.2 none hi hen', hframe.unroutable_iff]
  · rw [triggerInterrupt_pending ht' (by rw [hpend]; exact hhit), hpend]

theorem pendLoop_eq_none_iff (s : GicDistributorMmio × Pcpu) {k : ℕ} (hk : k < 32)
    {value : BitVec 64} (hvalue : value.toNat < 2 ^ 32) :
    pendLoop s k value = none ↔ ∃ n, Selected k value n ∧ bankTest s.1.enable n = true ∧
      s.1.Unroutable s.2.mpidrEl1 n := by
  have hids : ∀ j, value.getLsbD j = true → k * 32 + j < 1024 := by
    intro j hj
    have hlt := lt_of_getLsbD_of_lt hvalue hj
    omega
  have henable : ∀ {t}, TriggerFrame s t → bankTest t.1.enable = bankTest s.1.enable := by
    intro t ht
    rw [ht.registers]
  rw [← exists_bit_iff hvalue k
    fun n => bankTest s.1.enable n = true ∧ s.1.Unroutable s.2.mpidrEl1 n, ← toNat_base hk]
  refine forSetBits_eq_none_iff (fun t => TriggerFrame s t) (fun n => n < 1024)
    (fun n => bankTest s.1.enable n = true) (fun n => s.1.Unroutable s.2.mpidrEl1 n)
    (fun t i ht hi => ⟨_, t.1.getEnable_of_lt hi, by rw [henable ht]⟩) ?_
    ⟨rfl, rfl, rfl⟩ (by rw [toNat_base hk]; exact hids) (by rw [toNat_base hk]; omega)
  intro t i hframe hi hhit
  refine ⟨?_, fun t' ht' => hframe.trans (triggerInterrupt_frame ht')⟩
  rw [t.1.triggerInterrupt_eq_none_iff t.2 none hi (by rw [henable hframe]; exact hhit),
    hframe.unroutable_iff]

/-- The guest access of the distributor panics. A read has no value. -/
def Crashes (d : GicDistributorMmio) (cpu : Pcpu) (offset accessWidth : ℕ)
    (value : Option (BitVec 64)) : Prop :=
  Hits 0xD80 gicdIgrpmodr31 offset accessWidth ∨
    ∃ v n, value = some v ∧ d.Unroutable cpu.mpidrEl1 n ∧
      (Hits gicdIsenabler0 gicdIsenabler31 offset accessWidth ∧
          Selected ((offset - gicdIsenabler0) / 4) v n ∧ bankTest d.pending n = true ∨
        Hits gicdIspendr0 gicdIspendr31 offset accessWidth ∧
          Selected ((offset - gicdIspendr0) / 4) v n ∧ bankTest d.enable n = true)

theorem getLsbD_setWidth_of_lt {value : BitVec 64} {k : ℕ} (hk : k < 32)
    (h : value.getLsbD k = true) : (value.setWidth 32).getLsbD k = true := by
  rw [BitVec.getLsbD_setWidth, h]
  simp [hk]

/-- After an `ISENABLER` write all its set bits are enabled. -/
theorem bankTest_set_or {bank : Vector (BitVec 32) 32} {k n : ℕ} (hk : k < 32) (word : BitVec 32)
    (hn : n / 32 = k) : bankTest (bank.set k (bank[k] ||| word)) n =
      (bankTest bank n || word.getLsbD (n % 32)) := by
  subst hn
  simp [bankTest, hk]

theorem Hits.elim {a b a' b' offset accessWidth : ℕ} {P : Prop} (h : Hits a b offset accessWidth)
    (h' : Hits a' b' offset accessWidth) (hdisjoint : b < a' ∨ b' < a) : P :=
  absurd h.1 (by have := h.2.1; have := h'.1; have := h'.2.1; omega)

theorem write_eq_none_iff (d : GicDistributorMmio) (cpu : Pcpu) (offset accessWidth : ℕ)
    {value : BitVec 64} (hvalue : value.toNat < 2 ^ accessWidth) :
    d.write cpu offset accessWidth value = none ↔
      d.Crashes cpu offset accessWidth (some value) := by
  have ho := d.write_outcome cpu offset accessWidth value
  generalize d.write cpu offset accessWidth value = res at ho ⊢
  cases ho with
  | enables k hk hhits hkeq =>
    rw [hhits.2.2] at hvalue
    have henabled : ∀ n, Selected k value n →
        bankTest (d.enable.set k (d.enable[k] ||| value.setWidth 32)) n = true := by
      rintro n ⟨hn, hbit⟩
      have hword := getLsbD_setWidth_of_lt (Nat.mod_lt n (by decide : 0 < 32)) hbit
      rw [bankTest_set_or hk _ hn, hword, Bool.or_true]
    have hloop := enableLoop_eq_none_iff
      ({ d with enable := d.enable.set k (d.enable[k] ||| value.setWidth 32) }, cpu) hk hvalue henabled
    rw [hloop]
    constructor
    · rintro ⟨n, hsel, hpend, hun⟩
      exact .inr ⟨value, n, rfl, hun, .inl ⟨hhits, hkeq ▸ hsel, hpend⟩⟩
    · rintro (h | ⟨v, n, hv, hun, ⟨-, hsel, hpend⟩ | ⟨h, -⟩⟩)
      · exact hhits.elim h (by decide)
      · obtain rfl := Option.some.inj hv
        exact ⟨n, hkeq ▸ hsel, hpend, hun⟩
      · exact hhits.elim h (by decide)
  | pends k hk hhits hkeq =>
    rw [hhits.2.2] at hvalue
    rw [pendLoop_eq_none_iff _ hk hvalue]
    constructor
    · rintro ⟨n, hsel, hen, hun⟩
      exact .inr ⟨value, n, rfl, hun, .inr ⟨hhits, hkeq ▸ hsel, hen⟩⟩
    · rintro (h | ⟨v, n, hv, hun, ⟨h, -⟩ | ⟨-, hsel, hen⟩⟩)
      · exact hhits.elim h (by decide)
      · exact hhits.elim h (by decide)
      · obtain rfl := Option.some.inj hv
        exact ⟨n, hkeq ▸ hsel, hen, hun⟩
  | beyond hhits => exact iff_of_true rfl (.inl hhits)
  | routes i hi hwidth hlow hhigh hslot =>
    refine iff_of_false (by simp) ?_
    have hword : accessWidth ≠ 32 := by omega
    rintro (h | ⟨v, n, -, -, ⟨h, -⟩ | ⟨h, -⟩⟩) <;> exact hword h.2.2
  | plain d' hisen hispend hgrpmod hroute _ _ =>
    refine iff_of_false (by simp) ?_
    rintro (h | ⟨v, n, -, -, ⟨h, -⟩ | ⟨h, -⟩⟩)
    · exact hgrpmod h
    · exact hisen h
    · exact hispend h

theorem write_mpidrEl1 {d : GicDistributorMmio} {cpu : Pcpu} {offset accessWidth : ℕ}
    {value : BitVec 64} {s' : GicDistributorMmio × Pcpu}
    (h : d.write cpu offset accessWidth value = some s') : s'.2.mpidrEl1 = cpu.mpidrEl1 := by
  have ho := d.write_outcome cpu offset accessWidth value
  generalize d.write cpu offset accessWidth value = res at ho h
  cases ho with
  | enables => exact (forSetBits_triggerFrame h).mpidrEl1
  | pends => exact (forSetBits_triggerFrame h).mpidrEl1
  | beyond => exact absurd h (by simp)
  | routes | plain =>
    obtain rfl := Option.some.inj h
    rfl

theorem ite_ne_none {α : Type} {c : Prop} [Decidable c] {x y : Option α} (hx : c → x ≠ none)
    (hy : ¬ c → y ≠ none) : (if c then x else y) ≠ none := by
  split_ifs with h
  · exact hx h
  · exact hy h

theorem index_of_lt {α : Type} {n i : ℕ} (v : Vector α n) (h : i < n) :
    ∃ x, Checked.index v i = some x :=
  ⟨_, Checked.index_eq_some.2 ⟨h, rfl⟩⟩

theorem readBank_of_hits {n first last offset accessWidth : ℕ} (bank : Vector (BitVec 32) n)
    (h : Hits first last offset accessWidth) (hn : (last - first) / 4 < n) :
    readBank bank (offset - first) ≠ none := by
  obtain ⟨x, hx⟩ := index_of_lt bank (show (offset - first) / 4 < n by
    have := h.1
    have := h.2.1
    omega)
  simp [readBank, hx]

theorem readPriority_ne_none {n : ℕ} (priority : Vector (BitVec 32) n) {position : ℕ}
    (accessWidth : ℕ) (h : position / 4 < n) : readPriority priority position accessWidth ≠ none := by
  obtain ⟨x, hx⟩ := index_of_lt priority h
  unfold readPriority
  dsimp only
  split_ifs <;> simp [hx]

theorem read_eq_none_iff (d : GicDistributorMmio) (cpu : Pcpu) (offset accessWidth : ℕ) :
    d.read offset accessWidth = none ↔ d.Crashes cpu offset accessWidth none := by
  have hcrash : d.Crashes cpu offset accessWidth none ↔ Hits 0xD80 gicdIgrpmodr31 offset accessWidth :=
    ⟨fun h => h.elim id fun ⟨_, _, hv, _⟩ => absurd hv (by simp), .inl⟩
  rw [hcrash]
  unfold read
  by_cases hgrpmod : Hits 0xD80 gicdIgrpmodr31 offset accessWidth
  · refine iff_of_true ?_ hgrpmod
    have hmiss : ∀ first last, last < 0xD80 → ¬ Hits first last offset accessWidth :=
      fun _ _ hlast h => h.elim hgrpmod (.inl hlast)
    have hword : ∀ register, register < 0xD80 → ¬ (offset = register ∧ accessWidth = 32) := by
      rintro register hlt ⟨rfl, -⟩
      exact absurd hgrpmod.1 (by omega)
    have hprio : ¬ (gicdIpriorityr0 ≤ offset ∧ offset < gicdIpriorityr254 + 4) := fun h =>
      absurd (Nat.lt_of_lt_of_le h.2 (by decide : gicdIpriorityr254 + 4 ≤ 0xD80))
        (Nat.not_lt.2 hgrpmod.1)
    have hin : Hits gicdIgrpmodr0 gicdIgrpmodr31 offset accessWidth :=
      ⟨Nat.le_trans (by decide) hgrpmod.1, hgrpmod.2⟩
    rw [if_neg (hword _ (by decide)), if_neg (hword _ (by decide)), if_neg (hmiss _ _ (by decide)),
      if_neg (hmiss _ _ (by decide)), if_neg (hmiss _ _ (by decide)), if_neg (hmiss _ _ (by decide)),
      if_neg (hmiss _ _ (by decide)), if_neg (hmiss _ _ (by decide)), if_neg (hmiss _ _ (by decide)),
      if_neg hprio, if_neg (hmiss _ _ (by decide)), if_pos hin, readBank, Checked.index,
      Vector.getElem?_eq_none, Option.map_none]
    have := hgrpmod.1
    simp only [gicdIgrpmodr0]
    omega
  · refine iff_of_false ?_ hgrpmod
    have hkept : Hits gicdIgrpmodr0 gicdIgrpmodr31 offset accessWidth →
        Hits gicdIgrpmodr0 0xD7F offset accessWidth := fun h =>
      ⟨h.1, by by_contra hgt; exact hgrpmod ⟨by omega, h.2⟩, h.2.2⟩
    refine ite_ne_none (fun _ => by simp) fun _ => ?_
    refine ite_ne_none (fun _ => by simp) fun _ => ?_
    refine ite_ne_none (fun h => readBank_of_hits d.group h (by decide)) fun _ => ?_
    refine ite_ne_none (fun h => readBank_of_hits d.enable h (by decide)) fun _ => ?_
    refine ite_ne_none (fun h => readBank_of_hits d.enable h (by decide)) fun _ => ?_
    refine ite_ne_none (fun h => readBank_of_hits d.pending h (by decide)) fun _ => ?_
    refine ite_ne_none (fun h => readBank_of_hits d.pending h (by decide)) fun _ => ?_
    refine ite_ne_none (fun h => readBank_of_hits d.active h (by decide)) fun _ => ?_
    refine ite_ne_none (fun h => readBank_of_hits d.active h (by decide)) fun _ => ?_
    refine ite_ne_none (fun h => readPriority_ne_none d.priority accessWidth ?_) fun _ => ?_
    · simp only [gicdIpriorityr0, gicdIpriorityr254] at h ⊢
      omega
    refine ite_ne_none (fun h => readBank_of_hits d.configuration h (by decide)) fun _ => ?_
    refine ite_ne_none (fun h => readBank_of_hits d.groupModifier (hkept h) (by decide)) fun _ => ?_
    refine ite_ne_none (fun h => ?_) fun _ => ite_ne_none (fun _ => by simp) fun _ => by simp
    obtain ⟨x, hx⟩ := index_of_lt d.router (show (offset - gicdIrouter0) / 8 < 1020 by
      simp only [gicdIrouter0, gicdIrouter1019] at h ⊢
      omega)
    simp [hx]

end GicDistributorMmio

namespace GicRedistributorMmio

/-- The redistributor belongs to the CPU that accesses it. -/
def AtHome (s : GicRedistributorMmio × Pcpu) : Prop :=
  s.1.affinity = mpidrToAffinity s.2.mpidrEl1

/-- On its own CPU a redistributor has no panicking trigger. -/
theorem triggerInterrupt_returns (s : GicRedistributorMmio × Pcpu) (hs : AtHome s)
    {intId : BitVec 32} (hid : intId.toNat < 32) :
    ∃ s', s.1.triggerInterrupt s.2 intId none = some s' ∧
      AtHome s' ∧ s'.2.mpidrEl1 = s.2.mpidrEl1 := by
  have ho := s.1.triggerInterrupt_outcome s.2 none hid
  generalize s.1.triggerInterrupt s.2 intId none = res at ho ⊢
  cases ho with
  | asleep | masked | loaded => exact ⟨_, rfl, hs, rfl⟩
  | sent _ _ haway => exact absurd hs haway
  | unsendable _ haway => exact absurd hs haway

theorem bitLoop_returns {test : GicRedistributorMmio × Pcpu → BitVec 32 → Option Bool}
    (htest : ∀ s i, i.toNat < 32 → ∃ b, test s i = some b) {s : GicRedistributorMmio × Pcpu}
    (hs : AtHome s) (value : BitVec 64) :
    ∃ s', forSetBits test (fun s intId => s.1.triggerInterrupt s.2 intId none) 32 value 0 s =
      some s' ∧ AtHome s' ∧ s'.2.mpidrEl1 = s.2.mpidrEl1 := by
  refine forSetBits_returns (fun t => AtHome t ∧ t.2.mpidrEl1 = s.2.mpidrEl1) (fun n => n < 32)
    (fun t i _ hi => htest t i hi) ?_ ⟨hs, rfl⟩ (by simp) (by decide)
  rintro t i ⟨ht, hmpidr⟩ hi
  obtain ⟨t', ht', hhome, hmpidr'⟩ := triggerInterrupt_returns t ht hi
  exact ⟨t', ht', hhome, hmpidr'.trans hmpidr⟩

theorem getPending_of_lt (r : GicRedistributorMmio) {intId : BitVec 32} (h : intId.toNat < 32) :
    ∃ b, r.getPending intId = some b :=
  ⟨_, by rw [getPending, registerBit_of_lt _ h, Option.map_some]⟩

theorem getEnable_of_lt (r : GicRedistributorMmio) {intId : BitVec 32} (h : intId.toNat < 32) :
    ∃ b, r.getEnable intId = some b :=
  ⟨_, by rw [getEnable, registerBit_of_lt _ h, Option.map_some]⟩

theorem ite_returns {α : Type} {P : α → Prop} {c : Prop} [Decidable c] {x y : Option α}
    (hx : c → ∃ a, x = some a ∧ P a) (hy : ¬ c → ∃ a, y = some a ∧ P a) :
    ∃ a, (if c then x else y) = some a ∧ P a := by
  split_ifs with h
  · exact hx h
  · exact hy h

theorem write_returns {r : GicRedistributorMmio} {cpu : Pcpu} (hs : AtHome (r, cpu))
    (offset accessWidth : ℕ) (value : BitVec 64) :
    ∃ s', r.write cpu offset accessWidth value = some s' ∧
      AtHome s' ∧ s'.2.mpidrEl1 = cpu.mpidrEl1 := by
  have hctlr : AtHome (r.writeCtlr offset accessWidth value, cpu) := by
    unfold writeCtlr
    split_ifs <;> exact hs
  unfold write
  generalize r.writeCtlr offset accessWidth value = r at hctlr ⊢
  unfold writeRegister
  dsimp only
  refine ite_returns (fun _ => ite_returns (fun _ => ⟨_, rfl, hctlr, rfl⟩)
    fun _ => ⟨_, rfl, hctlr, rfl⟩) fun _ => ?_
  refine ite_returns (fun _ => ⟨_, rfl, hctlr, rfl⟩) fun _ => ?_
  refine ite_returns (fun _ => ?_) fun _ => ?_
  · refine bitLoop_returns (fun t _ hi => t.1.getPending_of_lt hi) ?_ value
    exact hctlr
  refine ite_returns (fun _ => ⟨_, rfl, hctlr, rfl⟩) fun _ => ?_
  refine ite_returns (fun _ => ?_) fun _ => ?_
  · refine bitLoop_returns (fun t _ hi => t.1.getEnable_of_lt hi) ?_ value
    exact hctlr
  refine ite_returns (fun _ => ⟨_, rfl, hctlr, rfl⟩) fun _ => ?_
  refine ite_returns (fun _ => ⟨_, rfl, hctlr, rfl⟩) fun _ => ?_
  refine ite_returns (fun _ => ⟨_, rfl, hctlr, rfl⟩) fun _ => ?_
  refine ite_returns (fun h => ?_) fun _ => ?_
  · obtain ⟨priority, hpriority⟩ := GicDistributorMmio.writePriority_isSome r.priority
      (offset - gicrIpriorityr0) accessWidth value (by
        have hlast : gicrIpriorityr7 + 4 = gicrIpriorityr0 + 32 := rfl
        omega)
    rw [hpriority]
    exact ⟨_, rfl, hctlr, rfl⟩
  refine ite_returns (fun h => ?_) fun _ => ?_
  · have hindex : (offset - gicrIcfgr0) / 4 < 2 := by
      have hlast : gicrIcfgr1 = gicrIcfgr0 + 4 := rfl
      have := h.2.1
      omega
    rw [GicDistributorMmio.modify_of_lt _ _ hindex]
    exact ⟨_, rfl, hctlr, rfl⟩
  exact ite_returns (fun _ => ⟨_, rfl, hctlr, rfl⟩) fun _ => ⟨_, rfl, hctlr, rfl⟩

theorem read_ne_none (r : GicRedistributorMmio) (offset accessWidth : ℕ) :
    r.read offset accessWidth ≠ none := by
  unfold read
  refine GicDistributorMmio.ite_ne_none (fun _ => by simp) fun _ => ?_
  refine GicDistributorMmio.ite_ne_none (fun _ => by simp) fun _ => ?_
  refine GicDistributorMmio.ite_ne_none (fun _ => by simp) fun _ => ?_
  refine GicDistributorMmio.ite_ne_none (fun _ => by simp) fun _ => ?_
  refine GicDistributorMmio.ite_ne_none (fun _ => by simp) fun _ => ?_
  refine GicDistributorMmio.ite_ne_none (fun _ => by simp) fun _ => ?_
  refine GicDistributorMmio.ite_ne_none (fun _ => by simp) fun _ => ?_
  refine GicDistributorMmio.ite_ne_none (fun _ => by simp) fun _ => ?_
  refine GicDistributorMmio.ite_ne_none (fun _ => by simp) fun _ => ?_
  refine GicDistributorMmio.ite_ne_none
    (fun h => GicDistributorMmio.readBank_of_hits r.priority h (by decide)) fun _ => ?_
  refine GicDistributorMmio.ite_ne_none
    (fun h => GicDistributorMmio.readBank_of_hits r.configuration h (by decide)) fun _ => ?_
  exact GicDistributorMmio.ite_ne_none (fun _ => by simp) fun _ => by simp

end GicRedistributorMmio

/-! ## Runs of guest accesses -/

inductive GicDevice where
  | distributor
  | redistributor
  deriving DecidableEq

def GicDevice.mmioSize : GicDevice → ℕ
  | .distributor => 0x10000
  | .redistributor => 0x10000 * 2

/-- A guest access inside the window of a controller. -/
structure GicAccess where
  device : GicDevice
  offset : ℕ
  accessWidth : ℕ
  /-- The value of a write; a read has none. -/
  value : Option (BitVec 64)
  offset_lt : offset < device.mmioSize
  accessWidth_mem : accessWidth ∈ [8, 16, 32, 64]
  value_lt : ∀ v ∈ value, v.toNat < 2 ^ accessWidth

/-- The controllers of one VM and the CPU it runs on. -/
structure GicState where
  distributor : GicDistributorMmio
  redistributor : GicRedistributorMmio
  cpu : Pcpu

namespace GicState

def new (owner : ℕ) (cpu : Pcpu) : GicState where
  distributor := .new owner
  redistributor := .new owner cpu.mpidrEl1
  cpu := cpu

def access (s : GicState) (a : GicAccess) : Option GicState :=
  match a.device, a.value with
  | .distributor, none => (s.distributor.read a.offset a.accessWidth).map fun _ => s
  | .distributor, some v =>
    (s.distributor.write s.cpu a.offset a.accessWidth v).map fun (d, cpu) =>
      { s with distributor := d, cpu := cpu }
  | .redistributor, none => (s.redistributor.read a.offset a.accessWidth).map fun _ => s
  | .redistributor, some v =>
    (s.redistributor.write s.cpu a.offset a.accessWidth v).map fun (r, cpu) =>
      { s with redistributor := r, cpu := cpu }

def run (s : GicState) (accesses : List GicAccess) : Option GicState :=
  accesses.foldlM access s

/-- The access is one to the distributor that panics. -/
def Crashes (s : GicState) (a : GicAccess) : Prop :=
  a.device = .distributor ∧ s.distributor.Crashes s.cpu a.offset a.accessWidth a.value

/-- The redistributor stays with its CPU. -/
def AtHome (s : GicState) : Prop := GicRedistributorMmio.AtHome (s.redistributor, s.cpu)

theorem access_eq_none_iff {s : GicState} (hs : s.AtHome) (a : GicAccess) :
    s.access a = none ↔ s.Crashes a := by
  unfold access Crashes
  cases hdev : a.device with
  | distributor =>
    cases hval : a.value with
    | none =>
      rw [Option.map_eq_none_iff, s.distributor.read_eq_none_iff s.cpu]
      simp
    | some v =>
      rw [Option.map_eq_none_iff, s.distributor.write_eq_none_iff s.cpu a.offset a.accessWidth
        (a.value_lt v hval)]
      simp
  | redistributor =>
    refine iff_of_false ?_ fun h => absurd h.1 (by simp)
    cases hval : a.value with
    | none =>
      rw [Option.map_eq_none_iff]
      exact s.redistributor.read_ne_none a.offset a.accessWidth
    | some v =>
      obtain ⟨s', hs', -⟩ := GicRedistributorMmio.write_returns hs a.offset a.accessWidth v
      simp [hs']

theorem atHome_access {s t : GicState} {a : GicAccess} (hs : s.AtHome) (h : s.access a = some t) :
    t.AtHome := by
  unfold access at h
  cases hdev : a.device with
  | distributor =>
    cases hval : a.value with
    | none =>
      rw [hdev, hval] at h
      obtain ⟨v, -, rfl⟩ := Option.map_eq_some_iff.1 h
      exact hs
    | some v =>
      rw [hdev, hval] at h
      obtain ⟨s', hs', rfl⟩ := Option.map_eq_some_iff.1 h
      have hmpidr := GicDistributorMmio.write_mpidrEl1 hs'
      exact hs.trans (congrArg mpidrToAffinity hmpidr.symm)
  | redistributor =>
    cases hval : a.value with
    | none =>
      rw [hdev, hval] at h
      obtain ⟨v, -, rfl⟩ := Option.map_eq_some_iff.1 h
      exact hs
    | some v =>
      rw [hdev, hval] at h
      obtain ⟨s', hs', rfl⟩ := Option.map_eq_some_iff.1 h
      obtain ⟨s'', hs'', hhome, -⟩ := GicRedistributorMmio.write_returns hs a.offset a.accessWidth v
      obtain rfl : s' = s'' := Option.some.inj (hs'.symm.trans hs'')
      exact hhome

/-- A run of guest accesses returns exactly when no access in it meets `Crashes` in the
state that it is made in. -/
theorem run_returns_iff (owner : ℕ) (cpu : Pcpu) (accesses : List GicAccess) :
    (∃ t, (new owner cpu).run accesses = some t) ↔
      ∀ pre a post s, accesses = pre ++ a :: post → (new owner cpu).run pre = some s →
        ¬ s.Crashes a := by
  have hnew : (new owner cpu).AtHome := rfl
  have hreach : ∀ {pre s}, (new owner cpu).run pre = some s → s.AtHome := fun h =>
    (Runs.Run.of_foldlM h).invariant (fun _ _ _ hs _ h => atHome_access hs h) hnew
  rw [← Option.isSome_iff_exists, ← Option.ne_none_iff_isSome, ne_eq, run, Runs.foldlM_eq_none_iff]
  constructor
  · rintro hno pre a post s rfl hpre hcrash
    exact hno ⟨pre, a, post, s, rfl, hpre, (access_eq_none_iff (hreach hpre) a).2 hcrash⟩
  · rintro hall ⟨pre, a, post, s, hsplit, hpre, hnone⟩
    exact hall pre a post s hsplit hpre ((access_eq_none_iff (hreach hpre) a).1 hnone)

/-- A 32-bit read of the distributor. -/
def readWord (offset : ℕ) (h : offset < 0x10000) : GicAccess where
  device := .distributor
  offset := offset
  accessWidth := 32
  value := none
  offset_lt := h
  accessWidth_mem := by decide
  value_lt := by simp

/-- The first word behind the 32 group modifier registers. -/
theorem read_behind_groupModifier_panics :
    ¬ ∃ t, (new 0 (.idle 0 3 0)).run [readWord 0xD80 (by decide)] = some t := by
  rintro ⟨t, ht⟩
  have hnone : (new 0 (.idle 0 3 0)).run [readWord 0xD80 (by decide)] = none := rfl
  exact absurd (hnone.symm.trans ht) (by simp)

end GicState

end MiniVisor
