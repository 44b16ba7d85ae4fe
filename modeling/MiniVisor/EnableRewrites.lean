import MiniVisor.ControllerPanics
import MiniVisor.InterruptDelivery

/-!
# Rewriting an enable register

An `ISENABLER` write triggers every pending interrupt of its set bits again, also
those that were enabled before. Such a trigger can only add: an entry to an
injection queue, or the pending bit to a list register. So the write changes
nothing exactly when every single trigger is absorbed, which depends on the
list registers that the interrupt is found in.
-/
namespace MiniVisor

open Vgic

/-! ## Loops whose steps only add -/

section Loop

variable {σ ρ : Type} {test : σ → BitVec 32 → Option Bool} {trigger : σ → BitVec 32 → Option σ}
  {fuel : ℕ} {value : BitVec 64} {base : BitVec 32} {s : σ}

/-- What the steps of a bit loop do to the visible part `view` of the state: it can only
grow, and a step on a tested interrupt leaves it alone exactly when it is absorbed. -/
structure GrowingLoop (view : σ → ρ) (le : ρ → ρ → Prop) (ids : ℕ → Prop)
    (hit absorbed : ρ → ℕ → Prop) (test : σ → BitVec 32 → Option Bool)
    (trigger : σ → BitVec 32 → Option σ) : Prop where
  refl : ∀ a, le a a
  trans : ∀ {a b c}, le a b → le b c → le a c
  antisymm : ∀ {a b}, le a b → le b a → a = b
  tests : ∀ s i, ids i.toNat → ∃ b, test s i = some b ∧ (b = true ↔ hit (view s) i.toNat)
  grows : ∀ s i s', ids i.toNat → hit (view s) i.toNat → trigger s i = some s' →
    le (view s) (view s')
  absorbs : ∀ s i, ids i.toNat → hit (view s) i.toNat →
    ((∃ s', trigger s i = some s' ∧ view s' = view s) ↔ absorbed (view s) i.toNat)

theorem toNat_succ {base : BitVec 32} (h : base.toNat + 1 < 2 ^ 32) :
    (base + 1).toNat = base.toNat + 1 := by
  rw [BitVec.toNat_add]
  exact Nat.mod_eq_of_lt (by simpa using h)

/-- One round of the loop: the state after it and the rest of the loop. -/
theorem forSetBits_succ (hzero : value ≠ 0) :
    forSetBits test trigger (fuel + 1) value base s =
      (if value.getLsbD 0 = true then test s base else some false).bind fun hit =>
        (if hit then trigger s base else some s).bind fun s' =>
          forSetBits test trigger fuel (value >>> 1) (base + 1) s' := by
  rw [forSetBits, if_neg hzero]
  simp only [and_one_ne_zero]

namespace GrowingLoop

variable {view : σ → ρ} {le : ρ → ρ → Prop} {ids : ℕ → Prop} {hit absorbed : ρ → ℕ → Prop}

theorem le_of_forSetBits (hl : GrowingLoop view le ids hit absorbed test trigger) {s' : σ}
    (hids : ∀ k, value.getLsbD k = true → ids (base.toNat + k))
    (hbase : base.toNat + fuel < 2 ^ 32)
    (h : forSetBits test trigger fuel value base s = some s') : le (view s) (view s') := by
  induction fuel generalizing value base s with
  | zero =>
    obtain rfl := Option.some.inj h
    exact hl.refl _
  | succ fuel ih =>
    by_cases hzero : value = 0
    · rw [forSetBits, if_pos hzero] at h
      obtain rfl := Option.some.inj h
      exact hl.refl _
    rw [forSetBits_succ hzero] at h
    obtain ⟨hitB, hhit, h⟩ := Option.bind_eq_some_iff.1 h
    obtain ⟨s₁, hs₁, h⟩ := Option.bind_eq_some_iff.1 h
    have hnext : (base + 1).toNat = base.toNat + 1 := toNat_succ (by omega)
    have hrest : le (view s₁) (view s') := by
      refine ih (fun k hk => ?_) (by omega) h
      rw [BitVec.getLsbD_ushiftRight] at hk
      rw [hnext, Nat.add_assoc]
      exact hids (1 + k) hk
    refine hl.trans ?_ hrest
    cases hitB with
    | false =>
      obtain rfl := Option.some.inj hs₁
      exact hl.refl _
    | true =>
      split_ifs at hhit with hbit
      · have hid := hids 0 hbit
        obtain ⟨b, hb, hiff⟩ := hl.tests s base hid
        obtain rfl : b = true := Option.some.inj (hb.symm.trans hhit)
        exact hl.grows s base s₁ hid (hiff.1 rfl) hs₁
      · exact absurd hhit (by simp)

/-- The loop leaves the visible state alone exactly when every tested set bit is absorbed. -/
theorem unchanged_iff (hl : GrowingLoop view le ids hit absorbed test trigger)
    (hids : ∀ k, value.getLsbD k = true → ids (base.toNat + k))
    (hbase : base.toNat + fuel < 2 ^ 32) :
    (∃ s', forSetBits test trigger fuel value base s = some s' ∧ view s' = view s) ↔
      ∀ k < fuel, value.getLsbD k = true → hit (view s) (base.toNat + k) →
        absorbed (view s) (base.toNat + k) := by
  induction fuel generalizing value base s with
  | zero => exact iff_of_true ⟨s, rfl, rfl⟩ fun k hk => absurd hk (by omega)
  | succ fuel ih =>
    by_cases hzero : value = 0
    · refine iff_of_true ⟨s, by rw [forSetBits, if_pos hzero], rfl⟩ fun k _ hbit => ?_
      rw [hzero] at hbit
      simp at hbit
    have hnext : (base + 1).toNat = base.toNat + 1 := toNat_succ (by omega)
    have hids' : ∀ k, (value >>> 1).getLsbD k = true → ids ((base + 1).toNat + k) := by
      intro k hk
      rw [BitVec.getLsbD_ushiftRight] at hk
      rw [hnext, Nat.add_assoc]
      exact hids (1 + k) hk
    have hrest : ∀ s₁, view s₁ = view s →
        ((∃ s', forSetBits test trigger fuel (value >>> 1) (base + 1) s₁ = some s' ∧
            view s' = view s) ↔
          ∀ k < fuel, value.getLsbD (k + 1) = true → hit (view s) (base.toNat + (k + 1)) →
            absorbed (view s) (base.toNat + (k + 1))) := by
      intro s₁ hs₁
      have hsum : ∀ k, (base + 1).toNat + k = base.toNat + (k + 1) := fun k => by omega
      have hshift : ∀ k, (value >>> 1).getLsbD k = value.getLsbD (k + 1) := fun k => by
        rw [BitVec.getLsbD_ushiftRight, Nat.add_comm]
      have hih := ih (s := s₁) hids' (by omega)
      simp only [hs₁, hsum, hshift] at hih
      exact hih
    have hsplit : (∀ k < fuel + 1, value.getLsbD k = true → hit (view s) (base.toNat + k) →
          absorbed (view s) (base.toNat + k)) ↔
        (value.getLsbD 0 = true → hit (view s) base.toNat → absorbed (view s) base.toNat) ∧
          ∀ k < fuel, value.getLsbD (k + 1) = true → hit (view s) (base.toNat + (k + 1)) →
            absorbed (view s) (base.toNat + (k + 1)) := by
      refine ⟨fun h => ⟨h 0 (by omega), fun k hk => h (k + 1) (by omega)⟩, ?_⟩
      rintro ⟨h0, hsucc⟩ k hk
      cases k with
      | zero => exact h0
      | succ k => exact hsucc k (by omega)
    rw [hsplit, forSetBits_succ hzero]
    by_cases hbit : value.getLsbD 0 = true
    · rw [if_pos hbit]
      have hid := hids 0 hbit
      obtain ⟨b, hb, hiff⟩ := hl.tests s base hid
      rw [hb, Option.bind_some]
      cases b with
      | false =>
        have hnot : ¬ hit (view s) base.toNat := fun h => Bool.false_ne_true (hiff.2 h)
        rw [and_iff_right fun _ h => absurd h hnot]
        exact hrest s rfl
      | true =>
        have hyes := hiff.1 rfl
        rw [if_pos rfl]
        constructor
        · rintro ⟨s', hs', hsame⟩
          obtain ⟨s₁, hs₁, hs'⟩ := Option.bind_eq_some_iff.1 hs'
          -- The rest of the loop only grows and ends where the round began.
          have hback := hl.le_of_forSetBits hids' (by omega) hs'
          rw [hsame] at hback
          have heq := (hl.antisymm (hl.grows s base s₁ hid hyes hs₁) hback).symm
          exact ⟨fun _ _ => (hl.absorbs s base hid hyes).1 ⟨s₁, hs₁, heq⟩,
            (hrest s₁ heq).1 ⟨s', hs', hsame⟩⟩
        · rintro ⟨h0, hsucc⟩
          obtain ⟨s₁, hs₁, heq⟩ := (hl.absorbs s base hid hyes).2 (h0 hbit hyes)
          rw [hs₁, Option.bind_some]
          exact (hrest s₁ heq).2 hsucc
    · rw [if_neg hbit, Option.bind_some, and_iff_right fun h => absurd h hbit]
      exact hrest s rfl

end GrowingLoop

end Loop

/-! ## List registers -/

namespace Vgic

/-- The first list register that is free or holds the interrupt holds it as pending, or
there is no such register. -/
def Absorbs (vtr : BitVec 64) (lr : ListRegisters) (n : ℕ) : Prop :=
  ∀ j < supportedLrn vtr,
    (∀ k < j, ¬ Inactive (lr k) ∧ vintid (lr k) ≠ BitVec.ofNat 64 n) →
      ¬ Inactive (lr j) ∧ (vintid (lr j) = BitVec.ofNat 64 n → (lr j).getLsbD 62 = true)

/-- A register keeps its value or gains the pending bit. -/
def Gains (lr lr' : ListRegisters) : Prop :=
  ∀ i, lr' i = lr i ∨ (lr i).getLsbD 62 = false ∧ (lr' i).getLsbD 62 = true

theorem Gains.trans {a b c : ListRegisters} (h : Gains a b) (h' : Gains b c) : Gains a c := by
  intro i
  obtain hab | ⟨ha, hb⟩ := h i <;> obtain hbc | ⟨hb', hc⟩ := h' i
  · exact .inl (hbc.trans hab)
  · exact .inr ⟨hab ▸ hb', hc⟩
  · exact .inr ⟨ha, by rw [hbc, hb]⟩
  · exact .inr ⟨ha, hc⟩

theorem Gains.antisymm {a b : ListRegisters} (h : Gains a b) (h' : Gains b a) : a = b := by
  funext i
  obtain hab | ⟨ha, hb⟩ := h i
  · exact hab.symm
  · obtain hba | ⟨hb', -⟩ := h' i
    · exact hba
    · exact absurd (hb.symm.trans hb') (by decide)

theorem getLsbD_pending_62 : ichLrnEl2StatusPending.getLsbD 62 = true := by decide

theorem or_pending_eq_self {x : BitVec 64} (h : x.getLsbD 62 = true) :
    x ||| ichLrnEl2StatusPending = x := by
  have hbits : ∀ i < 64, ichLrnEl2StatusPending.getLsbD i = decide (i = 62) := by decide
  apply BitVec.eq_of_getLsbD_eq
  intro i hi
  rw [BitVec.getLsbD_or, hbits i hi]
  by_cases h62 : i = 62
  · rw [h62, h, Bool.true_or]
  · simp [h62]

theorem createListRegisterEntry_pending (intId group priority : BitVec 32)
    (physicalIntId : Option (BitVec 32)) :
    (createListRegisterEntry intId group priority physicalIntId).getLsbD 62 = true := by
  cases physicalIntId <;>
    simp only [createListRegisterEntry, BitVec.getLsbD_or, getLsbD_pending_62, Bool.true_or]

variable {vtr : BitVec 64} {lr : ListRegisters} {entry : BitVec 64} {n : ℕ}

theorem gains_addVirtualInterrupt (hentry : entry.getLsbD 62 = true) :
    Gains lr (addVirtualInterrupt vtr lr entry) := by
  obtain ⟨-, hsame⟩ | ⟨j, -, -, ⟨hin, hput⟩ | ⟨-, -, hput⟩⟩ := addVirtualInterrupt_cases vtr lr entry
  · exact fun i => .inl (by rw [hsame])
  · intro i
    rw [hput]
    by_cases hij : i = j
    · subst hij
      exact .inr ⟨((inactive_iff _).1 hin).1, by rw [Function.update_self, hentry]⟩
    · exact .inl (by rw [Function.update_of_ne hij])
  · intro i
    rw [hput]
    by_cases hij : i = j
    · subst hij
      rw [Function.update_self]
      cases hbit : (lr i).getLsbD 62 with
      | true => exact .inl (or_pending_eq_self hbit)
      | false => exact .inr ⟨rfl, by rw [BitVec.getLsbD_or, getLsbD_pending_62, Bool.or_true]⟩
    · exact .inl (by rw [Function.update_of_ne hij])

/-- Adding an entry leaves the list registers alone exactly when it is absorbed. -/
theorem addVirtualInterrupt_eq_self_iff (hentry : entry.getLsbD 62 = true)
    (hn : vintid entry = BitVec.ofNat 64 n) :
    addVirtualInterrupt vtr lr entry = lr ↔ Absorbs vtr lr n := by
  obtain ⟨hall, hsame⟩ | ⟨j, hj, hbusy, ⟨hin, hput⟩ | ⟨hnot, hid, hput⟩⟩ :=
    addVirtualInterrupt_cases vtr lr entry
  · refine iff_of_true hsame fun j hj _ => ⟨(hall j hj).1, fun h => ?_⟩
    exact absurd (h.trans hn.symm) (hall j hj).2
  · refine iff_of_false (fun h => ?_) fun h => ?_
    · have hjj := congrFun (hput.symm.trans h) j
      rw [Function.update_self] at hjj
      rw [hjj, ((inactive_iff _).1 hin).1] at hentry
      exact Bool.false_ne_true hentry
    · exact (h j hj fun k hk => ⟨(hbusy k hk).1, hn ▸ (hbusy k hk).2⟩).1 hin
  · have hfirst : ∀ k < j, ¬ Inactive (lr k) ∧ vintid (lr k) ≠ BitVec.ofNat 64 n :=
      fun k hk => ⟨(hbusy k hk).1, hn ▸ (hbusy k hk).2⟩
    rw [hput, Function.update_eq_self_iff]
    constructor
    · intro h i hi hbefore
      rcases Nat.lt_trichotomy i j with hlt | heq | hgt
      · exact ⟨(hfirst i hlt).1, fun hi => absurd hi (hfirst i hlt).2⟩
      · subst heq
        refine ⟨hnot, fun _ => ?_⟩
        rw [← h, BitVec.getLsbD_or, getLsbD_pending_62, Bool.or_true]
      · exact absurd (hid.trans hn) (hbefore j hgt).2
    · intro h
      exact or_pending_eq_self ((h j hj hfirst).2 (hid.trans hn))

end Vgic

/-! ## Single triggers -/

/-- What a trigger can change besides its logs: the controller and the list registers. -/
structure Visible (κ : Type) where
  controller : κ
  mpidrEl1 : BitVec 64
  ichVtrEl2 : BitVec 64
  ichLr : ListRegisters

def visible {κ : Type} (s : κ × Pcpu) : Visible κ := ⟨s.1, s.2.mpidrEl1, s.2.ichVtrEl2, s.2.ichLr⟩

theorem append_singleton_ne_self {α : Type} (l : List α) (x : α) : l ++ [x] ≠ l := fun h => by
  have hlength := congrArg List.length h
  simp at hlength

/-- The injection queue is extended, list registers gain pending bits, and no other
register of the controller changes. -/
structure Grows {κ : Type} (queue : κ → List ListEntry) (a b : Visible κ) : Prop where
  controller : queue b.controller = queue a.controller → b.controller = a.controller
  extended : queue a.controller <+: queue b.controller
  mpidrEl1 : b.mpidrEl1 = a.mpidrEl1
  ichVtrEl2 : b.ichVtrEl2 = a.ichVtrEl2
  ichLr : Gains a.ichLr b.ichLr

namespace Grows

variable {κ : Type} {queue : κ → List ListEntry} {a b c : Visible κ}

theorem refl (a : Visible κ) : Grows queue a a :=
  ⟨fun _ => rfl, List.prefix_rfl, rfl, rfl, fun _ => .inl rfl⟩

theorem queue_eq (h : Grows queue a b) (hback : queue b.controller <+: queue a.controller) :
    queue b.controller = queue a.controller :=
  hback.eq_of_length_le h.extended.length_le

theorem trans (h : Grows queue a b) (h' : Grows queue b c) : Grows queue a c where
  controller hca := by
    have hba := h.queue_eq (hca ▸ h'.extended)
    exact (h'.controller (hca.trans hba.symm)).trans (h.controller hba)
  extended := h.extended.trans h'.extended
  mpidrEl1 := h'.mpidrEl1.trans h.mpidrEl1
  ichVtrEl2 := h'.ichVtrEl2.trans h.ichVtrEl2
  ichLr := h.ichLr.trans h'.ichLr

theorem antisymm (h : Grows queue a b) (h' : Grows queue b a) : a = b := by
  have hcontroller := h.controller (h.queue_eq h'.extended)
  have hmpidr := h.mpidrEl1
  have hvtr := h.ichVtrEl2
  have hlr := h.ichLr.antisymm h'.ichLr
  cases a
  cases b
  simp_all

/-- Without a change of the queue or of a list register there is none at all. -/
theorem eq_of_same (h : Grows queue a b) (hqueue : queue b.controller = queue a.controller)
    (hlr : b.ichLr = a.ichLr) : b = a := by
  have hcontroller := h.controller hqueue
  have hmpidr := h.mpidrEl1
  have hvtr := h.ichVtrEl2
  cases a
  cases b
  simp_all

end Grows

namespace GicDistributorMmio

/-- A repeated trigger of the interrupt changes nothing: it does not get past the checks,
or its route names this CPU and the list registers absorb it. -/
def AbsorbsTrigger (v : Visible GicDistributorMmio) (n : ℕ) : Prop :=
  v.controller.Passes n → n < 1020 ∧ (v.controller.ctlr &&& gicdCtlrAreS ≠ 0 →
    ∃ router, v.controller.getRouter (BitVec.ofNat 32 n) = some router ∧
      RoutedTo router v.mpidrEl1 ∧ Absorbs v.ichVtrEl2 v.ichLr n)

theorem changeBankBit_of_set {bank bank' : Vector (BitVec 32) 32} {intId : BitVec 32}
    (hset : bankTest bank intId.toNat = true) (h : changeBankBit bank intId true = some bank') :
    bank' = bank := by
  obtain ⟨hlt, rfl⟩ := Checked.modify_eq_some.1 h
  have hbit : bank[intId.toNat / 32].getLsbD (intId.toNat % 32) = true := by
    simpa [bankTest, hlt] using hset
  have hword : bank[intId.toNat / 32] ||| (1#32 <<< (intId.toNat % 32)) = bank[intId.toNat / 32] := by
    apply BitVec.eq_of_getLsbD_eq
    intro i hi
    rw [getLsbD_or_bit _ hi]
    split_ifs with heq
    · rw [heq, hbit]
    · rfl
  rw [if_pos rfl, hword, Vector.set_getElem_self]

/-- What a trigger of a pending interrupt does to the visible state. -/
theorem triggerInterrupt_visible (s : GicDistributorMmio × Pcpu) {intId : BitVec 32}
    (hid : intId.toNat < 1024) (hpending : bankTest s.1.pending intId.toNat = true) :
    (∀ s', s.1.triggerInterrupt s.2 intId none = some s' →
      Grows toInjectInterrupt (visible s) (visible s')) ∧
    ((∃ s', s.1.triggerInterrupt s.2 intId none = some s' ∧ visible s' = visible s) ↔
      AbsorbsTrigger (visible s) intId.toNat) := by
  obtain ⟨d, cpu⟩ := s
  have hofNat : BitVec.ofNat 32 intId.toNat = intId := by simp
  have hsame : ∀ {p}, changeBankBit d.pending intId true = some p →
      ({ d with pending := p } : GicDistributorMmio) = d := fun hp => by
    rw [changeBankBit_of_set hpending hp]
  have ho := d.triggerInterrupt_outcome cpu none hid
  simp only
  generalize d.triggerInterrupt cpu intId none = res at ho ⊢
  cases ho with
  | off hoff =>
    refine ⟨fun s' h => ?_, iff_of_true ⟨_, rfl, rfl⟩ fun hpass => absurd hoff hpass.grp1ns⟩
    obtain rfl := Option.some.inj h
    exact .refl _
  | masked p hgrp hnot hp =>
    rw [hsame hp]
    refine ⟨fun s' h => ?_, iff_of_true ⟨_, rfl, rfl⟩ fun hpass => absurd hpass hnot⟩
    obtain rfl := Option.some.inj h
    exact .refl _
  | beyond hpass hge =>
    refine ⟨fun s' h => absurd h (by simp), iff_of_false (by simp) fun h => ?_⟩
    have := (h hpass).1
    omega
  | unrouted p hpass hlt hare hp =>
    rw [hsame hp]
    refine ⟨fun s' h => ?_, iff_of_true ⟨_, rfl, rfl⟩ fun _ => ⟨hlt, fun h => absurd hare h⟩⟩
    obtain rfl := Option.some.inj h
    exact .refl _
  | loaded p router priority hpass hlt hare hrouter hroute hp hpriority =>
    rw [hsame hp]
    have hentry := createListRegisterEntry_pending intId
      (if bankTest d.group intId.toNat then 1 else 0) priority none
    have hvintid := (vintid_createListRegisterEntry intId
      (if bankTest d.group intId.toNat then 1 else 0) priority none).trans
      (ofNat_toNat_eq_setWidth intId).symm
    constructor
    · intro s' h
      obtain rfl := Option.some.inj h
      exact ⟨fun _ => rfl, List.prefix_rfl, rfl, rfl, gains_addVirtualInterrupt hentry⟩
    · have hlr : addVirtualInterrupt cpu.ichVtrEl2 cpu.ichLr _ = cpu.ichLr ↔ _ :=
        addVirtualInterrupt_eq_self_iff hentry hvintid
      constructor
      · rintro ⟨s', h, hvis⟩
        obtain rfl := Option.some.inj h
        exact fun _ => ⟨hlt, fun _ => ⟨router, by rw [hofNat]; exact hrouter, hroute,
          hlr.1 (congrArg Visible.ichLr hvis)⟩⟩
      · intro h
        obtain ⟨router', hrouter', -, habs⟩ := (h hpass).2 hare
        refine ⟨_, rfl, ?_⟩
        simp only [visible, Pcpu.addVirtualInterrupt, entryOf]
        rw [hlr.2 habs]
  | sent p router priority hpass hlt hare hrouter hroute haff hp hpriority =>
    rw [show ({ d with
        pending := p
        toInjectInterrupt := d.toInjectInterrupt ++ [d.entryOf intId none priority] } :
          GicDistributorMmio) = { d with
        toInjectInterrupt := d.toInjectInterrupt ++ [d.entryOf intId none priority] } by
      rw [changeBankBit_of_set hpending hp]]
    constructor
    · intro s' h
      obtain rfl := Option.some.inj h
      exact ⟨fun h => absurd h (append_singleton_ne_self _ _), List.prefix_append _ _, rfl, rfl,
        fun _ => .inl rfl⟩
    · refine iff_of_false ?_ fun h => ?_
      · rintro ⟨s', h, hvis⟩
        obtain rfl := Option.some.inj h
        exact append_singleton_ne_self _ _
          (congrArg (fun v => v.controller.toInjectInterrupt) hvis)
      · obtain ⟨router', hrouter', hroute', -⟩ := (h hpass).2 hare
        rw [hofNat] at hrouter'
        exact hroute (Option.some.inj (hrouter.symm.trans hrouter') ▸ hroute')
  | unsendable router hpass hlt hare hrouter hroute haff =>
    refine ⟨fun s' h => absurd h (by simp), iff_of_false (by simp) fun h => ?_⟩
    obtain ⟨router', hrouter', hroute', -⟩ := (h hpass).2 hare
    rw [hofNat] at hrouter'
    exact hroute (Option.some.inj (hrouter.symm.trans hrouter') ▸ hroute')

theorem enableLoop_growing : GrowingLoop visible (Grows toInjectInterrupt) (fun n => n < 1024)
    (fun v n => bankTest v.controller.pending n = true) AbsorbsTrigger
    (fun s intId => s.1.getPending intId)
    (fun s intId => s.1.triggerInterrupt s.2 intId none) where
  refl := Grows.refl
  trans := Grows.trans
  antisymm := Grows.antisymm
  tests s _ hi := ⟨_, s.1.getPending_of_lt hi, Iff.rfl⟩
  grows s _ s' hi hhit h := (triggerInterrupt_visible s hi hhit).1 s' h
  absorbs s _ hi hhit := (triggerInterrupt_visible s hi hhit).2

theorem base_add_lt {k : ℕ} (hk : k < 32) {value : BitVec 64} (hvalue : value.toNat < 2 ^ 32)
    (j : ℕ) (hj : value.getLsbD j = true) : (BitVec.ofNat 32 (k * 32)).toNat + j < 1024 := by
  have hlt := lt_of_getLsbD_of_lt hvalue hj
  rw [toNat_base hk]
  omega

theorem enableLoop_grows {s s' : GicDistributorMmio × Pcpu} {k : ℕ} (hk : k < 32)
    {value : BitVec 64} (hvalue : value.toNat < 2 ^ 32) (h : enableLoop s k value = some s') :
    Grows toInjectInterrupt (visible s) (visible s') :=
  enableLoop_growing.le_of_forSetBits (base_add_lt hk hvalue) (by rw [toNat_base hk]; omega) h

theorem enableLoop_unchanged_iff (s : GicDistributorMmio × Pcpu) {k : ℕ} (hk : k < 32)
    {value : BitVec 64} (hvalue : value.toNat < 2 ^ 32) :
    (∃ s', enableLoop s k value = some s' ∧ visible s' = visible s) ↔
      ∀ n, Selected k value n → bankTest s.1.pending n = true → AbsorbsTrigger (visible s) n := by
  have hloop : (∃ s', enableLoop s k value = some s' ∧ visible s' = visible s) ↔ _ :=
    enableLoop_growing.unchanged_iff (base_add_lt hk hvalue) (by rw [toNat_base hk]; omega)
  rw [hloop, toNat_base hk]
  constructor
  · rintro h n ⟨hn, hbit⟩ hpend
    have hsum : k * 32 + n % 32 = n := by omega
    have hk' := h (n % 32) (by omega) hbit
    rw [hsum] at hk'
    exact hk' hpend
  · intro h j _ hj hpend
    have hlt := lt_of_getLsbD_of_lt hvalue hj
    refine h (k * 32 + j) ⟨by omega, ?_⟩ hpend
    rw [show (k * 32 + j) % 32 = j by omega]
    exact hj

/-- A write that only enables what is enabled is the bit loop alone. -/
theorem write_isenabler_of_enabled (d : GicDistributorMmio) (cpu : Pcpu) {offset : ℕ}
    (hhits : Hits gicdIsenabler0 gicdIsenabler31 offset 32) {value : BitVec 64}
    (henabled : ∀ n, Selected ((offset - gicdIsenabler0) / 4) value n → bankTest d.enable n = true) :
    d.write cpu offset 32 value =
      enableLoop (d, cpu) ((offset - gicdIsenabler0) / 4) value := by
  have ho := d.write_outcome cpu offset 32 value
  generalize d.write cpu offset 32 value = res at ho ⊢
  cases ho with
  | enables j hj _ hkeq =>
    subst hkeq
    have hword : d.enable[(offset - gicdIsenabler0) / 4] ||| value.setWidth 32 =
        d.enable[(offset - gicdIsenabler0) / 4] := by
      apply BitVec.eq_of_getLsbD_eq
      intro i hi
      rw [BitVec.getLsbD_or, BitVec.getLsbD_setWidth]
      cases hbit : value.getLsbD i with
      | false => simp
      | true =>
        have hdiv : (32 * ((offset - gicdIsenabler0) / 4) + i) / 32 =
          (offset - gicdIsenabler0) / 4 := by omega
        have hmod : (32 * ((offset - gicdIsenabler0) / 4) + i) % 32 = i := by omega
        have hen := henabled _ ⟨hdiv, by rw [hmod, hbit]⟩
        simp only [bankTest, hdiv, hmod, hj, dif_pos] at hen
        rw [hen, Bool.true_or]
    rw [hword, Vector.set_getElem_self]
  | pends j _ h => exact hhits.elim h (by decide)
  | beyond h => exact hhits.elim h (by decide)
  | routes _ _ hwidth => exact absurd hwidth (by decide)
  | plain d' hmiss => exact absurd hhits hmiss

end GicDistributorMmio

namespace GicRedistributorMmio

/-- A repeated trigger changes nothing: it does not get past the checks, or the
redistributor belongs to this CPU and the list registers absorb it. -/
def AbsorbsTrigger (v : Visible GicRedistributorMmio) (n : ℕ) : Prop :=
  v.controller.Passes n → v.controller.affinity = mpidrToAffinity v.mpidrEl1 ∧
    Absorbs v.ichVtrEl2 v.ichLr n

theorem pend_of_set {r : GicRedistributorMmio} {intId : BitVec 32}
    (hset : r.pending.getLsbD intId.toNat = true) : r.pend intId = r := by
  have hword : r.pending ||| (1#32 <<< intId.toNat) = r.pending := by
    apply BitVec.eq_of_getLsbD_eq
    intro i hi
    rw [getLsbD_or_bit _ hi]
    split_ifs with heq
    · rw [heq, hset]
    · rfl
  rw [pend, hword]

theorem triggerInterrupt_visible (s : GicRedistributorMmio × Pcpu) {intId : BitVec 32}
    (hid : intId.toNat < 32) (hpending : s.1.pending.getLsbD intId.toNat = true) :
    (∀ s', s.1.triggerInterrupt s.2 intId none = some s' →
      Grows toInjectInterrupt (visible s) (visible s')) ∧
    ((∃ s', s.1.triggerInterrupt s.2 intId none = some s' ∧ visible s' = visible s) ↔
      AbsorbsTrigger (visible s) intId.toNat) := by
  obtain ⟨r, cpu⟩ := s
  have hpend : r.pend intId = r := pend_of_set hpending
  have ho := r.triggerInterrupt_outcome cpu none hid
  simp only
  generalize r.triggerInterrupt cpu intId none = res at ho ⊢
  cases ho with
  | asleep hasleep =>
    refine ⟨fun s' h => ?_, iff_of_true ⟨_, rfl, rfl⟩ fun hpass => absurd hpass.awake hasleep⟩
    obtain rfl := Option.some.inj h
    exact .refl _
  | masked _ hnot =>
    rw [hpend]
    refine ⟨fun s' h => ?_, iff_of_true ⟨_, rfl, rfl⟩ fun hpass => absurd hpass hnot⟩
    obtain rfl := Option.some.inj h
    exact .refl _
  | loaded priority hpass hlocal hpriority =>
    rw [hpend]
    have hentry := createListRegisterEntry_pending intId
      (if r.group.getLsbD intId.toNat then 1 else 0) priority none
    have hvintid := (vintid_createListRegisterEntry intId
      (if r.group.getLsbD intId.toNat then 1 else 0) priority none).trans
      (ofNat_toNat_eq_setWidth intId).symm
    constructor
    · intro s' h
      obtain rfl := Option.some.inj h
      exact ⟨fun _ => rfl, List.prefix_rfl, rfl, rfl, gains_addVirtualInterrupt hentry⟩
    · have hlr : addVirtualInterrupt cpu.ichVtrEl2 cpu.ichLr _ = cpu.ichLr ↔ _ :=
        addVirtualInterrupt_eq_self_iff hentry hvintid
      constructor
      · rintro ⟨s', h, hvis⟩
        obtain rfl := Option.some.inj h
        exact fun _ => ⟨hlocal, hlr.1 (congrArg Visible.ichLr hvis)⟩
      · intro h
        refine ⟨_, rfl, ?_⟩
        simp only [visible, Pcpu.addVirtualInterrupt, entryOf]
        rw [hlr.2 (h hpass).2]
  | sent priority hpass haway haff hpriority =>
    rw [hpend]
    constructor
    · intro s' h
      obtain rfl := Option.some.inj h
      exact ⟨fun h => absurd h (append_singleton_ne_self _ _), List.prefix_append _ _, rfl, rfl,
        fun _ => .inl rfl⟩
    · refine iff_of_false ?_ fun h => haway (h hpass).1
      rintro ⟨s', h, hvis⟩
      obtain rfl := Option.some.inj h
      exact append_singleton_ne_self _ _ (congrArg (fun v => v.controller.toInjectInterrupt) hvis)
  | unsendable hpass haway =>
    exact ⟨fun s' h => absurd h (by simp), iff_of_false (by simp) fun h => haway (h hpass).1⟩

theorem enableLoop_growing : GrowingLoop visible (Grows toInjectInterrupt) (fun n => n < 32)
    (fun v n => v.controller.pending.getLsbD n = true) AbsorbsTrigger
    (fun s intId => s.1.getPending intId)
    (fun s intId => s.1.triggerInterrupt s.2 intId none) where
  refl := Grows.refl
  trans := Grows.trans
  antisymm := Grows.antisymm
  tests s i hi := by
    refine ⟨s.1.pending.getLsbD i.toNat, ?_, Iff.rfl⟩
    rw [getPending, registerBit_of_lt _ hi]
    cases s.1.pending.getLsbD i.toNat <;> rfl
  grows s _ s' hi hhit h := (triggerInterrupt_visible s hi hhit).1 s' h
  absorbs s _ hi hhit := (triggerInterrupt_visible s hi hhit).2

/-- A write that only enables what is enabled is the bit loop alone. -/
theorem write_isenabler_of_enabled (r : GicRedistributorMmio) (cpu : Pcpu) {value : BitVec 64}
    (henabled : ∀ n, value.getLsbD n = true → r.enable.getLsbD n = true) :
    r.write cpu gicrIsenabler0 32 value =
      forSetBits (fun s intId => s.1.getPending intId)
        (fun s intId => s.1.triggerInterrupt s.2 intId none) 32 value 0 (r, cpu) := by
  have hword : r.enable ||| value.setWidth 32 = r.enable := by
    apply BitVec.eq_of_getLsbD_eq
    intro i hi
    rw [BitVec.getLsbD_or, BitVec.getLsbD_setWidth]
    cases hbit : value.getLsbD i with
    | false => simp
    | true => rw [henabled i hbit, Bool.true_or]
  have hctlr : r.writeCtlr gicrIsenabler0 32 value = r := by
    rw [writeCtlr, if_neg (by decide)]
  rw [write, hctlr, writeRegister, if_neg (by decide), if_neg (by decide), if_pos (by decide), hword]

theorem zero_add_lt {value : BitVec 64} (hvalue : value.toNat < 2 ^ 32) (j : ℕ)
    (hj : value.getLsbD j = true) : (0 : BitVec 32).toNat + j < 32 := by
  simpa using GicDistributorMmio.lt_of_getLsbD_of_lt hvalue hj

theorem enableLoop_unchanged_iff (s : GicRedistributorMmio × Pcpu) {value : BitVec 64}
    (hvalue : value.toNat < 2 ^ 32) :
    (∃ s', forSetBits (fun s intId => s.1.getPending intId)
        (fun s intId => s.1.triggerInterrupt s.2 intId none) 32 value 0 s = some s' ∧
        visible s' = visible s) ↔
      ∀ n, value.getLsbD n = true → s.1.pending.getLsbD n = true →
        AbsorbsTrigger (visible s) n := by
  rw [enableLoop_growing.unchanged_iff (zero_add_lt hvalue) (by decide)]
  constructor
  · intro h n hbit hpend
    have hn := h n (GicDistributorMmio.lt_of_getLsbD_of_lt hvalue hbit) hbit
    rw [show (0 : BitVec 32).toNat + n = n by simp] at hn
    exact hn hpend
  · intro h j _ hj
    rw [show (0 : BitVec 32).toNat + j = j by simp]
    exact h j hj

end GicRedistributorMmio

/-! ## Rewrites in the machine -/

/-- The enable, pending and active state of both controllers and their injection queues. -/
def Vm.interruptState (vm : Vm) :=
  ((vm.gicDistributorMmio.enable, vm.gicDistributorMmio.pending, vm.gicDistributorMmio.active,
      vm.gicDistributorMmio.toInjectInterrupt),
    (vm.gicRedistributorMmio.enable, vm.gicRedistributorMmio.pending, vm.gicRedistributorMmio.active,
      vm.gicRedistributorMmio.toInjectInterrupt))

namespace Machine

/-- No list register of any CPU and no controller state of any VM differs. -/
structure SameInterruptState (s t : Machine) : Prop where
  ichLr : ∀ p, (t.cpus p).ichLr = (s.cpus p).ichLr
  vms : ∀ vmId, (t.vmList vmId).map Vm.interruptState = (s.vmList vmId).map Vm.interruptState

variable {s : Machine} {p : ℕ} {vm : Vm}

theorem sameInterruptState_put_iff {vmId : ℕ} {vm' : Vm} {cpu' : Pcpu}
    (hvm : s.vmList vmId = some vm) :
    s.SameInterruptState (s.put p cpu' vmId vm') ↔
      cpu'.ichLr = (s.cpus p).ichLr ∧ vm'.interruptState = vm.interruptState := by
  constructor
  · intro h
    refine ⟨by simpa using h.ichLr p, ?_⟩
    have hstate := h.vms vmId
    rw [put_vmList_self, hvm] at hstate
    exact Option.some.inj hstate
  · rintro ⟨hlr, hstate⟩
    constructor
    · intro q
      by_cases hq : q = p
      · subst hq
        rw [put_cpus_self, hlr]
      · rw [put_cpus_of_ne _ _ _ _ _ hq]
    · intro id
      by_cases hid : id = vmId
      · subst hid
        rw [put_vmList_self, hvm, Option.map_some, Option.map_some, hstate]
      · rw [put_vmList_of_ne _ _ _ _ _ hid]

theorem onCurrentVm_same_iff {handler : Vm → Pcpu → Option (Vm × Pcpu)}
    (hvm : s.vmList (s.cpus p).tpidrEl2 = some vm) :
    (∃ t, s.onCurrentVm p handler = some t ∧ s.SameInterruptState t) ↔
      ∃ vm' cpu', handler vm (s.cpus p) = some (vm', cpu') ∧
        cpu'.ichLr = (s.cpus p).ichLr ∧ vm'.interruptState = vm.interruptState := by
  constructor
  · rintro ⟨t, ht, hsame⟩
    obtain ⟨vm₁, vm', cpu', hvm₁, hhandler, rfl⟩ := onVm_eq_some.1 ht
    obtain rfl : vm = vm₁ := Option.some.inj (hvm.symm.trans hvm₁)
    exact ⟨vm', cpu', hhandler, (sameInterruptState_put_iff hvm).1 hsame⟩
  · rintro ⟨vm', cpu', hhandler, hsame⟩
    exact ⟨_, onVm_eq_some.2 ⟨vm, vm', cpu', hvm, hhandler, rfl⟩,
      (sameInterruptState_put_iff hvm).2 hsame⟩

/-- An `ISENABLER` write whose set bits are all enabled leaves the interrupt state of the
whole machine alone exactly when it has no pending interrupt in it, or the trigger of each
of them is absorbed. -/
theorem enable_rewrite_same_iff (hvm : s.vmList (s.cpus p).tpidrEl2 = some vm) {value : BitVec 64}
    (hvalue : value.toNat < 2 ^ 32) :
    (∀ offset, GicDistributorMmio.Hits gicdIsenabler0 gicdIsenabler31 offset 32 →
      (∀ n, GicDistributorMmio.Selected ((offset - gicdIsenabler0) / 4) value n →
        bankTest vm.gicDistributorMmio.enable n = true) →
      ((∃ t, s.step (.writeDistributor p offset 32 value) = some t ∧ s.SameInterruptState t) ↔
        ∀ n, GicDistributorMmio.Selected ((offset - gicdIsenabler0) / 4) value n →
          bankTest vm.gicDistributorMmio.pending n = true →
          GicDistributorMmio.AbsorbsTrigger (visible (vm.gicDistributorMmio, s.cpus p)) n)) ∧
    ((∀ n, value.getLsbD n = true → vm.gicRedistributorMmio.enable.getLsbD n = true) →
      ((∃ t, s.step (.writeRedistributor p gicrIsenabler0 32 value) = some t ∧
          s.SameInterruptState t) ↔
        ∀ n, value.getLsbD n = true → vm.gicRedistributorMmio.pending.getLsbD n = true →
          GicRedistributorMmio.AbsorbsTrigger (visible (vm.gicRedistributorMmio, s.cpus p)) n)) := by
  constructor
  · intro offset hhits henabled
    have hk : (offset - gicdIsenabler0) / 4 < 32 := by
      simp only [GicDistributorMmio.Hits, gicdIsenabler0, gicdIsenabler31] at hhits ⊢
      omega
    rw [← GicDistributorMmio.enableLoop_unchanged_iff (vm.gicDistributorMmio, s.cpus p) hk hvalue,
      ← GicDistributorMmio.write_isenabler_of_enabled _ _ hhits henabled]
    refine (onCurrentVm_same_iff hvm).trans ?_
    simp only [Vm.writeDistributor]
    constructor
    · rintro ⟨vm', cpu', hwrite, hlr, hstate⟩
      obtain ⟨s', hs', heq⟩ := Option.map_eq_some_iff.1 hwrite
      obtain ⟨rfl, rfl⟩ := Prod.mk.inj heq
      rw [GicDistributorMmio.write_isenabler_of_enabled _ _ hhits henabled] at hs' ⊢
      refine ⟨s', hs', (GicDistributorMmio.enableLoop_grows hk hvalue hs').eq_of_same ?_ hlr⟩
      exact congrArg (fun x => x.1.2.2.2) hstate
    · rintro ⟨⟨d', cpu'⟩, hs', hvis⟩
      obtain rfl : d' = vm.gicDistributorMmio := congrArg Visible.controller hvis
      exact ⟨_, cpu', by rw [hs']; rfl, congrArg Visible.ichLr hvis, rfl⟩
  · intro henabled
    rw [← GicRedistributorMmio.enableLoop_unchanged_iff (vm.gicRedistributorMmio, s.cpus p) hvalue,
      ← GicRedistributorMmio.write_isenabler_of_enabled _ _ henabled]
    refine (onCurrentVm_same_iff hvm).trans ?_
    simp only [Vm.writeRedistributor]
    constructor
    · rintro ⟨vm', cpu', hwrite, hlr, hstate⟩
      obtain ⟨s', hs', heq⟩ := Option.map_eq_some_iff.1 hwrite
      obtain ⟨rfl, rfl⟩ := Prod.mk.inj heq
      refine ⟨s', hs', ?_⟩
      rw [GicRedistributorMmio.write_isenabler_of_enabled _ _ henabled] at hs'
      refine (GicRedistributorMmio.enableLoop_growing.le_of_forSetBits
        (GicRedistributorMmio.zero_add_lt hvalue) (by decide) hs').eq_of_same ?_ hlr
      exact congrArg (fun x => x.2.2.2.2) hstate
    · rintro ⟨⟨r', cpu'⟩, hs', hvis⟩
      obtain rfl : r' = vm.gicRedistributorMmio := congrArg Visible.controller hvis
      exact ⟨_, cpu', by rw [hs']; rfl, congrArg Visible.ichLr hvis, rfl⟩

/-- Bit 8 of `ISENABLER1` is interrupt 40. -/
theorem selected_40 {n : ℕ} (h : GicDistributorMmio.Selected 1 0x100 n) : n = 40 := by
  have hbits : ∀ j < 32, (0x100 : BitVec 64).getLsbD j = true → j = 8 := by decide
  have hmod := hbits (n % 32) (by omega) h.2
  have hdiv := h.1
  omega

/-- While interrupt 40 waits in a list register, enabling it again changes nothing. -/
theorem rewrite_while_waiting : ∃ t,
    block40Raised.step (.writeDistributor 0 (gicdIsenabler0 + 4) 32 0x100) = some t ∧
      block40Raised.SameInterruptState t := by
  obtain ⟨vm, hvm⟩ : ∃ vm, block40Raised.vmList (block40Raised.cpus 0).tpidrEl2 = some vm := ⟨_, rfl⟩
  have hview : (block40Raised.vmList (block40Raised.cpus 0).tpidrEl2).map (fun vm =>
      (bankTest vm.gicDistributorMmio.enable 40,
        vm.gicDistributorMmio.getRouter 40)) = some (true, some 0) := rfl
  rw [hvm, Option.map_some, Option.some.injEq, Prod.mk.injEq] at hview
  obtain ⟨henable, hrouter⟩ := hview
  have hroute : GicDistributorMmio.RoutedTo 0 (block40Raised.cpus 0).mpidrEl1 := by decide
  have hbusy : ¬ Inactive ((block40Raised.cpus 0).ichLr 0) := by decide
  have hwaits : ((block40Raised.cpus 0).ichLr 0).getLsbD 62 = true := by decide
  have hheld : vintid ((block40Raised.cpus 0).ichLr 0) = BitVec.ofNat 64 40 := rfl
  have hvalue : (0x100 : BitVec 64).toNat < 2 ^ 32 := by decide
  refine ((enable_rewrite_same_iff hvm hvalue).1 (gicdIsenabler0 + 4)
    (by decide) fun n hn => by rw [selected_40 hn, henable]).2 fun n hn _ => ?_
  rw [selected_40 hn]
  refine fun _ => ⟨by decide, fun _ => ⟨0, hrouter, hroute, fun j _ hbefore => ?_⟩⟩
  cases j with
  | zero => exact ⟨hbusy, fun _ => hwaits⟩
  | succ j => exact absurd hheld (hbefore 0 (by omega)).2

/-- The guest handles interrupt 40 and enables it once more. -/
def handling40 : Machine := block40Raised.onListRegister 0 0 acknowledge

/-- The list register of the interrupt that is being handled gains the pending bit: it will
be delivered a second time. -/
theorem rewrite_while_handling :
    twoVms.Booted ∧ Runs.Run Step twoVms handling40 ∧
      ((handling40.vmList (handling40.cpus 0).tpidrEl2).map fun vm =>
        bankTest vm.gicDistributorMmio.enable 40) = some true ∧
      ∃ t, handling40.step (.writeDistributor 0 (gicdIsenabler0 + 4) 32 0x100) = some t ∧
        ¬ handling40.SameInterruptState t := by
  have hrun : [Event.writeDistributor 0 gicdCtlr 32 0x12,
      .writeDistributor 0 (gicdIsenabler0 + 4) 32 0x100, .blockCompletion 0,
      .acknowledge 0 0].foldlM step twoVms = some handling40 := rfl
  refine ⟨booted_twoVms, Runs.Run.of_foldlM hrun, rfl, ?_⟩
  obtain ⟨t, ht⟩ : ∃ t,
      handling40.step (.writeDistributor 0 (gicdIsenabler0 + 4) 32 0x100) = some t := ⟨_, rfl⟩
  refine ⟨t, ht, fun hsame => ?_⟩
  have hview : (handling40.step (.writeDistributor 0 (gicdIsenabler0 + 4) 32 0x100)).map
      (fun t => ((t.cpus 0).ichLr 0).getLsbD 62) = some true := rfl
  rw [ht, Option.map_some, Option.some.injEq, congrFun (hsame.ichLr 0) 0] at hview
  exact absurd hview (by decide)

end Machine

end MiniVisor
