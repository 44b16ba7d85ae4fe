import MiniVisor.Pl011Mmio

/-!
# The receive interrupt of the emulated UART

A byte that waits while the receive interrupt is unmasked shows in `UART_RIS`, and the
distributor has been told of it. The emulation does both in `push` only. A byte that comes
while the interrupt is masked leaves no trace in `UART_RIS`, so the guest that unmasks it
afterwards hears nothing until the next byte.
-/
namespace MiniVisor

namespace Pl011Mmio

variable {u u' : Pl011Mmio} {buffer : Vector (BitVec 8) 4} {c : BitVec 8}

/-- The receive interrupt is not masked. -/
def rxim (u : Pl011Mmio) : Bool := (u.read uartImsc).2.getLsbD 4

/-- The receive interrupt is raised. -/
def rxris (u : Pl011Mmio) : Bool := (u.read uartRis).2.getLsbD 4

theorem rxim_eq (u : Pl011Mmio) : u.rxim = u.interruptMask.getLsbD 4 := by
  simp [rxim, read, uartDr, uartFr, uartCr, uartImsc]

theorem rxris_eq (u : Pl011Mmio) : u.rxris = u.rawInterruptStatus.getLsbD 4 := by
  simp [rxris, read, uartDr, uartFr, uartCr, uartImsc, uartRis]

def Buffered (u : Pl011Mmio) : Prop := ∃ i : Fin 4, u.readBuffer.get i ≠ 0

def HasRoom (u : Pl011Mmio) : Prop := ∃ i : Fin 4, u.readBuffer.get i = 0

instance (u : Pl011Mmio) : Decidable u.Buffered :=
  inferInstanceAs (Decidable (∃ i : Fin 4, u.readBuffer.get i ≠ 0))

instance (u : Pl011Mmio) : Decidable u.HasRoom :=
  inferInstanceAs (Decidable (∃ i : Fin 4, u.readBuffer.get i = 0))

/-- The free slots stand behind the bytes. -/
def Packed (buffer : Vector (BitVec 8) 4) : Prop := ∃ q, Holds buffer q

/-- The read of a full buffer leaves its last byte in place. -/
theorem Holds.shift_full {q : List (BitVec 8)} (h : Holds buffer q) (hfull : buffer.get 3 ≠ 0) :
    Holds (Pl011Mmio.shift buffer) (q.tail ++ [buffer.get 3]) := by
  have hlength : q.length = 4 := by
    have hlt := (h.slot_ne_zero 3).1 hfull
    have hle := h.length_le
    change 3 < q.length at hlt
    omega
  refine ⟨fun i => ?_, fun x hx => ?_, by simp; omega⟩
  · have h₁ := h.slot 1
    have h₂ := h.slot 2
    have h₃ := h.slot 3
    have hlast : q.tail.length = 3 := by simp [hlength]
    rw [List.getElem?_append, hlast, List.getElem?_tail]
    fin_cases i
    · exact h₁
    · exact h₂
    · exact h₃
    · rfl
  · rcases List.mem_append.1 hx with hx | hx
    · exact h.nonzero x (List.mem_of_mem_tail hx)
    · rw [List.mem_singleton.1 hx]
      exact hfull

theorem Packed.shift (h : Packed buffer) : Packed (Pl011Mmio.shift buffer) := by
  obtain ⟨q, hq⟩ := h
  by_cases hroom : buffer[3] = 0
  · exact ⟨_, hq.shift hroom⟩
  · exact ⟨_, hq.shift_full hroom⟩

/-- In a packed buffer the first slot tells whether a byte waits. -/
theorem Packed.buffered_iff (h : Packed u.readBuffer) : u.Buffered ↔ u.readBuffer.get 0 ≠ 0 := by
  obtain ⟨q, hq⟩ := h
  constructor
  · rintro ⟨i, hi⟩
    have hlt := (hq.slot_ne_zero i).1 hi
    exact (hq.slot_ne_zero 0).2 (Nat.lt_of_le_of_lt (Nat.zero_le _) hlt)
  · exact fun h => ⟨0, h⟩

/-- A stored byte leaves no gap, and some byte waits then. -/
theorem Packed.store (h : Packed buffer) (hc : c ≠ 0) :
    Packed (Pl011Mmio.store buffer c) ∧ (Pl011Mmio.store buffer c).get 0 ≠ 0 := by
  obtain ⟨q, hq⟩ := h
  have hstored := hq.store hc
  refine ⟨⟨_, hstored⟩, ?_⟩
  refine hstored.first_eq_zero.not.2 ?_
  unfold enqueue
  split_ifs with hroom
  · simp
  · intro hnil
    simp [hnil] at hroom

/-! ## The operations -/

/-- `push` raises the interrupt if it is unmasked, and leaves it alone otherwise. -/
theorem push_interrupt {d d' : GicDistributorMmio} {cpu cpu' : Pcpu}
    (h : u.push d cpu c = some (u', d', cpu')) :
    u'.rxim = u.rxim ∧ u'.rxris = (u.rxim || u.rxris) ∧
      (u.rxim = true → d.triggerInterrupt cpu pl011IntId none = some (d', cpu')) := by
  have hmasked : u.interruptMask &&& uartImscRxim ≠ 0 ↔ u.rxim = true := by
    rw [rxim_eq]
    exact Masks.and_bit_ne_zero u.interruptMask (by decide)
  rw [rxim_eq, rxris_eq]
  unfold push at h
  dsimp only at h
  by_cases hrxim : u.rxim = true
  · rw [if_pos (hmasked.2 hrxim)] at h
    simp only [bind, Option.bind_eq_some_iff, pure, Option.some.injEq, Prod.mk.injEq] at h
    obtain ⟨_, htrigger, rfl, rfl, rfl⟩ := h
    refine ⟨(rxim_eq u).symm, ?_, fun _ => htrigger⟩
    rw [BitVec.getLsbD_or, hrxim]
    simp [uartRisRxris]
  · rw [if_neg fun h => hrxim (hmasked.1 h)] at h
    simp only [pure, Option.some.injEq, Prod.mk.injEq] at h
    obtain ⟨rfl, -, -⟩ := h
    rw [Bool.not_eq_true] at hrxim
    exact ⟨(rxim_eq u).symm, by simp [hrxim, rxris_eq], fun h => absurd h (by simp [hrxim])⟩

/-- A read of the data register drops the interrupt with the last byte. -/
theorem read_dr_interrupt (u : Pl011Mmio) : (u.read uartDr).1.rxim = u.rxim ∧
    (u.read uartDr).1.rxris = (!decide ((shift u.readBuffer).get 0 = 0) && u.rxris) := by
  rw [rxim_eq, rxim_eq, rxris_eq, rxris_eq, read, if_pos rfl]
  dsimp only
  split_ifs with hempty
  · have hempty : (shift u.readBuffer).get 0 = 0 := hempty
    refine ⟨rfl, ?_⟩
    rw [BitVec.getLsbD_and, decide_eq_true hempty]
    simp [uartRisRxris]
  · have hempty : ¬ (shift u.readBuffer).get 0 = 0 := hempty
    exact ⟨rfl, by rw [decide_eq_false hempty, Bool.not_false, Bool.true_and]⟩

theorem write_imsc (u : Pl011Mmio) (value : BitVec 64) :
    (u.write uartImsc value).rxim = value.getLsbD 4 ∧
      (u.write uartImsc value).rxris = u.rxris := by
  rw [rxim_eq, rxris_eq, rxris_eq]
  simp [write, uartImsc, uartCr]

theorem write_icr (u : Pl011Mmio) (value : BitVec 64) :
    (u.write uartIcr value).rxim = u.rxim ∧
      (u.write uartIcr value).rxris = (u.rxris && !value.getLsbD 4) := by
  rw [rxim_eq, rxim_eq, rxris_eq, rxris_eq]
  simp [write, uartImsc, uartCr, uartIcr]

theorem write_elsewhere {offset : ℕ} (himsc : offset ≠ uartImsc) (hicr : offset ≠ uartIcr)
    (u : Pl011Mmio) (value : BitVec 64) :
    (u.write offset value).rxim = u.rxim ∧ (u.write offset value).rxris = u.rxris := by
  rw [rxim_eq, rxim_eq, rxris_eq, rxris_eq, write]
  split_ifs <;> exact ⟨rfl, rfl⟩

end Pl011Mmio

/-! ## Runs -/

namespace Notice

open Pl011Mmio Receiver

/-- The UART, and what happened to its newest unread byte. The UART reads none of the last
two fields. -/
structure State where
  uart : Pl011Mmio
  /-- `UART_ICR` cleared the interrupt since the byte was pushed. -/
  cleared : Bool
  /-- `trigger_interrupt` ran since the byte is both buffered and unmasked. -/
  triggered : Prop

def init : State := ⟨.new, false, False⟩

def step (s : State) : Receiver.Event → Option State
  | .push distributor cpu data =>
    (s.uart.push distributor cpu data).map fun r =>
      { uart := r.1
        cleared := if s.uart.HasRoom then false else s.cleared
        triggered := (s.uart.rxim = true ∧
            distributor.triggerInterrupt cpu pl011IntId none = some r.2) ∨
          (¬ s.uart.HasRoom ∧ s.triggered) }
  | .read offset => some { s with uart := (s.uart.read offset).1 }
  | .write offset value => some
    { uart := s.uart.write offset value
      cleared := s.cleared || (offset == uartIcr && value.getLsbD 4)
      triggered := s.triggered ∧
        ¬ (s.uart.rxim = false ∧ (s.uart.write offset value).rxim = true) }

/-- A byte that waits unmasked, and whose interrupt the guest did not clear, is raised and
the distributor knows; an empty buffer raises nothing. -/
structure Noticed (s : State) : Prop where
  raised : s.uart.Buffered → s.cleared = false → s.uart.rxim = true →
    s.uart.rxris = true ∧ s.triggered
  empty : ¬ s.uart.Buffered → s.uart.rxris = false

/-- The receive interrupt is unmasked only while no byte waits, or its interrupt was
cleared. -/
def UnmasksEmpty (s : State) : Receiver.Event → Prop
  | .write offset value => offset = uartImsc → value.getLsbD 4 = true → s.uart.rxim = false →
      s.cleared = false → ¬ s.uart.Buffered
  | _ => True

variable {s t : State}

theorem Noticed.push {d : GicDistributorMmio} {cpu : Pcpu} {c : BitVec 8}
    (hpacked : Packed s.uart.readBuffer) (hc : c ≠ 0) (hstep : step s (.push d cpu c) = some t) :
    Noticed t ∧ Packed t.uart.readBuffer := by
  obtain ⟨⟨uart, d', cpu'⟩, hpush, rfl⟩ := Option.map_eq_some_iff.1 hstep
  obtain ⟨hrxim, hrxris, htrigger⟩ := push_interrupt hpush
  obtain ⟨-, hbuffer⟩ := rxfe_push hpush
  obtain ⟨hstored, hfirst⟩ := hpacked.store hc
  have hwaits : uart.Buffered := ⟨0, by rw [hbuffer]; exact hfirst⟩
  refine ⟨⟨fun _ _ hunmasked => ?_, fun hempty => absurd hwaits hempty⟩, by rw [hbuffer]; exact hstored⟩
  rw [hrxim] at hunmasked
  exact ⟨by rw [hrxris, hunmasked, Bool.true_or], .inl ⟨hunmasked, htrigger hunmasked⟩⟩

theorem Noticed.readDr (h : Noticed s) (hpacked : Packed s.uart.readBuffer)
    (hstep : step s (.read uartDr) = some t) : Noticed t ∧ Packed t.uart.readBuffer := by
  obtain rfl := Option.some.inj hstep
  obtain ⟨-, hbuffer, -⟩ := s.uart.read_dr
  obtain ⟨hrxim, hrxris⟩ := s.uart.read_dr_interrupt
  have hshifted : Packed (s.uart.read uartDr).1.readBuffer := by
    rw [hbuffer]
    exact hpacked.shift
  have hwaits := hshifted.buffered_iff
  rw [hbuffer] at hwaits
  refine ⟨⟨fun hbuffered hcleared hunmasked => ?_, fun hempty => ?_⟩, hshifted⟩
  · have hnext := hwaits.1 hbuffered
    have hbefore : s.uart.Buffered := ⟨1, hnext⟩
    dsimp only at hunmasked
    rw [hrxim] at hunmasked
    obtain ⟨hraised, htriggered⟩ := h.raised hbefore hcleared hunmasked
    exact ⟨by rw [hrxris, hraised, decide_eq_false hnext]; rfl, htriggered⟩
  · have hzero : (shift s.uart.readBuffer).get 0 = 0 := by
      by_contra hne
      exact hempty (hwaits.2 hne)
    dsimp only
    rw [hrxris, decide_eq_true hzero, Bool.not_true, Bool.false_and]

/-- Where the same bytes wait, it is enough that nothing new is asked for. -/
theorem Noticed.transfer (h : Noticed s) (hwaits : t.uart.Buffered ↔ s.uart.Buffered)
    (hempty : s.uart.rxris = false → t.uart.rxris = false)
    (hraised : s.uart.Buffered → t.cleared = false → t.uart.rxim = true →
      s.cleared = false ∧ s.uart.rxim = true ∧ (s.uart.rxris = true → t.uart.rxris = true) ∧
        (s.triggered → t.triggered)) : Noticed t := by
  refine ⟨fun hbuffered hcleared hunmasked => ?_, fun h' => hempty (h.empty (hwaits.not.1 h'))⟩
  have hbefore := hwaits.1 hbuffered
  obtain ⟨hkept, hrxim, hrxris, htriggered⟩ := hraised hbefore hcleared hunmasked
  obtain ⟨hset, htold⟩ := h.raised hbefore hkept hrxim
  exact ⟨hrxris hset, htriggered htold⟩

theorem Noticed.write {offset : ℕ} {value : BitVec 64} (h : Noticed s)
    (hguard : UnmasksEmpty s (.write offset value))
    (hstep : step s (.write offset value) = some t) : Noticed t := by
  obtain rfl := Option.some.inj hstep
  obtain ⟨hbuffer, -⟩ := s.uart.write_receiver offset value
  have hwaits : (s.uart.write offset value).Buffered ↔ s.uart.Buffered := by
    unfold Buffered
    rw [hbuffer]
  by_cases himsc : offset = uartImsc
  · subst himsc
    obtain ⟨hrxim, hrxris⟩ := s.uart.write_imsc value
    refine h.transfer hwaits hrxris.trans fun hbuffered hcleared hunmasked => ?_
    have hkept : s.cleared = false := (Bool.or_eq_false_iff.1 hcleared).1
    have hbefore : s.uart.rxim = true := by
      by_contra hmasked
      rw [Bool.not_eq_true] at hmasked
      exact hguard rfl (hrxim.symm.trans hunmasked) hmasked hkept hbuffered
    exact ⟨hkept, hbefore, hrxris.trans, fun htold => ⟨htold, by simp [hbefore]⟩⟩
  · have hrest : (s.uart.write offset value).rxim = s.uart.rxim ∧
        (s.uart.rxris = false → (s.uart.write offset value).rxris = false) ∧
        ((offset == uartIcr && value.getLsbD 4) = false → s.uart.rxris = true →
          (s.uart.write offset value).rxris = true) := by
      by_cases hicr : offset = uartIcr
      · subst hicr
        obtain ⟨hrxim, hrxris⟩ := s.uart.write_icr value
        refine ⟨hrxim, fun hlow => by rw [hrxris, hlow, Bool.false_and], fun hmask hset => ?_⟩
        have hvalue : value.getLsbD 4 = false := by simpa using hmask
        rw [hrxris, hset, hvalue]
        rfl
      · obtain ⟨hrxim, hrxris⟩ := write_elsewhere himsc hicr s.uart value
        exact ⟨hrxim, hrxris.trans, fun _ => hrxris.trans⟩
    obtain ⟨hrxim, hlow, hhigh⟩ := hrest
    refine h.transfer hwaits hlow fun _ hcleared hunmasked => ?_
    obtain ⟨hkept, hmask⟩ := Bool.or_eq_false_iff.1 hcleared
    have hbefore : s.uart.rxim = true := hrxim.symm.trans hunmasked
    exact ⟨hkept, hbefore, hhigh hmask, fun htold => ⟨htold, by simp [hbefore]⟩⟩

theorem Noticed.step {e : Receiver.Event} (h : Noticed s) (hpacked : Packed s.uart.readBuffer)
    (hbytes : PushesBytes e) (hguard : UnmasksEmpty s e) (hstep : step s e = some t) :
    Noticed t ∧ Packed t.uart.readBuffer := by
  cases e with
  | push d cpu c => exact Noticed.push hpacked hbytes hstep
  | read offset =>
    by_cases hdr : offset = uartDr
    · subst hdr
      exact h.readDr hpacked hstep
    · obtain rfl := Option.some.inj hstep
      rw [read_of_ne hdr]
      exact ⟨h, hpacked⟩
  | write offset value =>
    refine ⟨h.write hguard hstep, ?_⟩
    obtain rfl := Option.some.inj hstep
    rw [(s.uart.write_receiver offset value).1]
    exact hpacked

/-- A guest that unmasks the interrupt too late finds it neither raised nor triggered. -/
theorem not_noticed_of_unmask {e : Receiver.Event} (hguard : ¬ UnmasksEmpty s e) :
    ∃ t, Notice.step s e = some t ∧ ¬ Noticed t := by
  cases e with
  | push d cpu c => exact absurd trivial hguard
  | read offset => exact absurd trivial hguard
  | write offset value =>
    simp only [UnmasksEmpty, Classical.not_imp, not_not] at hguard
    obtain ⟨rfl, hvalue, hmasked, hcleared, hwaits⟩ := hguard
    obtain ⟨hbuffer, -⟩ := s.uart.write_receiver uartImsc value
    have hunmasked := (s.uart.write_imsc value).1.trans hvalue
    have hbuffered : (s.uart.write uartImsc value).Buffered := by
      unfold Buffered
      rw [hbuffer]
      exact hwaits
    have hkept : (s.cleared || (uartImsc == uartIcr && value.getLsbD 4)) = false := by
      rw [hcleared]
      rfl
    refine ⟨_, rfl, fun hnoticed => ?_⟩
    exact (hnoticed.raised hbuffered hkept hunmasked).2.2 ⟨hmasked, hunmasked⟩

theorem noticed_init : Noticed init ∧ Packed init.uart.readBuffer := by
  refine ⟨⟨fun hbuffered => absurd hbuffered (by decide), fun _ => by decide⟩, [], ?_⟩
  exact fifo_init.1.holds

/-- In every state of a run the waiting byte is noticed, exactly if the guest never unmasks
the interrupt while a byte waits whose interrupt it has not cleared. -/
theorem noticed_iff (events : List Receiver.Event) (hbytes : ∀ e ∈ events, PushesBytes e) :
    (∀ pre s, pre <+: events → pre.foldlM step init = some s → Noticed s) ↔
      ∀ pre e s, pre ++ [e] <+: events → pre.foldlM step init = some s → UnmasksEmpty s e := by
  refine Runs.foldlM_all_iff (I := fun s => Noticed s ∧ Packed s.uart.readBuffer)
    (fun s h => h.1) ?_ (fun s e _ => not_noticed_of_unmask) noticed_init
  intro s e he t h hguard hstep
  exact h.1.step h.2 (hbytes e he) hguard hstep

/-- The guest unmasks the interrupt, then a byte comes. -/
def unmaskedPush : List Receiver.Event := [.write uartImsc 0x10, samplePush 0x43]

theorem unmaskedPush_noticed : ∃ s, unmaskedPush.foldlM step init = some s ∧ s.uart.Buffered ∧
    s.cleared = false ∧ s.uart.rxim = true ∧ Noticed s := by
  have heval : (unmaskedPush.foldlM step init).map
      (fun s => (decide s.uart.Buffered, s.cleared, s.uart.rxim)) = some (true, false, true) := by
    decide +kernel
  obtain ⟨s, hs, heval⟩ := Option.map_eq_some_iff.1 heval
  simp only [Prod.mk.injEq, decide_eq_true_eq] at heval
  have hbytes : ∀ e ∈ unmaskedPush, PushesBytes e := by
    simp [unmaskedPush, samplePush, PushesBytes]
  refine ⟨s, hs, heval.1, heval.2.1, heval.2.2, ?_⟩
  refine (noticed_iff unmaskedPush hbytes).2 (fun pre e t hpre ht => ?_) _ s (List.prefix_refl _) hs
  cases pre with
  | nil =>
    obtain rfl : init = t := by simpa using ht
    obtain rfl : e = .write uartImsc 0x10 := by simpa [unmaskedPush] using hpre
    intro _ _ _ _
    decide
  | cons first rest =>
    have hpush : e = samplePush 0x43 := by
      simp only [unmaskedPush, List.cons_append, List.cons_prefix_cons] at hpre
      cases rest with
      | nil => simpa using hpre.2
      | cons second more => simp at hpre
    rw [hpush]
    trivial

/-- A byte comes while the interrupt is masked, and the guest unmasks it then: the byte waits
unmasked, `UART_RIS` is clear and the distributor was not told. -/
theorem masked_push_unnoticed : ∃ s,
    [samplePush 0x43, .write uartImsc 0x10].foldlM step init = some s ∧ s.uart.Buffered ∧
      s.cleared = false ∧ s.uart.rxim = true ∧ s.uart.rxris = false ∧ ¬ s.triggered := by
  have heval : ([samplePush 0x43, .write uartImsc 0x10].foldlM step init).map
      (fun s => (decide s.uart.Buffered, s.cleared, s.uart.rxim, s.uart.rxris)) =
        some (true, false, true, false) := by
    decide +kernel
  obtain ⟨s, hs, heval⟩ := Option.map_eq_some_iff.1 heval
  simp only [Prod.mk.injEq, decide_eq_true_eq] at heval
  refine ⟨s, hs, heval.1, heval.2.1, heval.2.2.1, heval.2.2.2, fun htold => ?_⟩
  obtain ⟨t, ht, hlast⟩ : ∃ t, [samplePush 0x43].foldlM step init = some t ∧
      step t (.write uartImsc 0x10) = some s := Runs.foldlM_concat hs
  obtain rfl := Option.some.inj hlast
  have hmasked : ([samplePush 0x43].foldlM step init).map (·.uart.rxim) = some false := by
    decide +kernel
  rw [ht] at hmasked
  exact htold.2 ⟨Option.some.inj hmasked, heval.2.2.1⟩

end Notice

end MiniVisor
