import MiniVisor.GicMmio
import MiniVisor.Library.Runs

/-!
# Emulated PL011 UART

The receive buffer has four bytes and a zero byte marks a free slot. `push` runs
on the physical CPU that took the host console interrupt, whichever VM that CPU
runs.

The guest is to see a queue of four bytes. The second half runs the emulated UART
beside such a queue. Two things set them apart: the receive flag of a UART that was
never used, and a read of a full buffer, which leaves the last byte in place.
-/
namespace MiniVisor

def uartDr : ℕ := 0x000
def uartFr : ℕ := 0x018
def uartCr : ℕ := 0x030
def uartImsc : ℕ := 0x038
def uartRis : ℕ := 0x03C
def uartIcr : ℕ := 0x044

def uartFrRxfe : BitVec 16 := 1#16 <<< 4
def uartImscRxim : BitVec 16 := 1#16 <<< 4
def uartRisRxris : BitVec 16 := 1#16 <<< 4
/-- The virtual interrupt number of the emulated UART. -/
def pl011IntId : BitVec 32 := 33

structure Pl011Mmio where
  flag : BitVec 16
  interruptMask : BitVec 16
  rawInterruptStatus : BitVec 16
  control : BitVec 16
  readBuffer : Vector (BitVec 8) 4

namespace Pl011Mmio

def new : Pl011Mmio where
  flag := 0
  interruptMask := 0
  rawInterruptStatus := 0
  control := 0
  readBuffer := Vector.replicate 4 0

/-- Store the byte in the first free slot; a full buffer drops it. -/
def store (buffer : Vector (BitVec 8) 4) (data : BitVec 8) : Vector (BitVec 8) 4 :=
  match buffer.findFinIdx? (· == 0) with
  | some i => buffer.set i data
  | none => buffer

def push (u : Pl011Mmio) (d : GicDistributorMmio) (cpu : Pcpu) (data : BitVec 8) :
    Option (Pl011Mmio × GicDistributorMmio × Pcpu) := do
  let u := { u with readBuffer := store u.readBuffer data, flag := u.flag &&& ~~~ uartFrRxfe }
  if u.interruptMask &&& uartImscRxim ≠ 0 then
    let u := { u with rawInterruptStatus := u.rawInterruptStatus ||| uartRisRxris }
    let (d, cpu) ← d.triggerInterrupt cpu pl011IntId none
    return (u, d, cpu)
  else
    return (u, d, cpu)

/-- `UART_DR` shifts the buffer down by one slot and leaves the last slot as it is. -/
def shift (buffer : Vector (BitVec 8) 4) : Vector (BitVec 8) 4 :=
  #v[buffer[1], buffer[2], buffer[3], buffer[3]]

def read (u : Pl011Mmio) (offset : ℕ) : Pl011Mmio × BitVec 64 :=
  if offset = uartDr then
    let buffer := shift u.readBuffer
    let u' := { u with readBuffer := buffer }
    (if buffer[0] = 0 then
        { u' with
          flag := u.flag ||| uartFrRxfe
          rawInterruptStatus := u.rawInterruptStatus &&& ~~~ uartRisRxris }
      else u', u.readBuffer[0].setWidth 64)
  else if offset = uartFr then (u, u.flag.setWidth 64)
  else if offset = uartCr then (u, u.control.setWidth 64)
  else if offset = uartImsc then (u, u.interruptMask.setWidth 64)
  else if offset = uartRis then (u, u.rawInterruptStatus.setWidth 64)
  else if offset = 0xFE0 then (u, 0x11)
  else if offset = 0xFE4 then (u, 0x01 <<< 4)
  else if offset = 0xFE8 then (u, (0x03 <<< 4) ||| 0x04)
  else if offset = 0xFEC then (u, 0x00)
  else if offset = 0xFF0 then (u, 0x0D)
  else if offset = 0xFF4 then (u, 0xF0)
  else if offset = 0xFF8 then (u, 0x05)
  else if offset = 0xFFC then (u, 0xB1)
  else (u, 0)

def write (u : Pl011Mmio) (offset : ℕ) (value : BitVec 64) : Pl011Mmio :=
  if offset = uartCr then { u with control := value.setWidth 16 }
  else if offset = uartImsc then { u with interruptMask := value.setWidth 16 }
  else if offset = uartIcr then
    { u with rawInterruptStatus := u.rawInterruptStatus &&& ~~~ (value.setWidth 16) }
  else u

end Pl011Mmio

namespace Pl011Mmio

variable {buffer : Vector (BitVec 8) 4} {c : BitVec 8} {q : List (BitVec 8)}

/-! ## The buffer -/

theorem store_of_first (k : Fin 4) (hzero : buffer[k] = 0)
    (hfirst : ∀ j : Fin 4, j < k → buffer[j] ≠ 0) : store buffer c = buffer.set k c := by
  have harray : buffer.toArray.findFinIdx? (· == 0) = some (k.cast buffer.size_toArray.symm) := by
    rw [Array.findFinIdx?_eq_some_iff]
    refine ⟨by simpa using hzero, fun j hj => ?_⟩
    simpa using hfirst (j.cast buffer.size_toArray) hj
  have hfind : buffer.findFinIdx? (· == 0) = some k := by
    rw [Vector.findFinIdx?, harray]
    rfl
  rw [store, hfind]

theorem store_of_full (hfull : ∀ j : Fin 4, buffer[j] ≠ 0) : store buffer c = buffer := by
  have hfind : buffer.findFinIdx? (· == 0) = none := by
    rw [Vector.findFinIdx?_eq_none_iff]
    intro x hx
    obtain ⟨j, hj, rfl⟩ := Vector.mem_iff_getElem.1 hx
    simpa using hfull ⟨j, hj⟩
  rw [store, hfind]

/-- The buffer holds the bytes of the queue, oldest first, and zeros behind them. -/
structure Holds (buffer : Vector (BitVec 8) 4) (q : List (BitVec 8)) : Prop where
  slot : ∀ i : Fin 4, buffer[i] = q[i.val]?.getD 0
  nonzero : ∀ x ∈ q, x ≠ 0
  length_le : q.length ≤ 4

theorem Holds.slot_ne_zero (h : Holds buffer q) (i : Fin 4) : buffer[i] ≠ 0 ↔ i.val < q.length := by
  rw [h.slot]
  by_cases hi : i.val < q.length
  · have hne := h.nonzero q[i.val] (List.getElem_mem hi)
    simpa [hi] using hne
  · simp [hi]

/-- A queue of capacity four drops what does not fit. -/
def enqueue (q : List (BitVec 8)) (c : BitVec 8) : List (BitVec 8) :=
  if q.length < 4 then q ++ [c] else q

theorem Holds.store (h : Holds buffer q) (hc : c ≠ 0) :
    Holds (Pl011Mmio.store buffer c) (enqueue q c) := by
  unfold enqueue
  split_ifs with hroom
  · have hzero : buffer[(⟨q.length, hroom⟩ : Fin 4)] = 0 := by
      rw [h.slot]
      simp
    rw [store_of_first ⟨q.length, hroom⟩ hzero fun j hj => (h.slot_ne_zero j).2 hj]
    refine ⟨fun i => ?_, fun x hx => ?_, by simp; omega⟩
    · have hslot := h.slot i
      simp only [Fin.getElem_fin] at hslot ⊢
      by_cases hi : q.length = i.val
      · simp [hi]
      · rw [Vector.getElem_set, if_neg hi, hslot, List.getElem?_append]
        by_cases hlt : i.val < q.length
        · rw [if_pos hlt]
        · have hnone : q[i.val]? = none := by simp; omega
          have hnone' : [c][i.val - q.length]? = none := by simp; omega
          rw [if_neg hlt, hnone, hnone']
    · obtain hx | rfl : x ∈ q ∨ x = c := by simpa using hx
      · exact h.nonzero x hx
      · exact hc
  · rwa [store_of_full fun j => (h.slot_ne_zero j).2 (by omega)]

/-- A read takes the oldest byte out unless the buffer is full. -/
theorem Holds.shift (h : Holds buffer q) (hroom : buffer[3] = 0) :
    Holds (Pl011Mmio.shift buffer) q.tail := by
  have hlength : q.length < 4 := by
    by_contra hcon
    have hlt : (3 : Fin 4).val < q.length := Nat.lt_of_succ_le (not_lt.1 hcon)
    exact (h.slot_ne_zero 3).2 hlt hroom
  refine ⟨fun i => ?_, fun x hx => h.nonzero x (List.mem_of_mem_tail hx), by simp; omega⟩
  have h₁ := h.slot 1
  have h₂ := h.slot 2
  have h₃ := h.slot 3
  have hnone : q[4]? = none := by simp; omega
  have hlast : q[3]? = none := by simp; omega
  rw [List.getElem?_tail]
  fin_cases i
  · exact h₁
  · exact h₂
  · exact h₃
  · change buffer[3] = q[4]?.getD 0
    rw [hnone, hroom]
    rfl

theorem Holds.first_eq_zero (h : Holds buffer q) : buffer[0] = 0 ↔ q = [] := by
  have hfirst := h.slot_ne_zero 0
  have hlength : 0 < q.length ↔ q ≠ [] := List.length_pos_iff
  rw [← not_iff_not]
  exact hfirst.trans hlength

/-! ## The flag -/

/-- The receive FIFO empty flag, bit 4 of what a read of `UART_FR` returns. -/
def rxfe (u : Pl011Mmio) : Bool := (u.read uartFr).2.getLsbD 4

theorem rxfe_eq (u : Pl011Mmio) : u.rxfe = u.flag.getLsbD 4 := by
  simp [rxfe, read, uartFr, uartDr]

theorem rxfe_push {u u' : Pl011Mmio} {d d' : GicDistributorMmio} {cpu cpu' : Pcpu}
    (h : u.push d cpu c = some (u', d', cpu')) :
    u'.rxfe = false ∧ u'.readBuffer = store u.readBuffer c := by
  have hflag : (u.flag &&& ~~~ uartFrRxfe).getLsbD 4 = false := by
    rw [BitVec.getLsbD_and]
    simp [uartFrRxfe]
  unfold push at h
  dsimp only at h
  split_ifs at h
  · simp only [bind, Option.bind_eq_some_iff, pure, Option.some.injEq, Prod.mk.injEq] at h
    obtain ⟨_, -, rfl, -, -⟩ := h
    exact ⟨(rxfe_eq _).trans hflag, rfl⟩
  · simp only [pure, Option.some.injEq, Prod.mk.injEq] at h
    obtain ⟨rfl, -, -⟩ := h
    exact ⟨(rxfe_eq _).trans hflag, rfl⟩

theorem read_dr (u : Pl011Mmio) : (u.read uartDr).2 = u.readBuffer[0].setWidth 64 ∧
    (u.read uartDr).1.readBuffer = shift u.readBuffer ∧
    (u.read uartDr).1.rxfe = (decide ((shift u.readBuffer)[0] = 0) || u.rxfe) := by
  rw [rxfe_eq, rxfe_eq, read, if_pos rfl]
  dsimp only
  split_ifs with hempty
  · refine ⟨rfl, rfl, ?_⟩
    rw [BitVec.getLsbD_or]
    simp [uartFrRxfe, hempty]
  · exact ⟨rfl, rfl, by rw [decide_eq_false hempty, Bool.false_or]⟩

theorem read_of_ne {u : Pl011Mmio} {offset : ℕ} (h : offset ≠ uartDr) : (u.read offset).1 = u := by
  rw [read, if_neg h]
  simp only [apply_ite Prod.fst, ite_self]

theorem write_receiver (u : Pl011Mmio) (offset : ℕ) (value : BitVec 64) :
    (u.write offset value).readBuffer = u.readBuffer ∧ (u.write offset value).rxfe = u.rxfe := by
  rw [rxfe_eq, rxfe_eq]
  unfold write
  split_ifs <;> exact ⟨rfl, rfl⟩

end Pl011Mmio

/-! ## The UART beside a queue -/

namespace Receiver

open Pl011Mmio

/-- A byte from the host console, or an access of the guest. -/
inductive Event where
  | push (distributor : GicDistributorMmio) (cpu : Pcpu) (data : BitVec 8)
  | read (offset : ℕ)
  | write (offset : ℕ) (value : BitVec 64)

/-- The UART with the queue it stands for and the bytes that went in and out. The
UART reads none of the last four fields. -/
structure State where
  uart : Pl011Mmio
  queue : List (BitVec 8)
  /-- Bytes that the queue accepted. -/
  accepted : List (BitVec 8)
  /-- What the reads of `UART_DR` returned while the queue was not empty. -/
  received : List (BitVec 64)
  /-- Whether a byte was pushed or `UART_DR` was read. -/
  used : Bool

def init : State := ⟨.new, [], [], [], false⟩

def step (s : State) : Event → Option State
  | .push distributor cpu data =>
    (s.uart.push distributor cpu data).map fun (uart, _, _) =>
      { s with
        uart := uart
        queue := enqueue s.queue data
        accepted := if s.queue.length < 4 then s.accepted ++ [data] else s.accepted
        used := true }
  | .read offset =>
    if offset = uartDr then
      some { s with
        uart := (s.uart.read offset).1
        queue := s.queue.tail
        received := if s.queue = [] then s.received else s.received ++ [(s.uart.read offset).2]
        used := true }
    else some { s with uart := (s.uart.read offset).1 }
  | .write offset value => some { s with uart := s.uart.write offset value }

def Step (s : State) (e : Event) (t : State) : Prop := step s e = some t

/-- Only bytes other than zero are pushed. -/
def PushesBytes : Event → Prop
  | .push _ _ data => data ≠ 0
  | _ => True

/-- The data register is not read while the buffer is full. -/
def ReadsWithRoom (s : State) : Event → Prop
  | .read offset => offset = uartDr → s.uart.readBuffer[3] = 0
  | _ => True

/-- The bytes read are the bytes accepted, in order, and the rest is in the buffer. -/
structure Fifo (s : State) : Prop where
  order : s.accepted.map (BitVec.setWidth 64) = s.received ++ s.queue.map (BitVec.setWidth 64)
  holds : Holds s.uart.readBuffer s.queue

/-- The flag shows the empty queue of a receiver that was used. -/
def Flagged (s : State) : Prop :=
  (s.uart.rxfe = true ↔ s.queue = [] ∧ s.used = true) ∧ (s.used = false → s.queue = [])

variable {s t : State} {e : Event}

theorem Fifo.push {d : GicDistributorMmio} {cpu : Pcpu} {c : BitVec 8} (h : Fifo s) (hc : c ≠ 0)
    (hstep : Step s (.push d cpu c) t) : Fifo t ∧ Flagged t := by
  obtain ⟨⟨uart, d', cpu'⟩, hpush, rfl⟩ := Option.map_eq_some_iff.1 hstep
  obtain ⟨hrxfe, hbuffer⟩ := rxfe_push hpush
  have hne : enqueue s.queue c ≠ [] := by
    unfold enqueue
    split_ifs with hroom
    · simp
    · intro hnil
      simp [hnil] at hroom
  refine ⟨⟨?_, by rw [hbuffer]; exact h.holds.store hc⟩, ?_, fun hused => by simp at hused⟩
  · have horder := h.order
    dsimp only
    unfold enqueue
    split_ifs
    · rw [List.map_append, horder, List.map_append, List.append_assoc]
    · exact horder
  · simp [hrxfe, hne]

theorem Fifo.readDr (h : Fifo s) (hflag : Flagged s) (hroom : s.uart.readBuffer[3] = 0)
    (hstep : Step s (.read uartDr) t) : Fifo t ∧ Flagged t := by
  obtain ⟨hvalue, hbuffer, hrxfe⟩ := s.uart.read_dr
  have hread : step s (.read uartDr) = some { s with
      uart := (s.uart.read uartDr).1
      queue := s.queue.tail
      received := if s.queue = [] then s.received else s.received ++ [(s.uart.read uartDr).2]
      used := true } := by
    rw [Receiver.step, if_pos rfl]
  obtain rfl := Option.some.inj (hread.symm.trans hstep)
  have hholds := h.holds.shift hroom
  have hfirst := h.holds.slot 0
  have horder := h.order
  refine ⟨⟨?_, by rw [hbuffer]; exact hholds⟩, ?_, fun hused => by simp at hused⟩
  · dsimp only
    rw [hvalue]
    cases hq : s.queue with
    | nil => simpa [hq] using horder
    | cons x q =>
      have hx : s.uart.readBuffer[0] = x := by simpa [hq] using hfirst
      rw [hx]
      simpa [hq] using horder
  · dsimp only
    rw [hrxfe, Bool.or_eq_true, decide_eq_true_iff, hholds.first_eq_zero, hflag.1]
    constructor
    · rintro (hempty | ⟨hempty, -⟩)
      · exact ⟨hempty, rfl⟩
      · exact ⟨by rw [hempty]; rfl, rfl⟩
    · exact fun hempty => .inl hempty.1

theorem Fifo.step (h : Fifo s) (hflag : Flagged s) (hbytes : PushesBytes e)
    (hroom : ReadsWithRoom s e) (hstep : Step s e t) : Fifo t ∧ Flagged t := by
  cases e with
  | push d cpu c => exact h.push hbytes hstep
  | read offset =>
    by_cases hdr : offset = uartDr
    · subst hdr
      exact h.readDr hflag (hroom rfl) hstep
    · have hread : Receiver.step s (.read offset) =
          some { s with uart := (s.uart.read offset).1 } := if_neg hdr
      obtain rfl := Option.some.inj (hread.symm.trans hstep)
      rw [read_of_ne hdr]
      exact ⟨h, hflag⟩
  | write offset value =>
    obtain rfl := Option.some.inj hstep
    obtain ⟨hbuffer, hrxfe⟩ := s.uart.write_receiver offset value
    refine ⟨⟨h.order, by rw [hbuffer]; exact h.holds⟩, ?_, hflag.2⟩
    dsimp only
    rw [hrxfe]
    exact hflag.1

theorem fifo_init : Fifo init ∧ Flagged init := by
  refine ⟨⟨rfl, fun i => ?_, by simp [init], by simp [init]⟩, ?_, fun _ => rfl⟩
  · fin_cases i <;> rfl
  · decide

/-- As long as no full buffer is read, the receiver is a queue of capacity four in
every state, and its flag is right exactly if the receiver was used at all. -/
theorem fifo_of_run (hrun : Runs.GuardedRun Step
    (fun s e => PushesBytes e ∧ ReadsWithRoom s e) init s) :
    s.accepted.map (BitVec.setWidth 64) = s.received ++ s.queue.map (BitVec.setWidth 64) ∧
      s.queue.length ≤ 4 ∧ Holds s.uart.readBuffer s.queue ∧
      ((s.uart.rxfe = true ↔ s.queue = []) ↔ s.used = true) := by
  obtain ⟨hfifo, hflag⟩ := hrun.invariant (I := fun s => Fifo s ∧ Flagged s)
    (fun _ _ _ hinv hguard hstep => hinv.1.step hinv.2 hguard.1 hguard.2 hstep) fifo_init
  refine ⟨hfifo.order, hfifo.holds.length_le, hfifo.holds, ?_⟩
  rw [hflag.1]
  cases hused : s.used with
  | false => simp [hflag.2 hused]
  | true => simp

def samplePush (data : BitVec 8) : Event := .push (.new 0) ⟨0, 0, 0, fun _ => 0, [], []⟩ data

/-- One byte goes through the receiver. -/
theorem sample_fifo : ∃ s, Runs.GuardedRun Step (fun s e => PushesBytes e ∧ ReadsWithRoom s e)
    init s ∧ s.accepted = [0x41] ∧ s.received = [0x41] ∧ (s.uart.rxfe = true ↔ s.queue = []) := by
  have heval : ((step init (samplePush 0x41)).bind fun s =>
      (step s (.read uartDr)).map fun t => (s.uart.readBuffer[3], t.accepted, t.received, t.used)) =
      some (0, [0x41], [0x41], true) := by
    decide +kernel
  obtain ⟨s, hpush, heval⟩ := Option.bind_eq_some_iff.1 heval
  obtain ⟨t, hread, heval⟩ := Option.map_eq_some_iff.1 heval
  simp only [Prod.mk.injEq] at heval
  obtain ⟨hroom, haccepted, hreceived, hused⟩ := heval
  have hbyte : PushesBytes (samplePush 0x41) := by
    change (0x41 : BitVec 8) ≠ 0
    decide
  have hrun : Runs.GuardedRun Step (fun s e => PushesBytes e ∧ ReadsWithRoom s e) init t :=
    .cons (i := samplePush 0x41) ⟨hbyte, trivial⟩ hpush
      (.cons (i := .read uartDr) ⟨trivial, fun _ => hroom⟩ hread (.refl _))
  exact ⟨t, hrun, haccepted, hreceived, (fifo_of_run hrun).2.2.2.2 hused⟩

/-- Four bytes are pushed and read, then a fifth: the read returns the fourth again. -/
def sampleOverrun : List Event :=
  [1, 2, 3, 4].map samplePush ++ List.replicate 4 (.read uartDr) ++
    [samplePush 5, .read uartDr]

/-- After the buffer was full, an accepted byte is lost and an old one is read twice. -/
theorem full_buffer_repeats_byte : ∃ s, Runs.GuardedRun Step (fun _ e => PushesBytes e) init s ∧
    s.accepted = [1, 2, 3, 4, 5] ∧ s.queue = [] ∧ s.received = [1, 2, 3, 4, 4] ∧
    ¬(s.uart.rxfe = true ↔ s.queue = []) := by
  have heval : (sampleOverrun.foldlM step init).map (fun s =>
      (s.accepted, s.queue, s.received, s.uart.rxfe)) =
      some ([1, 2, 3, 4, 5], [], [1, 2, 3, 4, 4], false) := by
    decide +kernel
  obtain ⟨s, hrun, heval⟩ := Option.map_eq_some_iff.1 heval
  simp only [Prod.mk.injEq] at heval
  obtain ⟨haccepted, hqueue, hreceived, hrxfe⟩ := heval
  refine ⟨s, .of_foldlM ?_ hrun, haccepted, hqueue, hreceived, ?_⟩
  · simp [sampleOverrun, samplePush, PushesBytes]
  · simp [hrxfe, hqueue]

end Receiver

end MiniVisor
