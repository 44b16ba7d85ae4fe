import MiniVisor.MmioWidths

/-!
# Runs of a guest with its devices

A guest computes, takes traps and gets characters from the console. From the creation of the
VM on, the flags of its devices are single bits, so that along a whole run the traps do what
the instructions do, as long as none of them is on the lists of narrow accesses.
-/
namespace MiniVisor

open Effects

/-! ## The interrupt status of the block device -/

namespace VirtioBlkMmio

/-- The one bit that the device raises. -/
def Announces (s : BlkState) : Prop :=
  s.device.interruptStatus = 0 ∨ s.device.interruptStatus = 1

def interruptOf (s : BlkState) : BitVec 32 := s.device.interruptStatus

variable {p : Platform} {fuel id offset value : ℕ}

theorem keeps_of_ledger {α : Type} {x : Effect BlkState α} (hx : Effect.Keeps ledger x) :
    Effect.Keeps interruptOf x := fun s =>
  congrArg (fun v => v.1.interruptStatus) (hx s)

theorem getNextAvailId_interrupt : Effect.Keeps interruptOf getNextAvailId := by
  rw [getNextAvailId]
  apply Effect.Keeps.bind (.look _)
  intro device
  apply Effect.Keeps.bind (.change (by intro; rfl))
  intro _
  apply Effect.Keeps.bind (.look _)
  intro m
  split_ifs
  · exact .pure _
  · exact Effect.Keeps.bind (.checked _) fun _ => Effect.Keeps.bind (.checked _) fun _ =>
      Effect.Keeps.bind (.change (by intro; rfl)) fun _ => .pure _

theorem writeUsed_interrupt {length : ℕ} : Effect.Keeps interruptOf (writeUsed id length) :=
  Effect.Keeps.bind (.look _) fun _ => Effect.Keeps.bind (.checked _) fun _ =>
    Effect.Keeps.bind (.checked _) fun _ => Effect.Keeps.bind (.change (by intro; rfl)) fun _ =>
      Effect.Keeps.bind (.checked _) fun _ => Effect.Keeps.bind (.checked _) fun _ =>
        Effect.Keeps.bind (.change (by intro; rfl)) fun _ =>
          Effect.Keeps.bind (.change (by intro; rfl)) fun _ =>
            Effect.Keeps.bind (.change (by intro; rfl)) fun _ =>
              Effect.Keeps.bind (.change (by intro; rfl)) fun _ => .change (by intro; rfl)

theorem completeWith_interrupt {add : ℕ → ℕ → Option ℕ} {last : VirtQueueDesc}
    {totalSize status : ℕ} :
    Effect.Keeps interruptOf (completeWith p add id last totalSize status) := by
  rw [completeWith]
  apply Effect.Keeps.bind (.checked _)
  intro address
  cases address with
  | none => exact Effect.Keeps.bind writeUsed_interrupt fun _ => .change (by intro; rfl)
  | some address =>
    exact Effect.Keeps.bind (.change (by intro; rfl)) fun _ =>
      Effect.Keeps.bind (.change (by intro; rfl)) fun _ => Effect.Keeps.bind (.checked _) fun _ =>
        Effect.Keeps.bind writeUsed_interrupt fun _ => .change (by intro; rfl)

theorem request_interrupt : Effect.Keeps interruptOf (request p fuel id) := by
  rw [request, requestWith]
  apply Effect.Keeps.bind (.change (by intro; rfl))
  intro _
  apply Effect.Keeps.bind (keeps_of_ledger getDescriptorId_ledger)
  intro found
  cases found with
  | none => exact .pure _
  | some head =>
    apply Effect.Keeps.bind (keeps_of_ledger getDescriptor_ledger)
    intro found
    cases found with
    | none => exact .pure _
    | some d =>
      dsimp only
      by_cases hlength : d.length ≠ 16
      · rw [if_pos hlength]
        exact .pure _
      rw [if_neg hlength]
      apply Effect.Keeps.bind (.checked _)
      intro header
      cases header with
      | none => exact .pure _
      | some header =>
        apply Effect.Keeps.bind (.change (by intro; rfl))
        intro _
        apply Effect.Keeps.bind (.look _)
        intro m
        apply Effect.Keeps.bind (.change (by intro; rfl))
        intro _
        split_ifs with hnext
        · apply Effect.Keeps.bind (keeps_of_ledger walkWith_ledger)
          intro result
          cases result with
          | none => exact .pure _
          | some result => exact Effect.Keeps.bind completeWith_interrupt fun _ => .pure _
        · exact .pure _

/-- A computation that keeps the status keeps it a single bit. -/
theorem announces_triple {α : Type} {x : Effect BlkState α} (hx : Effect.Keeps interruptOf x) :
    Effect.Triple Announces x (fun _ => Announces) Announces := by
  refine hx.triple (fun s t h hs => ?_) fun _ hs => hs
  have hstatus : t.device.interruptStatus = s.device.interruptStatus := h
  rwa [Announces, hstatus]

theorem operation_announces :
    Effect.Triple Announces (operation p fuel) (fun _ => Announces) Announces := by
  induction fuel with
  | zero => exact .fail fun _ hs => hs
  | succ fuel ih =>
    rw [operation]
    apply Effect.Triple.bind (announces_triple getNextAvailId_interrupt)
    intro id
    cases id with
    | none =>
      apply Effect.Triple.bind (Q := fun _ => Announces)
      · refine .change fun s hs => ?_
        rcases hs with h0 | h1
        · exact .inr (by simp [h0])
        · exact .inr (by simp [h1])
      intro _
      exact Effect.Triple.bind (announces_triple (.look _)) fun _ =>
        Effect.Triple.bind (announces_triple (.checked _)) fun _ =>
          announces_triple (.change (by intro; rfl))
    | some id =>
      apply Effect.Triple.bind (announces_triple request_interrupt)
      intro again
      split_ifs
      · exact ih
      · exact .pure fun _ hs => hs

theorem setRings_interrupt {device device' : VirtioBlkMmio} (h : device.setRings = some device') :
    device'.interruptStatus = device.interruptStatus := by
  simp only [setRings, Option.bind_eq_bind, Option.bind_eq_some_iff] at h
  obtain ⟨_, _, _, _, _, _, _, _, _, _, _, _, _, _, _, _, h⟩ := h
  rw [← Option.some.inj h]

theorem rings_interrupt : Effect.Keeps interruptOf rings := by
  intro s
  rw [rings, self, Effect.look_bind]
  cases h : s.device.setRings with
  | none => rfl
  | some device => exact setRings_interrupt h

theorem write_announces :
    Effect.Triple Announces (write p fuel offset value) (fun _ => Announces) Announces := by
  rw [write]
  split_ifs
  · exact announces_triple (.change (by intro; rfl))
  · exact Effect.Triple.bind (announces_triple (.change (by intro; rfl))) fun _ =>
      announces_triple rings_interrupt
  · apply Effect.Triple.bind (announces_triple (.look _))
    intro device
    apply Effect.Triple.bind (announces_triple (.checked _))
    intro virtualAddress
    apply Effect.Triple.bind (announces_triple (.checked _))
    intro address
    cases address with
    | none => exact .pure fun _ hs => hs
    | some address =>
      exact Effect.Triple.bind (announces_triple (.change (by intro; rfl))) fun _ =>
        announces_triple rings_interrupt
  · exact operation_announces
  · exact .pure fun _ hs => hs
  · refine .change fun s hs => ?_
    rcases hs with h0 | h1
    · exact .inl (by simp [h0])
    · have hbit : (1 : BitVec 32) &&& ~~~(BitVec.ofNat 32 value) =
          if (~~~(BitVec.ofNat 32 value)).getLsbD 0 then 1 else 0 := by
        rw [BitVec.and_comm]
        exact Masks.and_one
      simp only [Announces, h1, hbit]
      split_ifs
      · exact .inr rfl
      · exact .inl rfl
  · exact .change fun _ _ => .inl rfl
  · exact announces_triple (.change (by intro; rfl))
  · exact .pure fun _ hs => hs

end VirtioBlkMmio

/-! ## The other devices -/

namespace Trap

variable {p : Platform} {fuel w offset : ℕ} {device : Device} {s t : Devices} {c : BitVec 8}

theorem and_flag {n i : ℕ} {x : BitVec n} (y : BitVec n) (h : x = 0 ∨ x = 1#n <<< i) :
    x &&& y = 0 ∨ x &&& y = 1#n <<< i := by
  rcases h with rfl | rfl
  · exact .inl (by simp)
  · have hbit (j : ℕ) : ((1#n <<< i) &&& y).getLsbD j =
        ((1#n <<< i).getLsbD j && y.getLsbD i) := by
      rw [BitVec.getLsbD_and, BitVec.getLsbD_shiftLeft, BitVec.getLsbD_one]
      by_cases hj : j = i
      · rw [hj]
      · have hne : ¬(¬j < i ∧ j - i = 0) := by omega
        by_cases hlt : j < i
        · simp [hlt]
        · simp [hlt, show j - i ≠ 0 by omega]
    cases hy : y.getLsbD i with
    | false => exact .inl (BitVec.eq_of_getLsbD_eq fun j _ => by rw [hbit, hy]; simp)
    | true => exact .inr (BitVec.eq_of_getLsbD_eq fun j _ => by rw [hbit, hy, Bool.and_true])

theorem or_flag {n i : ℕ} {x : BitVec n} (h : x = 0 ∨ x = 1#n <<< i) :
    x ||| (1#n <<< i) = 0 ∨ x ||| (1#n <<< i) = 1#n <<< i := by
  rcases h with rfl | rfl
  · exact .inr (by simp)
  · exact .inr (by simp)

/-- The flags of the UART are single bits. -/
def Flags (u : Pl011Mmio) : Prop :=
  (u.flag = 0 ∨ u.flag = uartFrRxfe) ∧
    (u.rawInterruptStatus = 0 ∨ u.rawInterruptStatus = uartRisRxris)

theorem uart_read_flags {u : Pl011Mmio} (offset : ℕ) (h : Flags u) :
    Flags (u.read offset).1 := by
  by_cases hdr : offset = uartDr
  · rw [Pl011Mmio.read, if_pos hdr]
    dsimp only
    split_ifs
    · exact ⟨or_flag h.1, and_flag _ h.2⟩
    · exact h
  · rwa [Pl011Mmio.read_of_ne hdr]

theorem uart_write_flags {u : Pl011Mmio} {v : BitVec 64} (h : Flags u) :
    Flags (u.write offset v) := by
  rw [Pl011Mmio.write]
  split_ifs
  · exact h
  · exact h
  · exact ⟨h.1, and_flag _ h.2⟩
  · exact h

theorem push_flags {u u' : Pl011Mmio} {d d' : GicDistributorMmio} {cpu cpu' : Pcpu} (h : Flags u)
    (hpush : u.push d cpu c = some (u', d', cpu')) : Flags u' := by
  simp only [Pl011Mmio.push] at hpush
  split_ifs at hpush
  · obtain ⟨⟨d₁, cpu₁⟩, -, hpush⟩ := Option.bind_eq_some_iff.1 hpush
    cases hpush
    exact ⟨and_flag _ h.1, or_flag h.2⟩
  · cases hpush
    exact ⟨and_flag _ h.1, h.2⟩

theorem Devices.Wf.flags (hs : s.Wf) : Flags s.uart := ⟨hs.flag, hs.raw⟩

theorem Devices.Wf.of_eq (hs : s.Wf) (huart : t.uart = s.uart)
    (hdevice : t.blk.device = s.blk.device) : t.Wf :=
  ⟨by rw [huart]; exact hs.flag, by rw [huart]; exact hs.raw,
    by rw [hdevice]; exact hs.interruptStatus⟩

/-- A computation that touches neither. -/
def registersOf (s : Devices) : Pl011Mmio × VirtioBlkMmio := (s.uart, s.blk.device)

theorem Devices.Wf.of_keeps {α : Type} {x : Effect Devices α} (hs : s.Wf)
    (hx : Effect.Keeps registersOf x) : (x s).2.Wf :=
  hs.of_eq (congrArg Prod.fst (hx s)) (congrArg Prod.snd (hx s))

theorem read_wf (hs : s.Wf) : ((device.entry p fuel).handler.read offset w s).2.Wf := by
  cases device with
  | uart =>
    have hflags := uart_read_flags offset hs.flags
    exact ⟨hflags.1, hflags.2, hs.interruptStatus⟩
  | blk =>
    exact hs.of_keeps (.bind (.look _) fun _ => .bind (.checked _) fun _ => .pure _)
  | distributor => exact hs.of_keeps (.bind (.look _) fun _ => .checked _)
  | redistributor => exact hs.of_keeps (.bind (.look _) fun _ => .checked _)

theorem write_wf {v : BitVec 64} (hs : s.Wf) :
    ((device.entry p fuel).handler.write offset w v s).2.Wf := by
  cases device with
  | uart =>
    have hflags : Flags (s.uart.write offset v) := uart_write_flags hs.flags
    simp only [Device.entry, pl011Handler, Effect.change]
    split_ifs
    · exact ⟨hs.flag, hs.raw, hs.interruptStatus⟩
    · exact ⟨hflags.1, hflags.2, hs.interruptStatus⟩
  | blk =>
    exact ⟨hs.flag, hs.raw, VirtioBlkMmio.write_announces.state hs.interruptStatus⟩
  | distributor =>
    exact hs.of_keeps (.bind (.look _) fun _ => .bind (.checked _) fun _ => .change fun _ => rfl)
  | redistributor =>
    exact hs.of_keeps (.bind (.look _) fun _ => .bind (.checked _) fun _ => .change fun _ => rfl)

theorem new_wf {file : FileInfo} {host : Host} {cpu : Pcpu} {vmId : ℕ}
    (h : Devices.new file host cpu vmId = some s) : s.Wf := by
  obtain ⟨d, hd, hs⟩ := Option.bind_eq_some_iff.1 h
  obtain ⟨_, -, hd⟩ := Option.bind_eq_some_iff.1 hd
  cases hs
  cases hd
  exact ⟨.inl rfl, .inl rfl, .inl rfl⟩

/-! ## Runs -/

/-- What a guest goes through. -/
inductive Event where
  /-- A trapped access, with what the CPU says about it. -/
  | access (device : Device) (a : Access) (abort : AbortRegisters)
  /-- Instructions without a trap. -/
  | compute (x : Vector (BitVec 64) 31) (pc : BitVec 64) (memory : Memory)
  /-- A character for the guest, from a CPU that took the interrupt of the console. -/
  | console (c : BitVec 8) (cpu : Pcpu)
  /-- What the interrupts of the hypervisor leave behind. -/
  | interrupt (d : GicDistributorMmio) (r : GicRedistributorMmio) (cpu : Pcpu)

def console (c : BitVec 8) (cpu : Pcpu) : Effect (Guest Devices) PUnit := do
  let pushed ← Effect.look fun g : Guest Devices =>
    g.devices.uart.push g.devices.blk.distributor cpu c
  let (u, d, _) ← Effect.checked pushed
  Effect.change fun g => { g with devices.uart := u, devices.blk.distributor := d }

/-- The events besides the accesses. -/
def Event.beside : Event → Effect (Guest Devices) PUnit
  | access _ _ _ => pure ⟨⟩
  | compute x pc memory => .change fun g =>
    { g with x := x, pc := pc, devices.blk.host.memory := memory }
  | console c cpu => Trap.console c cpu
  | interrupt d r cpu => .change fun g =>
    { g with devices.blk.distributor := d, devices.redistributor := r, devices.blk.cpu := cpu }

/-- Under the hypervisor. -/
def Event.trapped (p : Platform) (fuel : ℕ) : Event → Effect (Guest Devices) PUnit
  | access _ _ abort => trap (mmioHandlers p fuel) abort
  | e => e.beside

/-- On a machine that has the devices. -/
def Event.executed (p : Platform) (fuel : ℕ) : Event → Effect (Guest Devices) PUnit
  | access device a _ => a.execute (device.entry p fuel).handler
    (a.address - (device.entry p fuel).baseAddress)
  | e => e.beside

/-- No access is on the lists, and the next instruction has an address. -/
def Admits (p : Platform) (fuel : ℕ) (g : Guest Devices) : Event → Prop
  | .access device a abort => Reports abort a ∧ (device.entry p fuel).Covers a.address ∧
    ¬Deviates device (a.address - (device.entry p fuel).baseAddress) a ∧ g.pc.toNat + 4 < 2 ^ 64
  | _ => True

/-- A step that ends. -/
def Step (x : Event → Effect (Guest Devices) PUnit) (g : Guest Devices) (e : Event)
    (g' : Guest Devices) : Prop := x e g = (.ok ⟨⟩, g')

variable {g g' : Guest Devices} {e : Event}

theorem trapped_eq_executed (hg : g.devices.Wf) (he : Admits p fuel g e) :
    e.trapped p fuel g = e.executed p fuel g := by
  cases e with
  | access device a abort =>
    obtain ⟨hreports, hcovers, hdev, hpc⟩ := he
    exact emulates_of_not_deviates hcovers hdev abort g hreports hg hpc
  | compute x pc memory => rfl
  | console c cpu => rfl
  | interrupt d r cpu => rfl

theorem executeWith_wf {load store : BitVec 64 → BitVec 64} {a : Access} (hg : g.devices.Wf) :
    (a.executeWith load store (device.entry p fuel).handler offset g).2.devices.Wf := by
  cases hw : a.isWrite with
  | true =>
    rw [executeWith_of_write hw]
    have hwrite : ((device.entry p fuel).handler.write offset a.width
        (store (readRegister g.x a.register)) g.devices).2.Wf := write_wf hg
    revert hwrite
    rcases (device.entry p fuel).handler.write offset a.width
      (store (readRegister g.x a.register)) g.devices with ⟨r, d⟩
    cases r <;> exact id
  | false =>
    rw [executeWith_of_read hw]
    have hread : ((device.entry p fuel).handler.read offset a.width g.devices).2.Wf := read_wf hg
    revert hread
    rcases (device.entry p fuel).handler.read offset a.width g.devices with ⟨r, d⟩
    cases r <;> exact id

theorem console_wf {cpu : Pcpu} (hg : g.devices.Wf) : (console c cpu g).2.devices.Wf := by
  rw [console, Effect.look_bind]
  cases h : g.devices.uart.push g.devices.blk.distributor cpu c with
  | none => exact hg
  | some pushed =>
    obtain ⟨u, d, cpu'⟩ := pushed
    have hflags := push_flags hg.flags h
    exact ⟨hflags.1, hflags.2, hg.interruptStatus⟩

theorem executed_wf (hg : g.devices.Wf) : (e.executed p fuel g).2.devices.Wf := by
  cases e with
  | access device a abort => exact executeWith_wf hg
  | compute x pc memory => exact hg.of_eq rfl rfl
  | console c cpu => exact console_wf hg
  | interrupt d r cpu => exact hg.of_eq rfl rfl

theorem step_trapped_iff (hg : g.devices.Wf) (he : Admits p fuel g e) :
    Step (Event.trapped p fuel) g e g' ↔ Step (Event.executed p fuel) g e g' := by
  rw [Step, Step, trapped_eq_executed hg he]

theorem executed_run_wf (h : Runs.GuardedRun (Step (Event.executed p fuel)) (Admits p fuel) g g')
    (hg : g.devices.Wf) : g'.devices.Wf := by
  refine h.invariant (I := fun g => g.devices.Wf) (fun g e g' hg _ hstep => ?_) hg
  have hwf : (e.executed p fuel g).2.devices.Wf := executed_wf hg
  rwa [show e.executed p fuel g = (.ok ⟨⟩, g') from hstep] at hwf

/-- The runs under the hypervisor are those of the machine. -/
theorem run_trapped_iff (hg : g.devices.Wf) :
    Runs.GuardedRun (Step (Event.trapped p fuel)) (Admits p fuel) g g' ↔
      Runs.GuardedRun (Step (Event.executed p fuel)) (Admits p fuel) g g' := by
  constructor
  · intro h
    induction h with
    | refl => exact .refl _
    | tail _ hlast ih =>
      obtain ⟨e, he, hstep⟩ := hlast
      exact ih.snoc he ((step_trapped_iff (executed_run_wf ih hg) he).1 hstep)
  · intro h
    induction h with
    | refl => exact .refl _
    | tail hrun hlast ih =>
      obtain ⟨e, he, hstep⟩ := hlast
      exact ih.snoc he ((step_trapped_iff (executed_run_wf hrun hg) he).2 hstep)

/-- From its creation on, as long as no access is on the lists, a guest with the traps comes to
the states of a guest on its own machine, and goes on from there in the same way. -/
theorem run_executed {file : FileInfo} {host : Host} {cpu : Pcpu} {vmId : ℕ}
    (hnew : Devices.new file host cpu vmId = some s) (x : Vector (BitVec 64) 31) (pc : BitVec 64) :
    ∀ t, (Runs.GuardedRun (Step (Event.trapped p fuel)) (Admits p fuel) ⟨x, pc, s⟩ t ↔
        Runs.GuardedRun (Step (Event.executed p fuel)) (Admits p fuel) ⟨x, pc, s⟩ t) ∧
      (Runs.GuardedRun (Step (Event.trapped p fuel)) (Admits p fuel) ⟨x, pc, s⟩ t →
        ∀ e, Admits p fuel t e → e.trapped p fuel t = e.executed p fuel t) := by
  have hwf := new_wf hnew
  refine fun t => ⟨run_trapped_iff hwf, fun hrun e he => ?_⟩
  exact trapped_eq_executed (executed_run_wf ((run_trapped_iff hwf).1 hrun) hwf) he

theorem sampleFile_lt : 2 ^ 12 < 2 ^ 32 := by decide

def sampleFile : FileInfo := ⟨3, 2 ^ 12, sampleFile_lt⟩

def sampleDevices : Devices where
  uart := Pl011Mmio.new
  blk := { VirtioBlkMmio.sampleNew with
    device.file := sampleFile
    distributor := GicDistributorMmio.new 0
    accesses := []
    current := ⟨0, 0, []⟩
    completions := [] }
  redistributor := GicRedistributorMmio.new 0 VirtioBlkMmio.sampleNew.cpu.mpidrEl1
  printed := []

theorem sampleDevices_new : Devices.new sampleFile VirtioBlkMmio.sampleNew.host
    VirtioBlkMmio.sampleNew.cpu 0 = some sampleDevices := by
  rw [Devices.new, VirtioBlkMmio.new, Checked.require, if_pos (by decide)]
  rfl

/-- A load of `GICD_TYPER` to register 5. -/
def sampleAccess : Access := ⟨0x8000004, 2, 5, false⟩

def sampleAbort : AbortRegisters := ⟨0x93850000, 0xFFFF000008000004, 0x80000⟩

theorem sampleAbort_reports : Reports sampleAbort sampleAccess :=
  ⟨by decide, by decide, by decide, by decide, by decide, by decide, by decide, by decide,
    by decide⟩

/-- The guest of a new VM finds out about the interrupts of its distributor. -/
theorem sample_run_executed :
    (Event.access .distributor sampleAccess sampleAbort).trapped VirtioBlkMmio.samplePlatform 4
        ⟨Vector.replicate 31 0, 0, sampleDevices⟩ =
      (Event.access .distributor sampleAccess sampleAbort).executed VirtioBlkMmio.samplePlatform 4
        ⟨Vector.replicate 31 0, 0, sampleDevices⟩ := by
  refine (run_executed sampleDevices_new (Vector.replicate 31 0) 0 _).2 (.refl _) _ ?_
  exact ⟨sampleAbort_reports, by decide, fun h => h.2, by decide⟩

end Trap

end MiniVisor
