import MiniVisor.Library.Refinement
import MiniVisor.VirtioQueue

/-!
# Requests over the queue

The device finds each request as it was made, and the driver finds its answer: over any run of
requests, the driver with its queue does what the drive of `VirtioBlk` does.
-/
namespace MiniVisor

namespace VirtioDriver

open Effects

/-! ## The answer -/

/-- The bytes that the device moves for a request. -/
def Call.count (env : Environment) (c : Call) (taken : ℕ) : ℕ := moved env taken (c.length % 2 ^ 32)

/-- Memory and disk after `n` bytes have been moved. -/
def Call.transfer (c : Call) (n : ℕ) (m disk : Memory) : Memory × Memory :=
  if c.isWrite then (m, copyBytes disk c.blockAddress m c.bufferAddress n)
  else (copyBytes m c.bufferAddress disk c.blockAddress n, disk)

def outcome (env : Environment) (taken : ℕ) : ℕ :=
  if (env.failure taken).isNone then virtioBlkSOk else virtioBlkSIoerr

/-- What the device writes for a request behind its data. -/
def Call.answerWrites (env : Environment) (q : Queue) (c : Call) (taken : ℕ) : List (ℕ × ℕ × ℕ) :=
  [(c.frame.status, 1, outcome env taken),
    (q.used + 4 + 8 * (taken % numberOfDescriptors), 4, 0),
    (q.used + 4 + 8 * (taken % numberOfDescriptors) + 4, 4,
      if c.isWrite then 1 else c.count env taken + 1), (q.used + 2, 2, taken + 1)]

/-- Memory and disk after the answer. -/
def Call.answered (env : Environment) (q : Queue) (c : Call) (taken : ℕ) (m disk : Memory) :
    Memory × Memory :=
  (writeAll (c.transfer (c.count env taken) m disk).1 (c.answerWrites env q taken),
    (c.transfer (c.count env taken) m disk).2)

variable {env : Environment} {q : Queue} {k : Stack} {c : Call} {m disk : Memory} {taken : ℕ}

theorem Call.count_le : c.count env taken ≤ c.length := by
  have hmod := Nat.mod_le c.length (2 ^ 32)
  rw [Call.count, moved]
  cases env.failure taken with
  | none => exact hmod
  | some n => exact (Nat.min_le_right _ _).trans hmod

theorem answer_eq (haligned : c.blockAddress % 512 = 0) {freeBitmap : FreeBitmap} :
    answer env q 0 c.offer ⟨m, disk, freeBitmap, taken⟩ =
      ⟨(c.answered env q taken m disk).1, (c.answered env q taken m disk).2, freeBitmap,
        taken + 1⟩ := by
  obtain ⟨frame, bufferAddress, blockAddress, n, isWrite⟩ := c
  have hblock : blockAddress / 512 * 512 = blockAddress := by dsimp only at haligned; omega
  rw [answer]
  dsimp only [Call.offer]
  rw [hblock]
  cases isWrite with
  | true => rfl
  | false => rfl

theorem answer_beside (hl : Layout q k) (hc : c.Fits q k) :
    (c.answerWrites env q taken).Pairwise Beside := by
  obtain ⟨havail, hused, hstack, -⟩ := hl
  obtain ⟨hfirst, hlast⟩ := hc.status
  simp only [sizeOfDesc, sizeOfAvail, sizeOfUsed, numberOfDescriptors] at havail hused hstack
  simp only [Call.answerWrites, List.pairwise_cons, List.forall_mem_cons, Beside,
    numberOfDescriptors]
  repeat' apply And.intro
  all_goals first | omega | simp

theorem wait_eq {frame : Frame} {s : Machine}
    (h : readLe s.memory frame.status 1 = outcome env taken) :
    wait frame s = (.ok (env.failure taken).isNone, s) := by
  rw [wait, Effect.look_bind, h, outcome]
  cases (env.failure taken).isNone with
  | true => rfl
  | false => rfl

/-- The driver finds the answer to its request. -/
theorem finish_eq (hl : Layout q k) (hc : c.Fits q k) (haligned : c.blockAddress % 512 = 0)
    (hlt : taken + 1 < 2 ^ 16) :
    finish env q c.frame ⟨c.published q taken m, disk, freeFrom 3, taken⟩ =
      (if (env.failure taken).isNone then .ok ⟨⟩ else .error .err,
        ⟨(c.answered env q taken (c.published q taken m) disk).1,
          (c.answered env q taken (c.published q taken m) disk).2, freeFrom 0, taken + 1⟩) := by
  have hnotify : notify env q ⟨c.published q taken m, disk, freeFrom 3, taken⟩ =
      (.ok ⟨⟩, ⟨(c.answered env q taken (c.published q taken m) disk).1,
        (c.answered env q taken (c.published q taken m) disk).2, freeFrom 3, taken + 1⟩) := by
    rw [notify]
    dsimp only
    rw [published_offer hl hc hlt]
    dsimp only
    rw [answer_eq haligned]
  have hstatus : readLe (c.answered env q taken (c.published q taken m) disk).1 c.frame.status 1 =
      outcome env taken := by
    rw [Call.answered, readLe_writeAll_of_mem (answer_beside hl hc) List.mem_cons_self, outcome]
    split_ifs <;> rfl
  rw [finish, Effect.bind_ok hnotify, Effect.bind_ok (wait_eq hstatus), free_all]

/-- A request that the queue can count. -/
theorem sync_counted (hl : Layout q k) (hc : c.Fits q k)
    (haligned : ¬(c.blockAddress % 512 ≠ 0 ∨ c.length % 512 ≠ 0))
    (hidx : readLe m (q.avail + 2) 2 = taken) (hlt : taken + 1 < 2 ^ 16) :
    c.sync env q ⟨m, disk, freeFrom 0, taken⟩ =
      (if (env.failure taken).isNone then .ok ⟨⟩ else .error .err,
        ⟨(c.answered env q taken (c.published q taken m) disk).1,
          (c.answered env q taken (c.published q taken m) disk).2, freeFrom 0, taken + 1⟩) := by
  have hblock : c.blockAddress % 512 = 0 := not_not.1 (not_or.1 haligned).1
  rw [sync_eq haligned, Effect.bind_ok ((publish_eq hl hc hidx).trans (if_pos hlt))]
  exact finish_eq hl hc hblock hlt

/-- The index of the queue has 16 bits. -/
theorem sync_overflows (env : Environment) (disk : Memory) (hl : Layout q k) (hc : c.Fits q k)
    (haligned : ¬(c.blockAddress % 512 ≠ 0 ∨ c.length % 512 ≠ 0))
    (hidx : readLe m (q.avail + 2) 2 = taken) (hge : ¬taken + 1 < 2 ^ 16) :
    (c.sync env q ⟨m, disk, freeFrom 0, taken⟩).1 = .error .panic := by
  rw [sync_eq haligned, Effect.bind_error ((publish_eq hl hc hidx).trans (if_neg hge))]

/-! ## The drive -/

def Call.request (env : Environment) (c : Call) : Effect Host PUnit :=
  VirtioBlk.operationSync env c.bufferAddress c.blockAddress c.length c.isWrite

section Drive

variable {a : Host}

theorem serve_transfers (env : Environment) (haligned : c.blockAddress % 512 = 0) :
    ∃ t, VirtioBlk.serve env c.bufferAddress (c.blockAddress / 512) (c.length % 2 ^ 32) c.isWrite
        a = (.ok (env.failure a.drive.requests).isNone, t) ∧
      (t.memory, t.drive.disk) =
        c.transfer (c.count env a.drive.requests) a.memory a.drive.disk ∧
      t.drive.freeBitmap = a.drive.freeBitmap ∧ t.drive.availIdx = a.drive.availIdx ∧
      t.drive.requests = a.drive.requests + 1 := by
  obtain ⟨frame, bufferAddress, blockAddress, n, isWrite⟩ := c
  have hblock : blockAddress / 512 * 512 = blockAddress := by dsimp only at haligned; omega
  rw [VirtioBlk.serve]
  refine ⟨_, rfl, ?_⟩
  dsimp only
  rw [hblock, Call.transfer, Call.count, moved]
  cases isWrite with
  | true => cases env.failure a.drive.requests <;> exact ⟨rfl, rfl, rfl, rfl⟩
  | false => cases env.failure a.drive.requests <;> exact ⟨rfl, rfl, rfl, rfl⟩

theorem request_unaligned (h : c.blockAddress % 512 ≠ 0 ∨ c.length % 512 ≠ 0) :
    c.request env a = (.error .err, { a with drive.moved := 0 }) := by
  rw [Call.request, VirtioBlk.operationSync, Effect.change_bind, if_pos h]
  rfl

/-- The drive gives its descriptors back. -/
def release (done : Bool) : Effect Host PUnit := do
  VirtioBlk.freeDescriptor 0
  VirtioBlk.freeDescriptor 1
  VirtioBlk.freeDescriptor 2
  if done then pure ⟨⟩ else Effect.fail .err

theorem release_eq (done : Bool) :
    ∃ t, release done a = (if done then .ok ⟨⟩ else .error .err, t) ∧
      t.memory = a.memory ∧ t.drive.disk = a.drive.disk ∧
      t.drive.freeBitmap = Function.update (Function.update (Function.update a.drive.freeBitmap
        0 true) 1 true) 2 true ∧
      t.drive.availIdx = a.drive.availIdx ∧ t.drive.requests = a.drive.requests := by
  cases done with
  | true => exact ⟨_, rfl, rfl, rfl, rfl, rfl, rfl⟩
  | false => exact ⟨_, rfl, rfl, rfl, rfl, rfl, rfl⟩

/-- The drive up to the count of its queue. -/
theorem request_eq (env : Environment)
    (haligned : ¬(c.blockAddress % 512 ≠ 0 ∨ c.length % 512 ≠ 0))
    (hfree : a.drive.freeBitmap = fun _ => true) :
    ∃ b, c.request env a = (do
        let next ← Effect.checked (Checked.add 16 a.drive.availIdx 1)
        Effect.change fun s : Host => { s with drive.availIdx := next }
        VirtioBlk.serve env c.bufferAddress (c.blockAddress / 512) (c.length % 2 ^ 32) c.isWrite >>=
          release : Effect Host PUnit) b ∧
      b.memory = a.memory ∧ b.drive.disk = a.drive.disk ∧
      b.drive.freeBitmap = (fun i => decide (3 ≤ i)) ∧ b.drive.availIdx = a.drive.availIdx ∧
      b.drive.requests = a.drive.requests := by
  obtain ⟨memory, ⟨disk, freeBitmap, availIdx, requests, allocations, pages, moved⟩, delivered⟩ := a
  obtain rfl : freeBitmap = fun _ => true := hfree
  refine ⟨⟨memory, ⟨disk, Function.update (Function.update (Function.update (fun _ => true) 0 false)
    1 false) 2 false, availIdx, requests, allocations, pages, 0⟩, delivered⟩, ?_, rfl, rfl, ?_, rfl,
    rfl⟩
  · rw [Call.request, VirtioBlk.operationSync, Effect.change_bind, if_neg haligned,
      Effect.bind_ok (Fat32.allocateDescriptor_serving rfl),
      Effect.bind_ok (Fat32.allocateDescriptor_serving rfl),
      Effect.bind_ok (Fat32.allocateDescriptor_serving rfl), Effect.look_bind]
    rfl
  · funext i
    simp only [Function.update_apply]
    split_ifs <;> simp <;> omega

theorem request_overflows (haligned : ¬(c.blockAddress % 512 ≠ 0 ∨ c.length % 512 ≠ 0))
    (hfree : a.drive.freeBitmap = fun _ => true) (hge : ¬a.drive.availIdx + 1 < 2 ^ 16) :
    (c.request env a).1 = .error .panic := by
  obtain ⟨b, hb, -⟩ := request_eq env haligned hfree
  rw [hb, Checked.add, if_neg hge]
  rfl

theorem request_counted (env : Environment)
    (haligned : ¬(c.blockAddress % 512 ≠ 0 ∨ c.length % 512 ≠ 0))
    (hfree : a.drive.freeBitmap = fun _ => true) (hlt : a.drive.availIdx + 1 < 2 ^ 16) :
    ∃ t, c.request env a =
        (if (env.failure a.drive.requests).isNone then .ok ⟨⟩ else .error .err, t) ∧
      (t.memory, t.drive.disk) =
        c.transfer (c.count env a.drive.requests) a.memory a.drive.disk ∧
      (t.drive.freeBitmap = fun _ => true) ∧ t.drive.availIdx = a.drive.availIdx + 1 ∧
      t.drive.requests = a.drive.requests + 1 := by
  obtain ⟨b, hb, hmemory, hdisk, hbitmap, -, hrequests⟩ := request_eq env haligned hfree
  obtain ⟨u, hu, hcontents, hfreed, hcount, hserved⟩ :=
    serve_transfers env (c := c) (a := { b with drive.availIdx := a.drive.availIdx + 1 })
      (not_not.1 (not_or.1 haligned).1)
  dsimp only at hcontents hfreed hcount hserved hu
  rw [hrequests] at hcontents hserved
  rw [hmemory, hdisk] at hcontents
  obtain ⟨t, ht, hm, hd, hgiven, hidx, hrest⟩ := release_eq (a := u)
    (env.failure b.drive.requests).isNone
  refine ⟨t, ?_, ?_, ?_, hidx.trans hcount, hrest.trans hserved⟩
  · rw [hb, Checked.add_eq_some.2 ⟨hlt, rfl⟩, Effect.checked_bind, ← hrequests]
    exact (Effect.bind_ok hu).trans ht
  · rw [hm, hd, hcontents]
  · rw [hgiven, hfreed, hbitmap]
    funext i
    simp only [Function.update_apply]
    split_ifs <;> simp
    omega

end Drive

/-! ## The two agree -/

/-- The queue is empty, and the memory of the driver is that of the drive, but for what is the
driver's own. -/
structure Represents (q : Queue) (k : Stack) (s : Machine) (a : Host) : Prop where
  memory : ∀ x, ¬Own q k x → s.memory x = a.memory x
  disk : s.disk = a.drive.disk
  free : s.freeBitmap = freeFrom 0
  allFree : a.drive.freeBitmap = fun _ => true
  idx : readLe s.memory (q.avail + 2) 2 = s.taken
  counted : a.drive.availIdx = s.taken
  requests : a.drive.requests = s.taken

section Agreement

variable {m' : Memory} {s : Machine} {a : Host} {n : ℕ}

theorem transfer_agree (disk : Memory) (hagree : ∀ x, ¬Own q k x → m x = m' x)
    (hbuffer : ∀ i < n, ¬Own q k (c.bufferAddress + i)) :
    (∀ x, ¬Own q k x → (c.transfer n m disk).1 x = (c.transfer n m' disk).1 x) ∧
      (c.transfer n m disk).2 = (c.transfer n m' disk).2 := by
  unfold Call.transfer
  cases c.isWrite with
  | true =>
    refine ⟨hagree, funext fun x => ?_⟩
    by_cases hx : c.blockAddress ≤ x ∧ x < c.blockAddress + n
    · obtain ⟨i, rfl⟩ := Nat.exists_eq_add_of_le hx.1
      have hi : i < n := by omega
      exact (copyBytes_of_mem hi).trans ((hagree _ (hbuffer i hi)).trans (copyBytes_of_mem hi).symm)
    · exact (copyBytes_of_not_mem hx).trans (copyBytes_of_not_mem hx).symm
  | false =>
    refine ⟨fun x hown => ?_, rfl⟩
    by_cases hx : c.bufferAddress ≤ x ∧ x < c.bufferAddress + n
    · obtain ⟨i, rfl⟩ := Nat.exists_eq_add_of_le hx.1
      have hi : i < n := by omega
      exact (copyBytes_of_mem hi).trans (copyBytes_of_mem hi).symm
    · exact (copyBytes_of_not_mem hx).trans ((hagree x hown).trans (copyBytes_of_not_mem hx).symm)

/-- A transfer leaves the driver's own memory as it is. -/
theorem transfer_own (hbuffer : ∀ i < n, ¬Own q k (c.bufferAddress + i)) {x : ℕ}
    (hx : Own q k x) : (c.transfer n m disk).1 x = m x := by
  unfold Call.transfer
  cases c.isWrite with
  | true => rfl
  | false =>
    refine copyBytes_of_not_mem fun hmem => ?_
    obtain ⟨i, rfl⟩ := Nat.exists_eq_add_of_le hmem.1
    exact hbuffer i (by omega) hx

theorem published_of_not_own (taken : ℕ) (hl : Layout q k) (hc : c.Fits q k) {x : ℕ}
    (hx : ¬Own q k x) :
    c.published q taken m x = m x := by
  obtain ⟨havail, hused, -, -⟩ := hl
  obtain ⟨⟨hlow, hhigh⟩, ⟨hfirst, hlast⟩, -, -, -, -⟩ := hc
  simp only [sizeOfDesc, sizeOfAvail, numberOfDescriptors] at havail hused
  refine writeAll_of_not_mem ?_
  simp only [Own, sizeOfUsed, numberOfDescriptors] at hx
  simp only [Call.chainWrites, ringWrites, List.cons_append, List.nil_append,
    List.forall_mem_cons, sizeOfDesc, numberOfDescriptors]
  repeat' apply And.intro
  all_goals first | omega | simp

theorem answerWrites_of_not_own (hl : Layout q k) (hc : c.Fits q k) {x : ℕ} (hx : ¬Own q k x) :
    writeAll m (c.answerWrites env q taken) x = m x := by
  obtain ⟨havail, hused, -, -⟩ := hl
  obtain ⟨hfirst, hlast⟩ := hc.status
  simp only [sizeOfDesc, sizeOfAvail, numberOfDescriptors] at havail hused
  refine writeAll_of_not_mem ?_
  simp only [Own, sizeOfUsed, numberOfDescriptors] at hx
  simp only [Call.answerWrites, List.forall_mem_cons, numberOfDescriptors]
  repeat' apply And.intro
  all_goals first | omega | simp

theorem count_apart (env : Environment) (taken : ℕ) (hc : c.Fits q k) :
    ∀ i < c.count env taken, ¬Own q k (c.bufferAddress + i) :=
  fun i hi => hc.buffer i (hi.trans_le Call.count_le)

/-- Outside of the driver's own memory the answer is the transfer. -/
theorem answered_agree (env : Environment) (taken : ℕ) (disk : Memory) (hl : Layout q k)
    (hc : c.Fits q k) (hagree : ∀ x, ¬Own q k x → m x = m' x) :
    (∀ x, ¬Own q k x → (c.answered env q taken (c.published q taken m) disk).1 x =
        (c.transfer (c.count env taken) m' disk).1 x) ∧
      (c.answered env q taken (c.published q taken m) disk).2 =
        (c.transfer (c.count env taken) m' disk).2 := by
  obtain ⟨hmemory, hdisk⟩ := transfer_agree disk
    (fun x hx => (published_of_not_own taken hl hc hx).trans (hagree x hx))
    (count_apart env taken hc)
  exact ⟨fun x hx => (answerWrites_of_not_own hl hc hx).trans (hmemory x hx), hdisk⟩

/-- The index stays where the driver left it. -/
theorem answered_idx (hl : Layout q k) (hc : c.Fits q k) (hlt : taken + 1 < 2 ^ 16) :
    readLe (c.answered env q taken (c.published q taken m) disk).1 (q.avail + 2) 2 = taken + 1 := by
  have havail := hl.avail
  have hused := hl.used
  have hstack := hl.stack
  have hstatus := hc.status
  simp only [sizeOfDesc, sizeOfAvail, sizeOfUsed, numberOfDescriptors] at havail hused hstack
  have hown : ∀ x, q.avail + 2 ≤ x → x < q.avail + 2 + 2 → Own q k x :=
    fun x hge hlt => .inl ⟨by omega, by simp only [sizeOfUsed]; omega⟩
  rw [Call.answered, readLe_writeAll_of_beside, VirtioBlkMmio.readLe_congr
    (fun x hge hlt => transfer_own (count_apart _ _ hc) (hown x hge hlt)),
    published_read hl hc (v := taken + 1) (by simp [ringWrites]) (by omega)]
  simp only [Call.answerWrites, List.forall_mem_cons, numberOfDescriptors]
  refine ⟨?_, ?_, ?_, ?_, by simp⟩ <;> omega

/-- One request of the driver is one request of the drive. -/
theorem sync_refines (hl : Layout q k) (hc : c.Fits q k) :
    Effect.Refines (Represents q k) (c.sync env q) (c.request env) := by
  intro s a h
  obtain ⟨m, disk, freeBitmap, taken⟩ := s
  obtain ⟨hmemory, hdisk, hfree, hall, hidx, hcounted, hrequests⟩ := h
  obtain rfl : freeBitmap = freeFrom 0 := hfree
  obtain rfl : disk = a.drive.disk := hdisk
  dsimp only at hmemory hidx hcounted hrequests
  by_cases haligned : c.blockAddress % 512 ≠ 0 ∨ c.length % 512 ≠ 0
  · have hsync : c.sync env q ⟨m, a.drive.disk, freeFrom 0, taken⟩ =
        (.error .err, ⟨m, a.drive.disk, freeFrom 0, taken⟩) := by
      rw [Call.sync, operationSync, if_pos haligned]
      rfl
    rw [hsync, request_unaligned haligned]
    exact ⟨rfl, fun _ => ⟨hmemory, rfl, rfl, hall, hidx, hcounted, hrequests⟩⟩
  by_cases hlt : taken + 1 < 2 ^ 16
  · obtain ⟨t, ht, hcontents, hfreed, hcount, hserved⟩ :=
      request_counted env haligned hall (hcounted ▸ hlt)
    rw [hrequests] at ht hcontents hserved
    obtain ⟨htm, htd⟩ := Prod.mk.inj hcontents
    obtain ⟨hagree, hsame⟩ := answered_agree env taken a.drive.disk hl hc hmemory
    rw [sync_counted hl hc haligned hidx hlt, ht]
    exact ⟨rfl, fun _ => ⟨fun x hx => (hagree x hx).trans (congrFun htm.symm x),
      hsame.trans htd.symm, rfl, hfreed, answered_idx hl hc hlt, hcount.trans (by rw [hcounted]),
      hserved⟩⟩
  · have hpanic := sync_overflows env a.drive.disk hl hc haligned hidx hlt
    rw [hpanic, request_overflows haligned hall (hcounted ▸ hlt)]
    exact ⟨rfl, fun h => absurd rfl h⟩

end Agreement

/-! ## Runs -/

/-- What happens around the driver: the requests, and any other writes to memory. -/
inductive Event where
  | call (c : Call)
  | store (address : ℕ) (byte : UInt8)

def Event.Fits (q : Queue) (k : Stack) : Event → Prop
  | .call c => c.Fits q k
  | .store address _ => ¬Own q k address

/-- The results of the requests, which the callers handle, up to a panic. -/
def results {S : Type} (call : Call → Effect S PUnit) (store : ℕ → UInt8 → S → S) :
    List Event → Effect S (List Bool)
  | [] => pure []
  | .call c :: es => do
    let result ← Effect.attempt (call c)
    let rest ← results call store es
    return result.isSome :: rest
  | .store address byte :: es => do
    Effect.change (store address byte)
    results call store es

def Machine.poke (address : ℕ) (byte : UInt8) (s : Machine) : Machine :=
  { s with memory := Function.update s.memory address byte }

def hostPoke (address : ℕ) (byte : UInt8) (a : Host) : Host :=
  { a with memory := Function.update a.memory address byte }

/-- The driver over a run. -/
def driverRun (env : Environment) (q : Queue) (es : List Event) : Effect Machine (List Bool) :=
  results (fun c => c.sync env q) Machine.poke es

/-- The drive over a run. -/
def driveRun (env : Environment) (es : List Event) : Effect Host (List Bool) :=
  results (fun c => c.request env) hostPoke es

theorem Represents.poke {s : Machine} {a : Host} (hl : Layout q k) (h : Represents q k s a)
    {address : ℕ} {byte : UInt8} (haddress : ¬Own q k address) :
    Represents q k (s.poke address byte) (hostPoke address byte a) where
  memory x hx := by
    change Function.update s.memory address byte x = Function.update a.memory address byte x
    simp only [Function.update_apply]
    split_ifs with heq
    · rfl
    · exact h.memory x hx
  disk := h.disk
  free := h.free
  allFree := h.allFree
  idx := by
    refine (VirtioBlkMmio.readLe_congr fun x hge hlt => Function.update_of_ne ?_ _ _).trans h.idx
    rintro rfl
    have havail := hl.avail
    have hused := hl.used
    simp only [sizeOfDesc, sizeOfAvail, numberOfDescriptors] at havail hused
    exact haddress (.inl ⟨by omega, by simp only [sizeOfUsed, numberOfDescriptors]; omega⟩)
  counted := h.counted
  requests := h.requests

/-- Over a run the driver does what the drive does. -/
theorem driverRun_refines (env : Environment) (hl : Layout q k) {es : List Event}
    (hes : ∀ e ∈ es, e.Fits q k) :
    Effect.Refines (Represents q k) (driverRun env q es) (driveRun env es) := by
  induction es with
  | nil => exact .pure []
  | cons e es ih =>
    have hrest := ih fun e he => hes e (List.mem_cons_of_mem _ he)
    have hfits := hes e List.mem_cons_self
    cases e with
    | store address byte =>
      exact .bind (.change fun s a h => h.poke hl hfits) fun _ => hrest
    | call c =>
      exact .bind (.attempt (sync_refines hl hfits)) fun _ => .bind hrest fun _ => .pure _

/-! ## From the start -/

section Start

theorem freeFrom_zero : freeFrom 0 = Vector.replicate 8 0xFF#8 := by decide

variable {device : Registers} {offset data bit : ℕ} {K : Memory → Prop}

theorem readRegister_keeps : Effect.Triple (fun u => K u.memory) (readRegister device offset)
    (fun _ u => K u.memory) fun _ => True :=
  .look fun _ h => h

theorem writeRegister_keeps : Effect.Triple (fun u => K u.memory) (writeRegister offset data)
    (fun _ u => K u.memory) fun _ => True :=
  .change fun _ h => h

theorem raiseStatus_keeps : Effect.Triple (fun u => K u.memory) (raiseStatus device bit)
    (fun _ u => K u.memory) fun _ => True :=
  .bind readRegister_keeps fun _ => writeRegister_keeps

theorem zero_sets {address n : ℕ} : Effect.Triple (fun u => u.memory = m) (zero address n)
    (fun _ u => u.memory = copyBytes m address (fun _ => 0) 0 n) fun _ => True :=
  .change fun _ h => congrArg (copyBytes · address (fun _ => 0) 0 n) h

/-- The queue that `new` sets up is empty, and the descriptors are free. -/
theorem new_sets (device : Registers) (allocated : Option ℕ) (m : Memory) :
    Effect.Triple (fun u => u.memory = m) (new device allocated)
      (fun r u => ∃ queue, allocated = some queue ∧ r = (Queue.ofPages queue, freeFrom 0) ∧
        u.memory = copyBytes m queue (fun _ => 0) 0 (numberOfPagesQueue <<< virtioPageShift))
      fun _ => True := by
  refine .bind (readRegister_keeps (K := (· = m))) fun magic => ?_
  split_ifs
  · exact .fail fun _ _ => trivial
  refine .bind (readRegister_keeps (K := (· = m))) fun version => ?_
  split_ifs
  · exact .fail fun _ _ => trivial
  refine .bind (readRegister_keeps (K := (· = m))) fun deviceId => ?_
  refine .bind (readRegister_keeps (K := (· = m))) fun vendorId => ?_
  split_ifs
  · exact .fail fun _ _ => trivial
  refine .bind (writeRegister_keeps (K := (· = m))) fun _ => ?_
  refine .bind (raiseStatus_keeps (K := (· = m))) fun _ => ?_
  refine .bind (raiseStatus_keeps (K := (· = m))) fun _ => ?_
  refine .bind (readRegister_keeps (K := (· = m))) fun features => ?_
  split_ifs
  · exact .fail fun _ _ => trivial
  refine .bind (writeRegister_keeps (K := (· = m))) fun _ => ?_
  refine .bind (raiseStatus_keeps (K := (· = m))) fun _ => ?_
  refine .bind (writeRegister_keeps (K := (· = m))) fun _ => ?_
  refine .bind (writeRegister_keeps (K := (· = m))) fun _ => ?_
  refine .bind (readRegister_keeps (K := (· = m))) fun queueMax => ?_
  split_ifs
  · exact .fail fun _ _ => trivial
  refine .bind (writeRegister_keeps (K := (· = m))) fun _ => ?_
  refine .checked_bind (fun queue hqueue => ?_) fun _ _ => trivial
  refine .bind zero_sets fun _ => ?_
  refine .bind (writeRegister_keeps (K := (· = _))) fun _ => ?_
  refine .bind (raiseStatus_keeps (K := (· = _))) fun _ => ?_
  exact .pure fun u hu => ⟨queue, hqueue, by rw [freeFrom_zero], hu⟩

/-- The pages of the queue hold its parts. -/
theorem ofPages_within (queue : ℕ) : (Queue.ofPages queue).used + sizeOfUsed ≤
    queue + numberOfPagesQueue <<< virtioPageShift := by
  have hsize : numberOfPagesQueue <<< virtioPageShift = 8192 := by decide
  have hpage : virtioPageSize = 4096 := by decide
  rw [hsize]
  simp only [Queue.ofPages, hpage, sizeOfDesc, sizeOfAvail, sizeOfUsed, numberOfDescriptors]
  omega

theorem ofPages_layout {queue : ℕ}
    (hstack : k.last ≤ queue ∨ queue + numberOfPagesQueue <<< virtioPageShift ≤ k.first)
    (hlast : k.last ≤ 2 ^ 64) : Layout (Queue.ofPages queue) k where
  avail := rfl
  used := by
    have hpage : virtioPageSize = 4096 := by decide
    simp only [Queue.ofPages, hpage, sizeOfDesc, sizeOfAvail, numberOfDescriptors]
    omega
  stack := hstack.imp_right (ofPages_within queue).trans
  last_le := hlast

/-- The drive before its first request. -/
def Fresh (a : Host) : Prop :=
  (a.drive.freeBitmap = fun _ => true) ∧ a.drive.availIdx = 0 ∧ a.drive.requests = 0

theorem new_represents {queue : ℕ} {a : Host} (ha : Fresh a)
    (hmemory : a.memory = copyBytes m queue (fun _ => 0) 0 (numberOfPagesQueue <<< virtioPageShift))
    (hl : Layout (Queue.ofPages queue) k) :
    Represents (Queue.ofPages queue) k ⟨a.memory, a.drive.disk, freeFrom 0, 0⟩ a where
  memory _ _ := rfl
  disk := rfl
  free := rfl
  allFree := ha.1
  idx := by
    have hwithin := ofPages_within queue
    have hused := hl.used
    have havail : (Queue.ofPages queue).avail = queue + 1024 := rfl
    simp only [sizeOfAvail, numberOfDescriptors] at hused
    rw [hmemory]
    refine (VirtioBlkMmio.readLe_congr (m := fun _ => 0) fun x hge hlt => ?_).trans rfl
    exact if_pos ⟨by omega, by omega⟩
  counted := ha.2.1
  requests := ha.2.2

/-- From `new` on, the driver with its queue does what the drive does. -/
theorem run_after_new {allocated : Option ℕ} {s t : Setup} {freeBitmap : FreeBitmap} {a : Host}
    {es : List Event} (hnew : new device allocated s = (.ok (q, freeBitmap), t))
    (hstack : k.last ≤ q.descriptors ∨
      q.descriptors + numberOfPagesQueue <<< virtioPageShift ≤ k.first) (hlast : k.last ≤ 2 ^ 64)
    (hmemory : a.memory = t.memory) (ha : Fresh a) (hes : ∀ e ∈ es, e.Fits q k) :
    (driverRun env q es ⟨t.memory, a.drive.disk, freeBitmap, 0⟩).1 = (driveRun env es a).1 ∧
      ((driveRun env es a).1 ≠ .error .panic →
        Represents q k (driverRun env q es ⟨t.memory, a.drive.disk, freeBitmap, 0⟩).2
          (driveRun env es a).2) := by
  have hsets := new_sets device allocated s.memory s rfl
  rw [hnew] at hsets
  obtain ⟨queue, -, hr, hzero⟩ := hsets
  obtain ⟨rfl, rfl⟩ := Prod.mk.inj hr
  have hl := ofPages_layout hstack hlast
  have hstart := new_represents (k := k) ha (hmemory.trans hzero) hl
  rw [← hmemory]
  obtain ⟨hsame, hnext⟩ := driverRun_refines env hl hes _ _ hstart
  exact ⟨hsame, fun h => hnext (hsame ▸ h)⟩

end Start

/-- A device that the driver accepts. -/
def sampleRegisters : Registers := fun _ offset =>
  if offset = VirtioBlkMmio.virtioMmioMagic then 0x74726976
  else if offset = VirtioBlkMmio.virtioMmioVersion then 1
  else if offset = VirtioBlkMmio.virtioMmioDeviceId then 2
  else if offset = VirtioBlkMmio.virtioMmioVendorId then 0x554d4551
  else if offset = VirtioBlkMmio.virtioMmioQueueNumMax then 1024
  else 0

def sampleSetup : Setup := ⟨fun _ => 0xFF, []⟩

def sampleStack : Stack := ⟨0x40010000, 0x40020000⟩

/-- The second of three requests fails in its middle. -/
def sampleEnvironment : Environment := ⟨fun i => if i = 1 then some 100 else none, fun _ _ => none⟩

def sampleEvents : List Event :=
  [.call ⟨⟨0x4001F000, 0x4001F010⟩, 0x50000000, 0, 512, false⟩, .store 0x50000000 0x41,
    .call ⟨⟨0x4001F000, 0x4001F010⟩, 0x50000000, 512, 512, true⟩,
    .call ⟨⟨0x4001E000, 0x4001DFFF⟩, 0x50000200, 512, 1024, false⟩]

def sampleHost : Host where
  memory := (new sampleRegisters (some 0x40001000) sampleSetup).2.memory
  drive := ⟨fun x => UInt8.ofNat x, fun _ => true, 0, 0, 0, [], 0⟩
  delivered := 0

theorem sampleEvents_fit :
    ∀ e ∈ sampleEvents, e.Fits (Queue.ofPages 0x40001000) sampleStack := by
  have hused : (Queue.ofPages 0x40001000).used = 0x40002000 := by decide
  have hdesc : (Queue.ofPages 0x40001000).descriptors = 0x40001000 := rfl
  have hown : ∀ x, Own (Queue.ofPages 0x40001000) sampleStack x ↔
      0x40001000 ≤ x ∧ x < 0x40002208 ∨ 0x40010000 ≤ x ∧ x < 0x40020000 := by
    intro x
    rw [Own, hused, hdesc]
    rfl
  simp only [sampleEvents, List.forall_mem_cons]
  refine ⟨?_, ?_, ?_, ?_, by simp⟩
  · exact ⟨by decide, by decide, by decide, fun i hi => by rw [hown]; dsimp only at hi ⊢; omega,
      by decide, by decide⟩
  · rw [Event.Fits, hown]
    omega
  · exact ⟨by decide, by decide, by decide, fun i hi => by rw [hown]; dsimp only at hi ⊢; omega,
      by decide, by decide⟩
  · exact ⟨by decide, by decide, by decide, fun i hi => by rw [hown]; dsimp only at hi ⊢; omega,
      by decide, by decide⟩

theorem sample_run_after_new :
    (driverRun sampleEnvironment (Queue.ofPages 0x40001000) sampleEvents
        ⟨sampleHost.memory, sampleHost.drive.disk, freeFrom 0, 0⟩).1 =
      (driveRun sampleEnvironment sampleEvents sampleHost).1 := by
  have hnew : new sampleRegisters (some 0x40001000) sampleSetup =
      (.ok (Queue.ofPages 0x40001000, freeFrom 0),
        (new sampleRegisters (some 0x40001000) sampleSetup).2) := Prod.ext rfl rfl
  exact (run_after_new hnew (k := sampleStack) (.inr (by decide)) (by decide) rfl ⟨rfl, rfl, rfl⟩
    sampleEvents_fit).1

end VirtioDriver

end MiniVisor
