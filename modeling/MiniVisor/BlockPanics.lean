import MiniVisor.BlockNotify

/-!
# Register accesses that panic

The page size, the size of the queue and its address come from different registers,
and each handler computes with what is there. The invariant of all register
histories is that the rings lie behind the descriptor table and below the end of
the address space; what is left is a condition on each access. For a notification
it follows the loops of `operation` and asks for the sums and counters on the way.
-/
namespace MiniVisor

open Effects

namespace VirtioBlkMmio

/-- What a guest does: it reads a register, or it writes one or changes memory. -/
inductive GuestAccess where
  | read (offset : ℕ)
  | event (e : GuestEvent)

def runAccess (p : Platform) : GuestAccess → Effect BlkState PUnit
  | .read offset => do
    let _ ← Effect.checked ((← self).read offset)
    return ⟨⟩
  | .event e => runEvent p e

/-- The queue is at an address that `get_physical_address` gave. -/
def Accepted (p : Platform) (device : VirtioBlkMmio) : Prop :=
  ∃ v, p.ram.getPhysicalAddress v = some (some device.descriptor)

/-- The access follows the pointers to the rings. -/
def GuestAccess.Dereferences : GuestAccess → Prop
  | .event (.write _ offset value) => offset = virtioMmioQueueNotify ∧ value = 0
  | _ => False

/-- The access does not panic, and it follows the pointers to the rings only if there
is a queue. -/
def Survives (p : Platform) (s : BlkState) (a : GuestAccess) : Prop :=
  Effect.Calm (runAccess p a) s ∧ (a.Dereferences → Accepted p s.device)

/-! ## The condition -/

/-- The first byte behind the available ring, with its trailing event field. -/
def behindAvail (device : VirtioBlkMmio) : ℕ :=
  device.descriptor + 16 * device.queueSize + 2 * (3 + device.queueSize)

/-- The rings are below the end of the address space. -/
def RingsFit (device : VirtioBlkMmio) : Prop :=
  behindAvail device < 2 ^ 64 ∧ 0 < device.pageSize ∧
    behindAvail device - 1 - ((behindAvail device - 1) &&& (device.pageSize - 1)) +
      device.pageSize < 2 ^ 64

/-- The queue may be moved to the page `value`. -/
def PageFits (p : Platform) (device : VirtioBlkMmio) (value : ℕ) : Prop :=
  value * device.pageSize < 2 ^ 64 ∧
    p.ram.getPhysicalAddress (value * device.pageSize) ≠ none ∧
    ∀ address, p.ram.getPhysicalAddress (value * device.pageSize) = some (some address) →
      RingsFit { device with descriptor := address }

/-- `write_used` has a slot for its element, and `used_id` can grow. -/
def UsedFits (device : VirtioBlkMmio) : Prop :=
  device.queueSize % 2 ^ 16 ≠ 0 ∧ device.usedId + 1 < 2 ^ 16 ∧
    device.usedRing + 4 + 8 * (device.usedId % (device.queueSize % 2 ^ 16)) < 2 ^ 64

/-- The request may end at the status descriptor `last`. -/
def CompletionFits (p : Platform) (device : VirtioBlkMmio) (last : VirtQueueDesc)
    (totalSize : ℕ) : Prop :=
  p.ram.getPhysicalAddress last.address ≠ none ∧
    (p.Translates last → totalSize + last.length < 2 ^ 32) ∧ UsedFits device

/-- The call to the file system for a segment. -/
def fileCall (p : Platform) (fuel : ℕ) (isWrite : Bool) (file : FileInfo)
    (address offset size : ℕ) : Effect Host (Option ℕ) :=
  Effect.attempt (
    if isWrite then p.fat32.write p.env fuel file address offset size
    else p.fat32.read p.env fuel file address offset size)

/-- The walk behind the descriptor `d` computes with numbers that fit, and its calls to the
file system do not panic. -/
def WalkFits (p : Platform) (device : VirtioBlkMmio) (isWrite : Bool) :
    ℕ → VirtQueueDesc → ℕ → ℕ → Host → Prop
  | 0, _, _, _, _ => True
  | fuel + 1, d, offset, totalSize, h =>
    let e := readDesc h.memory (device.descriptor + 16 * d.next)
    device.descriptor + 16 * d.next < 2 ^ 64 ∧
    (¬e.HasNext → CompletionFits p device e totalSize) ∧
    (e.HasNext → totalSize + e.length < 2 ^ 32 ∧
      p.ram.getPhysicalAddress e.address ≠ none ∧
      (p.ram.getPhysicalAddress e.address = some none →
        WalkFits p device isWrite fuel e offset (totalSize + e.length) h) ∧
      ∀ address, p.ram.getPhysicalAddress e.address = some (some address) →
        Effect.Calm (fileCall p fuel isWrite device.file address offset e.length) h ∧
        ∀ result h', fileCall p fuel isWrite device.file address offset e.length h =
          (.ok result, h') →
          WalkFits p device isWrite fuel e (offset + e.length) (totalSize + e.length) h')

/-- The request in the slot `id` does not panic. -/
def RequestFits (p : Platform) (fuel id : ℕ) (s : BlkState) : Prop :=
  s.device.availRing ≠ 0 → s.device.descriptor ≠ 0 →
    s.device.descriptor + 16 * headId s id < 2 ^ 64 ∧
    ((headOf s id).length = 16 →
      p.ram.getPhysicalAddress (headOf s id).address ≠ none ∧
      ∀ header, p.ram.getPhysicalAddress (headOf s id).address = some (some header) →
        (headOf s id).HasNext →
        WalkFits p s.device (readLe s.host.memory header 4 == virtioBlkTypeOut) fuel
          (headOf s id) (readLe s.host.memory (header + 8) 8 * 2 ^ 9 % 2 ^ 64) 0 s.host)

/-- `avail.idx`. -/
def availIdx (s : BlkState) : ℕ := readLe s.host.memory (s.device.availRing + 2) 2

/-- Every entry that the loop takes can be counted and fits, and behind the last one the
interrupt can be triggered. -/
def NotifyFits (p : Platform) : ℕ → BlkState → Prop
  | 0, _ => True
  | fuel + 1, s =>
    (s.device.lastAvailId = availIdx s →
      s.distributor.triggerInterrupt s.cpu virtioBlkIntId none ≠ none) ∧
    (s.device.lastAvailId ≠ availIdx s →
      s.device.queueSize % 2 ^ 16 ≠ 0 ∧ s.device.lastAvailId + 1 < 2 ^ 16 ∧
      ∀ id t, getNextAvailId s = (.ok (some id), t) → RequestFits p fuel id t ∧
        ∀ u, request p fuel id t = (.ok true, u) → NotifyFits p fuel u)

/-- The condition on an access. -/
def Ready (p : Platform) (s : BlkState) : GuestAccess → Prop
  | .read offset => offset = virtioMmioQueuePfn → s.device.pageSize ≠ 0
  | .event (.store _) => True
  | .event (.write fuel offset value) =>
    (offset = virtioMmioQueueNum → RingsFit { s.device with queueSize := value }) ∧
    (offset = virtioMmioQueuePfn → PageFits p s.device value) ∧
    (offset = virtioMmioQueueNotify → value = 0 → Accepted p s.device ∧ NotifyFits p fuel s)

variable {p : Platform} {fuel id : ℕ} {s t : BlkState} {isWrite : Bool}
  {offset totalSize status length : ℕ} {d last : VirtQueueDesc}

/-! ## Requests -/

theorem writeUsed_calm_iff : Effect.Calm (writeUsed id length) s ↔ UsedFits s.device := by
  rw [writeUsed, self]
  change Effect.Calm (Effect.checked _ >>= _) s ↔ _
  rw [Effect.Calm.checked_bind_iff]
  constructor
  · rintro ⟨slot, hslot, h⟩
    obtain ⟨hsize, rfl⟩ := Checked.rem_eq_some.1 hslot
    obtain ⟨usedId, hused, h⟩ := Effect.Calm.checked_bind_iff.1 h
    obtain ⟨hcount, rfl⟩ := Checked.add_eq_some.1 hused
    obtain ⟨slots, hslots, h⟩ := Effect.Calm.checked_bind_iff.1 h
    obtain ⟨-, rfl⟩ := Checked.add_eq_some.1 hslots
    obtain ⟨address, haddress, -⟩ := Effect.Calm.checked_bind_iff.1 h
    obtain ⟨haddress, -⟩ := Checked.add_eq_some.1 haddress
    exact ⟨hsize, hcount, haddress⟩
  · rintro ⟨hsize, hused, haddress⟩
    refine ⟨_, Checked.rem_eq_some.2 ⟨hsize, rfl⟩, ?_⟩
    refine Effect.Calm.checked_bind_iff.2 ⟨_, Checked.add_eq_some.2 ⟨hused, rfl⟩, ?_⟩
    refine Effect.Calm.checked_bind_iff.2 ⟨_, Checked.add_eq_some.2 ⟨by omega, rfl⟩, ?_⟩
    refine Effect.Calm.checked_bind_iff.2 ⟨_, Checked.add_eq_some.2 ⟨haddress, rfl⟩, ?_⟩
    exact .of_ok rfl

/-- The end of a request. -/
def finish (p : Platform) (id : ℕ) : Option (VirtQueueDesc × ℕ × ℕ) → Effect BlkState Bool
  | none => return false
  | some (last, totalSize, status) => do
    completeWith p (Checked.add 32) id last totalSize status
    return true

theorem finish_calm_iff : Effect.Calm (finish p id (some (last, totalSize, status))) s ↔
    CompletionFits p s.device last totalSize := by
  rw [finish, Effect.Calm.bind_pure_iff, completeWith, Effect.Calm.checked_bind_iff]
  constructor
  · rintro ⟨found, hfound, h⟩
    refine ⟨by rw [hfound]; simp, ?_, ?_⟩
    · rintro ⟨address, haddress⟩
      obtain rfl : found = some address := Option.some.inj (hfound.symm.trans haddress)
      obtain ⟨total, htotal, -⟩ := Effect.Calm.checked_bind_iff.1 h
      exact (Checked.add_eq_some.1 htotal).1
    · cases found with
      | none => exact writeUsed_calm_iff.1 (Effect.Calm.bind_iff.1 h).1
      | some address =>
        obtain ⟨total, -, h⟩ := Effect.Calm.checked_bind_iff.1 h
        have hused := writeUsed_calm_iff.1 (Effect.Calm.bind_iff.1 h).1
        exact hused
  · rintro ⟨hram, htotal, hused⟩
    obtain ⟨found, hfound⟩ := Option.ne_none_iff_exists'.1 hram
    refine ⟨found, hfound, ?_⟩
    cases found with
    | none => exact Effect.Calm.bind_iff.2 ⟨writeUsed_calm_iff.2 hused, fun _ _ _ => .of_ok rfl⟩
    | some address =>
      refine Effect.Calm.checked_bind_iff.2
        ⟨_, Checked.add_eq_some.2 ⟨htotal ⟨address, hfound⟩, rfl⟩, ?_⟩
      exact Effect.Calm.bind_iff.2 ⟨writeUsed_calm_iff.2 hused, fun _ _ _ => .of_ok rfl⟩

theorem transfer_eq {address size : ℕ} : transfer p fuel isWrite address offset size s =
    ((fileCall p fuel isWrite s.device.file address offset size s.host).1,
      { s with host := (fileCall p fuel isWrite s.device.file address offset size s.host).2 }) :=
  rfl

/-- A call to the file system that returns was asked for a range below the end of the
address space. -/
theorem fileCall_fits {file : FileInfo} {address size : ℕ} {h h' : Host} {result : Option ℕ}
    (hcall : fileCall p fuel isWrite file address offset size h = (.ok result, h')) :
    offset + size < 2 ^ 64 := by
  by_contra hlarge
  have hlocate : p.fat32.locate file offset size = .error .panic := by
    have hnone : Checked.add 64 offset size = none := by
      rw [Checked.add, if_neg hlarge]
    rw [Fat32.locate, hnone]
    rfl
  have hpanic : fileCall p fuel isWrite file address offset size h = (.error .panic, h) := by
    rw [fileCall, Effect.attempt]
    cases isWrite with
    | true =>
      have hwrite : p.fat32.write p.env fuel file address offset size h = (.error .panic, h) := by
        rw [Fat32.write, hlocate]
        rfl
      rw [if_pos rfl, hwrite]
    | false =>
      have hread : p.fat32.read p.env fuel file address offset size h = (.error .panic, h) := by
        rw [Fat32.read, hlocate]
        rfl
      rw [if_neg (by decide), hread]
  exact absurd (hpanic.symm.trans hcall) (by simp)

theorem getDescriptor_fits (htable : s.device.descriptor ≠ 0)
    (h : Effect.Calm (getDescriptor id) s) : s.device.descriptor + 16 * id < 2 ^ 64 := by
  rw [getDescriptor, self] at h
  change Effect.Calm (if s.device.descriptor ≠ 0 then _ else _) s at h
  rw [if_pos htable] at h
  obtain ⟨address, haddress, -⟩ := Effect.Calm.checked_bind_iff.1 h
  exact (Checked.add_eq_some.1 haddress).1

/-- The walk and the end of the request. -/
theorem walk_calm_iff (htable : s.device.descriptor ≠ 0) :
    Effect.Calm (walkWith p (Checked.add 32) isWrite fuel d offset totalSize status >>=
      finish p id) s ↔ WalkFits p s.device isWrite fuel d offset totalSize s.host := by
  induction fuel generalizing d offset totalSize status s with
  | zero =>
    exact iff_of_true (by simp [walkWith, Effect.Calm, Effect.bind_apply, Effect.fail]) trivial
  | succ fuel ih =>
    rw [walkWith, Effect.bind_assoc, WalkFits]
    by_cases hword : s.device.descriptor + 16 * d.next < 2 ^ 64
    · rw [Effect.Calm.bind_of_ok (getDescriptor_ok htable hword)]
      dsimp only
      generalize readDesc s.host.memory (s.device.descriptor + 16 * d.next) = e
      by_cases hnext : e.HasNext
      · simp only [hnext, not_true_eq_false, if_false, false_imp_iff, true_and, hword, true_imp_iff]
        rw [Effect.bind_assoc, Effect.Calm.checked_bind_iff]
        constructor
        · rintro ⟨total, htotal, h⟩
          obtain ⟨hfits, rfl⟩ := Checked.add_eq_some.1 htotal
          rw [Effect.bind_assoc] at h
          obtain ⟨found, hfound, h⟩ := Effect.Calm.checked_bind_iff.1 h
          refine ⟨hfits, by rw [hfound]; simp, ?_, ?_⟩
          · intro hnone
            obtain rfl : found = none := Option.some.inj (hfound.symm.trans hnone)
            dsimp only at h
            rw [Effect.bind_assoc, record, Effect.Calm.change_bind_iff] at h
            have hrest := (ih (by exact htable)).1 h
            exact hrest
          · intro address haddress
            obtain rfl : found = some address := Option.some.inj (hfound.symm.trans haddress)
            simp only [Effect.bind_assoc] at h
            rw [access, Effect.Calm.change_bind_iff, Effect.Calm.look_bind_iff] at h
            obtain ⟨hcalm, h⟩ := Effect.Calm.bind_iff.1 h
            refine ⟨hcalm, fun result h' hcall => ?_⟩
            have hresult := congrArg Prod.fst hcall
            have hreturn := h result _ (transfer_eq.trans (Prod.ext (by exact hresult) rfl))
            rw [Effect.Calm.look_bind_iff, record, Effect.Calm.change_bind_iff] at hreturn
            obtain ⟨next, hoffset, hreturn⟩ := Effect.Calm.checked_bind_iff.1 hreturn
            obtain ⟨-, rfl⟩ := Checked.add_eq_some.1 hoffset
            have hrest := (ih (by exact htable)).1 hreturn
            dsimp only at hrest
            rwa [hcall] at hrest
        · rintro ⟨hfits, hram, hnone, hsome⟩
          refine ⟨_, Checked.add_eq_some.2 ⟨hfits, rfl⟩, ?_⟩
          rw [Effect.bind_assoc]
          obtain ⟨found, hfound⟩ := Option.ne_none_iff_exists'.1 hram
          refine Effect.Calm.checked_bind_iff.2 ⟨found, hfound, ?_⟩
          cases found with
          | none =>
            dsimp only
            rw [Effect.bind_assoc, record, Effect.Calm.change_bind_iff]
            exact (ih (by exact htable)).2 (hnone hfound)
          | some address =>
            obtain ⟨hcalm, hrest⟩ := hsome address hfound
            simp only [Effect.bind_assoc]
            rw [access, Effect.Calm.change_bind_iff, Effect.Calm.look_bind_iff]
            refine Effect.Calm.bind_iff.2 ⟨hcalm, fun result t ht => ?_⟩
            rw [transfer_eq] at ht
            obtain ⟨hresult, rfl⟩ := Prod.mk.inj ht
            have hcall : fileCall p fuel isWrite s.device.file address offset e.length s.host =
                (.ok result, (fileCall p fuel isWrite s.device.file address offset e.length
                  s.host).2) := Prod.ext hresult rfl
            rw [Effect.Calm.look_bind_iff, record, Effect.Calm.change_bind_iff]
            refine Effect.Calm.checked_bind_iff.2
              ⟨_, Checked.add_eq_some.2 ⟨fileCall_fits hcall, rfl⟩, ?_⟩
            exact (ih (by exact htable)).2 (hrest result _ hcall)
      · simp only [hnext, not_false_eq_true, if_true, false_imp_iff, and_true, hword, true_and,
          true_imp_iff]
        exact finish_calm_iff
    · refine iff_of_false (fun h => ?_) fun h => hword h.1
      exact hword (getDescriptor_fits htable (Effect.Calm.bind_iff.1 h).1)

theorem request_calm_iff (hslot : s.device.availRing + 4 + 2 * id < 2 ^ 64) :
    Effect.Calm (request p fuel id) s ↔ RequestFits p fuel id s := by
  rw [request, requestWith, Effect.Calm.change_bind_iff]
  by_cases havail : s.device.availRing = 0
  · refine iff_of_true ?_ fun h => absurd havail h
    rw [Effect.Calm.bind_of_ok (getDescriptorId_null (by exact havail))]
    exact .pure _
  rw [Effect.Calm.bind_of_ok (getDescriptorId_ok (by exact havail) (by exact hslot))]
  dsimp only
  by_cases htable : s.device.descriptor = 0
  · refine iff_of_true ?_ fun _ h => absurd htable h
    rw [Effect.Calm.bind_of_ok (getDescriptor_null (by exact htable))]
    exact .pure _
  by_cases hword : s.device.descriptor + 16 * headId s id < 2 ^ 64
  · rw [Effect.Calm.bind_of_ok (getDescriptor_ok (by exact htable) (by exact hword))]
    dsimp only
    rw [show readDesc s.host.memory (s.device.descriptor + 16 *
      readLe s.host.memory (s.device.availRing + 4 + 2 * id) 2) = headOf s id from rfl]
    have hfits : RequestFits p fuel id s ↔ ((headOf s id).length = 16 →
        p.ram.getPhysicalAddress (headOf s id).address ≠ none ∧
        ∀ header, p.ram.getPhysicalAddress (headOf s id).address = some (some header) →
          (headOf s id).HasNext →
          WalkFits p s.device (readLe s.host.memory header 4 == virtioBlkTypeOut) fuel
            (headOf s id) (readLe s.host.memory (header + 8) 8 * 2 ^ 9 % 2 ^ 64) 0 s.host) := by
      simp only [RequestFits, havail, htable, hword, ne_eq, not_false_eq_true, true_imp_iff,
        true_and]
    rw [hfits]
    by_cases hlength : (headOf s id).length = 16
    · rw [if_neg (not_not.2 hlength), Effect.Calm.checked_bind_iff]
      simp only [hlength, true_imp_iff]
      constructor
      · rintro ⟨found, hfound, h⟩
        refine ⟨by rw [hfound]; simp, fun header hheader hnext => ?_⟩
        obtain rfl : found = some header := Option.some.inj (hfound.symm.trans hheader)
        dsimp only at h
        rw [access, Effect.Calm.change_bind_iff, memory, Effect.Calm.look_bind_iff,
          Effect.Calm.change_bind_iff, if_neg (not_not.2 hnext)] at h
        have hwalk := (walk_calm_iff (by exact htable)).1 h
        exact hwalk
      · rintro ⟨hram, hwalk⟩
        obtain ⟨found, hfound⟩ := Option.ne_none_iff_exists'.1 hram
        refine ⟨found, hfound, ?_⟩
        cases found with
        | none => exact .pure _
        | some header =>
          dsimp only
          rw [access, Effect.Calm.change_bind_iff, memory, Effect.Calm.look_bind_iff,
            Effect.Calm.change_bind_iff]
          by_cases hnext : (headOf s id).HasNext
          · rw [if_neg (not_not.2 hnext)]
            exact (walk_calm_iff (by exact htable)).2 (hwalk header hfound hnext)
          · rw [if_pos hnext]
            exact .pure _
    · rw [if_pos hlength]
      exact iff_of_true (.pure _) fun h => absurd h hlength
  · refine iff_of_false (fun h => ?_) fun h => hword (h havail htable).1
    have hread := (Effect.Calm.bind_iff.1 h).1
    have hfits := getDescriptor_fits (by exact htable) hread
    exact hword hfits

/-! ## Notifications -/

theorem getNextAvailId_end (h : s.device.lastAvailId = availIdx s) :
    getNextAvailId s = (.ok none,
      { s with accesses := s.accesses ++ [Access.availIdx (s.device.availRing + 2)] }) := by
  rw [getNextAvailId, self, Effect.look_bind, access, Effect.change_bind, memory,
    Effect.look_bind, if_pos (by exact h)]
  rfl

theorem getNextAvailId_take (h : s.device.lastAvailId ≠ availIdx s) : getNextAvailId s =
    (Effect.checked (Checked.rem s.device.lastAvailId (s.device.queueSize % 2 ^ 16)) >>=
      fun next => Effect.checked (Checked.add 16 s.device.lastAvailId 1) >>= fun lastAvailId =>
        Effect.change (fun s : BlkState => { s with device.lastAvailId := lastAvailId }) >>=
          fun _ => pure (some next))
      { s with accesses := s.accesses ++ [Access.availIdx (s.device.availRing + 2)] } := by
  rw [getNextAvailId, self, Effect.look_bind, access, Effect.change_bind, memory,
    Effect.look_bind, if_neg (by exact h)]

theorem getNextAvailId_calm_iff (h : s.device.lastAvailId ≠ availIdx s) :
    Effect.Calm getNextAvailId s ↔
      s.device.queueSize % 2 ^ 16 ≠ 0 ∧ s.device.lastAvailId + 1 < 2 ^ 16 := by
  rw [Effect.Calm, getNextAvailId_take h]
  change Effect.Calm (_ >>= _) _ ↔ _
  rw [Effect.Calm.checked_bind_iff]
  constructor
  · rintro ⟨next, hnext, h⟩
    obtain ⟨lastAvailId, hlast, -⟩ := Effect.Calm.checked_bind_iff.1 h
    exact ⟨(Checked.rem_eq_some.1 hnext).1, (Checked.add_eq_some.1 hlast).1⟩
  · rintro ⟨hsize, hcount⟩
    refine ⟨_, Checked.rem_eq_some.2 ⟨hsize, rfl⟩, ?_⟩
    exact Effect.Calm.checked_bind_iff.2
      ⟨_, Checked.add_eq_some.2 ⟨hcount, rfl⟩, .of_ok rfl⟩

/-- The slot that is taken is in the ring. -/
theorem getNextAvailId_lt (h : getNextAvailId s = (.ok (some id), t)) :
    id < s.device.queueSize := by
  by_cases hend : s.device.lastAvailId = availIdx s
  · rw [getNextAvailId_end hend] at h
    cases h
  · rw [getNextAvailId_take hend] at h
    obtain ⟨next, hnext, h⟩ := Effect.checked_bind_eq_ok.1 h
    obtain ⟨hsize, rfl⟩ := Checked.rem_eq_some.1 hnext
    obtain ⟨lastAvailId, -, h⟩ := Effect.checked_bind_eq_ok.1 h
    cases h
    calc s.device.lastAvailId % (s.device.queueSize % 2 ^ 16)
        < s.device.queueSize % 2 ^ 16 := Nat.mod_lt _ (Nat.pos_of_ne_zero hsize)
      _ ≤ s.device.queueSize := Nat.mod_le _ _

/-- The available ring lies behind the table and below the end of the address space. -/
def Laid (device : VirtioBlkMmio) : Prop :=
  device.availRing = device.descriptor + 16 * device.queueSize ∧
    device.availRing + 2 * (3 + device.queueSize) < 2 ^ 64

theorem slot_lt (hlaid : Laid s.device) (h : getNextAvailId s = (.ok (some id), t)) :
    t.device.availRing + 4 + 2 * id < 2 ^ 64 := by
  have hid := getNextAvailId_lt h
  obtain ⟨-, hlt⟩ := hlaid
  rw [(getNextAvailId_some h).1]
  dsimp only
  omega

theorem laid_of_take (hlaid : Laid s.device) (h : getNextAvailId s = (.ok (some id), t)) :
    Laid t.device := by
  rw [(getNextAvailId_some h).1]
  exact hlaid

theorem laid_of_served {served : Bool} (hlaid : Laid s.device)
    (h : request p fuel id s = (.ok served, t)) : Laid t.device := by
  obtain ⟨-, -, hledger⟩ | ⟨-, -, hpublished⟩ := request_ok h
  · rw [(ledger_eq.1 hledger).1]
    exact hlaid
  · rw [hpublished.device]
    exact hlaid

theorem raise_calm_iff : Effect.Calm raise s ↔
    s.distributor.triggerInterrupt s.cpu virtioBlkIntId none ≠ none := by
  rw [raise, Effect.Calm.change_bind_iff, Effect.Calm.look_bind_iff,
    Effect.Calm.checked_bind_iff]
  constructor
  · rintro ⟨result, hresult, -⟩
    exact fun hnone => absurd (hresult.symm.trans hnone) (by simp)
  · intro h
    obtain ⟨result, hresult⟩ := Option.ne_none_iff_exists'.1 h
    exact ⟨result, hresult, .of_ok rfl⟩

theorem operation_calm_iff (hlaid : Laid s.device) :
    Effect.Calm (operation p fuel) s ↔ NotifyFits p fuel s := by
  induction fuel generalizing s with
  | zero => exact iff_of_true (.fail (by decide)) trivial
  | succ fuel ih =>
    rw [operation, NotifyFits]
    by_cases hend : s.device.lastAvailId = availIdx s
    · rw [Effect.Calm.bind_of_ok (getNextAvailId_end hend)]
      simp only [hend, true_imp_iff, ne_eq, not_true_eq_false, false_imp_iff, and_true]
      exact raise_calm_iff
    · rw [Effect.Calm.bind_iff, getNextAvailId_calm_iff hend]
      simp only [hend, false_imp_iff, ne_eq, not_false_eq_true, true_imp_iff, true_and, and_assoc]
      refine and_congr_right fun _ => and_congr_right fun _ => ?_
      constructor
      · intro h id t htake
        have hlaid' : Laid t.device := laid_of_take hlaid htake
        obtain ⟨hrequest, hloop⟩ := Effect.Calm.bind_iff.1 (h (some id) t htake)
        have hslot := slot_lt hlaid htake
        refine ⟨(request_calm_iff hslot).1 hrequest, fun u hu => ?_⟩
        have hrest := hloop true u hu
        exact (ih (laid_of_served hlaid' hu)).1 hrest
      · intro h found t htake
        cases found with
        | none =>
          rw [getNextAvailId_take hend] at htake
          obtain ⟨next, -, htake⟩ := Effect.checked_bind_eq_ok.1 htake
          obtain ⟨lastAvailId, -, htake⟩ := Effect.checked_bind_eq_ok.1 htake
          cases htake
        | some id =>
          have hlaid' : Laid t.device := laid_of_take hlaid htake
          obtain ⟨hrequest, hloop⟩ := h id t htake
          have hslot := slot_lt hlaid htake
          refine Effect.Calm.bind_iff.2 ⟨(request_calm_iff hslot).2 hrequest, fun served u hu => ?_⟩
          cases served with
          | true => exact (ih (laid_of_served hlaid' hu)).2 (hloop u hu)
          | false => exact .pure _

theorem operation_laid (hlaid : Laid s.device) (h : operation p fuel s = (.ok ⟨⟩, t)) :
    Laid t.device := by
  induction fuel generalizing s with
  | zero => cases h
  | succ fuel ih =>
    rw [operation] at h
    obtain ⟨found, s₁, hnext, h⟩ := Effect.bind_eq_ok.1 h
    cases found with
    | none =>
      rw [(raise_ok h).1, (ledger_eq.1 (getNextAvailId_none hnext)).1]
      exact hlaid
    | some id =>
      obtain ⟨served, s₂, hrequest, h⟩ := Effect.bind_eq_ok.1 h
      have hlaid₂ := laid_of_served (laid_of_take hlaid hnext) hrequest
      cases served with
      | true => exact ih hlaid₂ h
      | false =>
        cases h
        exact hlaid₂

/-! ## Registers -/

theorem setRings_eq_some {device device' : VirtioBlkMmio} : device.setRings = some device' ↔
    RingsFit device ∧ device' =
      { device with
        availRing := device.descriptor + 16 * device.queueSize
        usedRing := behindAvail device - 1 -
          ((behindAvail device - 1) &&& (device.pageSize - 1)) + device.pageSize } := by
  simp only [setRings, Option.bind_eq_bind, Option.bind_eq_some_iff]
  constructor
  · rintro ⟨table, htable, availRing, havail, entries, hentries, ring, hring, behind, hbehind, last,
      hlast, mask, hmask, usedRing, hused, h⟩
    obtain ⟨-, rfl⟩ := Checked.mul_eq_some.1 htable
    obtain ⟨-, rfl⟩ := Checked.add_eq_some.1 havail
    obtain ⟨-, rfl⟩ := Checked.add_eq_some.1 hentries
    obtain ⟨-, rfl⟩ := Checked.mul_eq_some.1 hring
    obtain ⟨hfits, rfl⟩ := Checked.add_eq_some.1 hbehind
    obtain ⟨-, rfl⟩ := Checked.sub_eq_some.1 hlast
    obtain ⟨hpage, rfl⟩ := Checked.sub_eq_some.1 hmask
    obtain ⟨hlast, rfl⟩ := Checked.add_eq_some.1 hused
    exact ⟨⟨hfits, hpage, hlast⟩, (Option.some.inj h).symm⟩
  · rintro ⟨⟨hfits, hpage, hlast⟩, rfl⟩
    have hbehind : behindAvail device = device.descriptor + 16 * device.queueSize +
      2 * (3 + device.queueSize) := rfl
    refine ⟨_, Checked.mul_eq_some.2 ⟨by omega, rfl⟩, _, Checked.add_eq_some.2 ⟨by omega, rfl⟩, _,
      Checked.add_eq_some.2 ⟨by omega, rfl⟩, _, Checked.mul_eq_some.2 ⟨by omega, rfl⟩, _,
      Checked.add_eq_some.2 ⟨hfits, rfl⟩, _, Checked.sub_eq_some.2 ⟨by omega, rfl⟩, _,
      Checked.sub_eq_some.2 ⟨hpage, rfl⟩, _, Checked.add_eq_some.2 ⟨hlast, rfl⟩, rfl⟩

theorem rings_calm_iff : Effect.Calm rings s ↔ RingsFit s.device := by
  rw [rings, self, Effect.Calm.look_bind_iff, Effect.Calm.checked_bind_iff]
  constructor
  · rintro ⟨device, hdevice, -⟩
    exact (setRings_eq_some.1 hdevice).1
  · intro hfits
    exact ⟨_, setRings_eq_some.2 ⟨hfits, rfl⟩, .of_ok rfl⟩

theorem rings_laid (h : rings s = (.ok ⟨⟩, t)) : Laid t.device := by
  rw [rings, self, Effect.look_bind] at h
  obtain ⟨device, hdevice, h⟩ := Effect.checked_bind_eq_ok.1 h
  obtain ⟨⟨hfits, -, -⟩, rfl⟩ := setRings_eq_some.1 hdevice
  cases h
  exact ⟨rfl, hfits⟩

theorem queuePfn_calm_iff {value : ℕ} :
    Effect.Calm (write p fuel virtioMmioQueuePfn value) s ↔ PageFits p s.device value := by
  change Effect.Calm (self >>= fun device =>
    Effect.checked (Checked.mul 64 value device.pageSize) >>= _) s ↔ _
  rw [self, Effect.Calm.look_bind_iff, Effect.Calm.checked_bind_iff]
  constructor
  · rintro ⟨virtualAddress, hmul, h⟩
    obtain ⟨hword, rfl⟩ := Checked.mul_eq_some.1 hmul
    obtain ⟨found, hfound, h⟩ := Effect.Calm.checked_bind_iff.1 h
    refine ⟨hword, by rw [hfound]; simp, fun address haddress => ?_⟩
    obtain rfl : found = some address := Option.some.inj (hfound.symm.trans haddress)
    exact rings_calm_iff.1 h
  · rintro ⟨hmul, hram, hrings⟩
    refine ⟨_, Checked.mul_eq_some.2 ⟨hmul, rfl⟩, ?_⟩
    obtain ⟨found, hfound⟩ := Option.ne_none_iff_exists'.1 hram
    refine Effect.Calm.checked_bind_iff.2 ⟨found, hfound, ?_⟩
    cases found with
    | none => exact .pure _
    | some address => exact rings_calm_iff.2 (hrings address hfound)

theorem read_ne_none_iff {device : VirtioBlkMmio} :
    device.read offset ≠ none ↔ (offset = virtioMmioQueuePfn → device.pageSize ≠ 0) := by
  by_cases hpfn : offset = virtioMmioQueuePfn
  · subst hpfn
    have hread : device.read virtioMmioQueuePfn =
        if device.pageSize = 0 then none else some (device.descriptor / device.pageSize) := rfl
    rw [hread]
    by_cases hpage : device.pageSize = 0
    · simp [hpage]
    · simp [hpage]
  · refine iff_of_true ?_ fun h => absurd h hpfn
    rw [read, if_neg hpfn]
    split_ifs <;> simp

/-- Only the registers of the queue can panic. -/
theorem write_calm_iff {value : ℕ} (hlaid : Laid s.device) :
    Effect.Calm (write p fuel offset value) s ↔
      (offset = virtioMmioQueueNum → RingsFit { s.device with queueSize := value }) ∧
      (offset = virtioMmioQueuePfn → PageFits p s.device value) ∧
      (offset = virtioMmioQueueNotify → value = 0 → NotifyFits p fuel s) := by
  by_cases hnum : offset = virtioMmioQueueNum
  · subst hnum
    have hwrite : Effect.Calm (write p fuel virtioMmioQueueNum value) s ↔
        RingsFit { s.device with queueSize := value } := rings_calm_iff
    rw [hwrite]
    exact ⟨fun h => ⟨fun _ => h, fun h => absurd h (by decide), fun h => absurd h (by decide)⟩,
      fun h => h.1 rfl⟩
  by_cases hpfn : offset = virtioMmioQueuePfn
  · subst hpfn
    rw [queuePfn_calm_iff]
    exact ⟨fun h => ⟨fun h => absurd h (by decide), fun _ => h, fun h => absurd h (by decide)⟩,
      fun h => h.2.1 rfl⟩
  by_cases hnotify : offset = virtioMmioQueueNotify
  · subst hnotify
    have hwrite : Effect.Calm (write p fuel virtioMmioQueueNotify value) s ↔
        Effect.Calm (if value = 0 then operation p fuel else pure ⟨⟩) s := Iff.rfl
    rw [hwrite]
    refine Iff.trans ?_ ⟨fun h => ⟨fun h => absurd h (by decide), fun h => absurd h (by decide),
      fun _ => h⟩, fun h => h.2.2 rfl⟩
    by_cases hvalue : value = 0
    · rw [if_pos hvalue, operation_calm_iff hlaid]
      exact ⟨fun h _ => h, fun h => h hvalue⟩
    · rw [if_neg hvalue]
      exact iff_of_true (.pure _) fun h => absurd h hvalue
  · refine iff_of_true ?_
      ⟨fun h => absurd h hnum, fun h => absurd h hpfn, fun h => absurd h hnotify⟩
    rw [write, if_neg hnum, if_neg hpfn, if_neg hnotify]
    split_ifs
    all_goals exact .of_ok rfl

/-! ## Sequences of accesses -/

/-- The accesses one after the other. -/
def runAll (p : Platform) : List GuestAccess → Effect BlkState PUnit
  | [] => return ⟨⟩
  | a :: as => do
    runAccess p a
    runAll p as

/-- `P` holds of every access of the sequence in the state in which it is made. -/
def Throughout (p : Platform) (P : BlkState → GuestAccess → Prop) (s : BlkState)
    (as : List GuestAccess) : Prop :=
  ∀ before a after t, as = before ++ a :: after → runAll p before s = (.ok ⟨⟩, t) → P t a

theorem write_laid {value : ℕ} (hlaid : Laid s.device)
    (h : write p fuel offset value s = (.ok ⟨⟩, t)) : Laid t.device := by
  rw [write] at h
  split_ifs at h with hpage hnum hpfn hnotify hvalue hack hstatus hreset
  · cases h
    exact hlaid
  · exact rings_laid h
  · rw [self, Effect.look_bind] at h
    obtain ⟨virtualAddress, -, h⟩ := Effect.checked_bind_eq_ok.1 h
    obtain ⟨found, -, h⟩ := Effect.checked_bind_eq_ok.1 h
    cases found with
    | none =>
      cases h
      exact hlaid
    | some address => exact rings_laid h
  · exact operation_laid hlaid h
  · cases h
    exact hlaid
  · cases h
    exact hlaid
  · cases h
    exact ⟨rfl, by norm_num [reset]⟩
  · cases h
    exact hlaid
  · cases h
    exact hlaid

theorem runAccess_laid {a : GuestAccess} (hlaid : Laid s.device)
    (h : runAccess p a s = (.ok ⟨⟩, t)) : Laid t.device := by
  cases a with
  | read offset =>
    rw [runAccess, self, Effect.look_bind] at h
    obtain ⟨value, -, h⟩ := Effect.checked_bind_eq_ok.1 h
    cases h
    exact hlaid
  | event e =>
    cases e with
    | write fuel offset value => exact write_laid hlaid h
    | store memory =>
      cases h
      exact hlaid

theorem runAll_laid {as : List GuestAccess} (hlaid : Laid s.device)
    (h : runAll p as s = (.ok ⟨⟩, t)) : Laid t.device := by
  induction as generalizing s with
  | nil =>
    cases h
    exact hlaid
  | cons a as ih =>
    rw [runAll] at h
    obtain ⟨⟨⟩, s₁, haccess, h⟩ := Effect.bind_eq_ok.1 h
    exact ih (runAccess_laid hlaid haccess) h

theorem new_laid {file : FileInfo} {device : VirtioBlkMmio} (h : new file = some device) :
    Laid device := by
  simp only [new, Option.bind_eq_bind, Option.bind_eq_some_iff] at h
  obtain ⟨_, -, hdevice⟩ := h
  rw [← Option.some.inj hdevice]
  exact ⟨rfl, by norm_num⟩

/-- An access survives exactly if it is ready. -/
theorem survives_iff {a : GuestAccess} (hlaid : Laid s.device) : Survives p s a ↔ Ready p s a := by
  cases a with
  | read offset =>
    have hread : Effect.Calm (runAccess p (.read offset)) s ↔
        Ready p s (.read offset) := by
      rw [runAccess, self, Effect.Calm.look_bind_iff, Effect.Calm.bind_pure_iff,
        Effect.Calm.checked_iff, read_ne_none_iff]
      rfl
    exact (and_iff_left fun h => h.elim).trans hread
  | event e =>
    cases e with
    | store memory => exact iff_of_true ⟨.of_ok rfl, fun h => h.elim⟩ trivial
    | write fuel offset value =>
      have hwrite : Effect.Calm (runAccess p (.event (.write fuel offset value))) s ↔ _ :=
        write_calm_iff hlaid
      rw [Survives, hwrite]
      constructor
      · rintro ⟨⟨hnum, hpfn, hnotify⟩, hderef⟩
        exact ⟨hnum, hpfn, fun ho hv => ⟨hderef ⟨ho, hv⟩, hnotify ho hv⟩⟩
      · rintro ⟨hnum, hpfn, hnotify⟩
        exact ⟨⟨hnum, hpfn, fun ho hv => (hnotify ho hv).2⟩, fun h => (hnotify h.1 h.2).1⟩

/-- From a new device, a sequence of accesses survives exactly if every access is ready
when it is made. -/
theorem sequence_survives_iff (p : Platform) (file : FileInfo) (s : BlkState)
    (hnew : new file = some s.device) (as : List GuestAccess) :
    Throughout p (Survives p) s as ↔ Throughout p (Ready p) s as := by
  constructor
  · intro h before a after t has hrun
    exact (survives_iff (runAll_laid (new_laid hnew) hrun)).1 (h before a after t has hrun)
  · intro h before a after t has hrun
    exact (survives_iff (runAll_laid (new_laid hnew) hrun)).2 (h before a after t has hrun)

theorem throughout_nil {P : BlkState → GuestAccess → Prop} : Throughout p P s [] := by
  intro before a after t h
  simp at h

theorem throughout_cons {P : BlkState → GuestAccess → Prop} {a : GuestAccess}
    {as : List GuestAccess} (ha : P s a)
    (has : ∀ t, runAccess p a s = (.ok ⟨⟩, t) → Throughout p P t as) :
    Throughout p P s (a :: as) := by
  intro before b after t h hrun
  cases before with
  | nil =>
    cases hrun
    obtain ⟨rfl, -⟩ := List.cons.inj h
    exact ha
  | cons c before =>
    obtain ⟨rfl, rfl⟩ := List.cons.inj h
    rw [runAll] at hrun
    obtain ⟨⟨⟩, u, haccess, hrun⟩ := Effect.bind_eq_ok.1 hrun
    exact has u haccess before b after t rfl hrun

/-- A queue of eight is set up, its address is read back, and the guest notifies it while
it is empty. -/
def sampleSequence : List GuestAccess :=
  [.event (.store fun _ => 0), .event (.write 0 virtioMmioQueueNum 8),
    .event (.write 0 virtioMmioQueuePfn 0x40000), .read virtioMmioQueuePfn,
    .event (.write 1 virtioMmioQueueNotify 0)]

theorem sample_survives :
    Throughout samplePlatform (Survives samplePlatform) sampleNew sampleSequence := by
  refine (sequence_survives_iff samplePlatform _ sampleNew sampleNew_device sampleSequence).2 ?_
  refine throughout_cons trivial fun s₁ h₁ => ?_
  cases h₁
  refine throughout_cons ⟨fun _ => ⟨by decide, by decide, by decide⟩, fun h => absurd h (by decide),
    fun h => absurd h (by decide)⟩ fun s₂ h₂ => ?_
  cases h₂
  refine throughout_cons ⟨fun h => absurd h (by decide), fun _ => ⟨by decide, by decide, ?_⟩,
    fun h => absurd h (by decide)⟩ fun s₃ h₃ => ?_
  · intro address haddress
    obtain rfl : 0x80000000 = address := by
      have hfound : samplePlatform.ram.getPhysicalAddress (0x40000 * 2 ^ 12) =
          some (some 0x80000000) := by decide
      exact Option.some.inj (Option.some.inj (hfound.symm.trans haddress))
    exact ⟨by decide, by decide, by decide⟩
  cases h₃
  refine throughout_cons (fun _ => by decide) fun s₄ h₄ => ?_
  cases h₄
  refine throughout_cons ⟨fun h => absurd h (by decide), fun h => absurd h (by decide),
    fun _ _ => ⟨⟨0x40000000, by decide⟩, fun _ => by decide +kernel, fun h => ?_⟩⟩
    fun _ _ => throughout_nil
  exact absurd (by decide +kernel) h

/-- A page size of zero makes the read of the queue's address divide by zero, and a
notification of a new device follows a null pointer. -/
theorem sample_crashes :
    new ⟨2, 1024, by decide⟩ = some sampleNew.device ∧
      ¬Throughout samplePlatform (Survives samplePlatform) sampleNew
        [.event (.write 0 virtioMmioGuestPageSize 0), .read virtioMmioQueuePfn] ∧
      ¬Throughout samplePlatform (Survives samplePlatform) sampleNew
        [.event (.write 1 virtioMmioQueueNotify 0)] := by
  refine ⟨sampleNew_device, fun h => ?_, fun h => ?_⟩
  · have hread := h [.event (.write 0 virtioMmioGuestPageSize 0)] (.read virtioMmioQueuePfn) [] _
      rfl rfl
    exact hread.1 rfl
  · obtain ⟨v, hv⟩ := (h [] (.event (.write 1 virtioMmioQueueNotify 0)) [] _ rfl rfl).2 ⟨rfl, rfl⟩
    have hlast : v + 0 ≤ _ := Nat.le_of_lt (lt_of_getPhysicalAddress hv)
    exact absurd (inside_of_getPhysicalAddress hv hlast).1 (by decide)

end VirtioBlkMmio

end MiniVisor
