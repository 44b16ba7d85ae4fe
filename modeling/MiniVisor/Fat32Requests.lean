import MiniVisor.Fat32Clusters

/-!
# What a request moves

The exact effect of a request that succeeds, on memory and on the disk, and when a request does
succeed: the device serves it, the descriptors are free and the queue can count one more.
-/
namespace MiniVisor

open Effects

namespace VirtioBlk

/-- Memory and disk after `n` bytes have been moved. -/
def movedBy (isWrite : Bool) (buffer address n : ℕ) (s : Host) : Memory × Memory :=
  if isWrite then (s.memory, copyBytes s.drive.disk address s.memory buffer n)
  else (copyBytes s.memory buffer s.drive.disk address n, s.drive.disk)

/-- All descriptors are free, and the queue has counted `k` requests. -/
structure Ready (k : ℕ) (s : Host) : Prop where
  free : s.drive.freeBitmap = fun _ => true
  counted : s.drive.availIdx = k

section Request

variable {env : Environment} {bufferAddress blockAddress length k : ℕ} {isWrite : Bool}
  {s t : Host}

theorem serve_moves {sector : ℕ}
    (h : serve env bufferAddress sector length isWrite s = (.ok true, t)) :
    (t.memory, t.drive.disk) = movedBy isWrite bufferAddress (sector * 512) length s := by
  rw [serve] at h
  obtain ⟨hdone, rfl⟩ := Prod.mk.inj h
  rw [Option.isNone_iff_eq_none.1 (Except.ok.inj hdone)]
  cases isWrite with
  | true => rfl
  | false => rfl

theorem allocateDescriptor_contents {index : ℕ} (h : allocateDescriptor s = (.ok index, t)) :
    (t.memory, t.drive.disk) = (s.memory, s.drive.disk) := by
  rw [allocateDescriptor] at h
  cases hfind : (List.range numberOfDescriptors).find? s.drive.freeBitmap with
  | none =>
    rw [hfind] at h
    exact absurd (Prod.mk.inj h).1 (by simp)
  | some index =>
    rw [hfind] at h
    obtain ⟨-, rfl⟩ := Prod.mk.inj h
    rfl

/-- A request that succeeds moves what its descriptor says, and nothing else. -/
theorem operationSync_moves {u : PUnit}
    (h : operationSync env bufferAddress blockAddress length isWrite s = (.ok u, t)) :
    (t.memory, t.drive.disk) = movedBy isWrite bufferAddress blockAddress (length % 2 ^ 32) s := by
  rw [operationSync, Effect.bind_eq_ok] at h
  obtain ⟨_, s₁, h₁, h⟩ := h
  obtain ⟨-, rfl⟩ := Prod.mk.inj h₁
  split_ifs at h with hunaligned
  · exact absurd h (by simp [Effect.fail])
  simp only [Effect.bind_eq_ok] at h
  obtain ⟨_, s₂, h₂, _, s₃, h₃, _, s₄, h₄, _, s₅, h₅, _, s₆, h₆, _, s₇, h₇, done, s₈, h₈, _, s₉,
    h₉, _, s₁₀, h₁₀, _, s₁₁, h₁₁, h⟩ := h
  have e₂ := allocateDescriptor_contents h₂
  have e₃ := allocateDescriptor_contents h₃
  have e₄ := allocateDescriptor_contents h₄
  obtain ⟨-, rfl⟩ := Prod.mk.inj h₅
  obtain ⟨-, rfl⟩ := Effect.checked_eq_ok.1 h₆
  obtain ⟨-, rfl⟩ := Prod.mk.inj h₇
  obtain ⟨-, rfl⟩ := Prod.mk.inj h₉
  obtain ⟨-, rfl⟩ := Prod.mk.inj h₁₀
  obtain ⟨-, rfl⟩ := Prod.mk.inj h₁₁
  have hblock : blockAddress / 512 * 512 = blockAddress := by omega
  have hsame := e₄.trans (e₃.trans e₂)
  obtain ⟨hmemory, hdisk⟩ := Prod.mk.inj hsame
  split_ifs at h with hdone
  · obtain ⟨-, rfl⟩ := Prod.mk.inj h
    rw [hdone] at h₈
    have hmoved := serve_moves h₈
    rw [hblock] at hmoved
    unfold movedBy at hmoved ⊢
    dsimp only at hmoved hmemory hdisk
    rw [hmemory, hdisk] at hmoved
    exact hmoved
  · exact absurd h (by simp [Effect.fail])

/-- The device serves the requests. -/
def Serves (env : Environment) : Prop := ∀ i, env.failure i = none

theorem serve_ready {sector : ℕ} (henv : Serves env) :
    ∃ t, serve env bufferAddress sector length isWrite s = (.ok true, t) ∧
      t.drive.freeBitmap = s.drive.freeBitmap ∧ t.drive.availIdx = s.drive.availIdx := by
  have hdone : (env.failure s.drive.requests).isNone = true := by
    rw [henv]
    rfl
  refine ⟨(serve env bufferAddress sector length isWrite s).2, Prod.ext ?_ rfl, ?_⟩
  · exact congrArg Except.ok hdone
  · cases isWrite with
    | true => exact ⟨rfl, rfl⟩
    | false => exact ⟨rfl, rfl⟩

/-- The request is served, and the descriptors are free again. -/
theorem operationSync_ready (henv : Serves env) (hs : Ready k s)
    (haccepts : Accepts blockAddress length k) :
    ∃ t, operationSync env bufferAddress blockAddress length isWrite s = (.ok ⟨⟩, t) ∧
      Ready (k + 1) t := by
  obtain ⟨hblock, hn, hfits⟩ := haccepts
  obtain ⟨memory, ⟨disk, freeBitmap, availIdx, requests, allocations, pages, moved⟩, delivered⟩ := s
  obtain ⟨hfree, hcounted⟩ := hs
  obtain rfl : freeBitmap = fun _ => true := hfree
  obtain rfl : availIdx = k := hcounted
  have hidx : Checked.add 16 availIdx 1 = some (availIdx + 1) := Checked.add_eq_some.2 ⟨hfits, rfl⟩
  have haligned : ¬(blockAddress % 512 ≠ 0 ∨ length % 512 ≠ 0) := by
    rw [not_or, not_not, not_not]
    exact ⟨hblock, hn⟩
  have hback : Function.update (Function.update (Function.update (Function.update (Function.update
      (Function.update (fun _ : ℕ => true) 0 false) 1 false) 2 false) 0 true) 1 true) 2 true =
        fun _ => true := by
    funext i
    simp only [Function.update_apply]
    split_ifs <;> rfl
  rw [operationSync, Effect.change_bind, if_neg haligned,
    Effect.bind_ok (Fat32.allocateDescriptor_serving rfl),
    Effect.bind_ok (Fat32.allocateDescriptor_serving rfl),
    Effect.bind_ok (Fat32.allocateDescriptor_serving rfl), Effect.look_bind]
  change ∃ t, (Effect.checked (Checked.add 16 availIdx 1) >>= _) _ = _ ∧ _
  rw [hidx, Effect.checked_bind, Effect.change_bind]
  obtain ⟨t, ht, hbitmap, hidx⟩ := serve_ready henv
  rw [Effect.bind_ok ht]
  refine ⟨_, rfl, ?_, hidx⟩
  change Function.update (Function.update (Function.update t.drive.freeBitmap 0 true) 1 true) 2 true
    = _
  rw [hbitmap]
  exact hback

end Request

end VirtioBlk

namespace Fat32

open VirtioBlk

/-- The memory and the disk after `n` bytes have been read. -/
theorem movedBy_read {buffer address n : ℕ} {s t : Host}
    (h : (t.memory, t.drive.disk) = movedBy false buffer address n s) :
    t.memory = copyBytes s.memory buffer s.drive.disk address n ∧ t.drive.disk = s.drive.disk :=
  Prod.mk.inj h

/-- The memory and the disk after `n` bytes have been written. -/
theorem movedBy_write {buffer address n : ℕ} {s t : Host}
    (h : (t.memory, t.drive.disk) = movedBy true buffer address n s) :
    t.memory = s.memory ∧ t.drive.disk = copyBytes s.drive.disk address s.memory buffer n :=
  Prod.mk.inj h

/-- The position of a sector on the disk. -/
def sectorPosition (f : Fat32) (sector : ℕ) : ℕ := f.baseLba * f.lbaSize + sector * f.bytesPerSector

section Sectors

variable {f : Fat32} {env : Environment} {buffer sector sectors k : ℕ} {s t : Host} {u : PUnit}

theorem sectorRange_position {position : ℕ × ℕ} (h : f.sectorRange sector sectors = some position) :
    position = (f.sectorPosition sector, sectors * f.bytesPerSector) := by
  rw [sectorRange] at h
  simp only [Option.bind_eq_bind, Option.bind_eq_some_iff] at h
  obtain ⟨base, hbase, address, haddress, h⟩ := h
  obtain ⟨-, rfl⟩ := Checked.mul_eq_some.1 hbase
  obtain ⟨-, rfl⟩ := Checked.add_eq_some.1 haddress
  exact (Option.some.inj h).symm

theorem Sized.sectorRange (hf : f.Sized) (hsector : sector < 2 ^ 32) :
    f.sectorRange sector sectors = some (f.sectorPosition sector, sectors * f.bytesPerSector) := by
  have hdisk := hf.disk
  have hlt : sector * f.bytesPerSector < 2 ^ 32 * f.bytesPerSector :=
    Nat.mul_lt_mul_of_pos_right hsector hf.sector
  rw [Fat32.sectorRange, Checked.mul_eq_some.2 ⟨by omega, rfl⟩, sectorPosition]
  simp only [Option.bind_eq_bind, Option.bind_some, Checked.add_eq_some.2
    ⟨show f.baseLba * f.lbaSize + sector * f.bytesPerSector < 2 ^ 64 by omega, rfl⟩]
  rfl

theorem Geometry.accepts (hf : f.Geometry) (hk : k + 1 < 2 ^ 16) :
    Accepts (f.sectorPosition sector) (sectors * f.bytesPerSector) k := by
  refine ⟨?_, ?_, hk⟩
  · exact Nat.mod_eq_zero_of_dvd (dvd_add (hf.block.mul_left _) (hf.sector_dvd.mul_left _))
  · exact Nat.mod_eq_zero_of_dvd (hf.sector_dvd.mul_left _)

theorem readSectors_moves (h : f.readSectors env buffer sector sectors s = (.ok u, t)) :
    t.memory = copyBytes s.memory buffer s.drive.disk (f.sectorPosition sector)
      (sectors * f.bytesPerSector % 2 ^ 32) ∧ t.drive.disk = s.drive.disk := by
  rw [readSectors, Effect.checked_bind_eq_ok] at h
  obtain ⟨position, hposition, h⟩ := h
  obtain rfl := sectorRange_position hposition
  exact movedBy_read (operationSync_moves h)

theorem writeSectors_moves (h : f.writeSectors env buffer sector sectors s = (.ok u, t)) :
    t.memory = s.memory ∧ t.drive.disk = copyBytes s.drive.disk (f.sectorPosition sector) s.memory
      buffer (sectors * f.bytesPerSector % 2 ^ 32) := by
  rw [writeSectors, Effect.checked_bind_eq_ok] at h
  obtain ⟨position, hposition, h⟩ := h
  obtain rfl := sectorRange_position hposition
  exact movedBy_write (operationSync_moves h)

theorem readSectors_ready (buffer sectors : ℕ) (hf : f.Geometry) (henv : Serves env) (hs : Ready k s)
    (hsector : sector < 2 ^ 32) (hk : k + 1 < 2 ^ 16) :
    ∃ t, f.readSectors env buffer sector sectors s = (.ok ⟨⟩, t) ∧ Ready (k + 1) t := by
  rw [readSectors, hf.sized.sectorRange hsector, Effect.checked_bind]
  exact operationSync_ready henv hs (hf.accepts hk)

theorem writeSectors_ready (hf : f.Geometry) (henv : Serves env) (hs : Ready k s)
    (hsector : sector < 2 ^ 32) (hk : k + 1 < 2 ^ 16) :
    ∃ t, f.writeSectors env buffer sector sectors s = (.ok ⟨⟩, t) ∧ Ready (k + 1) t := by
  rw [writeSectors, hf.sized.sectorRange hsector, Effect.checked_bind]
  exact operationSync_ready henv hs (hf.accepts hk)

end Sectors

section Part

variable {f : Fat32} {env : Environment} {bufferAddress cluster bufferPointer pages k : ℕ}
  {r : Stretch} {s t : Host} {u : PUnit}

theorem allocatePages_contents {address : ℕ} (h : allocatePages env pages s = (.ok address, t)) :
    t.memory = s.memory ∧ t.drive.disk = s.drive.disk := by
  rw [allocatePages] at h
  cases hpages : env.allocatePages s.drive.allocations pages with
  | none =>
    rw [hpages] at h
    exact absurd (Prod.mk.inj h).1 (by simp)
  | some address =>
    rw [hpages] at h
    obtain ⟨-, rfl⟩ := Prod.mk.inj h
    exact ⟨rfl, rfl⟩

/-- What a stretch puts into the caller's buffer directly. -/
theorem readDirect_moves (h : f.readDirect env bufferAddress cluster bufferPointer r s = (.ok u, t)) :
    ∃ sector, f.firstSector cluster r = some sector ∧ t.drive.disk = s.drive.disk ∧
      t.memory = copyBytes s.memory (bufferAddress + bufferPointer) s.drive.disk
        (f.sectorPosition sector) (r.size f) := by
  rw [readDirect, Effect.checked_bind_eq_ok] at h
  obtain ⟨buffer, hbuffer, h⟩ := h
  obtain ⟨-, rfl⟩ := Checked.add_eq_some.1 hbuffer
  rw [Effect.checked_bind_eq_ok] at h
  obtain ⟨sector, hsector, h⟩ := h
  obtain ⟨hok, rfl⟩ := Prod.mk.inj h
  obtain ⟨hmemory, hdisk⟩ := readSectors_moves (Prod.ext hok rfl)
  exact ⟨sector, hsector, hdisk, hmemory⟩

/-- What a stretch puts there through its own pages. -/
theorem readBounced_moves
    (h : f.readBounced env bufferAddress cluster bufferPointer pages r s = (.ok u, t)) :
    ∃ sector page, f.firstSector cluster r = some sector ∧ bufferPointer = 0 ∧
      t.drive.disk = s.drive.disk ∧
      t.memory = copyBytes (copyBytes s.memory page s.drive.disk (f.sectorPosition sector) (r.size f))
        bufferAddress (copyBytes s.memory page s.drive.disk (f.sectorPosition sector) (r.size f))
        (page + r.dataOffsetBackup) r.bytes := by
  rw [readBounced, Effect.bind_eq_ok] at h
  obtain ⟨page, s₁, h₁, h⟩ := h
  obtain ⟨hmemory₁, hdisk₁⟩ := allocatePages_contents h₁
  rw [Effect.checked_bind_eq_ok] at h
  obtain ⟨sector, hsector, h⟩ := h
  rw [Effect.bind_eq_ok] at h
  obtain ⟨result, s₂, h₂, h⟩ := h
  cases result with
  | none =>
    rw [Effect.bind_eq_ok] at h
    obtain ⟨_, _, _, h⟩ := h
    exact absurd h (by simp [Effect.fail])
  | some u =>
    obtain ⟨hmemory₂, hdisk₂⟩ := readSectors_moves (Effect.attempt_eq_some.1 h₂)
    dsimp only at h
    rw [Effect.checked_bind_eq_ok] at h
    obtain ⟨_, hzero, h⟩ := h
    rw [Effect.bind_eq_ok] at h
    obtain ⟨_, s₃, h₃, h⟩ := h
    obtain ⟨-, rfl⟩ := Prod.mk.inj h₃
    obtain ⟨-, rfl⟩ := Prod.mk.inj h
    refine ⟨sector, page, hsector, (Checked.require_eq_some.1 hzero), hdisk₂.trans hdisk₁, ?_⟩
    rw [hmemory₁, hdisk₁] at hmemory₂
    change copyBytes s₂.memory bufferAddress s₂.memory (page + r.dataOffsetBackup) r.bytes = _
    rw [hmemory₂]
    rfl

/-- What a stretch that is read puts into the caller's buffer. -/
theorem readPart_moves (h : f.readPart env bufferAddress cluster bufferPointer r s = (.ok u, t)) :
    ∃ sector, f.firstSector cluster r = some sector ∧ t.drive.disk = s.drive.disk ∧
      ∀ i < r.bytes, r.dataOffsetBackup + i < r.size f →
        t.memory (bufferAddress + bufferPointer + i) =
          s.drive.disk (f.sectorPosition sector + r.dataOffsetBackup + i) := by
  rw [readPart, Effect.checked_bind_eq_ok] at h
  obtain ⟨pages, -, h⟩ := h
  by_cases hdirect : r.dataOffsetBackup = 0
  · rw [if_neg (not_not.2 hdirect)] at h
    obtain ⟨sector, hsector, hdisk, hmemory⟩ := readDirect_moves h
    refine ⟨sector, hsector, hdisk, fun i _ hi => ?_⟩
    rw [hdirect, Nat.zero_add] at hi
    rw [hmemory, copyBytes_of_mem hi, hdirect, Nat.add_zero]
  · rw [if_pos hdirect] at h
    obtain ⟨sector, page, hsector, rfl, hdisk, hmemory⟩ := readBounced_moves h
    refine ⟨sector, hsector, hdisk, fun i hbytes hi => ?_⟩
    rw [hmemory, Nat.add_zero, copyBytes_of_mem hbytes, Nat.add_assoc, copyBytes_of_mem hi,
      Nat.add_assoc]

/-- A stretch that the device does not move at all leaves the disk's bytes away. -/
theorem readPart_empty (hsize : r.size f = 0)
    (h : f.readPart env bufferAddress cluster bufferPointer r s = (.ok u, t)) (x : ℕ) :
    ∃ y, t.memory x = s.memory y := by
  rw [readPart, Effect.checked_bind_eq_ok] at h
  obtain ⟨pages, -, h⟩ := h
  have hnone : ∀ (m source : Memory) (target start : ℕ), copyBytes m target source start 0 = m :=
    fun m source target start => funext fun y => copyBytes_of_not_mem (by omega)
  by_cases hdirect : r.dataOffsetBackup = 0
  · rw [if_neg (not_not.2 hdirect)] at h
    obtain ⟨sector, -, -, hmemory⟩ := readDirect_moves h
    rw [hsize, hnone] at hmemory
    exact ⟨x, by rw [hmemory]⟩
  · rw [if_pos hdirect] at h
    obtain ⟨sector, page, -, -, -, hmemory⟩ := readBounced_moves h
    rw [hsize, hnone] at hmemory
    rw [hmemory, copyBytes]
    split_ifs
    · exact ⟨_, rfl⟩
    · exact ⟨x, rfl⟩

/-- A stretch that goes straight into the buffer leaves what is in front of it. -/
theorem readPart_below (hdirect : r.dataOffsetBackup = 0)
    (h : f.readPart env bufferAddress cluster bufferPointer r s = (.ok u, t)) {x : ℕ}
    (hx : x < bufferAddress + bufferPointer) : t.memory x = s.memory x := by
  rw [readPart, Effect.checked_bind_eq_ok] at h
  obtain ⟨pages, -, h⟩ := h
  rw [if_neg (not_not.2 hdirect)] at h
  obtain ⟨sector, -, -, hmemory⟩ := readDirect_moves h
  rw [hmemory, copyBytes_of_not_mem (by omega)]

/-- The pages of the bounce buffer are never missing. -/
def Supplies (env : Environment) : Prop := ∀ i n, env.allocatePages i n ≠ none

theorem servingAt_supplies (address : ℕ) : Supplies (servingAt address) :=
  fun _ _ => Option.some_ne_none _

theorem Sized.bouncePages (hf : f.Sized) {sectors : ℕ} (hsectors : sectors ≤ 2 ^ 32) :
    f.bouncePages sectors ≠ none := by
  have hlt := f.bytesPerSector_lt
  have hpos := hf.block_pos
  have hle := hf.block_le
  have hsize : sectors * f.bytesPerSector ≤ 2 ^ 32 * 2 ^ 16 := Nat.mul_le_mul hsectors hlt.le
  have hsum : sectors * f.bytesPerSector - (sectors * f.bytesPerSector &&& (f.lbaSize - 1)) +
      f.lbaSize < 2 ^ 64 := by omega
  rw [Fat32.bouncePages, Checked.sub_eq_some.2 ⟨hpos, rfl⟩]
  simp only [Option.bind_eq_bind, Option.bind_some, Checked.add_eq_some.2 ⟨hsum, rfl⟩]
  exact Option.some_ne_none _

/-- A stretch is read if the device and the page allocator serve it. -/
theorem readPart_ready (bufferAddress bufferPointer : ℕ) {sector : ℕ} (hf : f.Geometry)
    (henv : Serves env) (hpages : Supplies env)
    (hs : Ready k s) (hsector : f.firstSector cluster r = some sector) (hword : sector < 2 ^ 32)
    (hsectors : r.sectors ≤ 2 ^ 32) (hk : k + 1 < 2 ^ 16)
    (hbuffer : bufferAddress + bufferPointer < 2 ^ 64)
    (hzero : r.dataOffsetBackup ≠ 0 → bufferPointer = 0) :
    ∃ t, f.readPart env bufferAddress cluster bufferPointer r s = (.ok ⟨⟩, t) ∧ Ready (k + 1) t := by
  obtain ⟨pages, hbounce⟩ := Option.ne_none_iff_exists'.1 (hf.sized.bouncePages hsectors)
  rw [readPart, hbounce, Effect.checked_bind]
  by_cases hdirect : r.dataOffsetBackup = 0
  · obtain ⟨t, ht, hready⟩ := readSectors_ready (bufferAddress + bufferPointer)
      r.sectors hf henv hs hword hk
    rw [if_neg (not_not.2 hdirect), readDirect, Checked.add_eq_some.2 ⟨hbuffer, rfl⟩,
      Effect.checked_bind, hsector, Effect.checked_bind, Effect.afterwards, ht]
    exact ⟨_, rfl, hready.free, hready.counted⟩
  · obtain ⟨page, hpage⟩ := Option.ne_none_iff_exists'.1 (hpages s.drive.allocations pages)
    obtain ⟨s₁, hallocated, hs₁⟩ : ∃ s₁, allocatePages env pages s = (.ok page, s₁) ∧ Ready k s₁ := by
      rw [allocatePages, hpage]
      exact ⟨_, rfl, hs.free, hs.counted⟩
    obtain ⟨t, ht, hready⟩ := readSectors_ready page r.sectors hf henv hs₁ hword hk
    obtain rfl := hzero hdirect
    rw [if_pos hdirect, readBounced, Effect.bind_ok hallocated, hsector, Effect.checked_bind,
      Effect.bind_ok (Effect.attempt_eq_some.2 ht)]
    exact ⟨_, rfl, hready.free, hready.counted⟩

/-- What a stretch puts onto the disk. -/
theorem writePart_moves (h : f.writePart env bufferAddress cluster bufferPointer r s = (.ok u, t)) :
    r.dataOffsetBackup = 0 ∧ ∃ sector, f.firstSector cluster r = some sector ∧
      t.memory = s.memory ∧ t.drive.disk = copyBytes s.drive.disk (f.sectorPosition sector) s.memory
        (bufferAddress + bufferPointer) (r.size f) := by
  rw [writePart] at h
  by_cases hdirect : r.dataOffsetBackup = 0
  · rw [if_neg (not_not.2 hdirect), Effect.checked_bind_eq_ok] at h
    obtain ⟨sector, hsector, h⟩ := h
    rw [Effect.checked_bind_eq_ok] at h
    obtain ⟨buffer, hbuffer, h⟩ := h
    obtain ⟨-, rfl⟩ := Checked.add_eq_some.1 hbuffer
    exact ⟨hdirect, sector, hsector, writeSectors_moves h⟩
  · rw [if_pos hdirect] at h
    exact absurd h (by simp [Effect.fail])

theorem writePart_ready {sector : ℕ} (hf : f.Geometry) (henv : Serves env) (hs : Ready k s)
    (hsector : f.firstSector cluster r = some sector) (hword : sector < 2 ^ 32)
    (hk : k + 1 < 2 ^ 16) (hbuffer : bufferAddress + bufferPointer < 2 ^ 64)
    (hdirect : r.dataOffsetBackup = 0) :
    ∃ t, f.writePart env bufferAddress cluster bufferPointer r s = (.ok ⟨⟩, t) ∧ Ready (k + 1) t := by
  rw [writePart, if_neg (not_not.2 hdirect), hsector, Effect.checked_bind,
    Checked.add_eq_some.2 ⟨hbuffer, rfl⟩, Effect.checked_bind]
  exact writeSectors_ready hf henv hs hword hk

end Part

end Fat32

end MiniVisor
