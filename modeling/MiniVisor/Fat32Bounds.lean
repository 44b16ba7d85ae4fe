import MiniVisor.Fat32Calls

/-!
# What `read` writes to memory

A stretch that starts inside a sector is read into a bounce buffer and copied from there
byte by byte; one that starts at a sector goes straight into the caller's buffer, in whole
sectors. The size of every stretch is computed from the whole length, not from what is
left of it. `Overruns` is the exact account of the reads that leave the buffer.
-/
namespace MiniVisor

open Effects

namespace VirtioBlk

variable {env : Environment} {bufferAddress blockAddress length : ℕ} {s t : Host}

/-- The device takes the request: it is a multiple of its sectors, and the queue can count
one more. -/
def Accepts (blockAddress length availIdx : ℕ) : Prop :=
  blockAddress % 512 = 0 ∧ length % 512 = 0 ∧ availIdx + 1 < 2 ^ 16

/-- What a request does not touch. -/
def bookkeeping (s : Host) : List (ℕ × ℕ) × ℕ := (s.drive.pages, s.drive.allocations)

theorem allocateDescriptor_keeps_drive :
    Effect.Keeps (fun s : Host => (s.memory, bookkeeping s, s.drive.availIdx))
      allocateDescriptor := by
  intro s
  rw [allocateDescriptor]
  cases (List.range numberOfDescriptors).find? s.drive.freeBitmap with
  | none => rfl
  | some index => rfl

/-- A request that reads changes no memory behind its buffer, and none at all if the device
does not take it. -/
structure Reads (bufferAddress blockAddress length : ℕ) (s t : Host) : Prop where
  memory : ∀ x, ¬(bufferAddress ≤ x ∧ x < bufferAddress + length % 2 ^ 32) →
    t.memory x = s.memory x
  refused : ¬Accepts blockAddress length s.drive.availIdx → t.memory = s.memory
  bookkeeping : bookkeeping t = bookkeeping s

/-- The request has not been served yet. -/
def Unserved (s₀ s : Host) : Prop :=
  s.memory = s₀.memory ∧ bookkeeping s = bookkeeping s₀ ∧ s.drive.availIdx = s₀.drive.availIdx

theorem Unserved.reads {s₀ s : Host} (h : Unserved s₀ s) :
    Reads bufferAddress blockAddress length s₀ s where
  memory x _ := congrFun h.1 x
  refused _ := h.1
  bookkeeping := h.2.1

theorem unserved_triple {α : Type} {x : Effect Host α} {s₀ : Host}
    (hx : Effect.Keeps (fun s : Host => (s.memory, bookkeeping s, s.drive.availIdx)) x) :
    Effect.Triple (Unserved s₀) x (fun _ => Unserved s₀)
      (Reads bufferAddress blockAddress length s₀) := by
  apply hx.triple _ fun s hs => hs.reads
  rintro s t hst ⟨hmemory, hbook, hidx⟩
  simp only [Prod.mk.injEq] at hst
  exact ⟨hst.1.trans hmemory, hst.2.1.trans hbook, hst.2.2.trans hidx⟩

/-- The request has been served. -/
structure Served (bufferAddress blockAddress length : ℕ) (s₀ s : Host) : Prop extends
    Reads bufferAddress blockAddress length s₀ s where
  accepted : Accepts blockAddress length s₀.drive.availIdx
  counted : s.drive.availIdx = s₀.drive.availIdx + 1

theorem served_triple {α : Type} {x : Effect Host α} {s₀ : Host}
    (hx : Effect.Keeps (fun s : Host => (s.memory, bookkeeping s, s.drive.availIdx)) x) :
    Effect.Triple (Served bufferAddress blockAddress length s₀) x
      (fun _ => Served bufferAddress blockAddress length s₀)
      (Reads bufferAddress blockAddress length s₀) := by
  apply hx.triple _ fun s hs => hs.toReads
  rintro s t hst ⟨⟨hmemory, hrefused, hbook⟩, haccepted, hcounted⟩
  simp only [Prod.mk.injEq] at hst
  exact ⟨⟨fun x hx => (congrFun hst.1 x).trans (hmemory x hx), fun h => hst.1.trans (hrefused h),
    hst.2.1.trans hbook⟩, haccepted, hst.2.2.trans hcounted⟩

theorem operationSync_triple (s₀ : Host) :
    Effect.Triple (fun s => s = s₀) (operationSync env bufferAddress blockAddress length false)
      (fun _ => Served bufferAddress blockAddress length s₀)
      (Reads bufferAddress blockAddress length s₀) := by
  have hstart : Effect.Triple (fun s => s = s₀)
      (Effect.change fun s : Host => { s with drive.moved := 0 }) (fun _ => Unserved s₀)
      (Reads bufferAddress blockAddress length s₀) :=
    .change fun s hs => hs ▸ ⟨rfl, rfl, rfl⟩
  apply hstart.bind
  intro _
  split_ifs with hunaligned
  · exact .fail fun s hs => hs.reads
  apply (unserved_triple allocateDescriptor_keeps_drive).bind
  intro first
  apply (unserved_triple allocateDescriptor_keeps_drive).bind
  intro second
  apply (unserved_triple allocateDescriptor_keeps_drive).bind
  intro third
  have hidx : Effect.Triple (Unserved s₀) (Effect.look fun s : Host => s.drive.availIdx)
      (fun idx s => Unserved s₀ s ∧ idx = s₀.drive.availIdx)
      (Reads bufferAddress blockAddress length s₀) :=
    .look fun s hs => ⟨hs, hs.2.2⟩
  apply hidx.bind
  intro idx
  apply Effect.Triple.assuming
  rintro rfl
  apply Effect.Triple.checked_bind _ fun s hs => hs.reads
  intro next hnext
  obtain ⟨hfits, rfl⟩ := Checked.add_eq_some.1 hnext
  have haccepted : Accepts blockAddress length s₀.drive.availIdx := by
    rw [not_or, not_not, not_not] at hunaligned
    exact ⟨hunaligned.1, hunaligned.2, hfits⟩
  have hqueued : Effect.Triple (Unserved s₀) (Effect.change fun s : Host =>
      { s with drive.availIdx := s₀.drive.availIdx + 1 })
      (fun _ s => s.memory = s₀.memory ∧ bookkeeping s = bookkeeping s₀ ∧
        s.drive.availIdx = s₀.drive.availIdx + 1) (Reads bufferAddress blockAddress length s₀) :=
    .change fun s hs => ⟨hs.1, hs.2.1, rfl⟩
  apply hqueued.bind
  intro _
  have hserve : Effect.Triple (fun s => s.memory = s₀.memory ∧ bookkeeping s = bookkeeping s₀ ∧
        s.drive.availIdx = s₀.drive.availIdx + 1)
      (serve env bufferAddress (blockAddress / 512) (length % 2 ^ 32) false)
      (fun _ => Served bufferAddress blockAddress length s₀)
      (Reads bufferAddress blockAddress length s₀) := by
    rintro s ⟨hmemory, hbook, hcounted⟩
    refine ⟨⟨fun x hx => ?_, fun h => absurd haccepted h, hbook⟩, haccepted, hcounted⟩
    rw [← hmemory]
    apply copyBytes_of_not_mem
    intro hin
    refine hx ⟨hin.1, lt_of_lt_of_le hin.2 (Nat.add_le_add_left ?_ _)⟩
    cases env.failure s.drive.requests with
    | none => exact le_rfl
    | some n => exact Nat.min_le_right _ _
  apply hserve.bind
  intro done
  apply (served_triple (.change (by intro; rfl))).bind
  intro _
  apply (served_triple (.change (by intro; rfl))).bind
  intro _
  apply (served_triple (.change (by intro; rfl))).bind
  intro _
  split_ifs with hdone
  · exact .pure fun s hs => hs
  · exact .fail fun s hs => hs.toReads

end VirtioBlk

namespace Fat32

variable {f : Fat32} {env : Environment} {file : FileInfo}

/-- The bytes that the device moves for a stretch; its descriptor has 32 bits for them. -/
def Stretch.size (f : Fat32) (r : Stretch) : ℕ := r.sectors * f.bytesPerSector % 2 ^ 32

/-- As the request number `k` of the call, the stretch gets to the device. -/
def Issued (f : Fat32) (bufferAddress k cluster bufferPointer : ℕ) (r : Stretch) : Prop :=
  f.bouncePages r.sectors ≠ none ∧
    (r.dataOffsetBackup = 0 → bufferAddress + bufferPointer < 2 ^ 64) ∧
    (r.dataOffsetBackup ≠ 0 → bufferPointer = 0) ∧
    ∃ sector position, f.firstSector cluster r = some sector ∧
      f.sectorRange sector r.sectors = some (position, r.sectors * f.bytesPerSector) ∧
      VirtioBlk.Accepts position (r.sectors * f.bytesPerSector) k

/-- From the given position of the outer loop, with a device that serves every request, a
stretch gets written straight into the caller's buffer and over its end. -/
inductive Overruns (f : Fat32) (bufferAddress length : ℕ) : ℕ → ℕ → ℕ → ℕ → Prop
  | here {k dataOffset cluster bufferPointer : ℕ} {r : Stretch}
      (hr : f.Gathers length (.start dataOffset cluster) r)
      (hissued : f.Issued bufferAddress k cluster bufferPointer r)
      (hdirect : r.dataOffsetBackup = 0) (hpos : 0 < r.size f)
      (hover : length < bufferPointer + r.size f) :
      Overruns f bufferAddress length k dataOffset cluster bufferPointer
  | later {k dataOffset cluster bufferPointer next : ℕ} {r : Stretch}
      (hr : f.Gathers length (.start dataOffset cluster) r)
      (hissued : f.Issued bufferAddress k cluster bufferPointer r)
      (hword : bufferPointer + r.bytes < 2 ^ 64) (hmore : length ≠ bufferPointer + r.bytes)
      (hnext : f.nextCluster r.cluster = .ok next)
      (h : Overruns f bufferAddress length (k + 1) 0 next (bufferPointer + r.bytes)) :
      Overruns f bufferAddress length k dataOffset cluster bufferPointer

/-- The pages of the bounce buffer. -/
def OwnPage (f : Fat32) (env : Environment) (file : FileInfo) (offset length : ℕ) (s : Host)
    (x : ℕ) : Prop :=
  ∃ n dataOffset cluster r pages address,
    f.locate file offset length = .ok (some (n, dataOffset, cluster)) ∧
    f.Gathers n (.start dataOffset cluster) r ∧ r.dataOffsetBackup ≠ 0 ∧
    f.bouncePages r.sectors = some pages ∧
    env.allocatePages s.drive.allocations pages = some address ∧
    address ≤ x ∧ x < address + pages * 2 ^ pageShift

/-- The call returns. -/
def Returns {α : Type} (result : Except Fault α) : Prop :=
  (∃ a, result = .ok a) ∨ result = .error .err

/-- A read changes the caller's buffer and its own pages only, and frees its pages. -/
structure StaysInside (f : Fat32) (env : Environment) (fuel : ℕ) (file : FileInfo)
    (bufferAddress offset length : ℕ) (s : Host) : Prop where
  memory : ∀ x, ¬(bufferAddress ≤ x ∧ x < bufferAddress + clamp file offset length) →
    ¬f.OwnPage env file offset length s x →
      (f.read env fuel file bufferAddress offset length s).2.memory x = s.memory x
  pages : Returns (f.read env fuel file bufferAddress offset length s).1 →
    (f.read env fuel file bufferAddress offset length s).2.drive.pages = s.drive.pages

/-! ## One stretch -/

section Stretches

variable {f : Fat32} {env : Environment} {bufferAddress length k cluster bufferPointer : ℕ}
  {r : Stretch} {s t : Host}

theorem accepts_mono {position n i : ℕ} (hk : k ≤ i) (h : VirtioBlk.Accepts position n i) :
    VirtioBlk.Accepts position n k :=
  ⟨h.1, h.2.1, by have := h.2.2; omega⟩

/-- The device takes the sectors. -/
def TakesSectors (f : Fat32) (sector sectors k : ℕ) : Prop :=
  ∃ position, f.sectorRange sector sectors = some (position, sectors * f.bytesPerSector) ∧
    VirtioBlk.Accepts position (sectors * f.bytesPerSector) k

/-- What a read of sectors can have changed. -/
structure SectorsRead (f : Fat32) (buffer sector sectors : ℕ) (s₀ s : Host) : Prop where
  memory : ∀ x, ¬(buffer ≤ x ∧ x < buffer + sectors * f.bytesPerSector % 2 ^ 32) →
    s.memory x = s₀.memory x
  refused : ¬f.TakesSectors sector sectors s₀.drive.availIdx → s.memory = s₀.memory
  bookkeeping : VirtioBlk.bookkeeping s = VirtioBlk.bookkeeping s₀

theorem sectorRange_length {sector sectors : ℕ} {range : ℕ × ℕ}
    (h : f.sectorRange sector sectors = some range) : range.2 = sectors * f.bytesPerSector := by
  simp only [sectorRange, Option.bind_eq_bind, Option.bind_eq_some_iff] at h
  obtain ⟨base, -, position, -, h⟩ := h
  rw [← Option.some.inj h]

theorem readSectors_triple (buffer sector sectors : ℕ) (s₀ : Host) :
    Effect.Triple (fun s => s = s₀) (f.readSectors env buffer sector sectors)
      (fun _ s => SectorsRead f buffer sector sectors s₀ s ∧
        f.TakesSectors sector sectors s₀.drive.availIdx ∧
        s.drive.availIdx = s₀.drive.availIdx + 1)
      (SectorsRead f buffer sector sectors s₀) := by
  rw [readSectors]
  apply Effect.Triple.checked_bind
  · rintro ⟨position, n⟩ hrange
    obtain rfl : n = sectors * f.bytesPerSector := sectorRange_length hrange
    have hread : ∀ {s}, VirtioBlk.Reads buffer position (sectors * f.bytesPerSector) s₀ s →
        SectorsRead f buffer sector sectors s₀ s := by
      intro s hs
      refine ⟨hs.memory, fun hrefused => hs.refused fun haccepts => ?_, hs.bookkeeping⟩
      exact hrefused ⟨position, hrange, haccepts⟩
    exact (VirtioBlk.operationSync_triple s₀).mono (fun _ h => h)
      (fun _ s hs => ⟨hread hs.toReads, ⟨position, hrange, hs.accepted⟩, hs.counted⟩)
      fun s hs => hread hs
  · rintro s rfl
    exact ⟨fun _ _ => rfl, fun _ => rfl, rfl⟩

/-- What a stretch can have changed: the buffer behind the pointer if it gets to the device,
or the bounce buffer and, as far as its bytes go, the beginning of the buffer. -/
def Writes (f : Fat32) (env : Environment) (bufferAddress k cluster bufferPointer : ℕ)
    (r : Stretch) (s : Host) (x : ℕ) : Prop :=
  if r.dataOffsetBackup = 0 then
    f.Issued bufferAddress k cluster bufferPointer r ∧ bufferAddress + bufferPointer ≤ x ∧
      x < bufferAddress + bufferPointer + r.size f
  else
    bufferAddress ≤ x ∧ x < bufferAddress + r.bytes ∨
      ∃ pages address, f.bouncePages r.sectors = some pages ∧
        env.allocatePages s.drive.allocations pages = some address ∧ address ≤ x ∧
          x < address + pages * 2 ^ pageShift

/-- Nothing else has changed. -/
def Unwritten (f : Fat32) (env : Environment) (bufferAddress k cluster bufferPointer : ℕ)
    (r : Stretch) (s₀ s : Host) : Prop :=
  ∀ x, ¬f.Writes env bufferAddress k cluster bufferPointer r s₀ x → s.memory x = s₀.memory x

/-- The bounce buffer is large enough. -/
theorem size_le_bouncePages {pages : ℕ} (h : f.bouncePages r.sectors = some pages) :
    r.size f ≤ pages * 2 ^ pageShift := by
  simp only [bouncePages, Option.bind_eq_bind, Option.bind_eq_some_iff] at h
  obtain ⟨mask, hmask, aligned, haligned, h⟩ := h
  obtain ⟨hlba, rfl⟩ := Checked.sub_eq_some.1 hmask
  obtain ⟨-, rfl⟩ := Checked.add_eq_some.1 haligned
  have hpages := Option.some.inj h
  have hand := Nat.and_le_right (n := r.sectors * f.bytesPerSector) (m := f.lbaSize - 1)
  have hsize : r.size f ≤ r.sectors * f.bytesPerSector := Nat.mod_le _ _
  generalize r.sectors * f.bytesPerSector = n at *
  have hle : n ≤ n - (n &&& (f.lbaSize - 1)) + f.lbaSize := by omega
  have hdiv := Nat.lt_div_mul_add (a := n - (n &&& (f.lbaSize - 1)) + f.lbaSize)
    (b := 2 ^ pageShift) (by decide)
  rw [← hpages, Nat.add_mul, one_mul]
  omega

theorem readDirect_triple (hk : k ≤ s.drive.availIdx) (hpages : f.bouncePages r.sectors ≠ none)
    (hdirect : r.dataOffsetBackup = 0) :
    Effect.Triple (fun s' => s' = s) (f.readDirect env bufferAddress cluster bufferPointer r)
      (fun _ t => f.Unwritten env bufferAddress k cluster bufferPointer r s t ∧
        f.Issued bufferAddress k cluster bufferPointer r ∧ k + 1 ≤ t.drive.availIdx)
      (f.Unwritten env bufferAddress k cluster bufferPointer r s) := by
  have hnothing : ∀ s', s' = s → f.Unwritten env bufferAddress k cluster bufferPointer r s s' :=
    fun s' hs' x _ => by rw [hs']
  rw [readDirect]
  apply Effect.Triple.checked_bind _ hnothing
  intro buffer hbuffer
  obtain ⟨hword, rfl⟩ := Checked.add_eq_some.1 hbuffer
  apply Effect.Triple.checked_bind _ hnothing
  intro sector hsector
  have hissued : f.TakesSectors sector r.sectors s.drive.availIdx →
      f.Issued bufferAddress k cluster bufferPointer r := by
    rintro ⟨position, hrange, haccepts⟩
    exact ⟨hpages, fun _ => hword, fun h => absurd hdirect h, sector, position, hsector, hrange,
      accepts_mono hk haccepts⟩
  have hframe : ∀ {t : Host}, SectorsRead f (bufferAddress + bufferPointer) sector r.sectors s t →
      f.Unwritten env bufferAddress k cluster bufferPointer r s t := by
    intro t ht x hx
    rw [Writes, if_pos hdirect] at hx
    by_cases htakes : f.TakesSectors sector r.sectors s.drive.availIdx
    · exact ht.memory x fun hin => hx ⟨hissued htakes, hin⟩
    · exact congrFun (ht.refused htakes) x
  apply (readSectors_triple (bufferAddress + bufferPointer) sector r.sectors s).afterwards
  · rintro _ t ⟨hread, htakes, hcounted⟩
    refine ⟨fun x hx => hframe hread x hx, hissued htakes, ?_⟩
    show k + 1 ≤ t.drive.availIdx
    omega
  · intro t hread x hx
    exact hframe hread x hx

theorem readBounced_triple {pages : ℕ} (hk : k ≤ s.drive.availIdx)
    (hpages : f.bouncePages r.sectors = some pages) (hbounced : r.dataOffsetBackup ≠ 0) :
    Effect.Triple (fun s' => s' = s)
      (f.readBounced env bufferAddress cluster bufferPointer pages r)
      (fun _ t => f.Unwritten env bufferAddress k cluster bufferPointer r s t ∧
        f.Issued bufferAddress k cluster bufferPointer r ∧ k + 1 ≤ t.drive.availIdx)
      (f.Unwritten env bufferAddress k cluster bufferPointer r s) := by
  have hallocate : Effect.Triple (fun s' => s' = s) (allocatePages env pages)
      (fun address t => (t.memory = s.memory ∧ t.drive.availIdx = s.drive.availIdx) ∧
        env.allocatePages s.drive.allocations pages = some address)
      (f.Unwritten env bufferAddress k cluster bufferPointer r s) := by
    rintro s' rfl
    rw [allocatePages]
    cases hallocated : env.allocatePages s'.drive.allocations pages with
    | none => exact fun x _ => rfl
    | some address => exact ⟨⟨rfl, rfl⟩, rfl⟩
  rw [readBounced]
  apply hallocate.bind
  intro address
  apply Effect.Triple.assuming
  intro hallocated
  apply Effect.Triple.of_states
  rintro s₁ ⟨hmemory, hidx⟩
  have hunwritten : ∀ {t : Host}, t.memory = s.memory →
      f.Unwritten env bufferAddress k cluster bufferPointer r s t := fun ht x _ => by rw [ht]
  apply Effect.Triple.checked_bind _ (by rintro s' rfl; exact hunwritten hmemory)
  intro sector hsector
  have hissued : f.TakesSectors sector r.sectors s₁.drive.availIdx → bufferPointer = 0 →
      f.Issued bufferAddress k cluster bufferPointer r := by
    rintro ⟨position, hrange, haccepts⟩ hzero
    refine ⟨by simp [hpages], fun h => absurd h hbounced, fun _ => hzero, sector, position,
      hsector, hrange, accepts_mono ?_ haccepts⟩
    omega
  have hread : ∀ {t : Host}, SectorsRead f address sector r.sectors s₁ t →
      f.Unwritten env bufferAddress k cluster bufferPointer r s t := by
    intro t ht x hx
    rw [← hmemory]
    apply ht.memory
    intro hin
    rw [Writes, if_neg hbounced] at hx
    refine hx (Or.inr ⟨pages, address, hpages, hallocated, hin.1, ?_⟩)
    exact lt_of_lt_of_le hin.2 (Nat.add_le_add_left (size_le_bouncePages hpages) _)
  have hattempt : Effect.Triple (fun s' => s' = s₁)
      (Effect.attempt (f.readSectors env address sector r.sectors))
      (fun result t => f.Unwritten env bufferAddress k cluster bufferPointer r s t ∧
        (result.isSome → f.TakesSectors sector r.sectors s₁.drive.availIdx ∧
          t.drive.availIdx = s₁.drive.availIdx + 1))
      (f.Unwritten env bufferAddress k cluster bufferPointer r s) := by
    apply Effect.Triple.attempt
    · exact (readSectors_triple address sector r.sectors s₁).mono (fun _ h => h)
        (fun _ t ht => ⟨hread ht.1, fun _ => ht.2⟩) fun _ ht => hread ht
    · intro t ht
      exact ⟨ht, fun h => absurd h (by simp)⟩
  apply hattempt.bind
  intro result
  cases result with
  | none =>
    have hfree : Effect.Triple (fun t =>
        f.Unwritten env bufferAddress k cluster bufferPointer r s t ∧
        ((none : Option PUnit).isSome → f.TakesSectors sector r.sectors s₁.drive.availIdx ∧
          t.drive.availIdx = s₁.drive.availIdx + 1)) (freePages address pages)
        (fun _ => f.Unwritten env bufferAddress k cluster bufferPointer r s)
        (f.Unwritten env bufferAddress k cluster bufferPointer r s) := .change fun t ht => ht.1
    exact hfree.bind fun _ => .fail fun t ht => ht
  | some _ =>
    apply Effect.Triple.checked_bind _ fun t ht => ht.1
    intro _ hrequire
    have hzero := Checked.require_eq_some.1 hrequire
    rintro t ⟨hkept, hdone⟩
    obtain ⟨htakes, hcounted⟩ := hdone rfl
    refine ⟨fun x hx => ?_, hissued htakes hzero, ?_⟩
    · have hcopy : ¬(bufferAddress ≤ x ∧ x < bufferAddress + r.bytes) := by
        rw [Writes, if_neg hbounced] at hx
        exact fun hin => hx (Or.inl hin)
      exact (copyBytes_of_not_mem hcopy).trans (hkept x hx)
    · show k + 1 ≤ t.drive.availIdx
      omega

/-- A stretch changes what `Writes` says, and once it is read it was a request of the
call. -/
theorem readPart_triple (hk : k ≤ s.drive.availIdx) :
    Effect.Triple (fun s' => s' = s) (f.readPart env bufferAddress cluster bufferPointer r)
      (fun _ t => f.Unwritten env bufferAddress k cluster bufferPointer r s t ∧
        f.Issued bufferAddress k cluster bufferPointer r ∧ k + 1 ≤ t.drive.availIdx)
      (f.Unwritten env bufferAddress k cluster bufferPointer r s) := by
  rw [readPart]
  apply Effect.Triple.checked_bind
  · intro pages hpages
    by_cases hdirect : r.dataOffsetBackup = 0
    · rw [if_neg (not_not.2 hdirect)]
      exact readDirect_triple hk (by simp [hpages]) hdirect
    · rw [if_pos hdirect]
      exact readBounced_triple hk hpages hdirect
  · rintro s' rfl x _
    rfl

end Stretches

/-! ## The loop -/

section Loop

variable {f : Fat32} {env : Environment}
  {bufferAddress length k dataOffset cluster bufferPointer fuel : ℕ} {file : FileInfo}
  {r r' : Stretch} {s s₀ t : Host}

/-- The memory outside of the caller's buffer and of the pages `own` is as it was. -/
def Kept (bufferAddress length : ℕ) (own : ℕ → Prop) (s₀ s : Host) : Prop :=
  ∀ x, ¬(bufferAddress ≤ x ∧ x < bufferAddress + length) → ¬own x → s.memory x = s₀.memory x

/-- Behind the first stretch everything is read directly. -/
theorem Gathers.direct (h : f.Gathers length r r') (hr : r.dataOffset = 0)
    (hbackup : r.dataOffsetBackup = 0) : r'.dataOffsetBackup = 0 := by
  have hskip : ∀ {r : Stretch}, r.dataOffset = 0 → f.skipSectors r = r := by
    intro r hr
    rw [skipSectors, if_neg (by omega)]
  induction h with
  | last h =>
    rw [hskip hr] at h
    obtain ⟨-, ⟨-, -, rfl⟩ | ⟨-, -, next, -, ⟨-, -, rfl⟩ | ⟨-, hfalse, -⟩⟩⟩ := extend_cases h
    · exact hbackup
    · exact hbackup
    · exact absurd hfalse (by decide)
  | next h _ ih =>
    rw [hskip hr] at h
    obtain ⟨-, ⟨-, htrue, -⟩ | ⟨-, -, next, -, ⟨-, htrue, -⟩ | ⟨-, -, rfl⟩⟩⟩ := extend_cases h
    · exact absurd htrue (by decide)
    · exact absurd htrue (by decide)
    · exact ih rfl hbackup

/-- The stretch stays in the caller's buffer and the pages `own`. -/
theorem Unwritten.kept {own : ℕ → Prop} (hr : f.Gathers length (.start dataOffset cluster) r)
    (hinside : ¬f.Overruns bufferAddress length k dataOffset cluster bufferPointer)
    (hle : r.bytes ≤ length)
    (hown : r.dataOffsetBackup ≠ 0 → ∀ pages address, f.bouncePages r.sectors = some pages →
      env.allocatePages s.drive.allocations pages = some address →
        ∀ x, address ≤ x → x < address + pages * 2 ^ pageShift → own x)
    (h : f.Unwritten env bufferAddress k cluster bufferPointer r s t) :
    Kept bufferAddress length own s t := by
  intro x hout hx
  apply h
  intro hwrites
  rw [Writes] at hwrites
  split_ifs at hwrites with hdirect
  · obtain ⟨hissued, hge, hlt⟩ := hwrites
    refine hinside (.here hr hissued hdirect (by omega) ?_)
    by_contra hfits
    exact hout ⟨by omega, by omega⟩
  · rcases hwrites with hin | ⟨pages, address, hpages, hallocated, hge, hlt⟩
    · exact hout ⟨hin.1, by omega⟩
    · exact hx (hown hdirect pages address hpages hallocated x hge hlt)

theorem Kept.trans {own : ℕ → Prop} (h₁ : Kept bufferAddress length own s₀ s)
    (h₂ : Kept bufferAddress length own s t) : Kept bufferAddress length own s₀ t :=
  fun x hout hx => (h₂ x hout hx).trans (h₁ x hout hx)

theorem liftExcept_triple {α β : Type} {x : Except Fault α} {g : α → Effect Host β}
    {P : Host → Prop} {Q : β → Host → Prop} {E : Host → Prop}
    (hok : ∀ a, x = .ok a → Effect.Triple P (g a) Q E) (hE : ∀ s, P s → E s) :
    Effect.Triple P (liftExcept x >>= g) Q E := by
  cases x with
  | ok a => exact hok a rfl
  | error e => exact hE

theorem liftExcept_ok_bind {α β : Type} {a : α} {g : α → Effect Host β} :
    (liftExcept (.ok a) >>= g) s = g a s := rfl

/-- One round of the loop, with the rounds behind it as a hypothesis. -/
theorem readLoop_succ_triple {own : ℕ → Prop} (hd : dataOffset < f.bytesPerCluster)
    (hinside : ¬f.Overruns bufferAddress length k dataOffset cluster bufferPointer)
    (hown : ∀ r, f.Gathers length (.start dataOffset cluster) r → r.dataOffsetBackup ≠ 0 →
      ∀ pages address, f.bouncePages r.sectors = some pages →
        env.allocatePages s.drive.allocations pages = some address →
          ∀ x, address ≤ x → x < address + pages * 2 ^ pageShift → own x)
    (hrest : ∀ next q, ¬f.Overruns bufferAddress length (k + 1) 0 next q →
      Effect.Triple (fun t => Kept bufferAddress length own s₀ t ∧ k + 1 ≤ t.drive.availIdx)
        (f.readLoop env bufferAddress length fuel 0 next q)
        (fun _ => Kept bufferAddress length own s₀) (Kept bufferAddress length own s₀))
    (hkept : Kept bufferAddress length own s₀ s) (hk : k ≤ s.drive.availIdx) :
    Effect.Triple (fun s' => s' = s)
      (f.readLoop env bufferAddress length (fuel + 1) dataOffset cluster bufferPointer)
      (fun _ => Kept bufferAddress length own s₀) (Kept bufferAddress length own s₀) := by
  rw [readLoop_succ]
  apply liftExcept_triple _ (by rintro s' rfl; exact hkept)
  intro r hstretch
  have hr := readStretch_gathers hstretch
  have hle := (hr.whole_of_start hd).le
  have hpart : Effect.Triple (fun s' => s' = s)
      (f.readPart env bufferAddress cluster bufferPointer r)
      (fun _ t => (Kept bufferAddress length own s₀ t ∧ k + 1 ≤ t.drive.availIdx) ∧
        f.Issued bufferAddress k cluster bufferPointer r) (Kept bufferAddress length own s₀) := by
    apply (readPart_triple hk).mono fun _ h => h
    · rintro _ t ⟨hunwritten, hissued, hnext⟩
      exact ⟨⟨hkept.trans (hunwritten.kept hr hinside hle (hown r hr)), hnext⟩, hissued⟩
    · intro t hunwritten
      exact hkept.trans (hunwritten.kept hr hinside hle (hown r hr))
  apply hpart.bind
  intro _
  apply Effect.Triple.assuming
  intro hissued
  rw [advance]
  apply Effect.Triple.checked_bind _ fun t ht => ht.1
  intro q hq
  obtain ⟨hword, rfl⟩ := Checked.add_eq_some.1 hq
  split_ifs with hdone
  · exact .pure fun t ht => ht.1
  apply liftExcept_triple _ fun t ht => ht.1
  intro next hnext
  exact hrest next _ fun hover => hinside (.later hr hissued hword hdone hnext hover)

theorem readLoop_triple {own : ℕ → Prop} (hpos : 0 < f.bytesPerCluster)
    (hinside : ¬f.Overruns bufferAddress length k 0 cluster bufferPointer) :
    Effect.Triple (fun s => Kept bufferAddress length own s₀ s ∧ k ≤ s.drive.availIdx)
      (f.readLoop env bufferAddress length fuel 0 cluster bufferPointer)
      (fun _ => Kept bufferAddress length own s₀) (Kept bufferAddress length own s₀) := by
  induction fuel generalizing k cluster bufferPointer with
  | zero => exact .fail fun s hs => hs.1
  | succ fuel ih =>
    apply Effect.Triple.of_states
    rintro s ⟨hkept, hk⟩
    refine readLoop_succ_triple hpos hinside ?_ (fun next q hq => ih hq) hkept hk
    intro r hr hbounced
    exact absurd (hr.direct rfl rfl) hbounced

/-- Without an overrun, nothing but the buffer and the call's own pages changes. -/
theorem read_kept {offset n : ℕ}
    (hlocate : f.locate file offset length = .ok (some (n, dataOffset, cluster)))
    (hinside : ¬f.Overruns bufferAddress n 0 dataOffset cluster 0) :
    Kept bufferAddress n (f.OwnPage env file offset length s) s
      (f.readLoop env bufferAddress n fuel dataOffset cluster 0 s).2 := by
  obtain ⟨-, hpos, hoffset, -⟩ := locate_eq_some hlocate
  have hself : Kept bufferAddress n (f.OwnPage env file offset length s) s s := fun _ _ _ => rfl
  cases fuel with
  | zero => exact hself
  | succ fuel =>
    have hd : dataOffset < f.bytesPerCluster := hoffset ▸ Nat.mod_lt _ hpos
    have hown : ∀ r, f.Gathers n (.start dataOffset cluster) r → r.dataOffsetBackup ≠ 0 →
        ∀ pages address, f.bouncePages r.sectors = some pages →
          env.allocatePages s.drive.allocations pages = some address →
            ∀ x, address ≤ x → x < address + pages * 2 ^ pageShift →
              f.OwnPage env file offset length s x := by
      intro r hr hbounced pages address hpages hallocated x hge hlt
      exact ⟨n, dataOffset, cluster, r, pages, address, hlocate, hr, hbounced, hpages, hallocated,
        hge, hlt⟩
    exact (readLoop_succ_triple hd hinside hown (fun next q hq => readLoop_triple hpos hq) hself
      (Nat.zero_le _)).state rfl

end Loop

/-! ## The pages -/

section Pages

variable {f : Fat32} {env : Environment} {bufferAddress length dataOffset cluster bufferPointer : ℕ}
  {fuel : ℕ} {r : Stretch} {s : Host}

theorem readSectors_keeps_pages {buffer sector sectors : ℕ} :
    Effect.Keeps (fun s : Host => s.drive.pages) (f.readSectors env buffer sector sectors) := by
  intro s
  have hread : Effect.Triple (fun s' => s' = s) (f.readSectors env buffer sector sectors)
      (fun _ => SectorsRead f buffer sector sectors s) (SectorsRead f buffer sector sectors s) :=
    (readSectors_triple buffer sector sectors s).mono (fun _ h => h) (fun _ _ ht => ht.1)
      fun _ h => h
  exact congrArg Prod.fst (hread.state rfl).bookkeeping

/-- The bounce buffer is freed on both ways out. -/
theorem readBounced_restores {pages : ℕ} : Effect.Restores (fun s : Host => s.drive.pages)
    (f.readBounced env bufferAddress cluster bufferPointer pages r) := by
  intro s hcalm
  rw [readBounced] at hcalm ⊢
  cases hallocated : env.allocatePages s.drive.allocations pages with
  | none =>
    have hfail : allocatePages env pages s =
        (.error .err, { s with drive.allocations := s.drive.allocations + 1 }) := by
      simp only [allocatePages, hallocated]
    rw [Effect.bind_error hfail]
  | some address =>
    obtain ⟨s₁, hs₁, hpages⟩ : ∃ s₁, allocatePages env pages s = (.ok address, s₁) ∧
        s₁.drive.pages = (address, pages) :: s.drive.pages := by
      simp only [allocatePages, hallocated]
      exact ⟨_, rfl, rfl⟩
    have hfreed : ∀ {t : Host}, t.drive.pages = s₁.drive.pages →
        t.drive.pages.erase (address, pages) = s.drive.pages := by
      intro t ht
      rw [ht, hpages, List.erase_cons_head]
    rw [Effect.bind_ok hs₁]
    obtain ⟨sector, hsector, hcalm⟩ :=
      Effect.Calm.checked_bind_iff.1 ((Effect.Calm.bind_of_ok hs₁).1 hcalm)
    rw [hsector, Effect.checked_bind]
    obtain ⟨hcalm_read, hcalm⟩ := Effect.Calm.bind_iff.1 hcalm
    obtain ⟨result, t, hread⟩ :=
      Effect.Ends.attempt_ok readSectors_ends (Effect.Calm.attempt_iff.1 hcalm_read)
    have ht : t.drive.pages = s₁.drive.pages := readSectors_keeps_pages.attempt.eq hread
    rw [Effect.bind_ok hread]
    have hcalm := hcalm result t hread
    cases result with
    | none => exact hfreed ht
    | some _ =>
      obtain ⟨_, hzero, -⟩ := Effect.Calm.checked_bind_iff.1 hcalm
      rw [hzero]
      exact hfreed ht

theorem readPart_restores : Effect.Restores (fun s : Host => s.drive.pages)
    (f.readPart env bufferAddress cluster bufferPointer r) := by
  rw [readPart]
  apply (Effect.Restores.of_keeps (.checked _)).bind
  intro pages
  split_ifs with hbounced
  · exact readBounced_restores
  · rw [readDirect]
    apply Effect.Restores.of_keeps
    refine .bind (.checked _) fun buffer => .bind (.checked _) fun sector => ?_
    exact readSectors_keeps_pages.afterwards fun _ => rfl

theorem readLoop_restores : Effect.Restores (fun s : Host => s.drive.pages)
    (f.readLoop env bufferAddress length fuel dataOffset cluster bufferPointer) := by
  induction fuel generalizing dataOffset cluster bufferPointer with
  | zero => exact .of_keeps (.fail _)
  | succ fuel ih =>
    rw [readLoop_succ]
    apply (Effect.Restores.of_keeps (liftExcept_keeps _)).bind
    intro r
    apply readPart_restores.bind
    intro _
    rw [advance]
    apply (Effect.Restores.of_keeps (.checked _)).bind
    intro q
    split_ifs with hdone
    · exact .of_keeps (.pure _)
    · exact (Effect.Restores.of_keeps (liftExcept_keeps _)).bind fun next => ih

/-- Unless it panics, a read frees the pages that it allocated. -/
theorem read_restores {file : FileInfo} {offset : ℕ} :
    Effect.Restores (fun s : Host => s.drive.pages)
      (f.read env fuel file bufferAddress offset length) := by
  rw [read_eq, around]
  apply (Effect.Restores.of_keeps (liftExcept_keeps _)).bind
  intro located
  cases located with
  | none => exact .of_keeps (.pure _)
  | some place => exact readLoop_restores

end Pages

/-! ## A device that serves every request -/

/-- Every request is served, and every bounce buffer is at `address`. -/
def servingAt (address : ℕ) : Environment where
  failure _ := none
  allocatePages _ _ := some address

/-- The disk is full of ones, the queue is empty and has taken `k` requests. -/
structure Serving (k : ℕ) (s : Host) : Prop where
  disk : ∀ y, s.drive.disk y = 1
  free : s.drive.freeBitmap = fun _ => true
  counted : s.drive.availIdx = k

/-- A one that only other ones can overwrite. -/
def Ones (x : ℕ) (s : Host) : Prop := s.memory x = 1 ∧ ∀ y, s.drive.disk y = 1

section Serving

variable {f : Fat32} {env : Environment} {bufferAddress length dataOffset cluster bufferPointer : ℕ}
  {fuel k address x : ℕ} {r r' : Stretch} {s t : Host}

theorem allocateDescriptor_keeps_disk :
    Effect.Keeps (fun s : Host => (s.memory, s.drive.disk)) VirtioBlk.allocateDescriptor := by
  intro s
  rw [VirtioBlk.allocateDescriptor]
  cases (List.range numberOfDescriptors).find? s.drive.freeBitmap with
  | none => rfl
  | some index => rfl

theorem contents_triple {P : Memory → Memory → Prop} {α : Type} {g : Effect Host α}
    (hg : Effect.Keeps (fun s : Host => (s.memory, s.drive.disk)) g) :
    Effect.Triple (fun s => P s.memory s.drive.disk) g (fun _ s => P s.memory s.drive.disk)
      (fun s => P s.memory s.drive.disk) := by
  apply hg.triple _ fun _ h => h
  intro s t hst h
  simp only [Prod.mk.injEq] at hst
  rw [hst.1, hst.2]
  exact h

/-- A request keeps what the device keeps, whether it succeeds or not. -/
theorem operationSync_contents {P : Memory → Memory → Prop} {blockAddress n : ℕ} {isWrite : Bool}
    (hserve : Effect.Triple (fun s => P s.memory s.drive.disk)
      (VirtioBlk.serve env bufferAddress (blockAddress / 512) (n % 2 ^ 32) isWrite)
      (fun _ s => P s.memory s.drive.disk) (fun s => P s.memory s.drive.disk)) :
    Effect.Triple (fun s => P s.memory s.drive.disk)
      (VirtioBlk.operationSync env bufferAddress blockAddress n isWrite)
      (fun _ s => P s.memory s.drive.disk) (fun s => P s.memory s.drive.disk) := by
  rw [VirtioBlk.operationSync]
  apply (contents_triple (.change (by intro; rfl))).bind
  intro _
  split_ifs with hunaligned
  · exact .fail fun s hs => hs
  apply (contents_triple allocateDescriptor_keeps_disk).bind
  intro first
  apply (contents_triple allocateDescriptor_keeps_disk).bind
  intro second
  apply (contents_triple allocateDescriptor_keeps_disk).bind
  intro third
  apply (contents_triple (.look _)).bind
  intro idx
  apply (contents_triple (.checked _)).bind
  intro next
  apply (contents_triple (.change (by intro; rfl))).bind
  intro _
  apply hserve.bind
  intro done
  apply (contents_triple (.change (by intro; rfl))).bind
  intro _
  apply (contents_triple (.change (by intro; rfl))).bind
  intro _
  apply (contents_triple (.change (by intro; rfl))).bind
  intro _
  split_ifs with hdone
  · exact .pure fun s hs => hs
  · exact .fail fun s hs => hs

theorem ones_triple {α : Type} {g : Effect Host α}
    (hg : Effect.Keeps (fun s : Host => (s.memory, s.drive.disk)) g) :
    Effect.Triple (Ones x) g (fun _ => Ones x) (Ones x) :=
  contents_triple (P := fun memory disk => memory x = 1 ∧ ∀ y, disk y = 1) hg

theorem operationSync_ones {blockAddress n : ℕ} : Effect.Triple (Ones x)
    (VirtioBlk.operationSync env bufferAddress blockAddress n false) (fun _ => Ones x)
    (Ones x) := by
  apply operationSync_contents (P := fun memory disk => memory x = 1 ∧ ∀ y, disk y = 1)
  rintro s ⟨hone, hdisk⟩
  refine ⟨?_, hdisk⟩
  show copyBytes _ _ _ _ _ x = 1
  rw [copyBytes]
  split_ifs with hin
  · exact hdisk _
  · exact hone

theorem readPart_ones (hdirect : r.dataOffsetBackup = 0) : Effect.Triple (Ones x)
    (f.readPart env bufferAddress cluster bufferPointer r) (fun _ => Ones x) (Ones x) := by
  rw [readPart]
  apply (ones_triple (.checked _)).bind
  intro pages
  rw [if_neg (not_not.2 hdirect), readDirect]
  apply (ones_triple (.checked _)).bind
  intro buffer
  apply (ones_triple (.checked _)).bind
  intro sector
  have hread : Effect.Triple (Ones x) (f.readSectors env buffer sector r.sectors)
      (fun _ => Ones x) (Ones x) := by
    rw [readSectors]
    apply (ones_triple (.checked _)).bind
    rintro ⟨position, n⟩
    exact operationSync_ones
  exact hread.afterwards (fun _ s hs => hs) fun s hs => hs

/-- What the next iterations keep is kept. -/
theorem advance_triple {P : Host → Prop} {loop : ℕ → ℕ → Effect Host ℕ}
    (hloop : ∀ next q, Effect.Triple P (loop next q) (fun _ => P) P) :
    Effect.Triple P (f.advance length loop bufferPointer r) (fun _ => P) P := by
  have hchecked : ∀ {α : Type} (o : Option α), Effect.Triple P (Effect.checked o) (fun _ => P) P :=
    fun o => .checked (fun _ _ s hs => hs) fun s hs => hs
  rw [advance]
  apply (hchecked _).bind
  intro q
  split_ifs with hdone
  · exact .pure fun s hs => hs
  · exact liftExcept_triple (fun next _ => hloop next q) fun s hs => hs

theorem readLoop_ones : Effect.Triple (Ones x)
    (f.readLoop env bufferAddress length fuel 0 cluster bufferPointer)
    (fun _ => Ones x) (Ones x) := by
  induction fuel generalizing cluster bufferPointer with
  | zero => exact .fail fun s hs => hs
  | succ fuel ih =>
    rw [readLoop_succ]
    apply liftExcept_triple _ fun s hs => hs
    intro r hr
    have hdirect := (readStretch_gathers hr).direct rfl rfl
    exact (readPart_ones hdirect).bind fun _ => advance_triple fun next q => ih

/-- The inner loop gets to the end of its stretch. -/
theorem Gathers.readStretch (h : f.Gathers length r r') :
    ∃ fuel, ∀ more, f.readStretch length (fuel + more) r = .ok r' := by
  induction h with
  | last h =>
    refine ⟨1, fun more => ?_⟩
    rw [Nat.add_comm, Fat32.readStretch, h]
    rfl
  | next h _ ih =>
    obtain ⟨fuel, hfuel⟩ := ih
    refine ⟨fuel + 1, fun more => ?_⟩
    rw [Nat.add_right_comm, Fat32.readStretch, h]
    exact hfuel more

theorem allocateDescriptor_serving {index : ℕ}
    (h : (List.range numberOfDescriptors).find? s.drive.freeBitmap = some index) :
    VirtioBlk.allocateDescriptor s = (.ok index,
      { s with drive.freeBitmap := Function.update s.drive.freeBitmap index false }) := by
  rw [VirtioBlk.allocateDescriptor, h]

/-- The request is served, and the queue is empty again. -/
theorem operationSync_serving {blockAddress n : ℕ} (hs : Serving k s)
    (haccepts : VirtioBlk.Accepts blockAddress n k) :
    ∃ t, VirtioBlk.operationSync (servingAt address) bufferAddress blockAddress n false s =
        (.ok ⟨⟩, t) ∧ Serving (k + 1) t ∧
      ∀ x, bufferAddress ≤ x → x < bufferAddress + n % 2 ^ 32 → t.memory x = 1 := by
  obtain ⟨hblock, hn, hfits⟩ := haccepts
  obtain ⟨memory, ⟨disk, freeBitmap, availIdx, requests, allocations, pages, moved⟩, delivered⟩ := s
  obtain ⟨hdisk, hfree, hcounted⟩ := hs
  obtain rfl : freeBitmap = fun _ => true := hfree
  obtain rfl : availIdx = k := hcounted
  have hidx : Checked.add 16 availIdx 1 = some (availIdx + 1) := Checked.add_eq_some.2 ⟨hfits, rfl⟩
  have haligned : ¬(blockAddress % 512 ≠ 0 ∨ n % 512 ≠ 0) := by
    rw [not_or, not_not, not_not]
    exact ⟨hblock, hn⟩
  have hback : Function.update (Function.update (Function.update (Function.update (Function.update
      (Function.update (fun _ : ℕ => true) 0 false) 1 false) 2 false) 0 true) 1 true) 2 true =
        fun _ => true := by
    funext i
    simp only [Function.update_apply]
    split_ifs <;> rfl
  refine ⟨{
    memory := copyBytes memory bufferAddress disk (blockAddress / 512 * 512) (n % 2 ^ 32)
    drive := ⟨disk, fun _ => true, availIdx + 1, requests + 1, allocations, pages, n % 2 ^ 32⟩
    delivered := delivered }, ?_, ⟨hdisk, rfl, rfl⟩, ?_⟩
  · rw [VirtioBlk.operationSync, Effect.change_bind, if_neg haligned,
      Effect.bind_ok (allocateDescriptor_serving rfl),
      Effect.bind_ok (allocateDescriptor_serving rfl),
      Effect.bind_ok (allocateDescriptor_serving rfl), Effect.look_bind]
    change (Effect.checked (Checked.add 16 availIdx 1) >>= _) _ = _
    rw [hidx, Effect.checked_bind]
    refine Prod.ext rfl ?_
    exact congrArg (fun b => Host.mk (copyBytes memory bufferAddress disk
      (blockAddress / 512 * 512) (n % 2 ^ 32)) ⟨disk, b, availIdx + 1, requests + 1, allocations,
        pages, n % 2 ^ 32⟩ delivered) hback
  · intro x hge hlt
    obtain ⟨i, rfl⟩ := Nat.exists_eq_add_of_le hge
    exact (copyBytes_of_mem (by omega)).trans (hdisk _)

/-- The stretch is read, and if it goes straight into the buffer, it fills it with ones. -/
theorem readPart_serving (address : ℕ) (hs : Serving k s)
    (hissued : f.Issued bufferAddress k cluster bufferPointer r) :
    ∃ t, f.readPart (servingAt address) bufferAddress cluster bufferPointer r s = (.ok ⟨⟩, t) ∧
      Serving (k + 1) t ∧ (r.dataOffsetBackup = 0 → ∀ x, bufferAddress + bufferPointer ≤ x →
        x < bufferAddress + bufferPointer + r.size f → t.memory x = 1) := by
  obtain ⟨hpages, hword, hzero, sector, position, hsector, hrange, haccepts⟩ := hissued
  obtain ⟨pages, hpages⟩ := Option.ne_none_iff_exists'.1 hpages
  have hread : ∀ (buffer : ℕ) (s : Host), Serving k s →
      ∃ t, f.readSectors (servingAt address) buffer sector r.sectors s = (.ok ⟨⟩, t) ∧
        Serving (k + 1) t ∧ ∀ x, buffer ≤ x → x < buffer + r.size f → t.memory x = 1 := by
    intro buffer s hs
    rw [readSectors, hrange, Effect.checked_bind]
    exact operationSync_serving hs haccepts
  rw [readPart, hpages, Effect.checked_bind]
  by_cases hdirect : r.dataOffsetBackup = 0
  · obtain ⟨t, ht, hserving, hones⟩ := hread (bufferAddress + bufferPointer) s hs
    rw [if_neg (not_not.2 hdirect), readDirect, Checked.add_eq_some.2 ⟨hword hdirect, rfl⟩,
      Effect.checked_bind, hsector, Effect.checked_bind, Effect.afterwards, ht]
    exact ⟨_, rfl, ⟨hserving.disk, hserving.free, hserving.counted⟩, fun _ => hones⟩
  · obtain ⟨s₁, hallocated, hs₁⟩ : ∃ s₁, allocatePages (servingAt address) pages s =
        (.ok address, s₁) ∧ Serving k s₁ := ⟨_, rfl, hs.disk, hs.free, hs.counted⟩
    obtain ⟨t, ht, hserving, -⟩ := hread address s₁ hs₁
    obtain rfl := hzero hdirect
    rw [if_pos hdirect, readBounced, Effect.bind_ok hallocated, hsector, Effect.checked_bind,
      Effect.bind_ok (Effect.attempt_eq_some.2 ht)]
    exact ⟨_, rfl, ⟨hserving.disk, hserving.free, hserving.counted⟩, fun h => absurd h hdirect⟩

/-- An overrun happens, with enough fuel and wherever the bounce buffer is. -/
theorem Overruns.happens
    (h : f.Overruns bufferAddress length k dataOffset cluster bufferPointer) :
    ∃ x enough, bufferAddress + length ≤ x ∧ ∀ address more s, Serving k s →
      (f.readLoop (servingAt address) bufferAddress length (enough + more) dataOffset cluster
        bufferPointer s).2.memory x = 1 := by
  induction h with
  | @here k dataOffset cluster bufferPointer r hr hissued hdirect hpos hover =>
    obtain ⟨enough, hstretch⟩ := hr.readStretch
    refine ⟨bufferAddress + max length bufferPointer, enough + 1, by omega, ?_⟩
    intro address more s hs
    obtain ⟨t, ht, hserving, hones⟩ := readPart_serving address hs hissued
    rw [Nat.add_right_comm, readLoop_succ, hstretch]
    rw [liftExcept_ok_bind, Effect.bind_ok ht]
    have hone := hones hdirect (bufferAddress + max length bufferPointer) (by omega) (by omega)
    exact ((advance_triple fun next q => readLoop_ones).state ⟨hone, hserving.disk⟩).1
  | @later k dataOffset cluster bufferPointer next r hr hissued hword hmore hnext _ ih =>
    obtain ⟨enough₁, hstretch⟩ := hr.readStretch
    obtain ⟨x, enough₂, hx, hrest⟩ := ih
    refine ⟨x, enough₁ + enough₂ + 1, hx, ?_⟩
    intro address more s hs
    obtain ⟨t, ht, hserving, -⟩ := readPart_serving address hs hissued
    rw [Nat.add_right_comm, Nat.add_assoc enough₁, readLoop_succ, hstretch]
    rw [liftExcept_ok_bind, Effect.bind_ok ht, advance, Checked.add_eq_some.2 ⟨hword, rfl⟩,
      Effect.checked_bind, if_neg hmore, hnext, liftExcept_ok_bind, Nat.add_left_comm]
    exact hrest address (enough₁ + more) t hserving

end Serving

/-! ## The whole call -/

section Call

variable {f : Fat32} {env : Environment} {file : FileInfo} {bufferAddress offset length fuel : ℕ}
  {n dataOffset cluster : ℕ} {s : Host}

theorem read_of_locate
    (h : f.locate file offset length = .ok (some (n, dataOffset, cluster))) :
    f.read env fuel file bufferAddress offset length s =
      f.readLoop env bufferAddress n fuel dataOffset cluster 0 s := by
  rw [read_eq, around, h]
  rfl

theorem read_of_not_located
    (h : ∀ place, f.locate file offset length ≠ .ok (some place)) :
    (f.read env fuel file bufferAddress offset length s).2 = s := by
  rw [read_eq, around]
  cases hlocate : f.locate file offset length with
  | error e => rfl
  | ok located =>
    cases located with
    | none => rfl
    | some place => exact absurd hlocate (h place)

theorem StaysInside.of_not_overruns
    (h : ∀ n dataOffset cluster, f.locate file offset length = .ok (some (n, dataOffset, cluster)) →
      ¬f.Overruns bufferAddress n 0 dataOffset cluster 0) :
    f.StaysInside env fuel file bufferAddress offset length s where
  memory x hout hown := by
    by_cases hlocated : ∃ place, f.locate file offset length = .ok (some place)
    · obtain ⟨⟨n, dataOffset, cluster⟩, hlocate⟩ := hlocated
      obtain ⟨rfl, -⟩ := locate_eq_some hlocate
      rw [read_of_locate hlocate]
      exact read_kept hlocate (h _ _ _ hlocate) x hout hown
    · rw [read_of_not_located fun place hplace => hlocated ⟨place, hplace⟩]
  pages hreturns := by
    apply read_restores
    obtain ⟨a, ha⟩ | herr := hreturns
    · simp [Effect.Calm, ha]
    · simp [Effect.Calm, herr]

/-- A host whose disk is full of ones and whose memory is empty. -/
def servingHost : Host where
  memory _ := 0
  drive :=
    { disk := fun _ => 1
      freeBitmap := fun _ => true
      availIdx := 0
      requests := 0
      allocations := 0
      pages := []
      moved := 0 }
  delivered := 0

/-- A page behind the byte. -/
theorem lt_pageAbove (x : ℕ) : x < (x / 2 ^ pageShift + 1) * 2 ^ pageShift :=
  Nat.lt_mul_of_div_lt (Nat.lt_succ_self _) (by decide)

/-- The reads that stay inside of their buffer, whatever the device does, are those that never
read a stretch over its end. -/
theorem stays_inside_iff :
    (∀ env fuel s, f.StaysInside env fuel file bufferAddress offset length s) ↔
      ∀ n dataOffset cluster,
        f.locate file offset length = .ok (some (n, dataOffset, cluster)) →
          ¬f.Overruns bufferAddress n 0 dataOffset cluster 0 := by
  constructor
  · intro hinside n dataOffset cluster hlocate hover
    obtain ⟨x, enough, hx, hone⟩ := hover.happens
    obtain ⟨rfl, -⟩ := locate_eq_some hlocate
    let address := (x / 2 ^ pageShift + 1) * 2 ^ pageShift
    have hserving : Serving 0 servingHost := ⟨fun _ => rfl, rfl, rfl⟩
    have hkept := (hinside (servingAt address) enough servingHost).memory x (by omega) (by
      rintro ⟨_, _, _, _, _, address', -, -, -, -, hallocated, hge, -⟩
      obtain rfl : address = address' := Option.some.inj hallocated
      exact absurd hge (Nat.not_le.2 (lt_pageAbove x)))
    rw [read_of_locate hlocate] at hkept
    have hone := hone address 0 servingHost hserving
    rw [Nat.add_zero, hkept] at hone
    exact absurd (show (0 : UInt8) = 1 from hone) (by decide)
  · intro h env fuel s
    exact .of_not_overruns h

end Call

/-- A volume with a file of 100 bytes in its first cluster. -/
def smallVolume : Fat32 where
  baseLba := 0
  lbaSize := 512
  bytesPerSector := 1024
  sectorsPerCluster := 4
  reservedSectors := 1
  fatSectors := 1
  numberOfFats := 1
  fat _ := 0x0FFFFFFF
  bytesPerSector_lt := by decide
  sectorsPerCluster_lt := by decide

def smallFile : FileInfo where
  entryCluster := 2
  fileSize := 100
  fileSize_lt := by decide

/-- The whole file is read, and with it the rest of its sector. -/
theorem small_read_leaves_buffer :
    ¬∀ env fuel s, smallVolume.StaysInside env fuel smallFile 0x1000 0 100 s := by
  intro hinside
  have hkept := (hinside (servingAt 0x8000) 2 servingHost).memory 0x1064 (by decide) (by
    rintro ⟨_, _, _, _, _, address, -, -, -, -, hallocated, hge, -⟩
    obtain rfl : 0x8000 = address := Option.some.inj hallocated
    exact absurd hge (by decide))
  exact absurd hkept (by decide +kernel)

end Fat32

end MiniVisor
