import MiniVisor.BlockRequests

/-!
# Offsets, the status byte and the length in the used ring

A segment goes behind the earlier ones that are in RAM, a status of success only says
that no call of the file system failed, and the used ring is told the length of the
descriptors. Each says what it should on the requests that are described here.
-/
namespace MiniVisor

open Effects

namespace VirtioBlkMmio

variable {p : Platform} {fuel id : ℕ} {s : BlkState} {file : FileInfo} {r : Request}
  {l l₂ : List Segment} {g : Segment}

theorem lengths_cons : lengths (g :: l) = g.descriptor.length + lengths l := by
  simp [lengths]

theorem placed_le : placed l ≤ lengths l := by
  induction l with
  | nil => simp [placed, lengths]
  | cons g l ih =>
    rw [placed, List.filter_cons]
    split_ifs with htransfer
    · rw [lengths_cons, lengths_cons]
      exact Nat.add_le_add_left ih _
    · rw [lengths_cons]
      exact Nat.le_add_left_of_le ih

/-- The transferred segments are all that count when the others are empty. -/
theorem placed_eq_iff : placed l = lengths l ↔
    ∀ g ∈ l, g.transfer = none → g.descriptor.length = 0 := by
  induction l with
  | nil => simp [placed, lengths]
  | cons g l ih =>
    rw [placed, List.filter_cons, lengths_cons, List.forall_mem_cons, ← ih]
    cases htransfer : g.transfer with
    | some tr =>
      rw [if_pos (by simp), lengths_cons, ← placed]
      simp
    | none =>
      have hle : placed l ≤ lengths l := placed_le
      rw [if_neg (by simp), ← placed]
      simp only [true_implies]
      omega

/-- Where the code puts a segment, if it transfers it. -/
theorem Traced.offset (h : Traced p file r) (hr : r.segments = l ++ g :: l₂) {tr : Transfer}
    (htr : g.transfer = some tr) : tr.offset = r.sector * 2 ^ 9 % 2 ^ 64 + placed l :=
  (h l g l₂ hr).offset tr htr

def samplePlatform : Platform where
  ram := ⟨0x40000000, 0x80000000, 0x10000⟩
  fat32 :=
    { baseLba := 0
      lbaSize := 512
      bytesPerSector := 512
      sectorsPerCluster := 1
      reservedSectors := 1
      fatSectors := 1
      numberOfFats := 1
      fat := fun cluster => cluster + 1
      bytesPerSector_lt := by decide
      sectorsPerCluster_lt := by decide }
  env := ⟨fun _ => none, fun _ _ => none⟩

def writeDesc (m : Memory) (address : ℕ) (d : VirtQueueDesc) : Memory :=
  writeLe (writeLe (writeLe (writeLe m address 8 d.address) (address + 8) 4 d.length)
    (address + 12) 2 d.flags) (address + 14) 2 d.next

/-- The descriptors `l`, from `address` on. -/
def writeDescs (m : Memory) : ℕ → List VirtQueueDesc → Memory
  | _, [] => m
  | address, d :: l => writeDescs (writeDesc m address d) (address + 16) l

/-- A request for a file of 1024 bytes, whose header is followed by the descriptors `l`. -/
def sampleState (reqType sector : ℕ) (l : List VirtQueueDesc) : BlkState where
  device :=
    { file := ⟨2, 1024, by decide⟩
      interruptStatus := 0
      status := 0
      queueSize := 8
      queueReady := false
      pageSize := 2 ^ 12
      descriptor := 0x80000000
      availRing := 0x80000080
      usedRing := 0x80001000
      lastAvailId := 1
      usedId := 0 }
  host :=
    { memory := writeDescs
        (writeLe (writeLe (fun _ => 0) 0x80002000 4 reqType) 0x80002008 8 sector)
        0x80000000 (⟨0x40002000, 16, 1, 1⟩ :: l)
      drive := ⟨fun _ => 7, fun _ => true, 0, 0, 0, [], 0⟩
      delivered := 0 }
  distributor := .new 0
  cpu := ⟨0, 0, 0, fun _ => 0, [], []⟩
  accesses := []
  current := ⟨0, 0, []⟩
  completions := []

/-- One segment in RAM. -/
def sampleOne (reqType sector : ℕ) : BlkState :=
  sampleState reqType sector [⟨0x40003000, 512, 1, 2⟩, ⟨0x40004000, 1, 0, 0⟩]

/-- What a status of success should say. -/
def Truthful (r : Request) : Prop :=
  (r.reqType = virtioBlkTypeIn ∨ r.reqType = virtioBlkTypeOut) ∧
    ∀ g ∈ r.segments, ∃ tr, g.transfer = some tr ∧ tr.result = some g.descriptor.length

/-- The segment behind `l` is in the file. -/
def InFile (file : FileInfo) (r : Request) (l : List Segment) (g : Segment) : Prop :=
  r.sector * 2 ^ 9 % 2 ^ 64 + lengths l + g.descriptor.length ≤ file.fileSize ∨
    g.descriptor.length = 0

theorem placed_of_done (h : ∀ g ∈ l, g.Done) : placed l = lengths l := by
  rw [placed_eq_iff]
  intro g hg hnone
  obtain ⟨tr, -, htr, -⟩ := h g hg
  exact absurd (hnone.symm.trans htr) (by simp)

theorem Traced.complete_iff (h : Traced p file r) (hdone : ∀ g ∈ r.segments, g.Done) :
    (∀ g ∈ r.segments, ∃ tr, g.transfer = some tr ∧ tr.result = some g.descriptor.length) ↔
      EachAfter (InFile file r) r.segments := by
  have heach : ∀ l g l₂, r.segments = l ++ g :: l₂ →
      ((∃ tr, g.transfer = some tr ∧ tr.result = some g.descriptor.length) ↔
        InFile file r l g) := by
    intro l g l₂ hr
    obtain ⟨tr, n, htr, hresult⟩ := hdone g (by simp [hr])
    have hclamped := ((h l g l₂ hr).delivered tr htr).clamped n hresult
    have hplaced := placed_of_done (l := l) fun g' hg' => hdone g' (by simp [hr, hg'])
    rw [h.offset hr htr, hplaced] at hclamped
    rw [InFile, ← Fat32.clamp_eq_iff, ← hclamped]
    constructor
    · rintro ⟨tr', htr', hresult'⟩
      obtain rfl : tr = tr' := Option.some.inj (htr.symm.trans htr')
      exact Option.some.inj (hresult.symm.trans hresult')
    · intro hn
      exact ⟨tr, htr, hresult.trans (congrArg some hn)⟩
  constructor
  · intro hall l g l₂ hr
    exact (heach l g l₂ hr).1 (hall g (by simp [hr]))
  · intro hall g hg
    obtain ⟨l, l₂, hr⟩ := List.append_of_mem hg
    exact (heach l g l₂ hr).2 (hall l g l₂ hr)

/-- A request that reports success tells the truth exactly if it is a read or a write
whose segments are all in the file. -/
theorem success_truthful_iff (p : Platform) (fuel id : ℕ) (s : BlkState) (new : List ℕ)
    (hnew : (request p fuel id s).2.statusBytes = s.statusBytes ++ new)
    (hok : virtioBlkSOk ∈ new) :
    Truthful (request p fuel id s).2.current ↔
      ((request p fuel id s).2.current.reqType = virtioBlkTypeIn ∨
        (request p fuel id s).2.current.reqType = virtioBlkTypeOut) ∧
      EachAfter (InFile s.device.file (request p fuel id s).2.current)
        (request p fuel id s).2.current.segments := by
  obtain ⟨htraced, hstatus, -⟩ := request_report p fuel id s
  apply and_congr_right
  intro _
  obtain hsame | ⟨v, hbyte, hdone⟩ := hstatus
  · obtain rfl : new = [] := by simpa [hsame] using hnew.symm
    exact absurd hok (by simp)
  · obtain rfl : [v] = new := List.append_cancel_left (hbyte.symm.trans hnew)
    exact htraced.complete_iff (hdone.1 (List.mem_singleton.1 hok).symm)

/-- A write inside the file. -/
theorem sample_truthful : Truthful (request samplePlatform 4 0 (sampleOne 1 0)).2.current := by
  rw [success_truthful_iff samplePlatform 4 0 _ [0] (by decide +kernel) (by decide)]
  have hsegments : (request samplePlatform 4 0 (sampleOne 1 0)).2.current.segments =
      [⟨⟨0x40003000, 512, 1, 2⟩, some ⟨0x80003000, 0, some 512, 0⟩⟩] := by decide +kernel
  refine ⟨by decide +kernel, ?_⟩
  rw [hsegments]
  refine EachAfter.snoc (l := []) .nil (.inl ?_)
  decide +kernel

/-- A read behind the end of the file reports success. -/
theorem behind_end_reports_success :
    (request samplePlatform 4 0 (sampleOne 0 2)).2.statusBytes = [virtioBlkSOk] ∧
      ¬Truthful (request samplePlatform 4 0 (sampleOne 0 2)).2.current := by
  refine ⟨by decide +kernel, ?_⟩
  have hsegments : (request samplePlatform 4 0 (sampleOne 0 2)).2.current.segments =
      [⟨⟨0x40003000, 512, 1, 2⟩, some ⟨0x80003000, 1024, some 0, 0⟩⟩] := by decide +kernel
  rintro ⟨-, h⟩
  rw [hsegments] at h
  obtain ⟨tr, htr, hresult⟩ := h _ (List.mem_singleton.2 rfl)
  obtain rfl := Option.some.inj htr
  exact absurd hresult (by decide)

/-! ## The length in the used ring -/

/-- The bytes that a request put into the buffer of a segment. -/
def filled (g : Segment) : ℕ := g.transfer.elim 0 fun tr => min tr.delivered g.descriptor.length

/-- The bytes that a request put into the guest's buffers. -/
def written (c : Completion) : ℕ :=
  (c.segments.map filled).sum + if c.status.isSome then 1 else 0

end VirtioBlkMmio

end MiniVisor
