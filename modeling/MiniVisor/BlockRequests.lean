import MiniVisor.Fat32Calls
import MiniVisor.VirtioBlkMmio

/-!
# What a block request did

A request walks its descriptors once and keeps, for each data segment, the transfer that
it led to. One invariant of the walk gives where each segment went, what the status byte
may say and what the length in the used ring is made of.
-/
namespace MiniVisor

open Effects

/-- `P` holds of every element, together with the elements before it. -/
def EachAfter {α : Type*} (P : List α → α → Prop) (l : List α) : Prop :=
  ∀ l₁ a l₂, l = l₁ ++ a :: l₂ → P l₁ a

namespace EachAfter

variable {α : Type*} {P Q : List α → α → Prop} {l : List α} {a : α}

theorem nil : EachAfter P [] := by
  intro l₁ a l₂ h
  exact absurd h (by simp)

theorem snoc (h : EachAfter P l) (ha : P l a) : EachAfter P (l ++ [a]) := by
  intro l₁ b l₂ heq
  obtain rfl | ⟨l₃, c, rfl⟩ := List.eq_nil_or_concat l₂
  · obtain ⟨rfl, hb⟩ := List.append_inj' heq rfl
    obtain rfl := List.singleton_inj.1 hb
    exact ha
  · have hinit : l ++ [a] = l₁ ++ b :: l₃ ++ [c] := by simpa using heq
    exact h l₁ b l₃ (List.append_inj' hinit rfl).1

theorem mono (h : EachAfter P l) (hPQ : ∀ l₁ a, a ∈ l → P l₁ a → Q l₁ a) : EachAfter Q l := by
  rintro l₁ a l₂ rfl
  exact hPQ l₁ a (by simp) (h l₁ a l₂ rfl)

end EachAfter

/-- The address is in the guest's RAM. -/
def Platform.Translates (p : Platform) (d : VirtQueueDesc) : Prop :=
  ∃ address, p.ram.getPhysicalAddress d.address = some (some address)

/-- The status byte that an access writes. -/
def Access.statusByte : Access → Option ℕ
  | .status _ value => some value
  | _ => none

def BlkState.statusBytes (s : BlkState) : List ℕ := s.accesses.filterMap Access.statusByte

/-- The number of bytes of the segments. -/
def lengths (l : List Segment) : ℕ := (l.map fun g => g.descriptor.length).sum

/-- The number of bytes of the segments whose address is in RAM. -/
def placed (l : List Segment) : ℕ := lengths (l.filter fun g => g.transfer.isSome)

theorem lengths_snoc (l : List Segment) (g : Segment) :
    lengths (l ++ [g]) = lengths l + g.descriptor.length := by
  simp [lengths]

theorem placed_snoc_none (l : List Segment) (d : VirtQueueDesc) :
    placed (l ++ [⟨d, none⟩]) = placed l := by
  simp [placed, lengths]

theorem placed_snoc_some (l : List Segment) (d : VirtQueueDesc) (tr : Transfer) :
    placed (l ++ [⟨d, some tr⟩]) = placed l + d.length := by
  simp [placed, lengths]

/-- The transfer of the segment succeeded. -/
def Segment.Done (g : Segment) : Prop := ∃ tr n, g.transfer = some tr ∧ tr.result = some n

/-- The bytes that a call of the file system may have delivered. -/
structure Delivered (p : Platform) (file : FileInfo) (isWrite : Bool) (offset length : ℕ)
    (result : Option ℕ) (delivered : ℕ) : Prop where
  clamped : ∀ n, result = some n → n = Fat32.clamp file offset length
  write : isWrite = true → delivered = 0
  read_le : ∀ n, isWrite = false → result = some n → delivered ≤ n
  read_eq : ∀ n, isWrite = false → result = some n →
    length + p.fat32.bytesPerSector ≤ 2 ^ 32 → delivered = n

/-- What the walk recorded of a segment behind the segments `l`. -/
structure Served (p : Platform) (file : FileInfo) (isWrite : Bool) (base : ℕ) (l : List Segment)
    (g : Segment) : Prop where
  translates : g.transfer.isSome ↔ p.Translates g.descriptor
  offset : ∀ tr, g.transfer = some tr → tr.offset = base + placed l
  delivered : ∀ tr, g.transfer = some tr →
    Delivered p file isWrite tr.offset g.descriptor.length tr.result tr.delivered

namespace VirtioBlkMmio

variable {p : Platform} {add : ℕ → ℕ → Option ℕ} {fuel : ℕ} {s₀ s t : BlkState}

/-- The part of the state that the walk accounts for. -/
def view (s : BlkState) : VirtioBlkMmio × Request × List ℕ × List Completion :=
  (s.device, s.current, s.statusBytes, s.completions)

theorem access_keeps {a : Access} (h : a.statusByte = none) : Effect.Keeps view (access a) := by
  intro s
  simp [access, Effect.change, view, BlkState.statusBytes, h]

theorem getDescriptor_keeps (id : ℕ) : Effect.Keeps view (getDescriptor id) := by
  apply Effect.Keeps.bind (.look _)
  intro device
  split_ifs with hnull
  · apply Effect.Keeps.bind (.checked _)
    intro address
    apply Effect.Keeps.bind (access_keeps rfl)
    intro _
    apply Effect.Keeps.bind (.look _)
    intro m
    exact .pure _
  · exact .pure _

theorem getDescriptorId_keeps (id : ℕ) : Effect.Keeps view (getDescriptorId id) := by
  apply Effect.Keeps.bind (.look _)
  intro device
  split_ifs with hnull
  · apply Effect.Keeps.bind (.checked _)
    intro slots
    apply Effect.Keeps.bind (.checked _)
    intro address
    apply Effect.Keeps.bind (access_keeps rfl)
    intro _
    apply Effect.Keeps.bind (.look _)
    intro m
    exact .pure _
  · exact .pure _

theorem transfer_keeps {isWrite : Bool} {address offset size : ℕ} :
    Effect.Keeps view (transfer p fuel isWrite address offset size) := by
  apply Effect.Keeps.bind (.look _)
  intro device
  exact fun _ => rfl

theorem transfer_write_keeps {address offset size : ℕ} :
    Effect.Keeps (fun s : BlkState => (s.host.memory, s.host.delivered))
      (transfer p fuel true address offset size) := by
  intro s
  have hwrite : Effect.Keeps (fun s : Host => (s.memory, s.delivered))
      (p.fat32.write p.env fuel s.device.file address offset size) := Fat32.write_keeps
  exact hwrite.attempt s.host

theorem transfer_delivered {isWrite : Bool} {address offset size : ℕ} {result : Option ℕ}
    (h : transfer p fuel isWrite address offset size s = (.ok result, t)) :
    Delivered p s.device.file isWrite offset size result
      (t.host.delivered - s.host.delivered) := by
  obtain ⟨hresult, rfl⟩ := Prod.mk.inj h
  cases isWrite with
  | true =>
    refine ⟨fun n hn => ?_, fun _ => ?_, by simp, by simp⟩
    · rw [hn] at hresult
      exact Fat32.write_result (Effect.attempt_eq_some.1 (Prod.ext hresult rfl))
    · exact Nat.sub_eq_zero_of_le (congrArg Prod.snd (transfer_write_keeps s)).le
  | false =>
    refine ⟨fun n hn => ?_, by simp, fun n _ hn => ?_, fun n _ hn hsmall => ?_⟩
    all_goals
      rw [hn] at hresult
      have hread := Effect.attempt_eq_some.1 (Prod.ext hresult rfl)
    · exact Fat32.read_result hread
    · exact Nat.sub_le_iff_le_add'.2 (Fat32.read_delivered hread).1
    · have hdelivered := (Fat32.read_delivered hread).2 hsmall
      exact Nat.sub_eq_of_eq_add' hdelivered

/-- What a request recorded of its segments. -/
def Traced (p : Platform) (file : FileInfo) (r : Request) : Prop :=
  EachAfter (Served p file (r.reqType == virtioBlkTypeOut) (r.sector * 2 ^ 9 % 2 ^ 64)) r.segments

/-- What holds while the segments of a request are walked. -/
structure Serving (p : Platform) (s₀ s : BlkState) : Prop where
  device : s.device = s₀.device
  traced : Traced p s₀.device.file s.current
  statusBytes : s.statusBytes = s₀.statusBytes
  completions : s.completions = s₀.completions

/-- The variables of the loop. -/
structure Loop (isWrite : Bool) (offset totalSize status : ℕ) (r : Request) : Prop where
  isWrite : isWrite = (r.reqType == virtioBlkTypeOut)
  offset : offset = r.sector * 2 ^ 9 % 2 ^ 64 + placed r.segments
  totalSize : totalSize = lengths r.segments
  status : status = virtioBlkSOk ↔ ∀ g ∈ r.segments, g.Done

theorem view_eq : view t = view s ↔ t.device = s.device ∧ t.current = s.current ∧
    t.statusBytes = s.statusBytes ∧ t.completions = s.completions := by
  simp [view]

theorem Serving.of_view (h : view t = view s) (hs : Serving p s₀ s) : Serving p s₀ t := by
  obtain ⟨hdevice, hcurrent, hstatus, hcompletions⟩ := view_eq.1 h
  refine ⟨hdevice.trans hs.device, ?_, hstatus.trans hs.statusBytes,
    hcompletions.trans hs.completions⟩
  rw [hcurrent]
  exact hs.traced

variable {isWrite : Bool} {offset totalSize status : ℕ} {d : VirtQueueDesc}

/-- The loop between two descriptors. -/
def Between (p : Platform) (s₀ : BlkState) (isWrite : Bool) (offset totalSize status : ℕ)
    (s : BlkState) : Prop :=
  Serving p s₀ s ∧ Loop isWrite offset totalSize status s.current

theorem Between.of_view (h : view t = view s) (hs : Between p s₀ isWrite offset totalSize status s) :
    Between p s₀ isWrite offset totalSize status t := by
  refine ⟨hs.1.of_view h, ?_⟩
  rw [(view_eq.1 h).2.1]
  exact hs.2

/-- A segment that is not in RAM. -/
theorem Between.record_none (hd : p.ram.getPhysicalAddress d.address = some none)
    (hs : Between p s₀ isWrite offset totalSize status s) :
    Between p s₀ isWrite offset (totalSize + d.length) virtioBlkSIoerr
      { s with current.segments := s.current.segments ++ [⟨d, none⟩] } := by
  obtain ⟨hserving, hloop⟩ := hs
  refine ⟨⟨hserving.device, hserving.traced.snoc ⟨?_, by simp, by simp⟩, hserving.statusBytes,
    hserving.completions⟩, hloop.isWrite, ?_, ?_, ?_⟩
  · simp [Platform.Translates, hd]
  · exact hloop.offset.trans (by rw [placed_snoc_none])
  · rw [hloop.totalSize, lengths_snoc]
  · simp [Segment.Done, virtioBlkSIoerr, virtioBlkSOk]

/-- A segment that is in RAM. -/
theorem Between.record_some {tr : Transfer}
    (hd : p.ram.getPhysicalAddress d.address = some (some tr.address))
    (hs : Between p s₀ isWrite offset totalSize status s) (hoffset : tr.offset = offset)
    (htr : Delivered p s₀.device.file isWrite tr.offset d.length tr.result tr.delivered) :
    Between p s₀ isWrite (offset + d.length) (totalSize + d.length)
      (if tr.result.isNone then virtioBlkSIoerr else status)
      { s with current.segments := s.current.segments ++ [⟨d, some tr⟩] } := by
  obtain ⟨hserving, hloop⟩ := hs
  refine ⟨⟨hserving.device, hserving.traced.snoc ⟨?_, ?_, ?_⟩, hserving.statusBytes,
    hserving.completions⟩, hloop.isWrite, ?_, ?_, ?_⟩
  · simp [Platform.Translates, hd]
  · rintro _ ⟨⟩
    exact hoffset.trans hloop.offset
  · rintro _ ⟨⟩
    rw [← hloop.isWrite]
    exact htr
  · rw [hloop.offset, placed_snoc_some, Nat.add_assoc]
  · rw [hloop.totalSize, lengths_snoc]
  · have hstatus := hloop.status
    cases hresult : tr.result with
    | none => simp [Segment.Done, virtioBlkSIoerr, virtioBlkSOk, hresult]
    | some n =>
      simp only [Option.isNone_some, Bool.false_eq_true, if_false, hstatus, List.mem_append,
        List.mem_singleton]
      constructor
      · rintro h g (hg | rfl)
        · exact h g hg
        · exact ⟨tr, n, rfl, hresult⟩
      · intro h g hg
        exact h g (.inl hg)

/-- What a walk leaves behind. -/
def Walked (p : Platform) (s₀ : BlkState) (isWrite : Bool) :
    Option (VirtQueueDesc × ℕ × ℕ) → BlkState → Prop
  | none, t => Serving p s₀ t
  | some (_, totalSize, status), t => ∃ offset, Between p s₀ isWrite offset totalSize status t

theorem between_triple {α : Type} {x : Effect BlkState α} (hx : Effect.Keeps view x) :
    Effect.Triple (Between p s₀ isWrite offset totalSize status) x
      (fun _ => Between p s₀ isWrite offset totalSize status) (Serving p s₀) :=
  hx.triple (fun _ _ h hs => hs.of_view h) fun _ hs => hs.1

theorem transfer_triple {address before : ℕ} :
    Effect.Triple
      (fun s => Between p s₀ isWrite offset totalSize status s ∧ s.host.delivered = before)
      (transfer p fuel isWrite address offset d.length)
      (fun result t => Between p s₀ isWrite offset totalSize status t ∧
        Delivered p s₀.device.file isWrite offset d.length result (t.host.delivered - before))
      (Serving p s₀) := by
  rintro s ⟨hs, rfl⟩
  have hview : view (transfer p fuel isWrite address offset d.length s).2 = view s :=
    transfer_keeps s
  have hdelivered : ∀ {result t}, transfer p fuel isWrite address offset d.length s =
      (.ok result, t) → Delivered p s.device.file isWrite offset d.length result
        (t.host.delivered - s.host.delivered) := transfer_delivered
  revert hview hdelivered
  rcases transfer p fuel isWrite address offset d.length s with ⟨r, t⟩
  intro hview hdelivered
  cases r with
  | error e => exact (hs.of_view hview).1
  | ok result =>
    refine ⟨hs.of_view hview, ?_⟩
    rw [← hs.1.device]
    exact hdelivered rfl

/-- The walk records what it does with each segment. -/
theorem walkWith_triple (hadd : ∀ {a b c}, add a b = some c → c = a + b) :
    Effect.Triple (Between p s₀ isWrite offset totalSize status)
      (walkWith p add isWrite fuel d offset totalSize status) (Walked p s₀ isWrite)
      (Serving p s₀) := by
  induction fuel generalizing d offset totalSize status with
  | zero => exact .fail fun s hs => hs.1
  | succ fuel ih =>
    rw [walkWith]
    apply Effect.Triple.bind (between_triple (getDescriptor_keeps _))
    intro found
    cases found with
    | none => exact .pure fun s hs => hs.1
    | some d =>
      dsimp only
      split_ifs with hnext
      · apply Effect.Triple.checked_bind _ fun s hs => hs.1
        intro total htotal
        obtain rfl := hadd htotal
        apply Effect.Triple.checked_bind _ fun s hs => hs.1
        intro found hfound
        cases found with
        | none =>
          apply Effect.Triple.bind (Q := fun _ s =>
            Between p s₀ isWrite offset (totalSize + d.length) virtioBlkSIoerr s)
          · exact fun s hs => hs.record_none hfound
          intro _
          exact ih
        | some address =>
          apply Effect.Triple.bind (between_triple (access_keeps rfl))
          intro _
          apply Effect.Triple.bind (Q := fun before s =>
            Between p s₀ isWrite offset totalSize status s ∧ s.host.delivered = before)
          · exact .look fun s hs => ⟨hs, rfl⟩
          intro before
          apply Effect.Triple.bind transfer_triple
          intro result
          apply Effect.Triple.bind (Q := fun after s =>
            Between p s₀ isWrite offset totalSize status s ∧
              Delivered p s₀.device.file isWrite offset d.length result (after - before))
          · exact .look fun s hs => hs
          intro after
          apply Effect.Triple.bind (Q := fun _ s =>
            Between p s₀ isWrite (offset + d.length) (totalSize + d.length)
              (if result.isNone then virtioBlkSIoerr else status) s)
          · rintro s ⟨hs, hdelivered⟩
            exact hs.record_some hfound rfl hdelivered
          intro _
          apply Effect.Triple.checked_bind _ fun s hs => hs.1
          intro behind hbehind
          obtain ⟨-, rfl⟩ := Checked.add_eq_some.1 hbehind
          exact ih
      · exact .pure fun s hs => ⟨offset, hs⟩

/-! ## The end of a request -/

/-- What the used ring is told of a request. -/
structure Completes (p : Platform) (r : Request) (c : Completion) : Prop where
  request : c.toRequest = r
  status : c.status.isSome ↔ p.Translates c.last
  length : c.length = lengths r.segments + if c.status.isSome then c.last.length else 0

/-- What a request leaves behind, whether it was served or not. -/
structure Report (p : Platform) (s₀ t : BlkState) : Prop where
  traced : Traced p s₀.device.file t.current
  statusByte : t.statusBytes = s₀.statusBytes ∨ ∃ v, t.statusBytes = s₀.statusBytes ++ [v] ∧
    (v = virtioBlkSOk ↔ ∀ g ∈ t.current.segments, g.Done)
  completion : t.completions = s₀.completions ∨
    ∃ c, t.completions = s₀.completions ++ [c] ∧ Completes p t.current c

theorem Serving.report (h : Serving p s₀ s) : Report p s₀ s :=
  ⟨h.traced, .inl h.statusBytes, .inl h.completions⟩

/-- A request whose status byte was written or is not in RAM. -/
structure Closing (p : Platform) (s₀ : BlkState) (totalSize : ℕ) (byte : Option ℕ)
    (s : BlkState) : Prop where
  traced : Traced p s₀.device.file s.current
  statusBytes : s.statusBytes = s₀.statusBytes ++ byte.toList
  truthful : ∀ v, byte = some v → (v = virtioBlkSOk ↔ ∀ g ∈ s.current.segments, g.Done)
  completions : s.completions = s₀.completions
  totalSize : totalSize = lengths s.current.segments

variable {byte : Option ℕ} {id length : ℕ} {last : VirtQueueDesc}

theorem Closing.report (h : Closing p s₀ totalSize byte s) : Report p s₀ s := by
  refine ⟨h.traced, ?_, .inl h.completions⟩
  cases byte with
  | none => exact .inl (h.statusBytes.trans (List.append_nil _))
  | some v => exact .inr ⟨v, h.statusBytes, h.truthful v rfl⟩

theorem Closing.complete (h : Closing p s₀ totalSize byte s)
    (hbyte : byte.isSome ↔ p.Translates last)
    (hlength : length = totalSize + if byte.isSome then last.length else 0) :
    Report p s₀ { s with completions := s.completions ++
      [⟨s.current, last, byte, id, length⟩] } := by
  refine ⟨h.traced, h.report.statusByte, .inr ⟨_, by rw [h.completions], rfl, hbyte, ?_⟩⟩
  exact hlength.trans (by rw [h.totalSize])

/-- What `Closing` depends on. -/
def outcome (s : BlkState) : Request × List ℕ × List Completion :=
  (s.current, s.statusBytes, s.completions)

theorem Closing.of_outcome (h : outcome t = outcome s) (hs : Closing p s₀ totalSize byte s) :
    Closing p s₀ totalSize byte t := by
  obtain ⟨hcurrent, hstatus, hcompletions⟩ : t.current = s.current ∧
      t.statusBytes = s.statusBytes ∧ t.completions = s.completions := by
    simpa [outcome] using h
  obtain ⟨htraced, hbytes, htruthful, hc, htotal⟩ := hs
  rw [← hcurrent] at htraced htruthful htotal
  exact ⟨htraced, hstatus.trans hbytes, htruthful, hcompletions.trans hc, htotal⟩

theorem store_keeps {address n value : ℕ} : Effect.Keeps outcome (store address n value) :=
  .change fun _ => rfl

theorem writeUsed_keeps : Effect.Keeps outcome (writeUsed id length) := by
  have haccess : ∀ {a : Access}, a.statusByte = none → Effect.Keeps outcome (access a) := by
    intro a ha s
    simp [access, Effect.change, outcome, BlkState.statusBytes, ha]
  apply Effect.Keeps.bind (.look _)
  intro device
  apply Effect.Keeps.bind (.checked _)
  intro slot
  apply Effect.Keeps.bind (.checked _)
  intro usedId
  apply Effect.Keeps.bind (.change (by intro; rfl))
  intro _
  apply Effect.Keeps.bind (.checked _)
  intro slots
  apply Effect.Keeps.bind (.checked _)
  intro address
  apply Effect.Keeps.bind (haccess rfl)
  intro _
  apply Effect.Keeps.bind store_keeps
  intro _
  apply Effect.Keeps.bind store_keeps
  intro _
  apply Effect.Keeps.bind (haccess rfl)
  intro _
  exact store_keeps

theorem closing_triple {α : Type} {x : Effect BlkState α} (hx : Effect.Keeps outcome x) :
    Effect.Triple (Closing p s₀ totalSize byte) x (fun _ => Closing p s₀ totalSize byte)
      (Report p s₀) :=
  hx.triple (fun _ _ h hs => hs.of_outcome h) fun _ hs => hs.report

theorem completeWith_triple (hadd : ∀ {a b c}, add a b = some c → c = a + b) :
    Effect.Triple (Between p s₀ isWrite offset totalSize status)
      (completeWith p add id last totalSize status) (fun _ => Report p s₀) (Report p s₀) := by
  apply Effect.Triple.checked_bind _ fun s hs => hs.1.report
  intro found hfound
  cases found with
  | none =>
    apply Effect.Triple.bind (Q := fun _ => Closing p s₀ totalSize none)
    · apply (closing_triple writeUsed_keeps).mono _ (fun _ _ h => h) fun _ h => h
      rintro s ⟨hserving, hloop⟩
      exact ⟨hserving.traced, by simpa using hserving.statusBytes, by simp,
        hserving.completions, hloop.totalSize⟩
    intro _
    apply Effect.Triple.change
    intro s hs
    exact hs.complete (by simp [Platform.Translates, hfound]) (by simp)
  | some address =>
    apply Effect.Triple.bind (Q := fun _ => Closing p s₀ totalSize (some status))
    · rintro s ⟨hserving, hloop⟩
      refine ⟨hserving.traced, ?_, ?_, hserving.completions, hloop.totalSize⟩
      · rw [← hserving.statusBytes]
        simp [BlkState.statusBytes, Access.statusByte]
      · rintro _ ⟨⟩
        exact hloop.status
    intro _
    apply Effect.Triple.bind (closing_triple store_keeps)
    intro _
    apply Effect.Triple.checked_bind _ fun s hs => hs.report
    intro total htotal
    apply Effect.Triple.bind (closing_triple writeUsed_keeps)
    intro _
    apply Effect.Triple.change
    intro s hs
    exact hs.complete (by simp [Platform.Translates, hfound]) (by simp [hadd htotal])

theorem serving_triple {α : Type} {x : Effect BlkState α} (hx : Effect.Keeps view x) :
    Effect.Triple (Serving p s₀) x (fun _ => Serving p s₀) (Report p s₀) :=
  hx.triple (fun _ _ h hs => hs.of_view h) fun _ hs => hs.report

theorem requestWith_triple (hadd : ∀ {a b c}, add a b = some c → c = a + b) :
    Effect.Triple (fun s => s = s₀) (requestWith p add fuel id) (fun _ => Report p s₀)
      (Report p s₀) := by
  have hearly : Effect.Triple (Serving p s₀) (pure false) (fun _ => Report p s₀) (Report p s₀) :=
    .pure fun s hs => hs.report
  apply Effect.Triple.bind (Q := fun _ => Serving p s₀)
  · rintro s rfl
    exact ⟨rfl, .nil, rfl, rfl⟩
  intro _
  apply Effect.Triple.bind (serving_triple (getDescriptorId_keeps _))
  intro descriptorId
  cases descriptorId with
  | none => exact hearly
  | some descriptorId =>
    apply Effect.Triple.bind (serving_triple (getDescriptor_keeps _))
    intro descriptor
    cases descriptor with
    | none => exact hearly
    | some descriptor =>
      dsimp only
      by_cases hheader : descriptor.length ≠ 16
      · rw [if_pos hheader]
        exact hearly
      rw [if_neg hheader]
      apply Effect.Triple.checked_bind _ fun s hs => hs.report
      intro header _
      cases header with
      | none => exact hearly
      | some header =>
        apply Effect.Triple.bind (serving_triple (access_keeps rfl))
        intro _
        apply Effect.Triple.bind (serving_triple (.look _))
        intro m
        obtain ⟨reqType, htype⟩ : ∃ reqType, reqType = readLe m header 4 := ⟨_, rfl⟩
        obtain ⟨sector, hsector⟩ : ∃ sector, sector = readLe m (header + 8) 8 := ⟨_, rfl⟩
        simp only [← htype, ← hsector]
        apply Effect.Triple.bind (Q := fun _ => Between p s₀ (reqType == virtioBlkTypeOut)
          (sector * 2 ^ 9 % 2 ^ 64) 0 virtioBlkSOk)
        · intro s hs
          exact ⟨⟨hs.device, .nil, hs.statusBytes, hs.completions⟩, rfl, by simp [placed, lengths],
            rfl, by simp⟩
        intro _
        split_ifs with hnext
        · apply Effect.Triple.bind
          · exact (walkWith_triple hadd).mono (fun _ h => h) (fun _ _ h => h)
              fun _ hs => hs.report
          intro result
          cases result with
          | none => exact hearly
          | some result =>
            obtain ⟨last, totalSize, status⟩ := result
            apply Effect.Triple.bind (Q := fun _ => Report p s₀)
            · rintro s ⟨offset, hs⟩
              exact completeWith_triple hadd s hs
            intro _
            exact .pure fun s hs => hs
        · exact .pure fun s hs => hs.1.report

/-- Every request, served or not, leaves a report. -/
theorem request_report (p : Platform) (fuel id : ℕ) (s : BlkState) :
    Report p s (request p fuel id s).2 :=
  (requestWith_triple fun h => (Checked.add_eq_some.1 h).2).state rfl

end VirtioBlkMmio

end MiniVisor
