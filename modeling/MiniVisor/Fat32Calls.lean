import MiniVisor.Fat32

/-!
# What every call of `read` and `write` does

A successful call returns the part of its length that lies in the file. A write leaves
the memory alone. No call loops: the stretches that are gathered grow by at least a byte
of the length, and so does the position in the caller's buffer, which is a machine word.
-/
namespace MiniVisor

open Effects

namespace VirtioBlk

variable {env : Environment} {bufferAddress blockAddress length : ℕ} {isWrite : Bool} {s t : Host}

theorem allocateDescriptor_ends : Effect.Ends allocateDescriptor s := by
  rw [Effect.Ends, allocateDescriptor]
  cases (List.range numberOfDescriptors).find? s.drive.freeBitmap with
  | none => simp
  | some index => simp

theorem operationSync_ends :
    Effect.Ends (operationSync env bufferAddress blockAddress length isWrite) s := by
  apply Effect.Ends.bind (.change _)
  intro _ _ _
  split_ifs with hunaligned
  · exact .fail (by decide)
  apply Effect.Ends.bind allocateDescriptor_ends
  intro first _ _
  apply Effect.Ends.bind allocateDescriptor_ends
  intro second _ _
  apply Effect.Ends.bind allocateDescriptor_ends
  intro third _ _
  apply Effect.Ends.bind (.look _)
  intro idx _ _
  apply Effect.Ends.bind (.checked _)
  intro next _ _
  apply Effect.Ends.bind (.change _)
  intro _ _ _
  apply Effect.Ends.bind (by simp [Effect.Ends, serve])
  intro done _ _
  apply Effect.Ends.bind (.change _)
  intro _ _ _
  apply Effect.Ends.bind (.change _)
  intro _ _ _
  apply Effect.Ends.bind (.change _)
  intro _ _ _
  split_ifs with hdone
  · exact .pure _
  · exact .fail (by decide)

theorem allocateDescriptor_keeps :
    Effect.Keeps (fun s : Host => (s.memory, s.delivered)) allocateDescriptor := by
  intro s
  rw [allocateDescriptor]
  cases (List.range numberOfDescriptors).find? s.drive.freeBitmap with
  | none => rfl
  | some index => rfl

/-- A request that writes leaves the memory alone. -/
theorem operationSync_keeps : Effect.Keeps (fun s : Host => (s.memory, s.delivered))
    (operationSync env bufferAddress blockAddress length true) := by
  apply Effect.Keeps.bind (.change (by intro; rfl))
  intro _
  split_ifs with hunaligned
  · exact .fail _
  apply Effect.Keeps.bind allocateDescriptor_keeps
  intro first
  apply Effect.Keeps.bind allocateDescriptor_keeps
  intro second
  apply Effect.Keeps.bind allocateDescriptor_keeps
  intro third
  apply Effect.Keeps.bind (.look _)
  intro idx
  apply Effect.Keeps.bind (.checked _)
  intro next
  apply Effect.Keeps.bind (.change (by intro; rfl))
  intro _
  apply Effect.Keeps.bind (by intro; rfl)
  intro done
  apply Effect.Keeps.bind (.change (by intro; rfl))
  intro _
  apply Effect.Keeps.bind (.change (by intro; rfl))
  intro _
  apply Effect.Keeps.bind (.change (by intro; rfl))
  intro _
  split_ifs with hdone
  · exact .pure _
  · exact .fail _

theorem allocateDescriptor_delivered {index : ℕ} (h : allocateDescriptor s = (.ok index, t)) :
    t.delivered = s.delivered := by
  have hkeeps := allocateDescriptor_keeps s
  rw [h] at hkeeps
  exact congrArg Prod.snd hkeeps

theorem serve_moved {sector : ℕ}
    (h : serve env bufferAddress sector length isWrite s = (.ok true, t)) :
    t.drive.moved = length ∧ t.delivered = s.delivered := by
  rw [serve] at h
  obtain ⟨hdone, rfl⟩ := Prod.mk.inj h
  rw [Option.isNone_iff_eq_none.1 (Except.ok.inj hdone)]
  cases isWrite with
  | true => exact ⟨rfl, rfl⟩
  | false => exact ⟨rfl, rfl⟩

/-- A request that succeeds has moved as many bytes as its descriptor says. -/
theorem operationSync_moved {u : PUnit}
    (h : operationSync env bufferAddress blockAddress length isWrite s = (.ok u, t)) :
    t.drive.moved = length % 2 ^ 32 ∧ t.delivered = s.delivered := by
  rw [operationSync, Effect.bind_eq_ok] at h
  obtain ⟨_, s₁, h₁, h⟩ := h
  obtain ⟨-, rfl⟩ := Prod.mk.inj h₁
  split_ifs at h with hunaligned
  · exact absurd h (by simp [Effect.fail])
  simp only [Effect.bind_eq_ok] at h
  obtain ⟨_, s₂, h₂, _, s₃, h₃, _, s₄, h₄, _, s₅, h₅, _, s₆, h₆, _, s₇, h₇, done, s₈, h₈, _, s₉,
    h₉, _, s₁₀, h₁₀, _, s₁₁, h₁₁, h⟩ := h
  have e₂ := allocateDescriptor_delivered h₂
  have e₃ := allocateDescriptor_delivered h₃
  have e₄ := allocateDescriptor_delivered h₄
  obtain ⟨-, rfl⟩ := Prod.mk.inj h₅
  obtain ⟨-, rfl⟩ := Effect.checked_eq_ok.1 h₆
  obtain ⟨-, rfl⟩ := Prod.mk.inj h₇
  obtain ⟨-, rfl⟩ := Prod.mk.inj h₉
  obtain ⟨-, rfl⟩ := Prod.mk.inj h₁₀
  obtain ⟨-, rfl⟩ := Prod.mk.inj h₁₁
  split_ifs at h with hdone
  · obtain ⟨-, rfl⟩ := Prod.mk.inj h
    rw [hdone] at h₈
    obtain ⟨hmoved, hdelivered⟩ := serve_moved h₈
    exact ⟨hmoved, hdelivered.trans (e₄.trans (e₃.trans e₂))⟩
  · exact absurd h (by simp [Effect.fail])

end VirtioBlk

namespace Fat32

variable {f : Fat32} {env : Environment} {file : FileInfo}
  {bufferAddress offset length fuel dataOffset cluster bufferPointer n : ℕ} {s t : Host}

/-- The part of a range of the file that exists. -/
def clamp (file : FileInfo) (offset length : ℕ) : ℕ := min length (file.fileSize - offset)

theorem clamp_eq_iff : clamp file offset length = length ↔
    offset + length ≤ file.fileSize ∨ length = 0 := by
  rw [clamp]
  omega

theorem checked_eq_ok {α : Type} {o : Option α} {a : α} : checked o = .ok a ↔ o = some a := by
  cases o with
  | none => simp [checked]
  | some b => simp [checked]

theorem except_bind_eq_ok {α β : Type} {x : Except Fault α} {g : α → Except Fault β} {b : β} :
    (x >>= g) = .ok b ↔ ∃ a, x = .ok a ∧ g a = .ok b := by
  cases x with
  | error e => simp [bind, Except.bind]
  | ok a => simp [bind, Except.bind]

theorem except_bind_eq_error {α β : Type} {x : Except Fault α} {g : α → Except Fault β}
    {e : Fault} : (x >>= g) = .error e ↔ x = .error e ∨ ∃ a, x = .ok a ∧ g a = .error e := by
  cases x with
  | error e => simp [bind, Except.bind]
  | ok a => simp [bind, Except.bind]

/-- Nothing of the range is in the file. -/
theorem locate_eq_none (h : f.locate file offset length = .ok none) :
    file.fileSize ≤ offset := by
  unfold locate at h
  rw [except_bind_eq_ok] at h
  obtain ⟨last, -, h⟩ := h
  split_ifs at h with hout
  · exact hout.2
  all_goals
    simp only [except_bind_eq_ok] at h
    obtain ⟨_, -, _, -, h⟩ := h
    exact absurd h (by simp [pure, Except.pure])

theorem locate_eq_some (h : f.locate file offset length = .ok (some (n, dataOffset, cluster))) :
    n = clamp file offset length ∧ 0 < f.bytesPerCluster ∧
      dataOffset = offset % f.bytesPerCluster ∧
      f.skipClusters (offset / f.bytesPerCluster) file.entryCluster = .ok cluster := by
  unfold locate at h
  rw [except_bind_eq_ok] at h
  obtain ⟨last, hlast, h⟩ := h
  obtain ⟨-, rfl⟩ := Checked.add_eq_some.1 (checked_eq_ok.1 hlast)
  by_cases hout : file.fileSize < offset + length ∧ file.fileSize ≤ offset
  · rw [if_pos hout] at h
    exact absurd h (by simp [pure, Except.pure])
  rw [if_neg hout] at h
  simp only [except_bind_eq_ok] at h
  obtain ⟨skip, hskip, c, hc, h⟩ := h
  have hskip := checked_eq_ok.1 hskip
  split_ifs at hskip with hzero
  obtain rfl := Option.some.inj hskip
  obtain ⟨hn, hd, rfl⟩ : (if file.fileSize < offset + length then file.fileSize - offset
      else length) = n ∧ offset - offset / f.bytesPerCluster * f.bytesPerCluster = dataOffset ∧
      c = cluster := by
    simpa [pure, Except.pure] using h
  refine ⟨?_, Nat.pos_of_ne_zero hzero, ?_, hc⟩
  · rw [← hn, clamp]
    split_ifs <;> omega
  · have hdiv := Nat.div_add_mod offset f.bytesPerCluster
    rw [← hd, Nat.mul_comm]
    omega

theorem liftExcept_eq_ok {α : Type} {x : Except Fault α} {a : α} :
    liftExcept x s = (.ok a, t) ↔ x = .ok a ∧ t = s := by
  simp [liftExcept, eq_comm]

/-! ## The loops, one stretch at a time -/

/-- Read a stretch. -/
def readPart (f : Fat32) (env : Environment) (bufferAddress cluster bufferPointer : ℕ)
    (r : Stretch) : Effect Host PUnit := do
  let pages ← Effect.checked (f.bouncePages r.sectors)
  if r.dataOffsetBackup ≠ 0 then f.readBounced env bufferAddress cluster bufferPointer pages r
  else f.readDirect env bufferAddress cluster bufferPointer r

/-- Write a stretch. -/
def writePart (f : Fat32) (env : Environment) (bufferAddress cluster bufferPointer : ℕ)
    (r : Stretch) : Effect Host PUnit := do
  if r.dataOffsetBackup ≠ 0 then Effect.fail .err
  else
    let sector ← Effect.checked (f.firstSector cluster r)
    let buffer ← Effect.checked (Checked.add 64 bufferAddress bufferPointer)
    f.writeSectors env buffer sector r.sectors

/-- Go on behind a stretch, with `loop` for the next one. -/
def advance (f : Fat32) (length : ℕ) (loop : ℕ → ℕ → Effect Host ℕ) (bufferPointer : ℕ)
    (r : Stretch) : Effect Host ℕ := do
  let bufferPointer ← Effect.checked (Checked.add 64 bufferPointer r.bytes)
  if length = bufferPointer then return bufferPointer
  else
    let next ← liftExcept (f.nextCluster r.cluster)
    loop next bufferPointer

theorem readLoop_succ : f.readLoop env bufferAddress length (fuel + 1) dataOffset cluster
    bufferPointer = (do
      let r ← liftExcept (f.readStretch length fuel (.start dataOffset cluster))
      f.readPart env bufferAddress cluster bufferPointer r
      f.advance length (f.readLoop env bufferAddress length fuel 0) bufferPointer r) := by
  rw [readLoop]
  congr 1
  funext r
  rw [readPart, Effect.bind_assoc]
  congr 1
  funext pages
  split_ifs with hbounced
  · rfl
  · rfl

theorem writeLoop_succ : f.writeLoop env bufferAddress length (fuel + 1) dataOffset cluster
    bufferPointer = (do
      let r ← liftExcept (f.writeStretch length fuel (.start dataOffset cluster))
      f.writePart env bufferAddress cluster bufferPointer r
      f.advance length (f.writeLoop env bufferAddress length fuel 0) bufferPointer r) := by
  rw [writeLoop]
  congr 1
  funext r
  rw [writePart]
  split_ifs with hbounced
  · rfl
  · rw [Effect.bind_assoc]
    congr 1
    funext sector
    rw [Effect.bind_assoc]
    rfl

/-! ## Results -/

theorem advance_result {loop : ℕ → ℕ → Effect Host ℕ} {r : Stretch}
    (hloop : ∀ {c p : ℕ} {s t : Host}, loop c p s = (.ok n, t) → n = length)
    (h : f.advance length loop bufferPointer r s = (.ok n, t)) : n = length := by
  simp only [advance, Effect.bind_eq_ok] at h
  obtain ⟨p, s₁, -, h⟩ := h
  split_ifs at h with hdone
  · rw [hdone]
    exact (Except.ok.inj (congrArg Prod.fst h)).symm
  · obtain ⟨next, s₂, -, h⟩ := Effect.bind_eq_ok.1 h
    exact hloop h

theorem readLoop_result
    (h : f.readLoop env bufferAddress length fuel dataOffset cluster bufferPointer s = (.ok n, t)) :
    n = length := by
  induction fuel generalizing dataOffset cluster bufferPointer s t with
  | zero => exact absurd h (by simp [readLoop, Effect.fail])
  | succ fuel ih =>
    simp only [readLoop_succ, Effect.bind_eq_ok] at h
    obtain ⟨r, s₁, -, _, s₂, -, h⟩ := h
    exact advance_result ih h

theorem writeLoop_result
    (h : f.writeLoop env bufferAddress length fuel dataOffset cluster bufferPointer s = (.ok n, t)) :
    n = length := by
  induction fuel generalizing dataOffset cluster bufferPointer s t with
  | zero => exact absurd h (by simp [writeLoop, Effect.fail])
  | succ fuel ih =>
    simp only [writeLoop_succ, Effect.bind_eq_ok] at h
    obtain ⟨r, s₁, -, _, s₂, -, h⟩ := h
    exact advance_result ih h

/-- What both calls do around their loops. -/
def around (f : Fat32) (file : FileInfo) (offset length : ℕ) (loop : ℕ → ℕ → ℕ → Effect Host ℕ) :
    Effect Host ℕ := do
  match ← liftExcept (f.locate file offset length) with
  | none => return 0
  | some (length, dataOffset, cluster) => loop length dataOffset cluster

theorem read_eq : f.read env fuel file bufferAddress offset length =
    f.around file offset length fun length dataOffset cluster =>
      f.readLoop env bufferAddress length fuel dataOffset cluster 0 := rfl

theorem write_eq : f.write env fuel file bufferAddress offset length =
    f.around file offset length fun length dataOffset cluster =>
      f.writeLoop env bufferAddress length fuel dataOffset cluster 0 := rfl

theorem around_result {loop : ℕ → ℕ → ℕ → Effect Host ℕ}
    (hloop : ∀ {length d c n : ℕ} {s t : Host}, loop length d c s = (.ok n, t) → n = length)
    (h : f.around file offset length loop s = (.ok n, t)) : n = clamp file offset length := by
  obtain ⟨found, s₁, hfound, h⟩ := Effect.bind_eq_ok.1 h
  obtain ⟨hlocate, rfl⟩ := liftExcept_eq_ok.1 hfound
  cases found with
  | none =>
    have hout := locate_eq_none hlocate
    have hn : n = 0 := (Except.ok.inj (congrArg Prod.fst h)).symm
    rw [hn, clamp]
    omega
  | some found =>
    obtain ⟨m, d, c⟩ := found
    rw [hloop h]
    exact (locate_eq_some hlocate).1

/-- A successful read returns the part of its length that is in the file. -/
theorem read_result (h : f.read env fuel file bufferAddress offset length s = (.ok n, t)) :
    n = clamp file offset length := by
  rw [read_eq] at h
  exact around_result readLoop_result h

theorem write_result (h : f.write env fuel file bufferAddress offset length s = (.ok n, t)) :
    n = clamp file offset length := by
  rw [write_eq] at h
  exact around_result writeLoop_result h

/-! ## Stretches -/

variable {r r' : Stretch} {complete : Bool}

/-- What an iteration of the inner loops can do. -/
theorem extend_cases (h : f.extend length r = .ok (r', complete)) :
    r.bytes ≤ length ∧
      ((length - r.bytes + r.dataOffset ≤ f.bytesPerCluster ∧ complete = true ∧
        r' = { r with
          sectors := r.sectors +
            (1 + (max (length - r.bytes + r.dataOffset) 1 - 1) / f.bytesPerSector) % 2 ^ 32
          bytes := length }) ∨
      (f.bytesPerCluster < length - r.bytes + r.dataOffset ∧ r.dataOffset ≤ f.bytesPerCluster ∧
        ∃ next, f.nextCluster r.cluster = .ok next ∧
          ((next ≠ r.cluster + 1 ∧ complete = true ∧
            r' = { r with
              sectors := r.sectors + f.sectorsPerCluster
              bytes := r.bytes + (f.bytesPerCluster - r.dataOffset) }) ∨
          (next = r.cluster + 1 ∧ complete = false ∧
            r' = { r with
              sectors := r.sectors + f.sectorsPerCluster
              bytes := r.bytes + (f.bytesPerCluster - r.dataOffset)
              dataOffset := 0
              cluster := next })))) := by
  unfold extend at h
  simp only [except_bind_eq_ok] at h
  obtain ⟨left, hleft, span, hspan, h⟩ := h
  obtain ⟨hle, rfl⟩ := Checked.sub_eq_some.1 (checked_eq_ok.1 hleft)
  obtain ⟨-, rfl⟩ := Checked.add_eq_some.1 (checked_eq_ok.1 hspan)
  apply And.intro hle
  split_ifs at h with hends
  · left
    simp only [except_bind_eq_ok] at h
    obtain ⟨sectors, hsectors, h⟩ := h
    obtain ⟨-, rfl⟩ := Checked.add_eq_some.1 (checked_eq_ok.1 hsectors)
    obtain ⟨rfl, rfl⟩ := Prod.mk.inj (Except.ok.inj h)
    refine ⟨hends, rfl, ?_⟩
    congr 1
    omega
  · right
    simp only [except_bind_eq_ok] at h
    obtain ⟨sectors, hsectors, whole, hwhole, bytes, hbytes, next, hnext, succ, hsucc, h⟩ := h
    obtain ⟨-, rfl⟩ := Checked.add_eq_some.1 (checked_eq_ok.1 hsectors)
    obtain ⟨hwithin, rfl⟩ := Checked.sub_eq_some.1 (checked_eq_ok.1 hwhole)
    obtain ⟨-, rfl⟩ := Checked.add_eq_some.1 (checked_eq_ok.1 hbytes)
    obtain ⟨-, rfl⟩ := Checked.add_eq_some.1 (checked_eq_ok.1 hsucc)
    refine ⟨Nat.lt_of_not_le hends, hwithin, next, hnext, ?_⟩
    split_ifs at h with happart
    · obtain ⟨rfl, rfl⟩ := Prod.mk.inj (Except.ok.inj h)
      exact .inl ⟨happart, rfl, rfl⟩
    · obtain ⟨rfl, rfl⟩ := Prod.mk.inj (Except.ok.inj h)
      exact .inr ⟨not_not.1 happart, rfl, rfl⟩

/-- The inner loops: `r` grows to `r'`. -/
inductive Gathers (f : Fat32) (length : ℕ) : Stretch → Stretch → Prop
  | last {r r' : Stretch} (h : f.extend length (f.skipSectors r) = .ok (r', true)) :
      Gathers f length r r'
  | next {r r₁ r' : Stretch} (h : f.extend length (f.skipSectors r) = .ok (r₁, false))
      (hnext : Gathers f length r₁ r') : Gathers f length r r'

theorem readStretch_gathers (h : f.readStretch length fuel r = .ok r') :
    Gathers f length r r' := by
  induction fuel generalizing r with
  | zero => exact absurd h (by simp [readStretch])
  | succ fuel ih =>
    rw [readStretch, except_bind_eq_ok] at h
    obtain ⟨⟨r₁, complete⟩, hextend, h⟩ := h
    cases complete with
    | true =>
      obtain rfl : r₁ = r' := Except.ok.inj h
      exact .last hextend
    | false => exact .next hextend (ih h)

theorem writeStretch_gathers (h : f.writeStretch length fuel r = .ok r') :
    Gathers f length r r' := by
  induction fuel generalizing r with
  | zero => exact absurd h (by simp [writeStretch])
  | succ fuel ih =>
    rw [writeStretch, except_bind_eq_ok] at h
    obtain ⟨left, -, h⟩ := h
    split_ifs at h with hshort
    rw [except_bind_eq_ok] at h
    obtain ⟨⟨r₁, complete⟩, hextend, h⟩ := h
    cases complete with
    | true =>
      obtain rfl : r₁ = r' := Except.ok.inj h
      exact .last hextend
    | false => exact .next hextend (ih h)

/-- The sectors of a stretch hold its bytes behind its data offset. -/
structure Stretch.Sound (f : Fat32) (r : Stretch) : Prop where
  inside : r.dataOffset < f.bytesPerCluster
  even : r.sectors * f.bytesPerSector + r.dataOffset = r.bytes + r.dataOffsetBackup
  fresh : r.dataOffset = 0 ∨ (r.bytes = 0 ∧ r.dataOffset = r.dataOffsetBackup)

theorem Stretch.Sound.start (h : dataOffset < f.bytesPerCluster) :
    (Stretch.start dataOffset cluster).Sound f where
  inside := h
  even := by simp [Stretch.start]
  fresh := .inr ⟨rfl, rfl⟩

theorem Stretch.Sound.skip (h : r.Sound f) : (f.skipSectors r).Sound f := by
  rw [skipSectors]
  split_ifs with hskip
  · obtain hzero | ⟨hbytes, hback⟩ := h.fresh
    · omega
    have heven := h.even
    have hinside := h.inside
    refine ⟨?_, ?_, .inr ⟨hbytes, rfl⟩⟩
    · dsimp only
      omega
    · dsimp only
      omega
  · exact h

theorem Stretch.Sound.extend (h : r.Sound f) (hr : f.extend length r = .ok (r', false)) :
    r'.Sound f ∧ r.bytes < r'.bytes ∧ r'.bytes < length := by
  have heven := h.even
  have hinside := h.inside
  obtain ⟨hle, ⟨-, hcomplete, -⟩ | ⟨hspan, -, next, -, ⟨-, hcomplete, -⟩ | ⟨-, -, rfl⟩⟩⟩ :=
    extend_cases hr
  · exact absurd hcomplete (by decide)
  · exact absurd hcomplete (by decide)
  · refine ⟨⟨?_, ?_, .inl rfl⟩, ?_, ?_⟩
    · dsimp only
      omega
    · dsimp only
      rw [Nat.add_mul, ← bytesPerCluster]
      omega
    · dsimp only
      omega
    · dsimp only
      omega

/-- A complete stretch: it holds a part of the length that is not empty, and its sectors
reach at most to the end of the last one. -/
structure Stretch.Whole (f : Fat32) (length : ℕ) (r : Stretch) : Prop where
  le : r.bytes ≤ length
  pos : 0 < length → 0 < r.bytes
  enough : r.bytes + r.dataOffsetBackup ≤ r.sectors * f.bytesPerSector
  close : 0 < length → r.sectors * f.bytesPerSector <
    length + r.dataOffsetBackup + f.bytesPerSector

theorem skipSectors_bytes : (f.skipSectors r).bytes = r.bytes := by
  rw [skipSectors]
  split_ifs <;> rfl

theorem Stretch.Sound.whole (h : r.Sound f) (hb : 0 < length → r.bytes < length)
    (hr : f.extend length r = .ok (r', true)) : r'.Whole f length := by
  have heven := h.even
  have hinside := h.inside
  have hsector : 0 < f.bytesPerSector := by
    apply Nat.pos_of_ne_zero
    intro hzero
    rw [bytesPerCluster, hzero] at hinside
    omega
  obtain ⟨hle, ⟨hspan, -, rfl⟩ | ⟨hspan, -, next, -, ⟨-, -, rfl⟩ | ⟨-, hcomplete, -⟩⟩⟩ :=
    extend_cases hr
  · obtain ⟨span, hs⟩ : ∃ span, span = max (length - r.bytes + r.dataOffset) 1 - 1 := ⟨_, rfl⟩
    have hdiv := Nat.div_add_mod span f.bytesPerSector
    have hmod := Nat.mod_lt span hsector
    have hfew : span / f.bytesPerSector < f.sectorsPerCluster + 1 := by
      apply Nat.div_lt_of_lt_mul
      rw [Nat.mul_comm, Nat.add_mul, ← bytesPerCluster]
      omega
    have hcount : (1 + span / f.bytesPerSector) % 2 ^ 32 = 1 + span / f.bytesPerSector := by
      apply Nat.mod_eq_of_lt
      have := f.sectorsPerCluster_lt
      omega
    have hsum : (r.sectors + (1 + span / f.bytesPerSector)) * f.bytesPerSector =
        r.sectors * f.bytesPerSector + f.bytesPerSector +
          f.bytesPerSector * (span / f.bytesPerSector) := by
      ring
    refine ⟨le_rfl, id, ?_, ?_⟩
    · dsimp only
      rw [← hs, hcount, hsum]
      omega
    · intro hpos
      dsimp only
      rw [← hs, hcount, hsum]
      have hleft := hb hpos
      omega
  · refine ⟨?_, ?_, ?_, ?_⟩
    · dsimp only
      omega
    · intro _
      dsimp only
      omega
    · dsimp only
      rw [Nat.add_mul, ← bytesPerCluster]
      omega
    · intro _
      dsimp only
      rw [Nat.add_mul, ← bytesPerCluster]
      omega
  · exact absurd hcomplete (by decide)

theorem Gathers.whole (h : f.Gathers length r r') (hr : r.Sound f)
    (hb : 0 < length → r.bytes < length) : r'.Whole f length := by
  induction h with
  | last hextend =>
    rw [← skipSectors_bytes (f := f)] at hb
    exact hr.skip.whole hb hextend
  | next hextend _ ih =>
    obtain ⟨hsound, -, hlt⟩ := hr.skip.extend hextend
    exact ih hsound fun _ => hlt

theorem Gathers.whole_of_start (h : f.Gathers length (.start dataOffset cluster) r)
    (hd : dataOffset < f.bytesPerCluster) : r.Whole f length :=
  h.whole (.start hd) id

/-! ## Fuel -/

theorem checked_ne_stuck {α : Type} {o : Option α} : checked o ≠ .error .stuck := by
  cases o with
  | none => simp [checked]
  | some a => simp [checked]

theorem except_bind_ne_stuck {α β : Type} {x : Except Fault α} {g : α → Except Fault β}
    (hx : x ≠ .error .stuck) (hg : ∀ a, x = .ok a → g a ≠ .error .stuck) :
    (x >>= g) ≠ .error .stuck := by
  intro h
  obtain h | ⟨a, ha, h⟩ := except_bind_eq_error.1 h
  · exact hx h
  · exact hg a ha h

theorem nextCluster_ne_stuck : f.nextCluster cluster ≠ .error .stuck := by
  rw [nextCluster]
  cases f.getNextCluster cluster with
  | none => simp
  | some next => simp

theorem extend_ne_stuck : f.extend length r ≠ .error .stuck := by
  unfold extend
  apply except_bind_ne_stuck checked_ne_stuck
  intro left _
  apply except_bind_ne_stuck checked_ne_stuck
  intro span _
  split_ifs
  · apply except_bind_ne_stuck checked_ne_stuck
    intro sectors _
    simp [pure, Except.pure]
  · apply except_bind_ne_stuck checked_ne_stuck
    intro sectors _
    apply except_bind_ne_stuck checked_ne_stuck
    intro whole _
    apply except_bind_ne_stuck checked_ne_stuck
    intro bytes _
    apply except_bind_ne_stuck nextCluster_ne_stuck
    intro next _
    apply except_bind_ne_stuck checked_ne_stuck
    intro succ _
    split_ifs <;> simp [pure, Except.pure]

theorem readStretch_ne_stuck (h : r.Sound f) (hfuel : length - r.bytes < fuel) :
    f.readStretch length fuel r ≠ .error .stuck := by
  induction fuel generalizing r with
  | zero => omega
  | succ fuel ih =>
    rw [readStretch]
    apply except_bind_ne_stuck extend_ne_stuck
    rintro ⟨r₁, complete⟩ hextend
    cases complete with
    | true => simp [pure, Except.pure]
    | false =>
      obtain ⟨hsound, hgrows, hlt⟩ := h.skip.extend hextend
      rw [skipSectors_bytes] at hgrows
      exact ih hsound (by omega)

theorem writeStretch_ne_stuck (h : r.Sound f) (hfuel : length - r.bytes < fuel) :
    f.writeStretch length fuel r ≠ .error .stuck := by
  induction fuel generalizing r with
  | zero => omega
  | succ fuel ih =>
    rw [writeStretch]
    apply except_bind_ne_stuck checked_ne_stuck
    intro left _
    split_ifs with hshort
    · simp
    apply except_bind_ne_stuck extend_ne_stuck
    rintro ⟨r₁, complete⟩ hextend
    cases complete with
    | true => simp [pure, Except.pure]
    | false =>
      obtain ⟨hsound, hgrows, hlt⟩ := h.skip.extend hextend
      rw [skipSectors_bytes] at hgrows
      exact ih hsound (by omega)

theorem readSectors_ends {buffer baseSector sectors : ℕ} :
    Effect.Ends (f.readSectors env buffer baseSector sectors) s := by
  apply Effect.Ends.bind (.checked _)
  intro range _ _
  exact VirtioBlk.operationSync_ends

theorem liftExcept_keeps {α V : Type} {view : Host → V} (x : Except Fault α) :
    Effect.Keeps view (liftExcept x) := fun _ => rfl

theorem writeLoop_keeps : Effect.Keeps (fun s : Host => (s.memory, s.delivered))
    (f.writeLoop env bufferAddress length fuel dataOffset cluster bufferPointer) := by
  induction fuel generalizing dataOffset cluster bufferPointer with
  | zero => exact .fail _
  | succ fuel ih =>
    rw [writeLoop]
    apply Effect.Keeps.bind (liftExcept_keeps _)
    intro r
    split_ifs with hbounced
    · exact .fail _
    apply Effect.Keeps.bind (.checked _)
    intro sector
    apply Effect.Keeps.bind (.checked _)
    intro buffer
    apply Effect.Keeps.bind
    · apply Effect.Keeps.bind (.checked _)
      intro range
      exact VirtioBlk.operationSync_keeps
    intro _
    apply Effect.Keeps.bind (.checked _)
    intro q
    split_ifs with hdone
    · exact .pure _
    apply Effect.Keeps.bind (liftExcept_keeps _)
    intro next
    exact ih

/-- A write leaves the memory alone. -/
theorem write_keeps : Effect.Keeps (fun s : Host => (s.memory, s.delivered))
    (f.write env fuel file bufferAddress offset length) := by
  apply Effect.Keeps.bind (liftExcept_keeps _)
  intro found
  cases found with
  | none => exact .pure _
  | some found => exact writeLoop_keeps

/-! ## Bytes delivered -/

theorem allocatePages_delivered {address : ℕ} (h : allocatePages env n s = (.ok address, t)) :
    t.delivered = s.delivered := by
  rw [allocatePages] at h
  split at h
  · obtain ⟨-, rfl⟩ := Prod.mk.inj h
    rfl
  · exact absurd (congrArg Prod.fst h) (by simp)

theorem readSectors_moved {buffer baseSector sectors : ℕ} {u : PUnit}
    (h : f.readSectors env buffer baseSector sectors s = (.ok u, t)) :
    t.drive.moved = sectors * f.bytesPerSector % 2 ^ 32 ∧ t.delivered = s.delivered := by
  simp only [readSectors, Effect.bind_eq_ok, Effect.checked_eq_ok] at h
  obtain ⟨range, s₁, ⟨hrange, rfl⟩, h⟩ := h
  simp only [sectorRange, Option.bind_eq_bind, Option.bind_eq_some_iff] at hrange
  obtain ⟨base, -, position, -, hrange⟩ := hrange
  obtain rfl := Option.some.inj hrange
  exact VirtioBlk.operationSync_moved h

theorem readBounced_delivered {pages : ℕ} {u : PUnit}
    (h : f.readBounced env bufferAddress cluster bufferPointer pages r s = (.ok u, t)) :
    t.delivered = s.delivered + r.bytes := by
  simp only [readBounced, Effect.bind_eq_ok, Effect.checked_eq_ok] at h
  obtain ⟨buffer, s₁, hbuffer, sector, _, ⟨-, rfl⟩, result, s₂, hread, h⟩ := h
  have h₁ := allocatePages_delivered hbuffer
  cases result with
  | none =>
    obtain ⟨_, _, -, h⟩ := Effect.bind_eq_ok.1 h
    exact absurd h (by simp [Effect.fail])
  | some _ =>
    have h₂ := (readSectors_moved (Effect.attempt_eq_some.1 hread)).2
    simp only [Effect.bind_eq_ok, Effect.checked_eq_ok] at h
    obtain ⟨_, _, ⟨-, rfl⟩, _, _, hcopy, h⟩ := h
    obtain ⟨-, rfl⟩ := Prod.mk.inj hcopy
    obtain ⟨-, rfl⟩ := Prod.mk.inj h
    dsimp only
    omega

theorem readDirect_delivered {u : PUnit}
    (h : f.readDirect env bufferAddress cluster bufferPointer r s = (.ok u, t)) :
    t.delivered = s.delivered + min (r.sectors * f.bytesPerSector % 2 ^ 32) r.bytes := by
  simp only [readDirect, Effect.bind_eq_ok, Effect.checked_eq_ok] at h
  obtain ⟨buffer, _, ⟨-, rfl⟩, sector, _, ⟨-, rfl⟩, h⟩ := h
  obtain ⟨hresult, rfl⟩ := Prod.mk.inj h
  obtain ⟨hmoved, hdelivered⟩ := readSectors_moved (Prod.ext hresult rfl)
  dsimp only
  rw [hmoved, hdelivered]

/-- What a stretch delivers: its bytes, unless its sectors are more than 32 bits count. -/
theorem readPart_delivered {u : PUnit} (hr : r.Whole f length)
    (h : f.readPart env bufferAddress cluster bufferPointer r s = (.ok u, t)) :
    t.delivered ≤ s.delivered + r.bytes ∧
      (length + f.bytesPerSector ≤ 2 ^ 32 → t.delivered = s.delivered + r.bytes) := by
  simp only [readPart, Effect.bind_eq_ok, Effect.checked_eq_ok] at h
  obtain ⟨pages, _, ⟨-, rfl⟩, h⟩ := h
  split_ifs at h with hbounced
  · have hdelivered := readBounced_delivered h
    exact ⟨hdelivered.le, fun _ => hdelivered⟩
  have hdelivered := readDirect_delivered h
  have hmin := Nat.min_le_right (r.sectors * f.bytesPerSector % 2 ^ 32) r.bytes
  refine ⟨by omega, fun hsmall => ?_⟩
  obtain hzero | hpos := Nat.eq_zero_or_pos length
  · have hle := hr.le
    omega
  · have hclose := hr.close hpos
    have henough := hr.enough
    rw [Nat.mod_eq_of_lt (by omega), Nat.min_eq_right (by omega)] at hdelivered
    exact hdelivered

theorem readLoop_delivered (hd : dataOffset < f.bytesPerCluster)
    (h : f.readLoop env bufferAddress length fuel dataOffset cluster bufferPointer s = (.ok n, t)) :
    t.delivered + bufferPointer ≤ s.delivered + n ∧
      (length + f.bytesPerSector ≤ 2 ^ 32 → t.delivered + bufferPointer = s.delivered + n) := by
  induction fuel generalizing dataOffset cluster bufferPointer s with
  | zero => exact absurd h (by simp [readLoop, Effect.fail])
  | succ fuel ih =>
    simp only [readLoop_succ, Effect.bind_eq_ok] at h
    obtain ⟨r, s₁, hr, _, s₂, hpart, h⟩ := h
    obtain ⟨hstretch, rfl⟩ := liftExcept_eq_ok.1 hr
    have hwhole := (readStretch_gathers hstretch).whole_of_start hd
    obtain ⟨hle, heq⟩ := readPart_delivered hwhole hpart
    simp only [advance, Effect.bind_eq_ok, Effect.checked_eq_ok] at h
    obtain ⟨q, _, ⟨hq, rfl⟩, h⟩ := h
    obtain ⟨-, rfl⟩ := Checked.add_eq_some.1 hq
    split_ifs at h with hdone
    · obtain ⟨hn, rfl⟩ := Prod.mk.inj h
      obtain rfl := Except.ok.inj hn
      refine ⟨by omega, fun hsmall => ?_⟩
      have := heq hsmall
      omega
    · obtain ⟨next, s₃, hnext, hloop⟩ := Effect.bind_eq_ok.1 h
      obtain ⟨-, rfl⟩ := liftExcept_eq_ok.1 hnext
      obtain ⟨hle', heq'⟩ := ih (Nat.zero_lt_of_lt hd) hloop
      refine ⟨by omega, fun hsmall => ?_⟩
      have := heq hsmall
      have := heq' hsmall
      omega

/-- A successful read delivers no more than its result, and no less unless its sectors
are more than 32 bits count. -/
theorem read_delivered (h : f.read env fuel file bufferAddress offset length s = (.ok n, t)) :
    t.delivered ≤ s.delivered + n ∧
      (length + f.bytesPerSector ≤ 2 ^ 32 → t.delivered = s.delivered + n) := by
  obtain ⟨found, s₁, hfound, h⟩ := Effect.bind_eq_ok.1 h
  obtain ⟨hlocate, rfl⟩ := liftExcept_eq_ok.1 hfound
  cases found with
  | none =>
    obtain ⟨hn, rfl⟩ := Prod.mk.inj h
    obtain rfl := Except.ok.inj hn
    exact ⟨le_rfl, fun _ => rfl⟩
  | some found =>
    obtain ⟨m, d, c⟩ := found
    obtain ⟨rfl, hpos, rfl, -⟩ := locate_eq_some hlocate
    have hclamp : clamp file offset length ≤ length := Nat.min_le_left _ _
    obtain ⟨hle, heq⟩ := readLoop_delivered (Nat.mod_lt _ hpos) h
    exact ⟨hle, fun hsmall => heq (by omega)⟩

end Fat32

end MiniVisor
