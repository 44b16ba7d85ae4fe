import MiniVisor.Fat32Requests

/-!
# The links that a call follows

The loops of `read` and `write` with a counter: how often the call goes from a cluster to the
one that the table has for it. The two loops differ in what they do with a stretch and in the
bytes that they want to be left for it. The driver of the block device is a parameter here, so
that nothing depends on what it answers. With the host's driver, and without the counter, the
calls are `read` and `write`.
-/
namespace MiniVisor

open Effects

namespace Fat32

/-- `read` or `write` of a driver, by buffer, position on the disk and length. -/
abbrev Driver := ℕ → ℕ → ℕ → Effect Host PUnit

def transferSectors (f : Fat32) (driver : Driver) (buffer baseSector sectors : ℕ) :
    Effect Host PUnit := do
  let (address, length) ← Effect.checked (f.sectorRange baseSector sectors)
  driver buffer address length

def loadBounced (f : Fat32) (env : Environment) (driver : Driver)
    (bufferAddress cluster bufferPointer pages : ℕ) (r : Stretch) : Effect Host PUnit := do
  let buffer ← allocatePages env pages
  let sector ← Effect.checked (f.firstSector cluster r)
  match ← Effect.attempt (f.transferSectors driver buffer sector r.sectors) with
  | none =>
    freePages buffer pages
    Effect.fail .err
  | some _ =>
    Effect.checked (Checked.require (bufferPointer = 0))
    let source := buffer + r.dataOffsetBackup
    Effect.change fun s : Host =>
      { s with
        memory := copyBytes s.memory bufferAddress s.memory source r.bytes
        delivered := s.delivered + r.bytes }
    freePages buffer pages

def loadDirect (f : Fat32) (driver : Driver) (bufferAddress cluster bufferPointer : ℕ)
    (r : Stretch) : Effect Host PUnit := do
  let buffer ← Effect.checked (Checked.add 64 bufferAddress bufferPointer)
  let sector ← Effect.checked (f.firstSector cluster r)
  Effect.afterwards (f.transferSectors driver buffer sector r.sectors) fun s : Host =>
    { s with delivered := s.delivered + min s.drive.moved r.bytes }

def loadPart (f : Fat32) (env : Environment) (driver : Driver)
    (bufferAddress cluster bufferPointer : ℕ) (r : Stretch) : Effect Host PUnit := do
  let pages ← Effect.checked (f.bouncePages r.sectors)
  if r.dataOffsetBackup ≠ 0 then
    f.loadBounced env driver bufferAddress cluster bufferPointer pages r
  else f.loadDirect driver bufferAddress cluster bufferPointer r

def storePart (f : Fat32) (driver : Driver) (bufferAddress cluster bufferPointer : ℕ)
    (r : Stretch) : Effect Host PUnit := do
  if r.dataOffsetBackup ≠ 0 then Effect.fail .err
  else
    let sector ← Effect.checked (f.firstSector cluster r)
    let buffer ← Effect.checked (Checked.add 64 bufferAddress bufferPointer)
    f.transferSectors driver buffer sector r.sectors

/-- What `read` or `write` does with a stretch. -/
def transferPart (f : Fat32) (env : Environment) (driver : Driver) (isWrite : Bool)
    (bufferAddress cluster bufferPointer : ℕ) (r : Stretch) : Effect Host PUnit :=
  if isWrite then f.storePart driver bufferAddress cluster bufferPointer r
  else f.loadPart env driver bufferAddress cluster bufferPointer r

/-- The bytes that have to be left for a cluster. -/
def leastBytes (f : Fat32) (isWrite : Bool) : ℕ := if isWrite then f.bytesPerSector else 0

/-- The host, and the links that the call has followed. -/
abbrev Followed := Host × ℕ

def onHost {α : Type} (x : Effect Host α) : Effect Followed α := fun s =>
  ((x s.1).1, ((x s.1).2, s.2))

def countLink : Effect Followed PUnit := .change fun s => (s.1, s.2 + 1)

def followClusters (f : Fat32) : ℕ → ℕ → Effect Followed ℕ
  | 0, cluster => pure cluster
  | count + 1, cluster => do
    let next ← onHost (liftExcept (f.nextCluster cluster))
    countLink
    f.followClusters count next

/-- The inner loops. -/
def followStretch (f : Fat32) (isWrite : Bool) (length : ℕ) : ℕ → Stretch → Effect Followed Stretch
  | 0, _ => Effect.fail .stuck
  | fuel + 1, r => do
    let left ← Effect.checked (Checked.sub length r.bytes)
    if left < f.leastBytes isWrite then Effect.fail .err
    else
      let (r, complete) ← onHost (liftExcept (f.extend length (f.skipSectors r)))
      if complete then return r
      else
        countLink
        f.followStretch isWrite length fuel r

/-- The outer loops. -/
def followLoop (f : Fat32) (env : Environment) (driver : Driver) (isWrite : Bool)
    (bufferAddress length : ℕ) : ℕ → ℕ → ℕ → ℕ → Effect Followed ℕ
  | 0, _, _, _ => Effect.fail .stuck
  | fuel + 1, dataOffset, cluster, bufferPointer => do
    let r ← f.followStretch isWrite length fuel (.start dataOffset cluster)
    onHost (f.transferPart env driver isWrite bufferAddress cluster bufferPointer r)
    let bufferPointer ← Effect.checked (Checked.add 64 bufferPointer r.bytes)
    if length = bufferPointer then return bufferPointer
    else
      let next ← onHost (liftExcept (f.nextCluster r.cluster))
      countLink
      f.followLoop env driver isWrite bufferAddress length fuel 0 next bufferPointer

def followFile (f : Fat32) (env : Environment) (driver : Driver) (isWrite : Bool) (fuel : ℕ)
    (file : FileInfo) (bufferAddress offset length : ℕ) : Effect Followed ℕ := do
  let last ← Effect.checked (Checked.add 64 offset length)
  if file.fileSize < last ∧ file.fileSize ≤ offset then return 0
  else
    let length := if file.fileSize < last then file.fileSize - offset else length
    let skip ← Effect.checked
      (if f.bytesPerCluster = 0 then none else some (offset / f.bytesPerCluster))
    let cluster ← f.followClusters skip file.entryCluster
    f.followLoop env driver isWrite bufferAddress length fuel
      (offset - skip * f.bytesPerCluster) cluster 0

/-! ## Without the counter -/

/-- The counter aside, the computations do the same. -/
def Erases {α : Type} (x : Effect Followed α) (y : Effect Host α) : Prop :=
  Effect.Simulates (fun s t => s.1 = t) x y Eq

section Erases

variable {α β : Type} {f : Fat32} {env : Environment} {isWrite : Bool} {file : FileInfo}
  {bufferAddress offset length fuel dataOffset cluster bufferPointer : ℕ} {r : Stretch}

theorem erases_refl (x : Effect Host α) : Erases (onHost x) x := by
  rintro s t rfl
  refine ⟨rfl, ?_⟩
  change Effect.Agree Eq (x s.1).1 (x s.1).1
  cases (x s.1).1 <;> rfl

theorem Erases.bind {x : Effect Followed α} {y : Effect Host α} {g : α → Effect Followed β}
    {h : α → Effect Host β} (hx : Erases x y) (hg : ∀ a, Erases (g a) (h a)) :
    Erases (x >>= g) (y >>= h) :=
  Effect.Simulates.bind hx fun a _ hac => hac ▸ hg a

theorem erases_pure (a : α) : Erases (pure a) (pure a) := Effect.Simulates.pure rfl

theorem erases_fail (e : Fault) :
    Erases (Effect.fail e : Effect Followed α) (Effect.fail e : Effect Host α) :=
  Effect.Simulates.fail e

theorem erases_checked (o : Option α) :
    Erases (Effect.checked o) (Effect.checked o : Effect Host α) := by
  cases o with
  | none => exact erases_fail .panic
  | some a => exact erases_pure a

/-- Nothing is left of a link that is counted. -/
theorem Erases.count {x : Effect Followed α} {y : Effect Host α} (h : Erases x y) :
    Erases (do countLink; x) y := by
  rintro s t rfl
  exact h (s.1, s.2 + 1) s.1 rfl

theorem liftExcept_bind (x : Except Fault α) (g : α → Except Fault β) :
    (liftExcept (x >>= g) : Effect Host β) = liftExcept x >>= fun a => liftExcept (g a) := by
  funext s
  cases x <;> rfl

theorem liftExcept_checked (o : Option α) :
    (liftExcept (checked o) : Effect Host α) = Effect.checked o := by
  funext s
  cases o <;> rfl

theorem followClusters_erases : ∀ {count cluster : ℕ},
    Erases (f.followClusters count cluster) (liftExcept (f.skipClusters count cluster))
  | 0, cluster => erases_pure cluster
  | count + 1, cluster => by
    rw [skipClusters, liftExcept_bind]
    exact (erases_refl _).bind fun next => followClusters_erases.count

/-- More bytes than the length are not extended. -/
theorem extend_of_lt (h : Checked.sub length r.bytes = none) :
    f.extend length (f.skipSectors r) = .error .panic := by
  rw [extend, skipSectors_bytes, h]
  rfl

/-- One iteration of the inner loops, from what is left on. -/
theorem extend_erases {more : Stretch → Effect Followed Stretch}
    {rest : Stretch → Except Fault Stretch} (hmore : ∀ r, Erases (more r) (liftExcept (rest r))) :
    Erases (do
      let (r, complete) ← onHost (liftExcept (f.extend length (f.skipSectors r)))
      if complete then return r
      else
        countLink
        more r)
      (liftExcept (do
        let (r, complete) ← f.extend length (f.skipSectors r)
        if complete then return r else rest r)) := by
  rw [liftExcept_bind]
  refine (erases_refl _).bind fun a => ?_
  rcases a with ⟨r, complete⟩
  cases complete with
  | true => exact erases_pure r
  | false => exact (hmore r).count

theorem readStretch_erases : ∀ {fuel : ℕ} {r : Stretch},
    Erases (f.followStretch false length fuel r) (liftExcept (f.readStretch length fuel r))
  | 0, _ => erases_fail .stuck
  | fuel + 1, r => by
    rw [followStretch, readStretch]
    cases hleft : Checked.sub length r.bytes with
    | none =>
      rw [extend_of_lt hleft]
      exact erases_fail .panic
    | some left => exact extend_erases fun r => readStretch_erases

theorem writeStretch_erases : ∀ {fuel : ℕ} {r : Stretch},
    Erases (f.followStretch true length fuel r) (liftExcept (f.writeStretch length fuel r))
  | 0, _ => erases_fail .stuck
  | fuel + 1, r => by
    rw [followStretch, writeStretch, liftExcept_bind, liftExcept_checked]
    refine (erases_checked _).bind fun left => ?_
    by_cases hless : left < f.bytesPerSector
    · rw [if_pos hless, if_pos (show left < f.leastBytes true from hless)]
      exact erases_fail .err
    · rw [if_neg hless, if_neg (show ¬left < f.leastBytes true from hless)]
      exact extend_erases fun r => writeStretch_erases

/-- What the outer loops do behind a stretch. -/
theorem advance_erases {loop : ℕ → ℕ → Effect Host ℕ} {more : ℕ → ℕ → Effect Followed ℕ}
    (hmore : ∀ c p, Erases (more c p) (loop c p)) :
    Erases (do
      let bufferPointer ← Effect.checked (Checked.add 64 bufferPointer r.bytes)
      if length = bufferPointer then return bufferPointer
      else
        let next ← onHost (liftExcept (f.nextCluster r.cluster))
        countLink
        more next bufferPointer)
      (f.advance length loop bufferPointer r) := by
  refine (erases_checked _).bind fun p => ?_
  by_cases hdone : length = p
  · rw [if_pos hdone, if_pos hdone]
    exact erases_pure p
  · rw [if_neg hdone, if_neg hdone]
    exact (erases_refl _).bind fun next => (hmore next p).count

theorem readLoop_erases : ∀ {fuel dataOffset cluster bufferPointer : ℕ},
    Erases (f.followLoop env (VirtioBlk.read env) false bufferAddress length fuel dataOffset
      cluster bufferPointer)
      (f.readLoop env bufferAddress length fuel dataOffset cluster bufferPointer)
  | 0, _, _, _ => erases_fail .stuck
  | fuel + 1, dataOffset, cluster, bufferPointer => by
    rw [followLoop, readLoop_succ]
    refine readStretch_erases.bind fun r => (erases_refl _).bind fun _ => ?_
    exact advance_erases fun c p => readLoop_erases

theorem writeLoop_erases : ∀ {fuel dataOffset cluster bufferPointer : ℕ},
    Erases (f.followLoop env (VirtioBlk.write env) true bufferAddress length fuel dataOffset
      cluster bufferPointer)
      (f.writeLoop env bufferAddress length fuel dataOffset cluster bufferPointer)
  | 0, _, _, _ => erases_fail .stuck
  | fuel + 1, dataOffset, cluster, bufferPointer => by
    rw [followLoop, writeLoop_succ]
    refine writeStretch_erases.bind fun r => (erases_refl _).bind fun _ => ?_
    exact advance_erases fun c p => writeLoop_erases

/-- The calls locate the range in the same way. -/
theorem locate_erases {driver : Driver}
    {g : Option (ℕ × ℕ × ℕ) → Effect Host ℕ} (hnone : g none = pure 0)
    (hsome : ∀ n d c, Erases (f.followLoop env driver isWrite bufferAddress n fuel d c 0)
      (g (some (n, d, c)))) :
    Erases (f.followFile env driver isWrite fuel file bufferAddress offset length)
      (liftExcept (f.locate file offset length) >>= g) := by
  rw [followFile, locate, liftExcept_bind, liftExcept_checked, Effect.bind_assoc]
  refine (erases_checked _).bind fun last => ?_
  by_cases hpast : file.fileSize < last ∧ file.fileSize ≤ offset
  · rw [if_pos hpast, if_pos hpast]
    change Erases _ (g none)
    rw [hnone]
    exact erases_pure 0
  · rw [if_neg hpast, if_neg hpast]
    dsimp only
    rw [liftExcept_bind, liftExcept_checked, Effect.bind_assoc]
    refine (erases_checked _).bind fun skip => ?_
    rw [liftExcept_bind, Effect.bind_assoc]
    exact followClusters_erases.bind fun c => hsome _ _ c

/-- With the host's driver, and without the counter, the call is `read`. -/
theorem read_erases : Erases
    (f.followFile env (VirtioBlk.read env) false fuel file bufferAddress offset length)
    (f.read env fuel file bufferAddress offset length) :=
  locate_erases rfl fun _ _ _ => readLoop_erases

/-- With the host's driver, and without the counter, the call is `write`. -/
theorem write_erases : Erases
    (f.followFile env (VirtioBlk.write env) true fuel file bufferAddress offset length)
    (f.write env fuel file bufferAddress offset length) :=
  locate_erases rfl fun _ _ _ => writeLoop_erases

end Erases

end Fat32

end MiniVisor
