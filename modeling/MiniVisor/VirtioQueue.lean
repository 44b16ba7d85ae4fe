import MiniVisor.BlockProgress
import MiniVisor.Fat32Requests
import MiniVisor.VirtioDriver

/-!
# The driver refines the drive

`VirtioBlk` says what the driver is for: a request moves bytes between a buffer and the disk.
`VirtioDriver` has the bytes of the queue. A device that follows the queue finds the request
that was made, so that the two have the same results, and leave the same memory outside of the
queue and the stack.
-/
namespace MiniVisor

namespace VirtioDriver

open Effects

/-! ## Writes -/

section Writes

variable {m : Memory} {ws : List (ℕ × ℕ × ℕ)} {a n v x : ℕ}

/-- Little-endian numbers, each with its address and its size. -/
def writeAll (m : Memory) : List (ℕ × ℕ × ℕ) → Memory
  | [] => m
  | w :: ws => writeAll (writeLe m w.1 w.2.1 w.2.2) ws

def Beside (v w : ℕ × ℕ × ℕ) : Prop := v.1 + v.2.1 ≤ w.1 ∨ w.1 + w.2.1 ≤ v.1

theorem writeAll_of_not_mem (h : ∀ w ∈ ws, ¬(w.1 ≤ x ∧ x < w.1 + w.2.1)) :
    writeAll m ws x = m x := by
  induction ws generalizing m with
  | nil => rfl
  | cons w ws ih =>
    rw [writeAll, ih fun u hu => h u (List.mem_cons_of_mem w hu)]
    exact if_neg (h w List.mem_cons_self)

theorem readLe_writeAll_of_beside (h : ∀ w ∈ ws, a + n ≤ w.1 ∨ w.1 + w.2.1 ≤ a) :
    readLe (writeAll m ws) a n = readLe m a n := by
  refine VirtioBlkMmio.readLe_congr fun x hge hlt => writeAll_of_not_mem fun w hw => ?_
  have hbeside := h w hw
  omega

/-- What is written beside all else is read back. -/
theorem readLe_writeAll_of_mem (hpair : ws.Pairwise Beside) (h : (a, n, v) ∈ ws) :
    readLe (writeAll m ws) a n = v % 256 ^ n := by
  induction ws generalizing m with
  | nil => exact absurd h List.not_mem_nil
  | cons w ws ih =>
    obtain ⟨hfirst, hrest⟩ := List.pairwise_cons.1 hpair
    rw [writeAll]
    rcases List.mem_cons.1 h with rfl | hmem
    · rw [readLe_writeAll_of_beside hfirst]
      exact VirtioBlkMmio.readLe_writeLe
    · exact ih hrest hmem

end Writes

/-! ## Layout -/

/-- The stack of the driver. -/
structure Stack where
  first : ℕ
  last : ℕ

/-- The pages of the queue and the stack. -/
def Own (q : Queue) (k : Stack) (x : ℕ) : Prop :=
  q.descriptors ≤ x ∧ x < q.used + sizeOfUsed ∨ k.first ≤ x ∧ x < k.last

/-- The rings lie behind the table, and the stack lies elsewhere. -/
structure Layout (q : Queue) (k : Stack) : Prop where
  avail : q.avail = q.descriptors + sizeOfDesc * numberOfDescriptors
  used : q.avail + sizeOfAvail ≤ q.used
  stack : k.last ≤ q.descriptors ∨ q.used + sizeOfUsed ≤ k.first
  last_le : k.last ≤ 2 ^ 64

/-- A call with its locals on the stack and a buffer of the caller. -/
structure Call where
  frame : Frame
  bufferAddress : ℕ
  blockAddress : ℕ
  length : ℕ
  isWrite : Bool

structure Call.Fits (q : Queue) (k : Stack) (c : Call) : Prop where
  request : k.first ≤ c.frame.virtioBlkReq ∧ c.frame.virtioBlkReq + 16 ≤ k.last
  status : k.first ≤ c.frame.status ∧ c.frame.status < k.last
  apart : c.frame.status < c.frame.virtioBlkReq ∨ c.frame.virtioBlkReq + 16 ≤ c.frame.status
  buffer : ∀ i < c.length, ¬Own q k (c.bufferAddress + i)
  buffer_lt : c.bufferAddress < 2 ^ 64
  block_lt : c.blockAddress < 2 ^ 64

def Call.sync (env : Environment) (q : Queue) (c : Call) : Effect Machine PUnit :=
  operationSync env q c.frame c.bufferAddress c.blockAddress c.length c.isWrite

theorem zero_lt_bytes : 0 < 8 := by decide

/-- The descriptors from `n` on are free. -/
def freeFrom (n : ℕ) : FreeBitmap :=
  (Vector.replicate 8 0xFF#8).set 0 (0xFF#8 <<< n) zero_lt_bytes

theorem findFree_freeFrom : ∀ n < 3, findFree (freeFrom n) = some (0, n) := by decide

theorem set_freeFrom : ∀ n < 3, (freeFrom n).set (0 : Fin 8)
    ((freeFrom n)[(0 : Fin 8)] &&& ~~~(1#8 <<< n)) = freeFrom (n + 1) := by decide

theorem allocateDescriptor_freeFrom (n : ℕ) {s : Machine} (hs : s.freeBitmap = freeFrom n)
    (hn : n < 3) :
    allocateDescriptor s = (.ok (some n), { s with freeBitmap := freeFrom (n + 1) }) := by
  rw [allocateDescriptor, Effect.look_bind]
  simp only [hs, findFree_freeFrom n hn]
  rw [Effect.change_bind]
  simp only [hs, set_freeFrom n hn]
  show (Except.ok (some (0 * 8 + n)), _) = _
  rw [Nat.zero_mul, Nat.zero_add]

def raise (freeBitmap : FreeBitmap) (i : ℕ) : FreeBitmap :=
  freeBitmap.set 0 (getElem freeBitmap 0 zero_lt_bytes ||| (1#8 <<< i)) zero_lt_bytes

theorem freeDescriptor_eq {m disk : Memory} {freeBitmap : FreeBitmap} {taken i : ℕ} (hi : i < 8) :
    freeDescriptor i ⟨m, disk, freeBitmap, taken⟩ =
      (.ok ⟨⟩, ⟨m, disk, raise freeBitmap i, taken⟩) := by
  have hmodify : Checked.modify freeBitmap (i / 8) (fun c => c ||| (1#8 <<< (i % 8))) =
      some (raise freeBitmap i) := by
    rw [Nat.div_eq_of_lt hi, Nat.mod_eq_of_lt hi, Checked.modify_eq_some]
    exact ⟨by decide, rfl⟩
  rw [freeDescriptor, Effect.look_bind, hmodify, Effect.checked_bind]
  rfl

theorem raise_all : raise (raise (raise (freeFrom 3) 0) 1) 2 = freeFrom 0 := by decide

/-- The three descriptors are given back. -/
theorem free_all {m disk : Memory} {taken : ℕ} (done : Bool) :
    (do
      freeDescriptor 0
      freeDescriptor 1
      freeDescriptor 2
      if done then pure ⟨⟩ else Effect.fail .err : Effect Machine PUnit)
        ⟨m, disk, freeFrom 3, taken⟩ =
      (if done then .ok ⟨⟩ else .error .err, ⟨m, disk, freeFrom 0, taken⟩) := by
  rw [Effect.bind_ok (freeDescriptor_eq (by decide)), Effect.bind_ok (freeDescriptor_eq (by decide)),
    Effect.bind_ok (freeDescriptor_eq (by decide)), raise_all]
  cases done <;> rfl

/-! ## What is published -/

theorem writeAll_append {m : Memory} {ws us : List (ℕ × ℕ × ℕ)} :
    writeAll m (ws ++ us) = writeAll (writeAll m ws) us := by
  induction ws generalizing m with
  | nil => rfl
  | cons w ws ih => exact ih

def Machine.put (s : Machine) (ws : List (ℕ × ℕ × ℕ)) : Machine :=
  { s with memory := writeAll s.memory ws }

/-- The direction of the data. -/
def dataFlags (isWrite : Bool) : ℕ :=
  if isWrite then virtQueueDescFlagsNext else virtQueueDescFlagsNext ||| virtQueueDescFlagsWrite

/-- What the driver writes for a request, up to the available ring. -/
def Call.chainWrites (q : Queue) (c : Call) : List (ℕ × ℕ × ℕ) :=
  [(c.frame.virtioBlkReq, 4, if c.isWrite then virtioBlkTypeOut else virtioBlkTypeIn),
    (c.frame.virtioBlkReq + 4, 4, 0), (c.frame.virtioBlkReq + 8, 8, c.blockAddress / 512),
    (q.descriptors + sizeOfDesc * 0, 8, c.frame.virtioBlkReq),
    (q.descriptors + sizeOfDesc * 0 + 8, 4, 16),
    (q.descriptors + sizeOfDesc * 0 + 12, 2, virtQueueDescFlagsNext),
    (q.descriptors + sizeOfDesc * 1, 8, c.bufferAddress),
    (q.descriptors + sizeOfDesc * 1 + 8, 4, c.length % 2 ^ 32),
    (q.descriptors + sizeOfDesc * 1 + 12, 2, dataFlags c.isWrite),
    (q.descriptors + sizeOfDesc * 0 + 14, 2, 1), (c.frame.status, 1, 0xFF),
    (q.descriptors + sizeOfDesc * 2, 8, c.frame.status),
    (q.descriptors + sizeOfDesc * 2 + 8, 4, 1),
    (q.descriptors + sizeOfDesc * 2 + 12, 2, virtQueueDescFlagsWrite),
    (q.descriptors + sizeOfDesc * 1 + 14, 2, 2)]

def ringWrites (q : Queue) (idx : ℕ) : List (ℕ × ℕ × ℕ) :=
  [(q.avail + 4 + 2 * (idx % numberOfDescriptors), 2, 0), (q.avail + 2, 2, idx + 1)]

variable {env : Environment} {q : Queue} {k : Stack} {c : Call} {m disk : Memory} {taken : ℕ}

/-- What comes after the publication. -/
def finish (env : Environment) (q : Queue) (frame : Frame) : Effect Machine PUnit := do
  notify env q
  let done ← wait frame
  freeDescriptor 0
  freeDescriptor 1
  freeDescriptor 2
  if done then pure ⟨⟩ else Effect.fail .err

theorem sync_eq (haligned : ¬(c.blockAddress % 512 ≠ 0 ∨ c.length % 512 ≠ 0)) :
    c.sync env q ⟨m, disk, freeFrom 0, taken⟩ =
      (publish q 0 >>= fun _ => finish env q c.frame)
        ⟨writeAll m (c.chainWrites q), disk, freeFrom 3, taken⟩ := by
  have hrequest : ∀ s : Machine, setRequest c.frame c.isWrite c.blockAddress s =
      (.ok ⟨⟩, s.put [(c.frame.virtioBlkReq, 4,
        if c.isWrite then virtioBlkTypeOut else virtioBlkTypeIn), (c.frame.virtioBlkReq + 4, 4, 0),
        (c.frame.virtioBlkReq + 8, 8, c.blockAddress / 512)]) := fun _ => rfl
  have hdesc : ∀ (i address length flags : ℕ) (s : Machine),
      setDescriptor q i address length flags s =
        (.ok ⟨⟩, s.put [(q.descriptors + sizeOfDesc * i, 8, address),
          (q.descriptors + sizeOfDesc * i + 8, 4, length),
          (q.descriptors + sizeOfDesc * i + 12, 2, flags)]) := fun _ _ _ _ _ => rfl
  have hnext : ∀ (i next : ℕ) (s : Machine), setNext q i next s =
      (.ok ⟨⟩, s.put [(q.descriptors + sizeOfDesc * i + 14, 2, next)]) := fun _ _ _ => rfl
  have hstore : ∀ (a n v : ℕ) (s : Machine), store a n v s = (.ok ⟨⟩, s.put [(a, n, v)]) :=
    fun _ _ _ _ => rfl
  rw [Call.sync, operationSync, if_neg haligned, Effect.bind_ok (hrequest _),
    Effect.bind_ok (allocateDescriptor_freeFrom 0 rfl (by decide))]
  dsimp only
  rw [Effect.bind_ok (hdesc _ _ _ _ _),
    Effect.bind_ok (allocateDescriptor_freeFrom 1 rfl (by decide))]
  dsimp only
  rw [Effect.bind_ok (hdesc _ _ _ _ _), Effect.bind_ok (hnext _ _ _), Effect.bind_ok (hstore _ _ _ _),
    Effect.bind_ok (allocateDescriptor_freeFrom 2 rfl (by decide))]
  dsimp only
  rw [Effect.bind_ok (hdesc _ _ _ _ _), Effect.bind_ok (hnext _ _ _)]
  rfl

theorem writes_beside (taken : ℕ) (hl : Layout q k) (hc : c.Fits q k) :
    (c.chainWrites q ++ ringWrites q taken).Pairwise Beside := by
  obtain ⟨havail, hused, hstack, -⟩ := hl
  obtain ⟨⟨hlow, hhigh⟩, ⟨hfirst, hlast⟩, hapart, -, -, -⟩ := hc
  simp only [sizeOfDesc, sizeOfAvail, sizeOfUsed, numberOfDescriptors] at havail hused hstack
  simp only [Call.chainWrites, ringWrites, List.cons_append, List.nil_append, List.pairwise_cons,
    List.forall_mem_cons, Beside, sizeOfDesc, numberOfDescriptors]
  repeat' apply And.intro
  all_goals first | omega | simp

/-- The index that the driver counts on, behind the descriptors. -/
theorem publish_eq (hl : Layout q k) (hc : c.Fits q k)
    (hidx : readLe m (q.avail + 2) 2 = taken) {freeBitmap : FreeBitmap} {n : ℕ} :
    publish q 0 ⟨writeAll m (c.chainWrites q), disk, freeBitmap, n⟩ =
      if taken + 1 < 2 ^ 16 then
        (.ok ⟨⟩, ⟨writeAll m (c.chainWrites q ++ ringWrites q taken), disk, freeBitmap, n⟩)
      else (.error .panic, ⟨writeAll m (c.chainWrites q ++
        [(q.avail + 4 + 2 * (taken % numberOfDescriptors), 2, 0)]), disk, freeBitmap, n⟩) := by
  have hread : readLe (writeAll m (c.chainWrites q)) (q.avail + 2) 2 = taken := by
    rw [readLe_writeAll_of_beside, hidx]
    intro w hw
    exact (((List.pairwise_append.1 (writes_beside taken hl hc)).2.2) w hw
      (q.avail + 2, 2, taken + 1) (by simp [ringWrites])).symm
  rw [publish, Effect.look_bind]
  dsimp only
  rw [hread]
  split_ifs with hlt
  · rw [Checked.add_eq_some.2 ⟨hlt, rfl⟩, writeAll_append]
    rfl
  · rw [Checked.add, if_neg hlt, writeAll_append]
    rfl

/-- The memory that the device finds. -/
def Call.published (q : Queue) (c : Call) (idx : ℕ) (m : Memory) : Memory :=
  writeAll m (c.chainWrites q ++ ringWrites q idx)

def Call.offer (c : Call) : Offer where
  reqType := if c.isWrite then virtioBlkTypeOut else virtioBlkTypeIn
  sector := c.blockAddress / 512
  buffer := c.bufferAddress
  length := c.length % 2 ^ 32
  status := c.frame.status

/-- What is published is read back. -/
theorem published_read (hl : Layout q k) (hc : c.Fits q k) {a n v : ℕ}
    (h : (a, n, v) ∈ c.chainWrites q ++ ringWrites q taken) (hv : v < 256 ^ n) :
    readLe (c.published q taken m) a n = v :=
  (readLe_writeAll_of_mem (writes_beside _ hl hc) h).trans (Nat.mod_eq_of_lt hv)

theorem published_desc (hl : Layout q k) (hc : c.Fits q k) {i : ℕ} {d : VirtQueueDesc}
    (haddress : (q.descriptors + sizeOfDesc * i, 8, d.address) ∈ c.chainWrites q)
    (hlength : (q.descriptors + sizeOfDesc * i + 8, 4, d.length) ∈ c.chainWrites q)
    (hflags : (q.descriptors + sizeOfDesc * i + 12, 2, d.flags) ∈ c.chainWrites q)
    (hd : d.address < 256 ^ 8 ∧ d.length < 256 ^ 4 ∧ d.flags < 256 ^ 2)
    (hnext : readLe (c.published q taken m) (q.descriptors + sizeOfDesc * i + 14) 2 = d.next) :
    readDesc (c.published q taken m) (q.descriptors + sizeOfDesc * i) = d := by
  obtain ⟨h₁, h₂, h₃⟩ := hd
  rw [readDesc, published_read hl hc (List.mem_append_left _ haddress) h₁,
    published_read hl hc (List.mem_append_left _ hlength) h₂,
    published_read hl hc (List.mem_append_left _ hflags) h₃, hnext]

theorem chain_next {table i : ℕ} {d : VirtQueueDesc} (fuel : ℕ)
    (hd : readDesc m (table + sizeOfDesc * i) = d) (hnext : d.HasNext) :
    chain m table (fuel + 1) i = (chain m table fuel d.next).map (d :: ·) := by
  rw [chain, hd]
  exact if_pos hnext

theorem chain_last {table i : ℕ} {d : VirtQueueDesc} (fuel : ℕ)
    (hd : readDesc m (table + sizeOfDesc * i) = d) (hnext : ¬d.HasNext) :
    chain m table (fuel + 1) i = some [d] := by
  rw [chain, hd]
  exact if_neg hnext

theorem dataFlags_lt : ∀ isWrite, dataFlags isWrite < 256 ^ 2 := by decide

/-- The chain of the request has three descriptors. -/
theorem published_chain (m : Memory) (taken : ℕ) (hl : Layout q k) (hc : c.Fits q k) :
    ∃ next, chain (c.published q taken m) q.descriptors numberOfDescriptors 0 =
      some [⟨c.frame.virtioBlkReq, 16, virtQueueDescFlagsNext, 1⟩,
        ⟨c.bufferAddress, c.length % 2 ^ 32, dataFlags c.isWrite, 2⟩,
        ⟨c.frame.status, 1, virtQueueDescFlagsWrite, next⟩] := by
  obtain ⟨-, hrequest⟩ := hc.request
  obtain ⟨-, hstatus⟩ := hc.status
  have hend := hl.last_le
  have hfirst : readDesc (c.published q taken m) (q.descriptors + sizeOfDesc * 0) =
      ⟨c.frame.virtioBlkReq, 16, virtQueueDescFlagsNext, 1⟩ :=
    published_desc hl hc (by simp [Call.chainWrites]) (by simp [Call.chainWrites])
      (by simp [Call.chainWrites]) ⟨by dsimp only; omega, by dsimp only; decide,
        by dsimp only; decide⟩
      (published_read hl hc (by simp [Call.chainWrites]) (by dsimp only; decide))
  have hsecond : readDesc (c.published q taken m) (q.descriptors + sizeOfDesc * 1) =
      ⟨c.bufferAddress, c.length % 2 ^ 32, dataFlags c.isWrite, 2⟩ :=
    published_desc hl hc (by simp [Call.chainWrites]) (by simp [Call.chainWrites])
      (by simp [Call.chainWrites]) ⟨hc.buffer_lt, by dsimp only; omega, dataFlags_lt _⟩
      (published_read hl hc (by simp [Call.chainWrites]) (by dsimp only; decide))
  have hthird : readDesc (c.published q taken m) (q.descriptors + sizeOfDesc * 2) =
      ⟨c.frame.status, 1, virtQueueDescFlagsWrite,
        readLe (c.published q taken m) (q.descriptors + sizeOfDesc * 2 + 14) 2⟩ :=
    published_desc hl hc (by simp [Call.chainWrites]) (by simp [Call.chainWrites])
      (by simp [Call.chainWrites]) ⟨by dsimp only; omega, by dsimp only; decide,
        by dsimp only; decide⟩ rfl
  have hnext : virtQueueDescFlagsNext &&& virtQueueDescFlagsNext ≠ 0 := by decide
  have hdata : ∀ b, dataFlags b &&& virtQueueDescFlagsNext ≠ 0 := by decide
  have hlast : virtQueueDescFlagsWrite &&& virtQueueDescFlagsNext = 0 := by decide
  exact ⟨_, (chain_next 63 hfirst hnext).trans (congrArg (Option.map _)
    ((chain_next 62 hsecond (hdata _)).trans (congrArg (Option.map _)
      (chain_last 61 hthird (not_not.2 hlast)))))⟩

theorem published_head (hl : Layout q k) (hc : c.Fits q k) (hlt : taken + 1 < 2 ^ 16) :
    nextHead q (c.published q taken m) taken = some 0 := by
  rw [nextHead, published_read hl hc (v := taken + 1) (by simp [ringWrites]) (by omega),
    published_read hl hc (v := 0) (by simp [ringWrites]) (by decide)]
  exact if_neg (by omega)

/-- The device finds the request that was made. -/
theorem published_offer (hl : Layout q k) (hc : c.Fits q k) (hlt : taken + 1 < 2 ^ 16) :
    offered q (c.published q taken m) taken = some (0, c.offer) := by
  obtain ⟨next, hchain⟩ := published_chain m taken hl hc
  have hblock := hc.block_lt
  have htype : readLe (c.published q taken m) c.frame.virtioBlkReq 4 = c.offer.reqType :=
    published_read hl hc (by simp [Call.chainWrites, Call.offer]) (by
      cases hw : c.isWrite <;> simp [Call.offer, hw, virtioBlkTypeOut, virtioBlkTypeIn])
  have hsector : readLe (c.published q taken m) (c.frame.virtioBlkReq + 8) 8 = c.offer.sector :=
    published_read hl hc (by simp [Call.chainWrites, Call.offer]) (by dsimp only [Call.offer]; omega)
  have hdirection :
      c.offer.reqType = virtioBlkTypeIn ∧ dataFlags c.isWrite &&& virtQueueDescFlagsWrite ≠ 0 ∨
        c.offer.reqType = virtioBlkTypeOut ∧
          ¬dataFlags c.isWrite &&& virtQueueDescFlagsWrite ≠ 0 := by
    cases hw : c.isWrite with
    | true => exact .inr ⟨by simp [Call.offer, hw], by decide⟩
    | false => exact .inl ⟨by simp [Call.offer, hw], by decide⟩
  have hread : virtQueueDescFlagsNext &&& virtQueueDescFlagsWrite = 0 := by decide
  have hwrite : virtQueueDescFlagsWrite &&& virtQueueDescFlagsWrite ≠ 0 := by decide
  rw [offered, published_head hl hc hlt, Option.bind_eq_bind, Option.bind_some, hchain,
    Option.bind_eq_bind, Option.bind_some, offerOf]
  dsimp only
  rw [htype, hsector, if_pos ⟨rfl, not_not.2 hread, hwrite, rfl, hdirection⟩]
  rfl

end VirtioDriver

end MiniVisor
