import MiniVisor.BlockPanics

/-!
# The queue over whole runs

The device counts the requests that it takes and the elements that it publishes in 16
bits, and the position in either ring is that number modulo the size of the queue. The two
counters stay in step with the guest's index up to the last number that they hold. The
index of the guest goes on with zero behind it; the device's next addition overflows.
-/
namespace MiniVisor

open Effects

namespace VirtioBlkMmio

/-- `used.idx`. -/
def usedIdx (s : BlkState) : ℕ := readLe s.host.memory (s.device.usedRing + 2) 2

/-- A queue of `q` entries that the device can address. -/
structure Queue (q : ℕ) (device : VirtioBlkMmio) : Prop where
  size : device.queueSize = q
  pow : ∃ i ≤ 10, q = 2 ^ i
  laid : Laid device
  table : device.descriptor ≠ 0
  used : device.usedRing + 4 + 8 * q < 2 ^ 64

/-- A chain with a header in RAM, whose walk comes to its end and which the device could
serve as the first one of the queue. -/
structure WellFormed (p : Platform) (fuel id : ℕ) (s : BlkState) : Prop where
  header : ¬Malformed p id s
  ends : Effect.Ends (request p fuel id) s
  fits : RequestFits p fuel id { s with device.usedId := 0 }

/-- The requests that the loop of `operation` serves, with the states around each. -/
def rounds (p : Platform) : ℕ → BlkState → List (BlkState × BlkState)
  | 0, _ => []
  | fuel + 1, s =>
    match getNextAvailId s with
    | (.ok (some id), s') =>
      match request p fuel id s' with
      | (.ok true, t) => (s, t) :: rounds p fuel t
      | _ => []
    | _ => []

/-- The request number `k`: it is taken from its slot and published in its slot. -/
structure Round (q k : ℕ) (s t : BlkState) : Prop where
  taken : s.device.lastAvailId = k
  counted : t.device.lastAvailId = k + 1
  element : readLe t.host.memory (t.device.usedRing + 4 + 8 * (k % q)) 4 = headId s (k % q)
  idx : usedIdx t = k + 1
  completion : ∃ c : Completion, t.completions = s.completions ++ [c] ∧ c.id = headId s (k % q)

/-- From `s` to `t`, the requests `rs` were served, the first of them as number `k`. -/
structure InStep (q k : ℕ) (rs : List (BlkState × BlkState)) (s t : BlkState) : Prop where
  queue : Queue q t.device
  taken : t.device.lastAvailId = k + rs.length
  published : t.device.usedId = k + rs.length
  idx : usedIdx t = k + rs.length
  fits : k + rs.length < 2 ^ 16
  rounds : ∀ i s' t', rs[i]? = some (s', t') → Round q (k + i) s' t'
  completions : ∃ cs : List Completion, t.completions = s.completions ++ cs ∧
    cs.map Completion.id = rs.mapIdx fun i r => headId r.1 ((k + i) % q)

variable {p : Platform} {q k fuel id : ℕ} {s t u : BlkState} {rs rs' : List (BlkState × BlkState)}

theorem Queue.pos {device : VirtioBlkMmio} (h : Queue q device) : 0 < q := by
  obtain ⟨i, -, rfl⟩ := h.pow
  exact Nat.two_pow_pos i

theorem Queue.mod_eq {device : VirtioBlkMmio} (h : Queue q device) :
    device.queueSize % 2 ^ 16 = q := by
  obtain ⟨i, hi, hq⟩ := h.pow
  have hle : q ≤ 2 ^ 10 := hq ▸ Nat.pow_le_pow_right (by decide) hi
  rw [h.size]
  exact Nat.mod_eq_of_lt (by omega)

/-- The used ring has room for each of its elements. -/
theorem Queue.usedFits {device : VirtioBlkMmio} (h : Queue q device)
    (hnumber : device.usedId + 1 < 2 ^ 16) : UsedFits device := by
  have hmod := Nat.mod_lt device.usedId h.pos
  have hring := h.used
  rw [UsedFits, h.mod_eq]
  exact ⟨h.pos.ne', hnumber, by omega⟩

/-- The counters are not part of the queue. -/
theorem Queue.congr {device device' : VirtioBlkMmio} (h : Queue q device)
    (hsize : device'.queueSize = device.queueSize)
    (htable : device'.descriptor = device.descriptor)
    (havail : device'.availRing = device.availRing)
    (hused : device'.usedRing = device.usedRing) : Queue q device' where
  size := hsize.trans h.size
  pow := h.pow
  laid := by
    have hlaid := h.laid
    rw [Laid] at hlaid ⊢
    rw [hsize, htable, havail]
    exact hlaid
  table := htable ▸ h.table
  used := hused ▸ h.used

/-- Nothing is served. -/
theorem InStep.idle (hqueue : Queue q t.device) (htaken : t.device.lastAvailId = k)
    (hpublished : t.device.usedId = k) (hidx : usedIdx t = k) (hk : k < 2 ^ 16)
    (hcompletions : t.completions = s.completions) : InStep q k [] s t where
  queue := hqueue
  taken := htaken
  published := hpublished
  idx := hidx
  fits := hk
  rounds i s' t' h := by simp at h
  completions := ⟨[], by rw [hcompletions, List.append_nil], rfl⟩

theorem InStep.trans (h₁ : InStep q k rs s t) (h₂ : InStep q (k + rs.length) rs' t u) :
    InStep q k (rs ++ rs') s u where
  queue := h₂.queue
  taken := by rw [h₂.taken, List.length_append, Nat.add_assoc]
  published := by rw [h₂.published, List.length_append, Nat.add_assoc]
  idx := by rw [h₂.idx, List.length_append, Nat.add_assoc]
  fits := by
    have hfits := h₂.fits
    rw [List.length_append]
    omega
  rounds i s' t' h := by
    rw [List.getElem?_append] at h
    split_ifs at h with hi
    · exact h₁.rounds i s' t' h
    · have hround := h₂.rounds _ s' t' h
      rwa [Nat.add_assoc, Nat.add_sub_cancel' (by omega)] at hround
  completions := by
    obtain ⟨cs, hcs, hids⟩ := h₁.completions
    obtain ⟨cs', hcs', hids'⟩ := h₂.completions
    refine ⟨cs ++ cs', by rw [hcs', hcs, List.append_assoc], ?_⟩
    have hshift : ∀ i, k + rs.length + i = k + (i + rs.length) := by omega
    simp only [List.map_append, hids, hids', List.mapIdx_append, hshift]

/-! ## One request -/

theorem readLe_writeLe {m : Memory} {address n value : ℕ} :
    readLe (writeLe m address n value) address n = value % 256 ^ n := by
  have hbyte : ∀ j n, j ≤ n →
      readLe (writeLe m address n value) (address + j) (n - j) =
        value / 256 ^ j % 256 ^ (n - j) := by
    intro j n hj
    induction hk : n - j generalizing j with
    | zero => rw [readLe, pow_zero, Nat.mod_one]
    | succ i ih =>
      rw [readLe, Nat.add_assoc, ih (j + 1) (by omega) (by omega), writeLe,
        if_pos (by omega), Nat.add_sub_cancel_left, UInt8.toNat_ofNat', pow_succ (n := j),
        ← Nat.div_div_eq_div_mul, pow_succ' (n := i)]
      exact (Nat.mod_mul).symm
  have hall := hbyte 0 n (by omega)
  rwa [Nat.add_zero, Nat.sub_zero, pow_zero, Nat.div_one] at hall

theorem readLe_writeLe_of_disjoint {m : Memory} {a i b j value : ℕ} (h : a + i ≤ b ∨ b + j ≤ a) :
    readLe (writeLe m b j value) a i = readLe m a i := by
  apply readLe_congr
  intro x hge hlt
  exact if_neg (by omega)

/-- The position and the number of the request that the loop takes. -/
theorem getNextAvailId_slot (h : getNextAvailId s = (.ok (some id), t)) :
    id = s.device.lastAvailId % (s.device.queueSize % 2 ^ 16) ∧
      t.host.memory = s.host.memory := by
  rw [getNextAvailId, self, Effect.look_bind, access, Effect.change_bind, memory,
    Effect.look_bind] at h
  split_ifs at h with hsame
  · cases h
  · obtain ⟨next, hnext, h⟩ := Effect.checked_bind_eq_ok.1 h
    obtain ⟨-, rfl⟩ := Checked.rem_eq_some.1 hnext
    obtain ⟨lastAvailId, -, h⟩ := Effect.checked_bind_eq_ok.1 h
    cases h
    exact ⟨rfl, rfl⟩

theorem getDescriptor_firm : Effect.Firm (getDescriptor id) := by
  rw [getDescriptor, self]
  apply (Effect.Firm.look _).bind
  intro device
  split_ifs
  · exact (Effect.Firm.checked _).bind fun _ => (Effect.Firm.change _).bind fun _ =>
      (Effect.Firm.look _).bind fun _ => .pure _
  · exact .pure _

theorem getDescriptorId_firm : Effect.Firm (getDescriptorId id) := by
  rw [getDescriptorId, self]
  apply (Effect.Firm.look _).bind
  intro device
  split_ifs
  · exact (Effect.Firm.checked _).bind fun _ => (Effect.Firm.checked _).bind fun _ =>
      (Effect.Firm.change _).bind fun _ => (Effect.Firm.look _).bind fun _ => .pure _
  · exact .pure _

theorem transfer_firm {isWrite : Bool} {address offset size : ℕ} :
    Effect.Firm (transfer p fuel isWrite address offset size) :=
  (Effect.Firm.look _).bind fun _ s => Effect.Firm.attempt s.host

theorem walkWith_firm {add : ℕ → ℕ → Option ℕ} {isWrite : Bool} {d : VirtQueueDesc}
    {offset totalSize status : ℕ} :
    Effect.Firm (walkWith p add isWrite fuel d offset totalSize status) := by
  induction fuel generalizing d offset totalSize status with
  | zero => exact .fail (by decide)
  | succ fuel ih =>
    rw [walkWith]
    apply getDescriptor_firm.bind
    intro found
    cases found with
    | none => exact .pure _
    | some e =>
      dsimp only
      split_ifs with hnext
      · apply (Effect.Firm.checked _).bind
        intro total
        apply (Effect.Firm.checked _).bind
        intro address
        cases address with
        | none => exact (Effect.Firm.change _).bind fun _ => ih
        | some address =>
          exact (Effect.Firm.change _).bind fun _ => (Effect.Firm.look _).bind fun _ =>
            transfer_firm.bind fun _ => (Effect.Firm.look _).bind fun _ =>
              (Effect.Firm.change _).bind fun _ => (Effect.Firm.checked _).bind fun _ => ih
      · exact .pure _

theorem writeUsed_firm {length : ℕ} : Effect.Firm (writeUsed id length) :=
  (Effect.Firm.look _).bind fun _ => (Effect.Firm.checked _).bind fun _ =>
    (Effect.Firm.checked _).bind fun _ => (Effect.Firm.change _).bind fun _ =>
      (Effect.Firm.checked _).bind fun _ => (Effect.Firm.checked _).bind fun _ =>
        (Effect.Firm.change _).bind fun _ => (Effect.Firm.change _).bind fun _ =>
          (Effect.Firm.change _).bind fun _ => (Effect.Firm.change _).bind fun _ => .change _

theorem completeWith_firm {add : ℕ → ℕ → Option ℕ} {last : VirtQueueDesc} {totalSize status : ℕ} :
    Effect.Firm (completeWith p add id last totalSize status) := by
  rw [completeWith]
  apply (Effect.Firm.checked _).bind
  intro address
  cases address with
  | none => exact writeUsed_firm.bind fun _ => .change _
  | some address =>
    exact (Effect.Firm.change _).bind fun _ => (Effect.Firm.change _).bind fun _ =>
      (Effect.Firm.checked _).bind fun _ => writeUsed_firm.bind fun _ => .change _

/-- A request panics or returns. -/
theorem request_firm : Effect.Firm (request p fuel id) := by
  rw [request, requestWith]
  apply (Effect.Firm.change _).bind
  intro _
  apply getDescriptorId_firm.bind
  intro found
  cases found with
  | none => exact .pure _
  | some head =>
    apply getDescriptor_firm.bind
    intro found
    cases found with
    | none => exact .pure _
    | some d =>
      dsimp only
      by_cases hlength : d.length ≠ 16
      · rw [if_pos hlength]
        exact .pure _
      rw [if_neg hlength]
      apply (Effect.Firm.checked _).bind
      intro header
      cases header with
      | none => exact .pure _
      | some header =>
        apply (Effect.Firm.change _).bind
        intro _
        apply (Effect.Firm.look _).bind
        intro m
        apply (Effect.Firm.change _).bind
        intro _
        split_ifs with hnext
        · apply walkWith_firm.bind
          intro result
          cases result with
          | none => exact .pure _
          | some result => exact completeWith_firm.bind fun _ => .pure _
        · exact .pure _

theorem availIdx_lt : availIdx s < 2 ^ 16 := readLe_lt

/-- As long as the guest's index is not behind, the device takes the next request. -/
theorem getNextAvailId_paced (hqueue : Queue q s.device)
    (hlt : s.device.lastAvailId < availIdx s) :
    ∃ id t, getNextAvailId s = (.ok (some id), t) := by
  have hidx := availIdx_lt (s := s)
  have hrem : Checked.rem s.device.lastAvailId (s.device.queueSize % 2 ^ 16) =
      some (s.device.lastAvailId % q) := by
    rw [hqueue.mod_eq]
    exact Checked.rem_eq_some.2 ⟨hqueue.pos.ne', rfl⟩
  have hadd : Checked.add 16 s.device.lastAvailId 1 = some (s.device.lastAvailId + 1) :=
    Checked.add_eq_some.2 ⟨by omega, rfl⟩
  rw [getNextAvailId_take hlt.ne, hrem, Effect.checked_bind, hadd]
  exact ⟨_, _, rfl⟩

theorem raise_eq {distributor : GicDistributorMmio} {cpu : Pcpu}
    (h : s.distributor.triggerInterrupt s.cpu virtioBlkIntId none = some (distributor, cpu)) :
    raise s = (.ok ⟨⟩, { s with
      device.interruptStatus := s.device.interruptStatus ||| 1
      distributor := distributor
      cpu := cpu }) := by
  rw [raise, Effect.change_bind, Effect.look_bind]
  dsimp only
  rw [h]
  rfl

theorem Throughout.head {P : BlkState → GuestAccess → Prop} {a : GuestAccess}
    {as : List GuestAccess} (h : Throughout p P s (a :: as)) : P s a :=
  h [] a as s rfl rfl

theorem Throughout.tail {P : BlkState → GuestAccess → Prop} {a : GuestAccess}
    {as : List GuestAccess} (h : Throughout p P s (a :: as)) (ha : runAccess p a s = (.ok ⟨⟩, t)) :
    Throughout p P t as := by
  intro before b after u has hrun
  refine h (a :: before) b after u (by rw [has, List.cons_append]) ?_
  rw [runAll, Effect.bind_ok ha]
  exact hrun

/-- A chain of a header and a status descriptor. -/
structure Short (p : Platform) (id : ℕ) (s : BlkState) (d e : VirtQueueDesc) : Prop where
  head : readDesc s.host.memory (s.device.descriptor + 16 * headId s id) = d
  last : readDesc s.host.memory (s.device.descriptor + 16 * d.next) = e
  length : d.length = 16
  header : ∃ header, p.ram.getPhysicalAddress d.address = some (some header)
  hasNext : d.HasNext
  ends : ¬e.HasNext
  headFits : s.device.descriptor + 16 * headId s id < 2 ^ 64
  lastFits : s.device.descriptor + 16 * d.next < 2 ^ 64

theorem getDescriptor_run {d : VirtQueueDesc} (htable : s.device.descriptor ≠ 0)
    (hword : s.device.descriptor + 16 * id < 2 ^ 64)
    (hread : readDesc s.host.memory (s.device.descriptor + 16 * id) = d) :
    ∃ t, getDescriptor id s = (.ok (some d), t) ∧ ledger t = ledger s ∧ t.host = s.host := by
  rw [getDescriptor_ok htable hword, hread]
  exact ⟨_, rfl, rfl, rfl⟩

/-- Such a request goes straight to its end. -/
theorem request_short (fuel : ℕ) {d e : VirtQueueDesc} (hqueue : Queue q s.device) (hslot : id < q)
    (h : Short p id s d e) : ∃ t, ledger t = ledger s ∧ t.host = s.host ∧
      request p (fuel + 1) id s = (completeWith p (Checked.add 32) (headId s id) e 0 virtioBlkSOk
        >>= fun _ => pure true) t := by
  have hlaid := hqueue.laid
  have htable := hqueue.table
  have havail : s.device.availRing ≠ 0 := by
    rw [hlaid.1]
    omega
  have hword : s.device.availRing + 4 + 2 * id < 2 ^ 64 := by
    have hend := hlaid.2
    rw [hqueue.size] at hend
    omega
  obtain ⟨s₁, hs₁, hledger₁, hhost₁⟩ : ∃ s₁, getDescriptorId id { s with current := ⟨0, 0, []⟩ } =
      (.ok (some (headId s id)), s₁) ∧ ledger s₁ = ledger s ∧ s₁.host = s.host :=
    ⟨_, getDescriptorId_ok havail hword, rfl, rfl⟩
  have hdevice₁ := (ledger_eq.1 hledger₁).1
  have hd : readDesc s₁.host.memory (s₁.device.descriptor + 16 * headId s id) = d := by
    rw [hdevice₁, hhost₁]
    exact h.head
  obtain ⟨s₂, hs₂, hledger₂, hhost₂⟩ :=
    getDescriptor_run (by rwa [hdevice₁]) (by rw [hdevice₁]; exact h.headFits) hd
  obtain ⟨header, hheader⟩ := h.header
  obtain ⟨s₃, hs₃⟩ : ∃ s₃ : BlkState, s₃ = { s₂ with
      accesses := s₂.accesses ++ [.header header]
      current := ⟨readLe s₂.host.memory header 4, readLe s₂.host.memory (header + 8) 8, []⟩ } :=
    ⟨_, rfl⟩
  have hledger₃ : ledger s₃ = ledger s := by
    rw [hs₃]
    exact hledger₂.trans hledger₁
  have hhost₃ : s₃.host = s.host := by
    rw [hs₃]
    exact hhost₂.trans hhost₁
  have hdevice₃ := (ledger_eq.1 hledger₃).1
  have he : readDesc s₃.host.memory (s₃.device.descriptor + 16 * d.next) = e := by
    rw [hdevice₃, hhost₃]
    exact h.last
  obtain ⟨s₄, hs₄, hledger₄, hhost₄⟩ :=
    getDescriptor_run (by rwa [hdevice₃]) (by rw [hdevice₃]; exact h.lastFits) he
  refine ⟨s₄, hledger₄.trans hledger₃, hhost₄.trans hhost₃, ?_⟩
  rw [request, requestWith, Effect.change_bind, Effect.bind_ok hs₁]
  dsimp only
  rw [Effect.bind_ok hs₂]
  dsimp only
  rw [if_neg (not_not.2 h.length), hheader, Effect.checked_bind]
  dsimp only
  rw [access, Effect.change_bind, memory, Effect.look_bind, Effect.change_bind,
    if_neg (not_not.2 h.hasNext)]
  have hwalk : walkWith p (Checked.add 32) (readLe s₂.host.memory header 4 == virtioBlkTypeOut)
      (fuel + 1) d (readLe s₂.host.memory (header + 8) 8 * 2 ^ 9 % 2 ^ 64) 0 virtioBlkSOk s₃ =
        (.ok (some (e, 0, virtioBlkSOk)), s₄) := by
    rw [walkWith, Effect.bind_ok hs₄]
    dsimp only
    rw [if_pos h.ends]
    rfl
  rw [hs₃] at hwalk
  exact Effect.bind_ok hwalk

theorem writeUsed_run (id length : ℕ) (hused : UsedFits s.device) :
    ∃ t, writeUsed id length s = (.ok ⟨⟩, t) ∧
      ∀ x, x < s.device.usedRing → t.host.memory x = s.host.memory x := by
  obtain ⟨hq, hnumber, hring⟩ := hused
  have hslots : Checked.add 64 s.device.usedRing 4 = some (s.device.usedRing + 4) :=
    Checked.add_eq_some.2 ⟨by omega, rfl⟩
  rw [writeUsed, self, Effect.look_bind, Checked.rem_eq_some.2 ⟨hq, rfl⟩, Effect.checked_bind,
    Checked.add_eq_some.2 ⟨hnumber, rfl⟩, Effect.checked_bind, Effect.change_bind, hslots,
    Effect.checked_bind, Checked.add_eq_some.2 ⟨hring, rfl⟩, Effect.checked_bind]
  refine ⟨_, rfl, fun x hx => ?_⟩
  have hidx : ∀ m : Memory, writeLe m (s.device.usedRing + 2) 2 (s.device.usedId + 1) x = m x :=
    fun m => if_neg (by omega)
  refine (hidx _).trans ((if_neg (by omega)).trans (if_neg (by omega)))

theorem completeWith_run (id totalSize status : ℕ) {e : VirtQueueDesc} {address : ℕ}
    (hram : p.ram.getPhysicalAddress e.address = some (some address))
    (hsize : totalSize + e.length < 2 ^ 32) (hused : UsedFits s.device) :
    ∃ t, completeWith p (Checked.add 32) id e totalSize status s = (.ok ⟨⟩, t) ∧
      ∀ x, x ≠ address → x < s.device.usedRing → t.host.memory x = s.host.memory x := by
  rw [completeWith, hram, Effect.checked_bind]
  dsimp only
  rw [access, Effect.change_bind, store, Effect.change_bind, Checked.add_eq_some.2 ⟨hsize, rfl⟩,
    Effect.checked_bind]
  obtain ⟨t, ht, hkept⟩ := writeUsed_run id (totalSize + e.length) (s := { s with
    accesses := s.accesses ++ [.status address status]
    host.memory := writeLe s.host.memory address 1 status }) hused
  refine ⟨_, Effect.bind_ok ht, fun x hx hlt => (hkept x hlt).trans (if_neg (by omega))⟩

/-- A short request is well formed. -/
theorem Short.wellFormed {d e : VirtQueueDesc} {address : ℕ} (hqueue : Queue q s.device)
    (hslot : id < q) (hnumber : s.device.usedId + 1 < 2 ^ 16) (h : Short p id s d e)
    (hram : p.ram.getPhysicalAddress e.address = some (some address))
    (hsize : e.length < 2 ^ 32) : WellFormed p (fuel + 1) id s := by
  have hserved : ∀ s : BlkState, Queue q s.device → s.device.usedId + 1 < 2 ^ 16 →
      Short p id s d e → ∃ t, request p (fuel + 1) id s = (.ok true, t) := by
    intro s hqueue hnumber h
    obtain ⟨t, hledger, -, hrequest⟩ := request_short fuel hqueue hslot h
    have hdevice := (ledger_eq.1 hledger).1
    have hused : UsedFits t.device := hdevice ▸ hqueue.usedFits hnumber
    obtain ⟨u, hcomplete, -⟩ := completeWith_run (headId s id) 0 virtioBlkSOk hram (by omega) hused
    exact ⟨u, hrequest.trans (Effect.bind_ok hcomplete)⟩
  have hword : s.device.availRing + 4 + 2 * id < 2 ^ 64 := by
    have hend := hqueue.laid.2
    rw [hqueue.size] at hend
    omega
  obtain ⟨t, ht⟩ := hserved s hqueue hnumber h
  refine ⟨?_, ?_, ?_⟩
  · obtain ⟨hfalse, -⟩ | ⟨-, hgood, -⟩ := request_ok ht
    · exact absurd hfalse (by decide)
    · exact hgood
  · rw [Effect.Ends, ht]
    simp
  · have hfirst : Short p id { s with device.usedId := 0 } d e :=
      ⟨h.head, h.last, h.length, h.header, h.hasNext, h.ends, h.headFits, h.lastFits⟩
    obtain ⟨u, hu⟩ := hserved { s with device.usedId := 0 } (hqueue.congr rfl rfl rfl rfl)
      (by show 0 + 1 < 2 ^ 16; decide) hfirst
    exact (request_calm_iff (by exact hword)).1 (.of_ok hu)

/-- A short request in every slot; the guest has published `n + 1` of them, and the device
has served `n`. -/
def publishedImage (n : ℕ) : Memory :=
  writeLe (writeLe (writeDescs (fun _ => 0) 0x80000000
    [⟨0x40002000, 16, 1, 1⟩, ⟨0x40004000, 1, 0, 0⟩]) 0x80000082 2 (n + 1)) 0x80001002 2 n

/-- The device of `sampleSetup` behind `n` requests. -/
structure SampleServed (n : ℕ) (s : BlkState) : Prop where
  device : ∃ interruptStatus, s.device =
    { sampleSetup.device with interruptStatus := interruptStatus, lastAvailId := n, usedId := n }
  distributor : s.distributor = sampleSetup.distributor
  cpu : s.cpu = sampleSetup.cpu

theorem sampleSetup_queue : Queue 8 sampleSetup.device where
  size := rfl
  pow := ⟨3, by decide, rfl⟩
  laid := ⟨by decide +kernel, by decide +kernel⟩
  table := by decide +kernel
  used := by decide +kernel

theorem SampleServed.queue {n : ℕ} (hs : SampleServed n s) : Queue 8 s.device := by
  obtain ⟨interruptStatus, hdevice⟩ := hs.device
  rw [hdevice]
  exact sampleSetup_queue.congr rfl rfl rfl rfl

theorem publishedImage_idx {n : ℕ} (hn : n + 1 < 2 ^ 16) :
    readLe (publishedImage n) 0x80000082 2 = n + 1 := by
  rw [publishedImage, readLe_writeLe_of_disjoint (by decide), readLe_writeLe]
  exact Nat.mod_eq_of_lt (by omega)

/-- The two indices are all that changes. -/
theorem publishedImage_eq {n x : ℕ} (h₁ : ¬(0x80000082 ≤ x ∧ x < 0x80000084))
    (h₂ : ¬(0x80001002 ≤ x ∧ x < 0x80001004)) : publishedImage n x = publishedImage 0 x := by
  simp only [publishedImage, writeLe]
  rw [if_neg (by omega), if_neg (by omega), if_neg (by omega), if_neg (by omega)]

theorem publishedImage_short {n : ℕ} (htable : s.device.descriptor = 0x80000000)
    (havail : s.device.availRing = 0x80000080) (hmemory : s.host.memory = publishedImage n)
    (hid : id < 8) :
    Short samplePlatform id s ⟨0x40002000, 16, 1, 1⟩ ⟨0x40004000, 1, 0, 0⟩ := by
  have hslots : ∀ id < 8, readLe (publishedImage 0) (0x80000080 + 4 + 2 * id) 2 = 0 := by
    decide +kernel
  have hhead : headId s id = 0 := by
    rw [headId, havail, hmemory]
    refine (readLe_congr fun x hx hlt => ?_).trans (hslots id hid)
    exact publishedImage_eq (by omega) (by omega)
  have hdescs : ∀ i < 2, readDesc (publishedImage n) (0x80000000 + 16 * i) =
      readDesc (publishedImage 0) (0x80000000 + 16 * i) := by
    intro i hi
    apply readDesc_congr
    intro x hx hlt
    exact publishedImage_eq (by omega) (by omega)
  refine ⟨?_, ?_, rfl, ⟨0x80002000, by decide +kernel⟩, by decide, by decide, ?_, ?_⟩
  · rw [hhead, htable, hmemory, hdescs 0 (by decide)]
    decide +kernel
  · rw [htable, hmemory]
    exact (hdescs 1 (by decide)).trans (by decide +kernel)
  · rw [hhead, htable]
    decide
  · rw [htable]
    decide

/-- One more request is served while its number fits. -/
theorem SampleServed.step {n : ℕ} (hs : SampleServed n s) (hn : n + 1 < 2 ^ 16) :
    ∃ t, runAll samplePlatform [.event (.store (publishedImage n)),
        .event (.write 3 virtioMmioQueueNotify 0)] s = (.ok ⟨⟩, t) ∧ SampleServed (n + 1) t := by
  obtain ⟨s₁, hs₁⟩ : ∃ s₁ : BlkState, s₁ = { s with host.memory := publishedImage n } := ⟨_, rfl⟩
  have hserved₁ : SampleServed n s₁ := by
    rw [hs₁]
    exact ⟨hs.device, hs.distributor, hs.cpu⟩
  have hmemory₁ : s₁.host.memory = publishedImage n := by rw [hs₁]
  obtain ⟨interruptStatus, hdevice₁⟩ := hserved₁.device
  have hidx₁ : availIdx s₁ = n + 1 := by
    rw [availIdx, hmemory₁, hdevice₁]
    exact publishedImage_idx hn
  have hlast₁ : s₁.device.lastAvailId = n := by rw [hdevice₁]
  -- The device takes the request and goes straight to its end.
  obtain ⟨id, s₂, hnext⟩ := getNextAvailId_paced hserved₁.queue (by omega)
  obtain ⟨hdevice₂, hdistributor₂, hcpu₂, -⟩ := getNextAvailId_some hnext
  obtain ⟨hid, hmemory₂⟩ := getNextAvailId_slot hnext
  have hqueue₂ : Queue 8 s₂.device := by
    rw [hdevice₂]
    exact hserved₁.queue.congr rfl rfl rfl rfl
  have hid : id < 8 := by
    rw [hid, hserved₁.queue.mod_eq]
    exact Nat.mod_lt _ (by decide)
  have hshort := publishedImage_short (by rw [hdevice₂, hdevice₁]; rfl)
    (by rw [hdevice₂, hdevice₁]; rfl) (hmemory₂.trans hmemory₁) hid
  obtain ⟨s₃, hledger₃, hhost₃, hrequest⟩ := request_short 1 hqueue₂ hid hshort
  obtain ⟨hdevice₃, hdistributor₃, hcpu₃, -⟩ := ledger_eq.1 hledger₃
  have hused : UsedFits s₃.device := by
    rw [hdevice₃]
    exact hqueue₂.usedFits (by rw [hdevice₂, hdevice₁]; exact hn)
  have hram : samplePlatform.ram.getPhysicalAddress 0x40004000 = some (some 0x80004000) := by
    decide +kernel
  obtain ⟨s₄, hcomplete, hkept⟩ := completeWith_run (headId s₂ id) 0 virtioBlkSOk
    (e := ⟨0x40004000, 1, 0, 0⟩) hram (by decide) hused
  have hpublished := completeWith_published hcomplete
  have hdevice₄ : s₄.device = { sampleSetup.device with
      interruptStatus := interruptStatus, lastAvailId := n + 1, usedId := n + 1 } := by
    rw [hpublished.device, hdevice₃, hdevice₂, hdevice₁]
  have havail₄ : s₄.device.availRing = 0x80000080 := by
    rw [hdevice₄]
    rfl
  have hring : s₃.device.usedRing = 0x80001000 := by
    rw [hdevice₃, hdevice₂, hdevice₁]
    rfl
  have hlast₄ : s₄.device.lastAvailId = n + 1 := by rw [hdevice₄]
  have hidx₄ : s₄.device.lastAvailId = availIdx s₄ := by
    rw [availIdx, havail₄, hlast₄, ← publishedImage_idx hn]
    refine (readLe_congr fun x hx hlt => ?_).symm
    rw [hkept x (by omega) (by omega), hhost₃, hmemory₂, hmemory₁]
  -- Then it finds the queue empty and raises the interrupt.
  have hend := getNextAvailId_end hidx₄
  have htrigger : s₄.distributor.triggerInterrupt s₄.cpu virtioBlkIntId none =
      some (sampleSetup.distributor, sampleSetup.cpu) := by
    rw [hpublished.distributor, hpublished.cpu, hdistributor₃, hcpu₃, hdistributor₂, hcpu₂,
      hserved₁.distributor, hserved₁.cpu]
    rfl
  obtain ⟨s₅, hraise, hserved₅⟩ : ∃ s₅, raise { s₄ with
      accesses := s₄.accesses ++ [Access.availIdx (s₄.device.availRing + 2)] } = (.ok ⟨⟩, s₅) ∧
        SampleServed (n + 1) s₅ := by
    refine ⟨_, raise_eq (by exact htrigger), ⟨interruptStatus ||| 1, ?_⟩, rfl, rfl⟩
    rw [hdevice₄]
  have hrequested : request samplePlatform 2 id s₂ = (.ok true, s₄) :=
    hrequest.trans (Effect.bind_ok hcomplete)
  have hoperation : operation samplePlatform 3 s₁ = (.ok ⟨⟩, s₅) := by
    rw [operation, Effect.bind_ok hnext]
    dsimp only
    rw [Effect.bind_ok hrequested, if_pos rfl, operation, Effect.bind_ok hend]
    exact hraise
  refine ⟨s₅, ?_, hserved₅⟩
  rw [runAll, runAccess, runEvent, Effect.change_bind, ← hs₁]
  exact Effect.bind_ok hoperation

end VirtioBlkMmio

end MiniVisor
