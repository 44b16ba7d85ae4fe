import MiniVisor.BlockOutcomes

/-!
# The length of a descriptor walk

The walk follows the links in the guest's memory and counts nothing. It ends in time if
the links reach a descriptor without a further one, and the transfers on the way leave
these descriptors as they are. A descriptor that links to itself is walked for ever.
-/
namespace MiniVisor

open Effects

def Access.isDescriptor : Access → Bool
  | .descriptor _ => true
  | _ => false

/-- The number of descriptors that were read. -/
def BlkState.visits (s : BlkState) : ℕ := s.accesses.countP Access.isDescriptor

namespace VirtioBlkMmio

/-- A `total_size` without overflow. -/
def addWide (a b : ℕ) : Option ℕ := some (a + b)

/-- A request ends: it loops only so long, it reads at most as many descriptors as the
queue has, and its `total_size` is as large as it should be. -/
structure EndsInTime (p : Platform) (id : ℕ) (s : BlkState) : Prop where
  ends : ∃ enough, ∀ fuel, enough ≤ fuel → Effect.Ends (request p fuel id) s
  visits : ∀ fuel, (request p fuel id s).2.visits ≤ s.visits + s.device.queueSize
  totalSize : ∀ fuel, request p fuel id s = requestWith p addWide fuel id s

/-- In the memory `m`, the descriptors behind `d` are `ds` and then `last`, which has no
further one. -/
def Chain (m : Memory) (table : ℕ) : VirtQueueDesc → List VirtQueueDesc → VirtQueueDesc → Prop
  | d, [], last => readDesc m (table + 16 * d.next) = last ∧ ¬last.HasNext
  | d, e :: ds, last =>
    readDesc m (table + 16 * d.next) = e ∧ e.HasNext ∧ Chain m table e ds last

/-- The memory of the descriptors behind those of `l`. -/
def Links (table : ℕ) (l : List VirtQueueDesc) (x : ℕ) : Prop :=
  ∃ d ∈ l, table + 16 * d.next ≤ x ∧ x < table + 16 * d.next + 16

/-- The first descriptor of the request in slot `id` of the available ring. -/
def headOf (s : BlkState) (id : ℕ) : VirtQueueDesc :=
  readDesc s.host.memory
    (s.device.descriptor + 16 * readLe s.host.memory (s.device.availRing + 4 + 2 * id) 2)

variable {p : Platform} {add : ℕ → ℕ → Option ℕ} {fuel : ℕ} {s t : BlkState} {table : ℕ}
  {d last : VirtQueueDesc} {ds : List VirtQueueDesc} {isWrite : Bool}
  {offset totalSize status : ℕ} {file : FileInfo} {inside : ℕ → Prop}

theorem readLe_congr {m m' : Memory} {address n : ℕ}
    (h : ∀ x, address ≤ x → x < address + n → m' x = m x) :
    readLe m' address n = readLe m address n := by
  induction n generalizing address with
  | zero => rfl
  | succ n ih =>
    rw [readLe, readLe, h address le_rfl (by omega), ih fun x hx hlt => h x (by omega) (by omega)]

theorem readDesc_congr {m m' : Memory} {address : ℕ}
    (h : ∀ x, address ≤ x → x < address + 16 → m' x = m x) :
    readDesc m' address = readDesc m address := by
  have hpart : ∀ i n, i + n ≤ 16 → readLe m' (address + i) n = readLe m (address + i) n := by
    intro i n hi
    exact readLe_congr fun x hx hlt => h x (by omega) (by omega)
  have hfirst : readLe m' address 8 = readLe m address 8 :=
    readLe_congr fun x hx hlt => h x hx (by omega)
  rw [readDesc, readDesc, hfirst, hpart 8 4 (by omega), hpart 12 2 (by omega),
    hpart 14 2 (by omega)]

theorem Chain.congr {m m' : Memory} (h : Chain m table d ds last)
    (hm : ∀ x, Links table (d :: ds) x → m' x = m x) : Chain m' table d ds last := by
  have hread : readDesc m' (table + 16 * d.next) = readDesc m (table + 16 * d.next) :=
    readDesc_congr fun x hx hlt => hm x ⟨d, by simp, hx, hlt⟩
  induction ds generalizing d with
  | nil => exact ⟨hread.trans h.1, h.2⟩
  | cons e ds ih =>
    have hrest : ∀ x, Links table (e :: ds) x → m' x = m x := by
      rintro x ⟨e', he', hx⟩
      exact hm x ⟨e', List.mem_cons_of_mem d he', hx⟩
    refine ⟨hread.trans h.1, h.2.1, ih h.2.2 hrest ?_⟩
    exact readDesc_congr fun x hx hlt => hrest x ⟨e, by simp, hx, hlt⟩

/-- From `s`, `x` and `y` are the same run, which reads descriptors up to the number
`bound`, does not run out of fuel if it has enough, and gives a result of `R`. -/
structure Alike {α : Type} (bound : ℕ) (enough : Prop) (R : α → Prop) (x y : Effect BlkState α)
    (s : BlkState) : Prop where
  same : x s = y s
  visits : (x s).2.visits ≤ bound
  ends : enough → Effect.Ends x s
  result : ∀ a t, x s = (.ok a, t) → R a

namespace Alike

variable {α β : Type} {bound : ℕ} {enough : Prop} {R : α → Prop} {R' : β → Prop}
  {x y : Effect BlkState α} {f g : α → Effect BlkState β}

theorem bind (hx : Alike bound enough R x y s)
    (hf : ∀ a t, x s = (.ok a, t) → R a → Alike bound enough R' (f a) (g a) t) :
    Alike bound enough R' (x >>= f) (y >>= g) s := by
  obtain ⟨hsame, hvisits, hends, hresult⟩ := hx
  cases hrun : x s with
  | mk r t =>
    cases r with
    | error e =>
      have hx' : (x >>= f) s = (.error e, t) := Effect.bind_error hrun
      have hy' : (y >>= g) s = (.error e, t) := Effect.bind_error (hsame.symm.trans hrun)
      refine ⟨hx'.trans hy'.symm, ?_, ?_, ?_⟩
      · rw [hx']
        rw [hrun] at hvisits
        exact hvisits
      · intro he
        have hne := hends he
        rw [Effect.Ends, hrun] at hne
        rw [Effect.Ends, hx']
        simpa using hne
      · intro b u hb
        exact absurd (hx'.symm.trans hb) (by simp)
    | ok a =>
      have hx' : (x >>= f) s = f a t := Effect.bind_ok hrun
      have hy' : (y >>= g) s = g a t := Effect.bind_ok (hsame.symm.trans hrun)
      have hnext := hf a t hrun (hresult a t hrun)
      refine ⟨?_, ?_, ?_, ?_⟩
      · rw [hx', hy']
        exact hnext.same
      · rw [hx']
        exact hnext.visits
      · intro he
        rw [Effect.Ends, hx']
        exact hnext.ends he
      · intro b u hb
        exact hnext.result b u (hx'.symm.trans hb)

theorem pure {a : α} (hs : s.visits ≤ bound) (ha : R a) :
    Alike bound enough R (Pure.pure a) (Pure.pure a) s := by
  refine ⟨rfl, hs, fun _ => .pure a, ?_⟩
  intro b t hb
  obtain rfl := Except.ok.inj (congrArg Prod.fst hb)
  exact ha

theorem fail {e : Fault} (hs : s.visits ≤ bound) (he : enough → e ≠ .stuck) :
    Alike bound enough R (Effect.fail e) (Effect.fail e) s :=
  ⟨rfl, hs, fun h => .fail (he h), fun _ _ h => absurd (congrArg Prod.fst h) (by simp [Effect.fail])⟩

end Alike

theorem getDescriptor_eq {id : ℕ} (htable : s.device.descriptor ≠ 0) :
    getDescriptor id s = (Effect.checked (Checked.add 64 s.device.descriptor (16 * id))
      >>= fun address => do
        access (.descriptor address)
        return some (readDesc (← memory) address)) s := by
  rw [getDescriptor, Effect.bind_ok (show self s = (.ok s.device, s) from rfl), if_pos htable]

theorem getDescriptor_ok {id : ℕ} (htable : s.device.descriptor ≠ 0)
    (hword : s.device.descriptor + 16 * id < 2 ^ 64) :
    getDescriptor id s =
      (.ok (some (readDesc s.host.memory (s.device.descriptor + 16 * id))),
        { s with accesses := s.accesses ++ [.descriptor (s.device.descriptor + 16 * id)] }) := by
  rw [getDescriptor_eq htable, Checked.add, if_pos hword]
  rfl

/-- A descriptor is read from the table, unless its address overflows. -/
theorem getDescriptor_cases (id : ℕ) (htable : s.device.descriptor ≠ 0) :
    getDescriptor id s = (.error .panic, s) ∨
      getDescriptor id s =
        (.ok (some (readDesc s.host.memory (s.device.descriptor + 16 * id))),
          { s with accesses := s.accesses ++ [.descriptor (s.device.descriptor + 16 * id)] }) := by
  by_cases hword : s.device.descriptor + 16 * id < 2 ^ 64
  · exact .inr (getDescriptor_ok htable hword)
  · left
    rw [getDescriptor_eq htable, Checked.add, if_neg hword]
    rfl

theorem readLe_lt {m : Memory} {address n : ℕ} : readLe m address n < 256 ^ n := by
  induction n generalizing address with
  | zero => simp [readLe]
  | succ n ih =>
    have hbyte := (m address).toNat_lt
    have hrest : readLe m (address + 1) n < 256 ^ n := ih
    rw [readLe, pow_succ]
    omega

/-- The walk ended at `last`, whose length may be added to the total. -/
def Reaches (last : VirtQueueDesc) (result : Option (VirtQueueDesc × ℕ × ℕ)) : Prop :=
  ∀ l total st, result = some (l, total, st) → l = last ∧ total + last.length < 2 ^ 32

theorem getDescriptorId_eq {id : ℕ} (havail : s.device.availRing ≠ 0) :
    getDescriptorId id s = (Effect.checked (Checked.add 64 s.device.availRing 4) >>= fun slots => do
      let address ← Effect.checked (Checked.add 64 slots (2 * id))
      access (.availSlot address)
      return some (readLe (← memory) address 2)) s := by
  rw [getDescriptorId, Effect.bind_ok (show self s = (.ok s.device, s) from rfl), if_pos havail]

theorem getDescriptorId_ok {id : ℕ} (havail : s.device.availRing ≠ 0)
    (hword : s.device.availRing + 4 + 2 * id < 2 ^ 64) :
    getDescriptorId id s =
      (.ok (some (readLe s.host.memory (s.device.availRing + 4 + 2 * id) 2)),
        { s with accesses := s.accesses ++ [.availSlot (s.device.availRing + 4 + 2 * id)] }) := by
  rw [getDescriptorId_eq havail, Checked.add, if_pos (by omega),
    Effect.bind_ok (show Effect.checked (some (s.device.availRing + 4)) s =
      (.ok (s.device.availRing + 4), s) from rfl), Checked.add, if_pos hword]
  rfl

theorem getDescriptorId_cases (id : ℕ) (havail : s.device.availRing ≠ 0) :
    getDescriptorId id s = (.error .panic, s) ∨
      getDescriptorId id s =
        (.ok (some (readLe s.host.memory (s.device.availRing + 4 + 2 * id) 2)),
          { s with accesses := s.accesses ++ [.availSlot (s.device.availRing + 4 + 2 * id)] }) := by
  by_cases hword : s.device.availRing + 4 + 2 * id < 2 ^ 64
  · exact .inr (getDescriptorId_ok havail hword)
  · left
    rw [getDescriptorId_eq havail]
    by_cases hslots : s.device.availRing + 4 < 2 ^ 64
    · rw [Checked.add, if_pos hslots, Effect.bind_ok (show Effect.checked
        (some (s.device.availRing + 4)) s = (.ok (s.device.availRing + 4), s) from rfl),
        Checked.add, if_neg hword]
      rfl
    · rw [Checked.add, if_neg hslots]
      rfl

end VirtioBlkMmio

end MiniVisor
