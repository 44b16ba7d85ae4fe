import MiniVisor.BlockIsolation

/-!
# What a notification announces

A notification takes the available entries one by one and raises the interrupt
behind the last one. An early return of `operation` leaves the loop for good: the
entry it was taken for has no used element, and the elements that were written
before it are not announced.
-/
namespace MiniVisor

open Effects

namespace VirtioBlkMmio

/-- An entry for which `operation` returns early. -/
def Malformed (p : Platform) (id : ℕ) (s : BlkState) : Prop :=
  s.device.availRing = 0 ∨ s.device.descriptor = 0 ∨ (headOf s id).length ≠ 16 ∨
    p.ram.getPhysicalAddress (headOf s id).address = some none ∨ ¬(headOf s id).HasNext

/-- The entries that the loop of `operation` takes, each with the state in which it does. -/
def entries (p : Platform) : ℕ → BlkState → List (ℕ × BlkState)
  | 0, _ => []
  | fuel + 1, s =>
    match getNextAvailId s with
    | (.ok (some id), s') =>
      (id, s') :: match request p fuel id s' with
        | (.ok true, t) => entries p fuel t
        | _ => []
    | _ => []

variable {p : Platform} {add : ℕ → ℕ → Option ℕ} {fuel id : ℕ} {s t : BlkState}
  {isWrite : Bool} {offset totalSize status length : ℕ} {d last : VirtQueueDesc}

/-! ## One request -/

/-- What a request leaves alone until its end. -/
def ledger (s : BlkState) : VirtioBlkMmio × GicDistributorMmio × Pcpu × List Completion :=
  (s.device, s.distributor, s.cpu, s.completions)

theorem ledger_eq : ledger t = ledger s ↔ t.device = s.device ∧ t.distributor = s.distributor ∧
    t.cpu = s.cpu ∧ t.completions = s.completions := by
  simp [ledger]

theorem getDescriptor_ledger : Effect.Keeps ledger (getDescriptor id) := by
  rw [getDescriptor]
  apply Effect.Keeps.bind (.look _)
  intro device
  split_ifs with hnull
  · apply Effect.Keeps.bind (.checked _)
    intro address
    apply Effect.Keeps.bind (.change (by intro; rfl))
    intro _
    exact Effect.Keeps.bind (.look _) fun _ => .pure _
  · exact .pure _

theorem getDescriptor_null (hnull : s.device.descriptor = 0) :
    getDescriptor id s = (.ok none, s) := by
  rw [getDescriptor, self, Effect.look_bind, if_neg (not_not.2 hnull)]
  rfl

theorem getDescriptor_found {found : Option VirtQueueDesc} (h : getDescriptor id s = (.ok found, t)) :
    t.host.memory = s.host.memory ∧ found = if s.device.descriptor = 0 then none
      else some (readDesc s.host.memory (s.device.descriptor + 16 * id)) := by
  by_cases hnull : s.device.descriptor = 0
  · rw [getDescriptor_null hnull] at h
    cases h
    exact ⟨rfl, (if_pos hnull).symm⟩
  · rw [if_neg hnull]
    obtain hpanic | hread := getDescriptor_cases id hnull
    · exact absurd (hpanic.symm.trans h) (by simp)
    · cases hread.symm.trans h
      exact ⟨rfl, rfl⟩

theorem getDescriptorId_ledger : Effect.Keeps ledger (getDescriptorId id) := by
  rw [getDescriptorId]
  apply Effect.Keeps.bind (.look _)
  intro device
  split_ifs with hnull
  · apply Effect.Keeps.bind (.checked _)
    intro slots
    apply Effect.Keeps.bind (.checked _)
    intro address
    apply Effect.Keeps.bind (.change (by intro; rfl))
    intro _
    exact Effect.Keeps.bind (.look _) fun _ => .pure _
  · exact .pure _

theorem getDescriptorId_null (hnull : s.device.availRing = 0) :
    getDescriptorId id s = (.ok none, s) := by
  rw [getDescriptorId, self, Effect.look_bind, if_neg (not_not.2 hnull)]
  rfl

theorem getDescriptorId_found {found : Option ℕ} (h : getDescriptorId id s = (.ok found, t)) :
    t.host.memory = s.host.memory ∧
      found = if s.device.availRing = 0 then none else some (headId s id) := by
  by_cases hnull : s.device.availRing = 0
  · rw [getDescriptorId_null hnull] at h
    cases h
    exact ⟨rfl, (if_pos hnull).symm⟩
  · rw [if_neg hnull]
    obtain hpanic | hread := getDescriptorId_cases id hnull
    · exact absurd (hpanic.symm.trans h) (by simp)
    · cases hread.symm.trans h
      exact ⟨rfl, rfl⟩

theorem transfer_ledger {address size : ℕ} :
    Effect.Keeps ledger (transfer p fuel isWrite address offset size) := by
  apply Effect.Keeps.bind (.look _)
  intro device
  exact fun _ => rfl

theorem walkWith_ledger :
    Effect.Keeps ledger (walkWith p add isWrite fuel d offset totalSize status) := by
  induction fuel generalizing d offset totalSize status with
  | zero => exact .fail _
  | succ fuel ih =>
    rw [walkWith]
    apply Effect.Keeps.bind getDescriptor_ledger
    intro found
    cases found with
    | none => exact .pure _
    | some e =>
      by_cases hnext : e.HasNext
      · simp only [hnext, not_true_eq_false, if_false]
        apply Effect.Keeps.bind (.checked _)
        intro total
        apply Effect.Keeps.bind (.checked _)
        intro address
        cases address with
        | none => exact Effect.Keeps.bind (.change (by intro; rfl)) fun _ => ih
        | some address =>
          apply Effect.Keeps.bind (.change (by intro; rfl))
          intro _
          apply Effect.Keeps.bind (.look _)
          intro before
          apply Effect.Keeps.bind transfer_ledger
          intro result
          apply Effect.Keeps.bind (.look _)
          intro after
          apply Effect.Keeps.bind (.change (by intro; rfl))
          intro _
          exact Effect.Keeps.bind (.checked _) fun _ => ih
      · simp only [hnext, not_false_eq_true, if_true]
        exact .pure _

theorem table_triple {α : Type} {x : Effect BlkState α} (hx : Effect.Keeps ledger x) :
    Effect.Triple (fun s => s.device.descriptor ≠ 0) x (fun _ s => s.device.descriptor ≠ 0)
      fun _ => True := by
  apply hx.triple _ fun _ _ => trivial
  intro s t hst htable
  rwa [(ledger_eq.1 hst).1]

/-- With a descriptor table the walk goes on up to the status descriptor. -/
theorem walkWith_found :
    Effect.Triple (fun s => s.device.descriptor ≠ 0)
      (walkWith p add isWrite fuel d offset totalSize status) (fun result _ => result.isSome)
      fun _ => True := by
  induction fuel generalizing d offset totalSize status with
  | zero => exact .fail fun _ _ => trivial
  | succ fuel ih =>
    rw [walkWith]
    have hfound : Effect.Triple (fun s => s.device.descriptor ≠ 0) (getDescriptor d.next)
        (fun found s => s.device.descriptor ≠ 0 ∧ found.isSome) fun _ => True := by
      intro s htable
      obtain h | h := getDescriptor_cases d.next htable
      · rw [h]
        trivial
      · rw [h]
        exact ⟨htable, rfl⟩
    apply hfound.bind
    intro found
    cases found with
    | none => exact Effect.Triple.assuming fun h => absurd h (by simp)
    | some e =>
      apply Effect.Triple.assuming
      intro _
      by_cases hnext : e.HasNext
      · simp only [hnext, not_true_eq_false, if_false]
        apply Effect.Triple.checked_bind _ fun _ _ => trivial
        intro total _
        apply Effect.Triple.checked_bind _ fun _ _ => trivial
        intro address _
        cases address with
        | none => exact (table_triple (.change (by intro; rfl))).bind fun _ => ih
        | some address =>
          apply (table_triple (.change (by intro; rfl))).bind
          intro _
          apply (table_triple (.look _)).bind
          intro before
          apply (table_triple transfer_ledger).bind
          intro result
          apply (table_triple (.look _)).bind
          intro after
          apply (table_triple (.change (by intro; rfl))).bind
          intro _
          exact Effect.Triple.checked_bind (fun _ _ => ih) fun _ _ => trivial
      · simp only [hnext, not_false_eq_true, if_true]
        exact .pure fun _ _ => rfl

/-- The device writes an element behind the others. -/
structure Published (id : ℕ) (s t : BlkState) : Prop where
  device : t.device = { s.device with usedId := s.device.usedId + 1 }
  distributor : t.distributor = s.distributor
  cpu : t.cpu = s.cpu
  completions : ∃ c : Completion, t.completions = s.completions ++ [c] ∧ c.id = id

theorem writeUsed_ok (h : writeUsed id length s = (.ok ⟨⟩, t)) :
    t.device = { s.device with usedId := s.device.usedId + 1 } ∧
      t.distributor = s.distributor ∧ t.cpu = s.cpu ∧ t.completions = s.completions := by
  rw [writeUsed, self, Effect.look_bind] at h
  obtain ⟨slot, -, h⟩ := Effect.checked_bind_eq_ok.1 h
  obtain ⟨usedId, hused, h⟩ := Effect.checked_bind_eq_ok.1 h
  obtain ⟨-, rfl⟩ := Checked.add_eq_some.1 hused
  rw [Effect.change_bind] at h
  obtain ⟨slots, -, h⟩ := Effect.checked_bind_eq_ok.1 h
  obtain ⟨address, -, h⟩ := Effect.checked_bind_eq_ok.1 h
  cases h
  exact ⟨rfl, rfl, rfl, rfl⟩

theorem completeWith_published (h : completeWith p add id last totalSize status s = (.ok ⟨⟩, t)) :
    Published id s t := by
  rw [completeWith] at h
  obtain ⟨address, -, h⟩ := Effect.checked_bind_eq_ok.1 h
  cases address with
  | none =>
    obtain ⟨⟨⟩, s₂, hused, h⟩ := Effect.bind_eq_ok.1 h
    obtain ⟨hdevice, hdistributor, hcpu, hcompletions⟩ := writeUsed_ok hused
    cases h
    exact ⟨hdevice, hdistributor, hcpu, _, by rw [← hcompletions], rfl⟩
  | some address =>
    dsimp only at h
    rw [access, Effect.change_bind, store, Effect.change_bind] at h
    obtain ⟨total, -, h⟩ := Effect.checked_bind_eq_ok.1 h
    obtain ⟨⟨⟩, s₂, hused, h⟩ := Effect.bind_eq_ok.1 h
    obtain ⟨hdevice, hdistributor, hcpu, hcompletions⟩ := writeUsed_ok hused
    cases h
    exact ⟨hdevice, hdistributor, hcpu, _, by rw [← hcompletions], rfl⟩

/-- A request returns early exactly if it is malformed; otherwise it is completed. -/
theorem request_cases {served : Bool} (h : request p fuel id s = (.ok served, t)) :
    (served = false ∧ Malformed p id s ∧ ledger t = ledger s) ∨
      (served = true ∧ ¬Malformed p id s ∧ ∃ s' last totalSize status, ledger s' = ledger s ∧
        completeWith p (Checked.add 32) (headId s id) last totalSize status s' = (.ok ⟨⟩, t)) := by
  rw [request, requestWith, Effect.change_bind] at h
  obtain ⟨found, s₁, hid, h⟩ := Effect.bind_eq_ok.1 h
  have hledger₁ : ledger s₁ = ledger s := (getDescriptorId_ledger.eq hid).trans rfl
  obtain ⟨hmemory₁, rfl⟩ := getDescriptorId_found hid
  obtain ⟨hdevice₁, -⟩ := ledger_eq.1 hledger₁
  by_cases havail : s.device.availRing = 0
  · rw [if_pos (by exact havail)] at h
    cases h
    exact Or.inl ⟨rfl, Or.inl havail, hledger₁⟩
  rw [if_neg (by exact havail)] at h
  obtain ⟨found, s₂, hdesc, h⟩ := Effect.bind_eq_ok.1 h
  have hledger₂ : ledger s₂ = ledger s := (getDescriptor_ledger.eq hdesc).trans hledger₁
  obtain ⟨hmemory₂, rfl⟩ := getDescriptor_found hdesc
  obtain ⟨hdevice₂, -⟩ := ledger_eq.1 hledger₂
  by_cases htable : s.device.descriptor = 0
  · rw [hdevice₁, if_pos htable] at h
    cases h
    exact Or.inl ⟨rfl, Or.inr (Or.inl htable), hledger₂⟩
  have hhead : readDesc s₁.host.memory (s₁.device.descriptor + 16 *
      headId { s with current := ⟨0, 0, []⟩ } id) = headOf s id := by
    rw [hmemory₁, hdevice₁]
    rfl
  rw [hhead, hdevice₁, if_neg htable] at h
  dsimp only at h
  by_cases hlength : (headOf s id).length ≠ 16
  · rw [if_pos hlength] at h
    cases h
    exact Or.inl ⟨rfl, Or.inr (Or.inr (Or.inl hlength)), hledger₂⟩
  rw [if_neg hlength] at h
  obtain ⟨header, hheader, h⟩ := Effect.checked_bind_eq_ok.1 h
  cases header with
  | none =>
    cases h
    exact Or.inl ⟨rfl, Or.inr (Or.inr (Or.inr (Or.inl hheader))), hledger₂⟩
  | some header =>
    dsimp only at h
    rw [access, Effect.change_bind, memory, Effect.look_bind, Effect.change_bind] at h
    by_cases hnext : (headOf s id).HasNext
    · rw [if_neg (not_not.2 hnext)] at h
      obtain ⟨result, s₃, hwalk, h⟩ := Effect.bind_eq_ok.1 h
      have hledger₃ : ledger s₃ = ledger s := (walkWith_ledger.eq hwalk).trans hledger₂
      have hfound := walkWith_found.ok (by rw [← hdevice₂] at htable; exact htable) hwalk
      obtain ⟨⟨last, totalSize, status⟩, rfl⟩ := Option.isSome_iff_exists.1 hfound
      obtain ⟨⟨⟩, s₄, hcomplete, h⟩ := Effect.bind_eq_ok.1 h
      cases h
      refine Or.inr ⟨rfl, ?_, s₃, last, totalSize, status, hledger₃, hcomplete⟩
      rintro (h | h | h | h | h)
      · exact havail h
      · exact htable h
      · exact hlength h
      · exact absurd (hheader.symm.trans h) (by simp)
      · exact h hnext
    · rw [if_pos hnext] at h
      cases h
      exact Or.inl ⟨rfl, Or.inr (Or.inr (Or.inr (Or.inr hnext))), hledger₂⟩

/-- A request that is not malformed is published. -/
theorem request_ok {served : Bool} (h : request p fuel id s = (.ok served, t)) :
    (served = false ∧ Malformed p id s ∧ ledger t = ledger s) ∨
      (served = true ∧ ¬Malformed p id s ∧ Published (headId s id) s t) := by
  apply (request_cases h).imp_right
  rintro ⟨hserved, hgood, s', last, totalSize, status, hledger, hcomplete⟩
  obtain ⟨hdevice, hdistributor, hcpu, hcompletions⟩ := ledger_eq.1 hledger
  have hpublished := completeWith_published hcomplete
  refine ⟨hserved, hgood, ?_, ?_, ?_, ?_⟩
  · rw [hpublished.device, hdevice]
  · rw [hpublished.distributor, hdistributor]
  · rw [hpublished.cpu, hcpu]
  · obtain ⟨c, hc, hcid⟩ := hpublished.completions
    exact ⟨c, by rw [hc, hcompletions], hcid⟩

/-! ## A batch -/

theorem getNextAvailId_some (h : getNextAvailId s = (.ok (some id), t)) :
    t.device = { s.device with lastAvailId := s.device.lastAvailId + 1 } ∧
      t.distributor = s.distributor ∧ t.cpu = s.cpu ∧ t.completions = s.completions := by
  rw [getNextAvailId, self, Effect.look_bind, access, Effect.change_bind, memory,
    Effect.look_bind] at h
  split_ifs at h with hsame
  · cases h
  · obtain ⟨next, -, h⟩ := Effect.checked_bind_eq_ok.1 h
    obtain ⟨lastAvailId, hlast, h⟩ := Effect.checked_bind_eq_ok.1 h
    obtain ⟨-, rfl⟩ := Checked.add_eq_some.1 hlast
    cases h
    exact ⟨rfl, rfl, rfl, rfl⟩

theorem getNextAvailId_none (h : getNextAvailId s = (.ok none, t)) : ledger t = ledger s := by
  rw [getNextAvailId, self, Effect.look_bind, access, Effect.change_bind, memory,
    Effect.look_bind] at h
  split_ifs at h with hsame
  · cases h
    rfl
  · obtain ⟨next, -, h⟩ := Effect.checked_bind_eq_ok.1 h
    obtain ⟨lastAvailId, -, h⟩ := Effect.checked_bind_eq_ok.1 h
    cases h

theorem raise_ok (h : raise s = (.ok ⟨⟩, t)) :
    t.device = { s.device with interruptStatus := s.device.interruptStatus ||| 1 } ∧
      s.distributor.triggerInterrupt s.cpu virtioBlkIntId none = some (t.distributor, t.cpu) ∧
      t.completions = s.completions := by
  rw [raise, Effect.change_bind, Effect.look_bind] at h
  obtain ⟨⟨distributor, cpu⟩, htrigger, h⟩ := Effect.checked_bind_eq_ok.1 h
  cases h
  exact ⟨rfl, htrigger, rfl⟩

end VirtioBlkMmio

end MiniVisor
