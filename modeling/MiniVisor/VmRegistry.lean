import MiniVisor.VmIsolation

/-!
# The list of virtual machines

`VM_LIST` holds one entry for each CPU that has put its VM there, and the ids that
`fetch_add` gives out are all different. So `get_current_vm` finds the VM of its own CPU, and
the active VM is one of the list from the first switch on.
-/
namespace MiniVisor

namespace Creation

open Paging MemoryAllocator Holdings

/-- The VM is in the list. -/
def Progress.isListed : Progress → Bool
  | .mapped => false
  | .loaded => false
  | _ => true

/-- The VM has been switched to. -/
def Progress.isSwitched : Progress → Bool
  | .switched => true
  | .running => true
  | _ => false

namespace Stage

def ownId : Stage → Option ℕ
  | .numbered _ vmId => some vmId
  | .mapping g _ => some g.vmId
  | .created g _ => some g.vmId
  | _ => none

/-- The entry that the CPU has put into the list. -/
def listed : Stage → Option VmEntry
  | .created g progress => if progress.isListed then some g.entry else none
  | _ => none

def isSwitched : Stage → Bool
  | .created _ progress => progress.isSwitched
  | _ => false

theorem vmId_of_listed {stage : Stage} {vm : VmEntry} (h : stage.listed = some vm) :
    stage.ownId = some vm.vmId := by
  cases stage with
  | created g progress =>
    rw [listed] at h
    split_ifs at h
    exact Option.some.inj h ▸ rfl
  | _ => exact absurd h (by simp [listed])

end Stage

/-- In a list without repeated ids the search by id finds the entry. -/
theorem find_entry {l : List VmEntry} {vm : VmEntry} (h : (l.map VmEntry.vmId).Nodup)
    (hvm : vm ∈ l) : (l.find? fun x => x.vmId = vm.vmId) = some vm := by
  induction l with
  | nil => exact absurd hvm (by simp)
  | cons x l ih =>
    obtain ⟨hx, hl⟩ := List.nodup_cons.1 h
    rcases List.mem_cons.1 hvm with rfl | hvm
    · rw [List.find?_cons_of_pos (by simp)]
    · have hne : x.vmId ≠ vm.vmId := fun heq => hx (heq ▸ List.mem_map_of_mem hvm)
      rw [List.find?_cons_of_neg (by simpa using hne)]
      exact ih hl hvm

/-- The list belongs to the CPUs. -/
structure Registered (s : System) : Prop where
  numbered : ∀ p n, (s.cpus p).ownId = some n → n < s.nextVmId
  distinct : ∀ p q n, (s.cpus p).ownId = some n → (s.cpus q).ownId = some n → p = q
  mem_iff : ∀ vm, vm ∈ s.vmList ↔ ∃ p, (s.cpus p).listed = some vm
  nodup : (s.vmList.map VmEntry.vmId).Nodup
  active : ∀ vm, s.activeVm = some vm → vm ∈ s.vmList
  switched : ∀ p, (s.cpus p).isSwitched = true → s.activeVm ≠ none
  running : ∀ p g, s.cpus p = .created g .running → s.tpidrEl2 p = g.vmId

section Registered

variable {id : ℕ → BitVec 64} {s s' : System} {p q : ℕ} {g : Guest} {stage : Stage} {e : Event}

/-- The parts of the state that the list is about. -/
structure SameList (s s' : System) : Prop where
  cpus : s'.cpus = s.cpus
  nextVmId : s'.nextVmId = s.nextVmId
  vmList : s'.vmList = s.vmList
  activeVm : s'.activeVm = s.activeVm
  tpidrEl2 : s'.tpidrEl2 = s.tpidrEl2

theorem Registered.congr (h : Registered s) (hsame : SameList s s') : Registered s' := by
  obtain ⟨h₁, h₂, h₃, h₄, h₅⟩ := hsame
  constructor
  · rw [h₁, h₂]
    exact h.numbered
  · rw [h₁]
    exact h.distinct
  · rw [h₁, h₃]
    exact h.mem_iff
  · rw [h₃]
    exact h.nodup
  · rw [h₃, h₄]
    exact h.active
  · rw [h₁, h₄]
    exact h.switched
  · rw [h₁, h₅]
    exact h.running

/-- CPU `p` goes on with the id and the entry that it has. -/
theorem Registered.put (h : Registered s)
    (hid : ∀ n, stage.ownId = some n → (s.cpus p).ownId = some n)
    (hentry : stage.listed = (s.cpus p).listed)
    (hswitched : stage.isSwitched = true → s.activeVm ≠ none)
    (hrunning : ∀ g, stage = .created g .running → s.tpidrEl2 p = g.vmId) :
    Registered (s.put p stage) := by
  have hids : ∀ q n, ((s.put p stage).cpus q).ownId = some n → (s.cpus q).ownId = some n := by
    intro q n hn
    rw [put_cpus] at hn
    split_ifs at hn with hq
    · exact hq ▸ hid n hn
    · exact hn
  have hentries : ∀ q, ((s.put p stage).cpus q).listed = (s.cpus q).listed := by
    intro q
    rw [put_cpus]
    split_ifs with hq
    · exact hq ▸ hentry
    · rfl
  refine ⟨fun q n hn => h.numbered q n (hids q n hn),
    fun q r n hq hr => h.distinct q r n (hids q n hq) (hids r n hr), fun vm => ?_, h.nodup,
    h.active, fun q hq => ?_, fun q g hq => ?_⟩
  · refine (h.mem_iff vm).trans (exists_congr fun q => ?_)
    rw [hentries]
  · rw [put_cpus] at hq
    split_ifs at hq with hqp
    · exact hswitched hq
    · exact h.switched q hq
  · rw [put_cpus] at hq
    split_ifs at hq with hqp
    · exact hqp ▸ hrunning g hq
    · exact h.running q g hq

/-- A CPU gets the next id. -/
theorem Registered.takeId {ram : ℕ} (h : Registered s) (hp : s.cpus p = .allocated ram)
    (hroom : s.nextVmId + 1 < 2 ^ 64) :
    Registered ({ s with nextVmId := (s.nextVmId + 1) % 2 ^ 64 }.put p
      (.numbered ram s.nextVmId)) := by
  rw [Nat.mod_eq_of_lt hroom]
  have hids : ∀ q n, q ≠ p → (s.cpus q).ownId = some n → n ≠ s.nextVmId := fun q n _ hn =>
    (h.numbered q n hn).ne
  have hentry : (s.cpus p).listed = none := by
    rw [hp]
    rfl
  refine ⟨fun q n hn => ?_, fun q r n hq hr => ?_, fun vm => ?_, h.nodup, h.active, fun q hq => ?_,
    fun q g hq => ?_⟩
  · rw [put_cpus] at hn
    change n < s.nextVmId + 1
    split_ifs at hn with hqp
    · obtain rfl := Option.some.inj hn
      exact Nat.lt_succ_self _
    · exact (h.numbered q n hn).trans (Nat.lt_succ_self _)
  · rw [put_cpus] at hq hr
    split_ifs at hq hr with hqp hrp hrp
    · exact hqp.trans hrp.symm
    · obtain rfl := Option.some.inj hq
      exact absurd rfl (hids r _ hrp hr)
    · obtain rfl := Option.some.inj hr
      exact absurd rfl (hids q _ hqp hq)
    · exact h.distinct q r n hq hr
  · refine (h.mem_iff vm).trans (exists_congr fun q => ?_)
    rw [put_cpus]
    split_ifs with hqp
    · rw [hqp, hentry]
      rfl
    · rfl
  · rw [put_cpus] at hq
    split_ifs at hq with hqp
    · exact absurd hq (by simp [Stage.isSwitched])
    · exact h.switched q hq
  · rw [put_cpus] at hq
    split_ifs at hq with hqp
    exact h.running q g hq

/-- A CPU puts its VM into the list. -/
theorem Registered.list (h : Registered s) (hp : s.cpus p = .created g .loaded) :
    Registered ({ s with vmList := s.vmList ++ [g.entry] }.put p (.created g .listed)) := by
  have hid : (s.cpus p).ownId = some g.vmId := by
    rw [hp]
    rfl
  have hentry : (s.cpus p).listed = none := by
    rw [hp]
    rfl
  have hids : ∀ q, ((({ s with vmList := s.vmList ++ [g.entry] } : System).put p
      (.created g .listed)).cpus q).ownId = (s.cpus q).ownId := by
    intro q
    rw [put_cpus]
    split_ifs with hqp
    · rw [hqp, hid]
      rfl
    · rfl
  refine ⟨fun q n hn => h.numbered q n (hids q ▸ hn),
    fun q r n hq hr => h.distinct q r n (hids q ▸ hq) (hids r ▸ hr), fun vm => ?_, ?_,
    fun vm hvm => List.mem_append_left _ (h.active vm hvm), fun q hq => ?_, fun q g hq => ?_⟩
  · refine List.mem_append.trans ?_
    rw [h.mem_iff, List.mem_singleton]
    constructor
    · rintro (⟨q, hq⟩ | rfl)
      · refine ⟨q, ?_⟩
        rw [put_cpus, if_neg]
        · exact hq
        · rintro rfl
          rw [hentry] at hq
          exact absurd hq (by simp)
      · refine ⟨p, ?_⟩
        rw [put_cpus, if_pos rfl]
        rfl
    · rintro ⟨q, hq⟩
      rw [put_cpus] at hq
      split_ifs at hq with hqp
      · exact .inr (Option.some.inj hq).symm
      · exact .inl ⟨q, hq⟩
  · -- an entry with this id would belong to another CPU with this id
    refine (List.map_append ..).symm ▸ List.nodup_append.2 ⟨h.nodup, List.nodup_singleton _, ?_⟩
    rintro n hn m hm rfl
    obtain ⟨vm, hvm, rfl⟩ := List.mem_map.1 hn
    obtain ⟨q, hq⟩ := (h.mem_iff vm).1 hvm
    have heq : vm.vmId = g.vmId := List.mem_singleton.1 hm
    obtain rfl := h.distinct q p vm.vmId (Stage.vmId_of_listed hq) (heq ▸ hid)
    rw [hentry] at hq
    exact absurd hq (by simp)
  · rw [put_cpus] at hq
    split_ifs at hq with hqp
    · exact absurd hq (by simp [Stage.isSwitched, Progress.isSwitched])
    · exact h.switched q hq
  · rw [put_cpus] at hq
    split_ifs at hq with hqp
    · exact absurd hq (by simp)
    · exact h.running q g hq

theorem Registered.switchActiveVm (h : Registered s) (vmId : ℕ) :
    Registered (s.switchActiveVm vmId).1 := by
  rw [System.switchActiveVm]
  split
  · rename_i vm hvm
    refine ⟨h.numbered, h.distinct, h.mem_iff, h.nodup, fun vm' hvm' => ?_, fun _ _ => ?_,
      h.running⟩
    · exact Option.some.inj hvm' ▸ List.mem_of_find?_eq_some hvm
    · exact Option.some_ne_none vm
  · exact h

/-- Whether or not it is the first one, the switch of a listed VM finds it. -/
theorem Registered.switch_eq (h : Registered s) (hp : s.cpus p = .created g .listed) :
    (s.switchActiveVm g.vmId) = ({ s with activeVm := some g.entry }, true) := by
  have hmem : g.entry ∈ s.vmList := (h.mem_iff _).2 ⟨p, by rw [hp]; rfl⟩
  have hfind : (s.vmList.find? fun vm => vm.vmId = g.vmId) = some g.entry :=
    find_entry h.nodup hmem
  rw [System.switchActiveVm, hfind]

/-- CPU `p` gets the id of its VM. -/
theorem Registered.setTpidr (h : Registered s) (hp : ∀ g, s.cpus p ≠ .created g .running)
    (vmId : ℕ) : Registered { s with tpidrEl2 := Function.update s.tpidrEl2 p vmId } := by
  refine ⟨h.numbered, h.distinct, h.mem_iff, h.nodup, h.active, h.switched, fun q g hq => ?_⟩
  have hne : q ≠ p := by
    rintro rfl
    exact hp g hq
  exact (Function.update_of_ne hne ..).trans (h.running q g hq)

/-- A step before the switch, which does not concern the list. -/
theorem Registered.advance {stage₀ : Stage} (h : Registered s) (hsame : SameList s s')
    (hp : s.cpus p = stage₀) (hid : ∀ n, stage.ownId = some n → stage₀.ownId = some n)
    (hentry : stage.listed = stage₀.listed) (hbefore : stage.isSwitched = false) :
    Registered (s'.put p stage) := by
  subst hp
  rw [← hsame.cpus] at hid hentry
  refine (h.congr hsame).put hid hentry (fun hswitched => ?_) (fun g hg => ?_)
  · exact absurd hswitched (by simp [hbefore])
  · exact absurd hbefore (by simp [hg, Stage.isSwitched, Progress.isSwitched])

theorem Registered.step (h : Registered s) (hadmits : Admits s e) (hstep : Step id s e s') :
    Registered s' := by
  cases hstep with
  | takeId hp => exact h.takeId hp hadmits
  | list hp => exact h.list hp
  | @switch p g hp =>
    have hactive : Registered { s with activeVm := some g.entry } := by
      have hswitch := h.switchActiveVm g.vmId
      rwa [h.switch_eq hp] at hswitch
    rw [h.switch_eq hp]
    refine hactive.put (fun n hn => ?_) ?_ (fun _ => Option.some_ne_none _) (by simp)
    · exact hp ▸ hn
    · exact hp ▸ rfl
  | @enter p g hp =>
    have hid : Registered { s with tpidrEl2 := Function.update s.tpidrEl2 p g.vmId } :=
      h.setTpidr (fun g' hg' => absurd (hp.symm.trans hg') (by simp)) g.vmId
    refine hid.put (fun n hn => ?_) ?_ (fun _ => ?_) (fun g' hg' => ?_)
    · exact hp ▸ hn
    · exact hp ▸ rfl
    · exact h.switched p (hp ▸ rfl)
    · obtain rfl := (Stage.created.inj hg').1
      exact Function.update_self ..
  | switchActiveVm => exact h.switchActiveVm _
  | allocateRam hp => exact h.advance ⟨rfl, rfl, rfl, rfl, rfl⟩ hp (by simp [Stage.ownId]) rfl rfl
  | noRam hp => exact h.advance ⟨rfl, rfl, rfl, rfl, rfl⟩ hp (by simp [Stage.ownId]) rfl rfl
  | initTables hp => exact h.advance ⟨rfl, rfl, rfl, rfl, rfl⟩ hp (fun n hn => hn) rfl rfl
  | noRoot hp => exact h.advance ⟨rfl, rfl, rfl, rfl, rfl⟩ hp (by simp [Stage.ownId]) rfl rfl
  | allocateTable hp => exact h.advance ⟨rfl, rfl, rfl, rfl, rfl⟩ hp (fun n hn => hn) rfl rfl
  | noTable hp => exact h.advance ⟨rfl, rfl, rfl, rfl, rfl⟩ hp (by simp [Stage.ownId]) rfl rfl
  | map hp => exact h.advance ⟨rfl, rfl, rfl, rfl, rfl⟩ hp (fun n hn => hn) rfl rfl
  | load hp => exact h.advance ⟨rfl, rfl, rfl, rfl, rfl⟩ hp (fun n hn => hn) rfl rfl
  | notLoaded hp => exact h.advance ⟨rfl, rfl, rfl, rfl, rfl⟩ hp (by simp [Stage.ownId]) rfl rfl
  | store => exact h.congr ⟨rfl, rfl, rfl, rfl, rfl⟩
  | allocate => exact h.congr ⟨rfl, rfl, rfl, rfl, rfl⟩
  | notAllocated => exact h.congr ⟨rfl, rfl, rfl, rfl, rfl⟩
  | free => exact h.congr ⟨rfl, rfl, rfl, rfl, rfl⟩
  | notFreed => exact h.congr ⟨rfl, rfl, rfl, rfl, rfl⟩
  | write => exact h.congr ⟨rfl, rfl, rfl, rfl, rfl⟩

theorem registered_boot (allocator : MemoryAllocator) (memory : Paging.Memory) (others : Set ℕ) :
    Registered (boot allocator memory others) where
  numbered _ _ hn := absurd hn (by simp [boot, Stage.ownId])
  distinct _ _ _ hp _ := absurd hp (by simp [boot, Stage.ownId])
  mem_iff vm := by simp [boot, Stage.listed]
  nodup := List.nodup_nil
  active _ hvm := absurd hvm (by simp [boot])
  switched _ hp := absurd hp (by simp [boot, Stage.isSwitched])
  running _ _ hp := absurd hp (by simp [boot])

theorem Registered.of_run {allocator : MemoryAllocator} {memory : Paging.Memory} {others : Set ℕ}
    (hrun : Runs.GuardedRun (Step id) Admits (boot allocator memory others) s) : Registered s :=
  hrun.invariant (fun _ _ _ h hadmits hstep => h.step hadmits hstep)
    (registered_boot allocator memory others)

theorem Registered.getCurrentVm (h : Registered s) (hp : s.cpus p = .created g .running) :
    s.getCurrentVm p = some g.entry := by
  rw [System.getCurrentVm, h.running p g hp]
  exact find_entry h.nodup ((h.mem_iff _).2 ⟨p, by rw [hp]; rfl⟩)

end Registered

/-- An entry of the list, with the CPU that it belongs to. -/
theorem Registered.owner {s : System} {vm : VmEntry} (h : Registered s) (hvm : vm ∈ s.vmList) :
    ∃ p g progress, s.cpus p = .created g progress ∧ vm = g.entry := by
  obtain ⟨p, hp⟩ := (h.mem_iff vm).1 hvm
  generalize hstage : s.cpus p = stage at hp
  cases stage with
  | created g progress =>
    rw [Stage.listed] at hp
    split_ifs at hp
    exact ⟨p, g, progress, hstage, (Option.some.inj hp).symm⟩
  | _ => exact absurd hp (by simp [Stage.listed])

/-- Two entries of the list give different host addresses. -/
theorem Registered.addresses_ne {s : System} {vm vm' : VmEntry} {x y address : ℕ}
    (h : Registered s) (hinv : Inv s) (hvm : vm ∈ s.vmList) (hvm' : vm' ∈ s.vmList)
    (hx : vm.ram.getPhysicalAddress x = some (some address))
    (hy : vm'.ram.getPhysicalAddress y = some (some address)) : vm = vm' := by
  obtain ⟨p, g, progress, hp, rfl⟩ := h.owner hvm
  obtain ⟨q, g', progress', hq, rfl⟩ := h.owner hvm'
  obtain ⟨hlo, hhi, rfl⟩ := Guest.getPhysicalAddress_eq hx
  obtain ⟨hlo', hhi', heq⟩ := Guest.getPhysicalAddress_eq hy
  have hpq : p = q := by
    by_contra hne
    have hholders : Holder.ram p ≠ Holder.ram q := fun hram => hne (Holder.ram.inj hram)
    refine Set.disjoint_left.1 (hinv.disjoint hholders)
      (show x - ramVirtualBase + g.ram ∈ _ from ?_) ?_
    · rw [System.held, hp, Stage.ramBytes, Set.mem_Ico]
      omega
    · rw [System.held, hq, Stage.ramBytes, Set.mem_Ico]
      omega
  subst hpq
  obtain ⟨rfl, -⟩ := Stage.created.inj (hp.symm.trans hq)
  rfl

/-- In every state of a run: a CPU in its guest finds its own VM, and there is an active VM;
the active VM is in the list; the ids of the list are all different; and no two VMs of the list
translate guest addresses to one host address. -/
theorem registry_of_run {id : ℕ → BitVec 64} {allocator : MemoryAllocator} {others : Set ℕ}
    {memory : Paging.Memory} {s : System} (hboots : Boots allocator others)
    (hrun : Runs.GuardedRun (Step id) Admits (boot allocator memory others) s) :
    (∀ p g, s.cpus p = .created g .running →
      s.getCurrentVm p = some g.entry ∧ s.activeVm ≠ none) ∧
    (∀ vm, s.activeVm = some vm → vm ∈ s.vmList) ∧
    (s.vmList.map VmEntry.vmId).Nodup ∧
    ∀ vm ∈ s.vmList, ∀ vm' ∈ s.vmList, ∀ x y address,
      vm.ram.getPhysicalAddress x = some (some address) →
        vm'.ram.getPhysicalAddress y = some (some address) → vm = vm' := by
  have h := Registered.of_run hrun
  have hinv := Inv.of_run hboots hrun
  refine ⟨fun p g hp => ⟨h.getCurrentVm hp, h.switched p (hp ▸ rfl)⟩, h.active, h.nodup,
    fun vm hvm vm' hvm' x y address hx hy => h.addresses_ne hinv hvm hvm' hx hy⟩

theorem sample_registry : ∃ a s g, Boots a ∅ ∧
    Runs.GuardedRun (Step fun _ => 0) Admits (boot a (fun _ => .new) ∅) s ∧
    s.getCurrentVm 0 = some ⟨0, ⟨ramVirtualBase, 0x80000000, ramSize⟩⟩ ∧
    s.cpus 0 = .created g .running := by
  obtain ⟨a, s, g, hboots, hrun, hs, hid, hram⟩ := sample_run
  have hcurrent := ((registry_of_run hboots hrun).1 0 g hs).1
  rw [Guest.entry, hid, hram] at hcurrent
  exact ⟨a, s, g, hboots, hrun, hcurrent, hs⟩

end Creation

end MiniVisor
