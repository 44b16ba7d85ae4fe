import MiniVisor.ControllerWrites
import MiniVisor.ListRegisterRuns

/-!
# Handing interrupts to list registers

A controller keeps track of a due interrupt through a list register or through
its queue, and a list register that was completed reports the interrupt until
the maintenance handler collects it. `Fits` is the condition under which one
`add_virtual_interrupt` call neither drops its entry nor overwrites such a
report; under it, triggers and register writes leave every due interrupt of the
controller in a register or in the queue.
-/
namespace MiniVisor

open Vgic

namespace Vgic

/-- Some register holds the interrupt. -/
def InUse (vtr : BitVec 64) (lr : ListRegisters) (m : BitVec 64) : Prop :=
  ∃ i < supportedLrn vtr, ¬ Inactive (lr i) ∧ vintid (lr i) = m

/-- Some register reports the completion of the interrupt. -/
def Reported (vtr : BitVec 64) (lr : ListRegisters) (m : BitVec 64) : Prop :=
  ∃ i < supportedLrn vtr, eoiStatus (lr i) = true ∧ vintid (lr i) = m

/-- `add_virtual_interrupt` finds a register for the entry, and it is not one
that reports the completion of another due interrupt that no register holds. -/
def Fits (due : BitVec 64 → Prop) (vtr : BitVec 64) (lr : ListRegisters) (entry : BitVec 64) :
    Prop :=
  ∃ j < supportedLrn vtr, (∀ k < j, Busy lr entry k) ∧ ¬ Busy lr entry j ∧
    (eoiStatus (lr j) = true → vintid (lr j) = vintid entry ∨ ¬ due (vintid (lr j)) ∨
      InUse vtr lr (vintid (lr j)))

/-- Every call of a sequence of `add_virtual_interrupt` calls finds its register. -/
def Accepts (due : BitVec 64 → Prop) (vtr : BitVec 64) : ListRegisters → List ListEntry → Prop
  | _, [] => True
  | lr, e :: es => Fits due vtr lr e.value ∧
      Accepts due vtr (addVirtualInterrupt vtr lr e.value) es

/-- What the list registers know about due interrupts is not forgotten. -/
structure Keeps (due : BitVec 64 → Prop) (vtr : BitVec 64) (lr lr' : ListRegisters) : Prop where
  inUse : ∀ m, InUse vtr lr m → InUse vtr lr' m
  reported : ∀ m, due m → Reported vtr lr m → Reported vtr lr' m ∨ InUse vtr lr' m

variable {due : BitVec 64 → Prop} {vtr : BitVec 64} {lr lr' : ListRegisters}

theorem Keeps.refl (due : BitVec 64 → Prop) (vtr : BitVec 64) (lr : ListRegisters) :
    Keeps due vtr lr lr :=
  ⟨fun _ h => h, fun _ _ h => .inl h⟩

theorem Keeps.trans {lr'' : ListRegisters} (h : Keeps due vtr lr lr')
    (h' : Keeps due vtr lr' lr'') : Keeps due vtr lr lr'' :=
  ⟨fun m hm => h'.inUse m (h.inUse m hm), fun m hd hm =>
    (h.reported m hd hm).elim (h'.reported m hd) fun hu => .inr (h'.inUse m hu)⟩

theorem inactive_of_eoiStatus {x : BitVec 64} (h : eoiStatus x = true) : Inactive x :=
  (of_decide_eq_true h).1

theorem not_inactive_or_pending (x : BitVec 64) : ¬ Inactive (x ||| ichLrnEl2StatusPending) := by
  rw [inactive_iff]
  rintro ⟨h, -⟩
  rw [BitVec.getLsbD_or, show ichLrnEl2StatusPending.getLsbD 62 = true by decide] at h
  simp at h

/-- An accepted entry is in a register afterwards, and nothing is forgotten. -/
theorem Fits.keeps {entry : BitVec 64} (h : Fits due vtr lr entry) (hentry : ¬ Inactive entry) :
    Keeps due vtr lr (addVirtualInterrupt vtr lr entry) ∧
      InUse vtr (addVirtualInterrupt vtr lr entry) (vintid entry) := by
  obtain ⟨j, hj, hbusy, hnot, hreport⟩ := h
  obtain ⟨hall, -⟩ | ⟨i, -, hbusy', hput⟩ := addVirtualInterrupt_cases vtr lr entry
  · exact absurd (hall j hj) hnot
  have hi : ¬ Busy lr entry i := by
    rintro ⟨hin, hid⟩
    obtain ⟨hin', -⟩ | ⟨-, hid', -⟩ := hput
    · exact hin hin'
    · exact hid hid'
  have hge : ¬ i < j := fun hlt => hi (hbusy i hlt)
  have hle : ¬ j < i := fun hlt => hnot (hbusy' j hlt)
  obtain rfl : i = j := by omega
  obtain ⟨hin, heq⟩ | ⟨hin, hid, heq⟩ := hput
  · rw [heq]
    have hmono : ∀ m, InUse vtr lr m → InUse vtr (Function.update lr i entry) m := by
      rintro m ⟨k, hk, hkin, hkid⟩
      have hki : k ≠ i := by
        rintro rfl
        exact hkin hin
      exact ⟨k, hk, by simpa [hki] using hkin, by simpa [hki] using hkid⟩
    have hnew : InUse vtr (Function.update lr i entry) (vintid entry) :=
      ⟨i, hj, by simpa using hentry, by simp⟩
    refine ⟨⟨hmono, ?_⟩, hnew⟩
    rintro m hdue ⟨k, hk, hkr, hkid⟩
    by_cases hki : k = i
    · subst hki
      obtain hsame | hnodue | hheld := hreport hkr
      · exact .inr (hkid ▸ hsame ▸ hnew)
      · exact absurd (hkid ▸ hdue) hnodue
      · exact .inr (hkid ▸ hmono _ hheld)
    · exact .inl ⟨k, hk, by simpa [hki] using hkr, by simpa [hki] using hkid⟩
  · rw [heq]
    have hnew : InUse vtr (Function.update lr i (lr i ||| ichLrnEl2StatusPending))
        (vintid entry) :=
      ⟨i, hj, by simpa using not_inactive_or_pending (lr i), by simpa [vintid_or_pending] using hid⟩
    refine ⟨⟨?_, ?_⟩, hnew⟩
    · rintro m ⟨k, hk, hkin, hkid⟩
      by_cases hki : k = i
      · subst hki
        exact hkid ▸ hid ▸ hnew
      · exact ⟨k, hk, by simpa [hki] using hkin, by simpa [hki] using hkid⟩
    · rintro m - ⟨k, hk, hkr, hkid⟩
      have hki : k ≠ i := by
        rintro rfl
        exact hin (inactive_of_eoiStatus hkr)
      exact .inl ⟨k, hk, by simpa [hki] using hkr, by simpa [hki] using hkid⟩

/-- Draining a list of entries into accepting registers. -/
theorem Accepts.foldl {es : List ListEntry} {cpu : Pcpu}
    (h : Accepts due cpu.ichVtrEl2 cpu.ichLr es) (hes : ∀ e ∈ es, ¬ Inactive e.value) :
    Keeps due cpu.ichVtrEl2 cpu.ichLr (es.foldl Pcpu.addVirtualInterrupt cpu).ichLr ∧
      (es.foldl Pcpu.addVirtualInterrupt cpu).ichVtrEl2 = cpu.ichVtrEl2 ∧
      ∀ e ∈ es, InUse cpu.ichVtrEl2 (es.foldl Pcpu.addVirtualInterrupt cpu).ichLr
        (vintid e.value) := by
  induction es generalizing cpu with
  | nil => exact ⟨Keeps.refl _ _ _, rfl, by simp⟩
  | cons e es ih =>
    obtain ⟨hfit, hrest⟩ := h
    obtain ⟨hkeep, hin⟩ := hfit.keeps (hes e (by simp))
    obtain ⟨hkeep', hvtr, hin'⟩ := @ih (cpu.addVirtualInterrupt e) hrest
      fun e' he' => hes e' (by simp [he'])
    refine ⟨hkeep.trans hkeep', hvtr, fun e' he' => ?_⟩
    obtain rfl | he' := List.mem_cons.1 he'
    · exact hkeep'.inUse _ hin
    · exact hin' e' he'

theorem Accepts.append {es es' : List ListEntry} {cpu : Pcpu}
    (h : Accepts due cpu.ichVtrEl2 cpu.ichLr (es ++ es')) :
    Accepts due cpu.ichVtrEl2 cpu.ichLr es ∧
      Accepts due cpu.ichVtrEl2 (es.foldl Pcpu.addVirtualInterrupt cpu).ichLr es' := by
  induction es generalizing cpu with
  | nil => exact ⟨trivial, h⟩
  | cons e es ih =>
    obtain ⟨hfit, hrest⟩ := h
    obtain ⟨hes, hes'⟩ := @ih (cpu.addVirtualInterrupt e) hrest
    exact ⟨⟨hfit, hes⟩, hes'⟩

end Vgic

/-! ## One controller and one CPU -/

namespace ControllerView

/-- The interrupt has an entry in the controller's queue. -/
def Queued (c : ControllerView) (n : ℕ) : Prop :=
  ∃ e ∈ c.queue, vintid e.value = BitVec.ofNat 64 n

/-- What a handler of the controller did with the interrupts of `ns` and kept of
the others. -/
structure Served (ns : List ℕ) (c : ControllerView) (c' : ControllerView)
    (inUse : BitVec 64 → Prop) : Prop where
  due : ∀ n, c'.Due n → (inUse (BitVec.ofNat 64 n) ∨ c'.Queued n) ∨ (c.Due n ∧ n ∉ ns)
  queue : ∀ e ∈ c.queue, e ∈ c'.queue
  entries : ∀ e ∈ c'.queue, e ∈ c.queue ∨ ¬ Inactive e.value

theorem Served.queued {ns : List ℕ} {c c' : ControllerView} {inUse : BitVec 64 → Prop}
    (h : Served ns c c' inUse) {n : ℕ} (hq : c.Queued n) : c'.Queued n := by
  obtain ⟨e, he, hid⟩ := hq
  exact ⟨e, h.queue e he, hid⟩

theorem due_of_due_setPending {c : ControllerView} {n m : ℕ} (hm : m ≠ n)
    (h : (c.setPending n).Due m) : c.Due m := by
  obtain ⟨hon, hp, he, hs⟩ := h
  exact ⟨hon, by simpa [setPending, hm] using hp, he, hs⟩

variable {due : BitVec 64 → Prop} {c c' : ControllerView} {cpu cpu' : Pcpu} {n : ℕ}
  {isLocal : Prop}

/-- A trigger that loads nothing leaves the list registers alone. -/
theorem Triggered.served_of_loads_eq (h : c.Triggered cpu n isLocal c' cpu')
    (hloads : cpu'.loads = cpu.loads) :
    cpu'.ichLr = cpu.ichLr ∧ cpu'.ichVtrEl2 = cpu.ichVtrEl2 ∧
      Served [n] c c' fun _ => False := by
  cases h with
  | disabled hoff =>
    refine ⟨rfl, rfl, fun m hm => ?_, fun e he => he, fun e he => .inl he⟩
    exact absurd hm.1 (by simp [hoff])
  | masked hnot =>
    refine ⟨rfl, rfl, fun m hm => ?_, fun e he => he, fun e he => .inl he⟩
    by_cases hmn : m = n
    · exact absurd (hmn ▸ hm) hnot
    · exact .inr ⟨due_of_due_setPending hmn hm, by simpa using hmn⟩
  | loaded e =>
    have hlen := congrArg List.length hloads
    simp [Pcpu.addVirtualInterrupt] at hlen
  | queued e sgi _ _ hmakes =>
    refine ⟨rfl, rfl, fun m hm => ?_, fun e' he' => List.mem_append_left _ he', fun e' he' => ?_⟩
    · by_cases hmn : m = n
      · exact .inl (.inr ⟨e, by simp [enqueue], hmn ▸ hmakes.1⟩)
      · exact .inr ⟨due_of_due_setPending hmn hm, by simpa using hmn⟩
    · obtain he' | he' := List.mem_append.1 he'
      · exact .inl he'
      · exact .inr (List.mem_singleton.1 he' ▸ hmakes.2.1)

theorem Served.mono {ns : List ℕ} {inUse inUse' : BitVec 64 → Prop} (h : Served ns c c' inUse)
    (hsub : ∀ m, inUse m → inUse' m) : Served ns c c' inUse' :=
  ⟨fun n hn => (h.due n hn).imp (Or.imp (hsub _) id) id, h.queue, h.entries⟩

theorem Triggered.served (due : BitVec 64 → Prop) (h : c.Triggered cpu n isLocal c' cpu') :
    ∃ es, cpu'.loads = cpu.loads ++ es ∧ cpu'.ichVtrEl2 = cpu.ichVtrEl2 ∧
      cpu'.ichLr = (es.foldl Pcpu.addVirtualInterrupt cpu).ichLr ∧
      (Accepts due cpu.ichVtrEl2 cpu.ichLr es →
        Keeps due cpu.ichVtrEl2 cpu.ichLr cpu'.ichLr ∧
          Served [n] c c' (InUse cpu.ichVtrEl2 cpu'.ichLr)) := by
  by_cases hloads : cpu'.loads = cpu.loads
  · obtain ⟨hlr, hvtr, hserved⟩ := h.served_of_loads_eq hloads
    refine ⟨[], by simpa using hloads, hvtr, hlr, fun _ => ⟨?_, hserved.mono fun _ h => h.elim⟩⟩
    rw [hlr]
    exact Keeps.refl _ _ _
  cases h with
  | disabled => exact absurd rfl hloads
  | masked => exact absurd rfl hloads
  | queued => exact absurd rfl hloads
  | loaded e _ _ hmakes =>
    refine ⟨[e], rfl, rfl, rfl, fun hacc => ?_⟩
    obtain ⟨hkeep, hin⟩ := hacc.1.keeps hmakes.2.1
    refine ⟨hkeep, fun m hm => ?_, fun e' he' => he', fun e' he' => .inl he'⟩
    by_cases hmn : m = n
    · exact .inl (.inl (hmn ▸ hmakes.1 ▸ hin))
    · exact .inr ⟨due_of_due_setPending hmn hm, by simpa using hmn⟩

theorem TriggerRun.served (due : BitVec 64 → Prop) {ns : List ℕ} (h : TriggerRun c cpu ns c' cpu') :
    ∃ es, cpu'.loads = cpu.loads ++ es ∧ cpu'.ichVtrEl2 = cpu.ichVtrEl2 ∧
      (Accepts due cpu.ichVtrEl2 cpu.ichLr es →
        Keeps due cpu.ichVtrEl2 cpu.ichLr cpu'.ichLr ∧
          Served ns c c' (InUse cpu.ichVtrEl2 cpu'.ichLr)) := by
  induction h with
  | nil c cpu =>
    exact ⟨[], by simp, rfl, fun _ => ⟨Keeps.refl _ _ _,
      fun m hm => .inr ⟨hm, by simp⟩, fun e he => he, fun e he => .inl he⟩⟩
  | @cons c c₁ c' cpu cpu₁ cpu' n ns isLocal htr _ ih =>
    obtain ⟨es₁, hloads₁, hvtr₁, hlr₁, hstep⟩ := htr.served due
    obtain ⟨es₂, hloads₂, hvtr₂, hrun⟩ := ih
    refine ⟨es₁ ++ es₂, by rw [hloads₂, hloads₁, List.append_assoc], hvtr₂.trans hvtr₁,
      fun hacc => ?_⟩
    obtain ⟨hacc₁, hacc₂⟩ := hacc.append
    obtain ⟨hkeep₁, hserved₁⟩ := hstep hacc₁
    rw [hvtr₁, hlr₁] at hrun
    obtain ⟨hkeep₂, hserved₂⟩ := hrun hacc₂
    rw [← hlr₁] at hkeep₂
    refine ⟨hkeep₁.trans hkeep₂, fun m hm => ?_, fun e he => hserved₂.queue e (hserved₁.queue e he),
      fun e he => (hserved₂.entries e he).elim (hserved₁.entries e) .inr⟩
    obtain hheld | ⟨hdue, hns⟩ := hserved₂.due m hm
    · exact .inl hheld
    obtain (hin | hq) | ⟨hdue, hn⟩ := hserved₁.due m hdue
    · exact .inl (.inl (hkeep₂.inUse _ hin))
    · exact .inl (.inr (hserved₂.queued hq))
    · exact .inr ⟨hdue, by simpa [hns] using hn⟩

theorem Written.served (due : BitVec 64 → Prop) {uncovers : ℕ → Prop} (h : c.Written cpu uncovers c' cpu') :
    ∃ es, cpu'.loads = cpu.loads ++ es ∧ cpu'.ichVtrEl2 = cpu.ichVtrEl2 ∧
      (Accepts due cpu.ichVtrEl2 cpu.ichLr es →
        Keeps due cpu.ichVtrEl2 cpu.ichLr cpu'.ichLr ∧
          (∀ n, c'.Due n → (InUse cpu.ichVtrEl2 cpu'.ichLr (BitVec.ofNat 64 n) ∨ c'.Queued n) ∨
            (c.Due n ∨ uncovers n)) ∧
          (∀ e ∈ c.queue, e ∈ c'.queue) ∧ ∀ e ∈ c'.queue, e ∈ c.queue ∨ ¬ Inactive e.value) := by
  cases h with
  | quiet _ hq _ hdue =>
    exact ⟨[], by simp, rfl, fun _ => ⟨Keeps.refl _ _ _, fun n hn => .inr (hdue n hn),
      fun e he => hq ▸ he, fun e he => .inl (hq ▸ he)⟩⟩
  | raised c₁ _ _ ns hq _ hdue hrun =>
    obtain ⟨es, hloads, hvtr, hserved⟩ := hrun.served due
    refine ⟨es, hloads, hvtr, fun hacc => ?_⟩
    obtain ⟨hkeep, hs⟩ := hserved hacc
    refine ⟨hkeep, fun n hn => ?_, fun e he => hs.queue e (hq ▸ he), fun e he => ?_⟩
    · obtain hheld | ⟨hdue₁, hns⟩ := hs.due n hn
      · exact .inl hheld
      · exact .inr (.inl ((hdue n hdue₁).resolve_right hns))
    · exact (hs.entries e he).imp (fun h => hq ▸ h) id

end ControllerView

end MiniVisor
