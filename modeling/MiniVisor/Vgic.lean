import MiniVisor.Library.Masks
import Mathlib.Logic.Function.Basic

/-!
# Virtual interrupt list registers

The list registers `ICH_LR<n>_EL2` of one physical CPU are a map from register
numbers to 64-bit words. The hypervisor drives at most three of them. The
CPU interface side (acknowledge, deactivate, `ICH_EISR_EL2`) follows the GICv3
architecture and is the only part that is not translated from the source.
-/
namespace MiniVisor

def maintenanceInterruptIntid : BitVec 32 := 25

def ichVtrEl2ListRegs : BitVec 64 := 0b11111

def ichLrnEl2Status : BitVec 64 := 0b11#64 <<< 62
def ichLrnEl2StatusInactive : BitVec 64 := 0b00#64 <<< 62
def ichLrnEl2StatusPending : BitVec 64 := 0b01#64 <<< 62
def ichLrnEl2StatusActive : BitVec 64 := 0b10#64 <<< 62
def ichLrnEl2Hw : BitVec 64 := 1#64 <<< 61
def ichLrnEl2Eoi : BitVec 64 := 1#64 <<< 41
def ichLrnEl2Vintid : BitVec 64 := (1#64 <<< 32) - 1

/-- The length of the accessor tables `GET_ICH_LRN_EL2` and `SET_ICH_LRN_EL2`. -/
def lrnAccessors : ℕ := 3

abbrev ListRegisters := ℕ → BitVec 64

namespace Vgic

def createListRegisterEntry (intId group priority : BitVec 32)
    (physicalIntId : Option (BitVec 32)) : BitVec 64 :=
  let entry := ichLrnEl2StatusPending ||| (group.setWidth 64 <<< 60) |||
    (priority.setWidth 64 <<< 48) ||| intId.setWidth 64
  match physicalIntId with
  | some pIntId => entry ||| (ichLrnEl2Hw ||| (pIntId.setWidth 64 <<< 32))
  | none => entry ||| ichLrnEl2Eoi

/-- Number of list registers the hypervisor uses, from `ICH_VTR_EL2`. -/
def supportedLrn (ichVtrEl2 : BitVec 64) : ℕ :=
  min ((ichVtrEl2 &&& ichVtrEl2ListRegs).toNat + 1) lrnAccessors

def status (lr : BitVec 64) : BitVec 64 := lr &&& ichLrnEl2Status
def vintid (lr : BitVec 64) : BitVec 64 := lr &&& ichLrnEl2Vintid

/-- The register is free: its status field reads inactive. -/
def Inactive (lr : BitVec 64) : Prop := status lr = ichLrnEl2StatusInactive

instance (lr : BitVec 64) : Decidable (Inactive lr) :=
  inferInstanceAs (Decidable (status lr = ichLrnEl2StatusInactive))

/-- The `for` loop of `add_virtual_interrupt` from register `i` on, with
`remaining` registers left to look at. -/
def addVirtualInterruptLoop (entry : BitVec 64) : ℕ → ℕ → ListRegisters → ListRegisters
  | 0, _, lr => lr
  | remaining + 1, i, lr =>
    if Inactive (lr i) then Function.update lr i entry
    else if vintid (lr i) = vintid entry then
      Function.update lr i (lr i ||| ichLrnEl2StatusPending)
    else addVirtualInterruptLoop entry remaining (i + 1) lr

def addVirtualInterrupt (ichVtrEl2 : BitVec 64) (lr : ListRegisters) (entry : BitVec 64) :
    ListRegisters :=
  addVirtualInterruptLoop entry (supportedLrn ichVtrEl2) 0 lr

/-- A register that the loop passes over: busy with another interrupt. -/
def Busy (lr : ListRegisters) (entry : BitVec 64) (i : ℕ) : Prop :=
  ¬ Inactive (lr i) ∧ vintid (lr i) ≠ vintid entry

theorem addVirtualInterruptLoop_cases (entry : BitVec 64) (n i : ℕ) (lr : ListRegisters) :
    ((∀ j, i ≤ j → j < i + n → Busy lr entry j) ∧
      addVirtualInterruptLoop entry n i lr = lr) ∨
    ∃ j, i ≤ j ∧ j < i + n ∧ (∀ k, i ≤ k → k < j → Busy lr entry k) ∧
      ((Inactive (lr j) ∧
          addVirtualInterruptLoop entry n i lr = Function.update lr j entry) ∨
        (¬ Inactive (lr j) ∧ vintid (lr j) = vintid entry ∧
          addVirtualInterruptLoop entry n i lr =
            Function.update lr j (lr j ||| ichLrnEl2StatusPending))) := by
  induction n generalizing i with
  | zero => exact .inl ⟨fun j h h' => absurd h' (by omega), rfl⟩
  | succ n ih =>
    by_cases hin : Inactive (lr i)
    · exact .inr ⟨i, le_rfl, by omega, fun k h h' => absurd h' (by omega),
        .inl ⟨hin, by simp [addVirtualInterruptLoop, hin]⟩⟩
    by_cases hv : vintid (lr i) = vintid entry
    · exact .inr ⟨i, le_rfl, by omega, fun k h h' => absurd h' (by omega),
        .inr ⟨hin, hv, by simp [addVirtualInterruptLoop, hin, hv]⟩⟩
    have hi : Busy lr entry i := ⟨hin, hv⟩
    have heq : addVirtualInterruptLoop entry (n + 1) i lr =
        addVirtualInterruptLoop entry n (i + 1) lr := by
      simp [addVirtualInterruptLoop, hin, hv]
    rw [heq]
    have hext : ∀ {j : ℕ}, (∀ k, i + 1 ≤ k → k < j → Busy lr entry k) →
        ∀ k, i ≤ k → k < j → Busy lr entry k := by
      intro j h k hk hkj
      by_cases hki : k = i
      · exact hki ▸ hi
      · exact h k (by omega) hkj
    obtain ⟨hall, hsame⟩ | ⟨j, hij, hjn, hbusy, hput⟩ := ih (i + 1)
    · exact .inl ⟨hext fun k h h' => hall k h (by omega), hsame⟩
    · exact .inr ⟨j, by omega, by omega, hext hbusy, hput⟩

/-- Everything a call can do: no register takes the entry, the first usable
register is free and is loaded, or it already holds the interrupt and is marked
pending. -/
theorem addVirtualInterrupt_cases (vtr : BitVec 64) (lr : ListRegisters) (entry : BitVec 64) :
    ((∀ j < supportedLrn vtr, Busy lr entry j) ∧ addVirtualInterrupt vtr lr entry = lr) ∨
    ∃ j < supportedLrn vtr, (∀ k < j, Busy lr entry k) ∧
      ((Inactive (lr j) ∧ addVirtualInterrupt vtr lr entry = Function.update lr j entry) ∨
        (¬ Inactive (lr j) ∧ vintid (lr j) = vintid entry ∧
          addVirtualInterrupt vtr lr entry =
            Function.update lr j (lr j ||| ichLrnEl2StatusPending))) := by
  unfold addVirtualInterrupt
  obtain ⟨hall, hsame⟩ | ⟨j, -, hjn, hbusy, hput⟩ :=
    addVirtualInterruptLoop_cases entry (supportedLrn vtr) 0 lr
  · exact .inl ⟨fun j hj => hall j (Nat.zero_le j) (by omega), hsame⟩
  · exact .inr ⟨j, by omega, fun k hk => hbusy k (Nat.zero_le k) hk, hput⟩

/-! ## Guest side of a list register

The CPU interface changes the status field when the guest acknowledges an
interrupt and when it completes one; all other fields are untouched. -/

/-- Acknowledge: pending becomes active. -/
def acknowledge (lr : BitVec 64) : BitVec 64 :=
  if status lr = ichLrnEl2StatusPending then
    (lr &&& ~~~ ichLrnEl2Status) ||| ichLrnEl2StatusActive
  else lr

/-- EOI with deactivation: active becomes inactive, active and pending becomes
pending. -/
def deactivate (lr : BitVec 64) : BitVec 64 := lr &&& ~~~ ichLrnEl2StatusActive

/-- The `ICH_EISR_EL2` bit of a register: inactive, not backed by a physical
interrupt, with a maintenance interrupt requested on EOI. -/
def eoiStatus (lr : BitVec 64) : Bool :=
  decide (Inactive lr ∧ lr &&& ichLrnEl2Hw = 0 ∧ lr &&& ichLrnEl2Eoi ≠ 0)

theorem vintid_or_pending (lr : BitVec 64) :
    vintid (lr ||| ichLrnEl2StatusPending) = vintid lr :=
  Masks.or_and_of_disjoint (by decide)

theorem vintid_acknowledge (lr : BitVec 64) : vintid (acknowledge lr) = vintid lr := by
  unfold acknowledge
  split_ifs
  · exact Masks.write_and_of_disjoint (by decide) (by decide)
  · rfl

theorem vintid_deactivate (lr : BitVec 64) : vintid (deactivate lr) = vintid lr :=
  Masks.and_not_and_of_disjoint (by decide)

end Vgic

end MiniVisor
