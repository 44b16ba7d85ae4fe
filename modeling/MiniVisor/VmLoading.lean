import MiniVisor.Fat32Files
import MiniVisor.VmCreation

/-!
# Loading a guest

`create_vm` looks for the kernel and the device tree in the root directory and reads each of them
as a whole: the device tree goes to the beginning of the RAM, and the kernel behind it. What the
guest finds there are the files on the disk.
-/
namespace MiniVisor

open Effects

namespace Creation

/-! ## The model -/

/-- Where the kernel is put, for the guest and in RAM. -/
structure Placed (ram : ℕ) (dtb kernel : FileInfo) (virtual physical : ℕ) : Prop where
  address : kernelVirtualAddress dtb.fileSize = some virtual
  inside : GuestRam.getPhysicalAddress ⟨ramVirtualBase, ram, ramSize⟩ virtual =
    some (some physical)
  fits : physical + kernel.fileSize ≤ 2 ^ 64

section Loading

variable {env : Environment} {f : Fat32} {dtb kernel : FileInfo}
  {dtbClusters kernelClusters : ℕ → ℕ} {image : Memory}
  {baseLba fat rootDirectoryList mbr bpbAddress ram virtual physical entry fuel k m₁ m₂ : ℕ}
  {s : Host}

/-- The kernel is behind the device tree. -/
theorem Placed.behind (h : Placed ram dtb kernel virtual physical) :
    ram + dtb.fileSize ≤ physical := by
  have haddress := h.address
  have hinside := h.inside
  simp only [kernelVirtualAddress, Option.bind_eq_bind, Option.bind_eq_some_iff,
    Checked.add_eq_some, Checked.sub_eq_some] at haddress
  obtain ⟨last, ⟨-, rfl⟩, top, ⟨-, rfl⟩, -, rfl⟩ := haddress
  have hmod : (ramVirtualBase + dtb.fileSize - 1) % alignSize < alignSize :=
    Nat.mod_lt _ (by decide)
  simp only [GuestRam.getPhysicalAddress, Option.bind_eq_bind, Option.bind_eq_some_iff] at hinside
  obtain ⟨stop, -, hinside⟩ := hinside
  split_ifs at hinside
  · simp only [Option.bind_eq_some_iff, Checked.add_eq_some] at hinside
    obtain ⟨address, ⟨-, rfl⟩, hsame⟩ := hinside
    obtain rfl := Option.some.inj (Option.some.inj hsame)
    omega
  · exact absurd (Option.some.inj hinside) (by simp)

end Loading

end Creation

end MiniVisor
