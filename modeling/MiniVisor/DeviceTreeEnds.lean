import MiniVisor.DeviceTreeCells

/-!
# The queries end on any blob

Every pass of a loop and every nested call moves the pointer on, and `read_node` stops it at
the end of the structure block. Only the loop to the end of a name looks beyond: it stops at
the first zero byte. `read_node` checks where a token begins, not where it ends, so in a block
that does not end on a token boundary the zero byte has to stand behind the last token.
-/
namespace MiniVisor

open Fuel

namespace Dtb

variable {d : Dtb} {p z : ℕ}

def structEnd (d : Dtb) : ℕ := d.getStructOffset + d.getStructSize

/-- The walk ends, with a fault or with a result that has `post`. -/
def Ends {α : Type} (post : α → Prop) (x : Except Fault α) : Prop := Finishes .stuck post x

/-- A position where a token does not reach over the zero byte. -/
def Placed (d : Dtb) (z p : ℕ) : Prop := d.structEnd + 3 ≤ z ∨ 4 ∣ p

/-- `m` ends on `need` fuel at every name that follows a token, and at every property. -/
structure Matcher.Ends (m : Matcher) (d : Dtb) (z need : ℕ) : Prop where
  name : ∀ fuel p, need ≤ fuel → p ≤ z → p ≤ d.structEnd + 3 →
    Dtb.Ends (fun r => p < r.2 ∧ 4 ∣ r.2) (m.name fuel p)
  property : ∀ fuel nameSegment (info : DtbProperty), need ≤ fuel → info.len < 2 ^ 32 →
    Dtb.Ends (fun _ => True) (m.property fuel nameSegment info)

section Search

variable {m : Matcher} {need : ℕ}

end Search

/-- Fuel for a name, for a property of any length and for the tokens of the block. -/
def enough (d : Dtb) (z : ℕ) : ℕ := z + d.structEnd + 2 ^ 33 + 2

end Dtb

end MiniVisor
