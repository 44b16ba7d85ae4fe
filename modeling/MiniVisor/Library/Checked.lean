import Mathlib

/-!
# Checked machine arithmetic

A computation that may panic is an `Option`: `none` is a failed assertion, an
arithmetic overflow under checked arithmetic, or an index out of bounds. The
word size is a parameter, and every operation has one inversion lemma which
says what a successful evaluation computed and which bound it passed.
-/
namespace Checked

/-- `a + b` on `w`-bit words. -/
def add (w a b : ℕ) : Option ℕ := if a + b < 2 ^ w then some (a + b) else none

/-- `a - b` on unsigned words. -/
def sub (a b : ℕ) : Option ℕ := if b ≤ a then some (a - b) else none

/-- `a * b` on `w`-bit words. -/
def mul (w a b : ℕ) : Option ℕ := if a * b < 2 ^ w then some (a * b) else none

/-- `1 << k` on `w`-bit words: only the shift amount is checked. -/
def bit (w k : ℕ) : Option ℕ := if k < w then some (2 ^ k) else none

/-- `a % b`, which panics on a zero divisor. -/
def rem (a b : ℕ) : Option ℕ := if b = 0 then none else some (a % b)

/-- `assert!(p)`. -/
def require (p : Prop) [Decidable p] : Option Unit := if p then some () else none

/-- `v[i]`, which panics out of bounds. -/
def index {α : Type*} {n : ℕ} (v : Vector α n) (i : ℕ) : Option α := v[i]?

/-- `v[i] = f(v[i])`, which panics out of bounds. -/
def modify {α : Type*} {n : ℕ} (v : Vector α n) (i : ℕ) (f : α → α) : Option (Vector α n) :=
  if h : i < n then some (v.set i (f v[i])) else none

variable {w a b c k : ℕ}

@[simp, grind =] theorem add_eq_some : add w a b = some c ↔ a + b < 2 ^ w ∧ c = a + b := by
  unfold add
  split_ifs with h <;> simp [h, eq_comm]

@[simp, grind =] theorem sub_eq_some : sub a b = some c ↔ b ≤ a ∧ c = a - b := by
  unfold sub
  split_ifs with h <;> simp [h, eq_comm]

@[simp, grind =] theorem mul_eq_some : mul w a b = some c ↔ a * b < 2 ^ w ∧ c = a * b := by
  unfold mul
  split_ifs with h <;> simp [h, eq_comm]

@[simp, grind =] theorem bit_eq_some : bit w k = some c ↔ k < w ∧ c = 2 ^ k := by
  unfold bit
  split_ifs with h <;> simp [h, eq_comm]

@[simp, grind =] theorem rem_eq_some : rem a b = some c ↔ b ≠ 0 ∧ c = a % b := by
  unfold rem
  split_ifs with h <;> simp [h, eq_comm]

@[simp, grind =] theorem require_eq_some {p : Prop} [Decidable p] {u : Unit} :
    require p = some u ↔ p := by
  unfold require
  split_ifs with h <;> simp [h]

section Arrays

variable {α : Type*} {n i : ℕ} {v v' : Vector α n} {x : α} {f : α → α}

@[simp] theorem index_eq_some : index v i = some x ↔ ∃ h : i < n, x = v[i] := by
  rw [index, Vector.getElem?_eq_some_iff]
  exact exists_congr fun _ => eq_comm

@[simp] theorem modify_eq_some :
    modify v i f = some v' ↔ ∃ h : i < n, v' = v.set i (f v[i]) := by
  unfold modify
  split_ifs with h <;> simp [h, eq_comm]

end Arrays

end Checked
