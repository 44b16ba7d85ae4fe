import Mathlib.Data.Finset.Card
import Mathlib.Order.Interval.Finset.Nat

/-!
# Chains of links

A partial map `next` gives each place at most one successor. Following it from one place
gives a chain, which may end or run into a cycle. Where it ends, its length is at most the
number of places that links lead to; what it reaches at all, it reaches within that number.
-/
namespace Chains

variable {α : Type*}

/-- The place that `k` links lead to. -/
def after (next : α → Option α) : ℕ → α → Option α
  | 0, a => some a
  | k + 1, a => (next a).bind (after next k)

variable {next : α → Option α} {a b c : α} {i j n : ℕ}

theorem after_zero (next : α → Option α) (a : α) : after next 0 a = some a := rfl

theorem after_add (next : α → Option α) (i j : ℕ) (a : α) :
    after next (i + j) a = (after next i a).bind (after next j) := by
  induction i generalizing a with
  | zero => rw [Nat.zero_add, after_zero, Option.bind_some]
  | succ i ih =>
    rw [Nat.succ_add, after, after]
    cases next a with
    | none => rfl
    | some b => exact ih b

theorem after_succ (next : α → Option α) (k : ℕ) (a : α) :
    after next (k + 1) a = (after next k a).bind next := by
  rw [after_add]
  congr 1
  funext b
  rw [after]
  cases next b <;> rfl

/-- A chain goes through all numbers of links below its own. -/
theorem exists_after_of_le (h : after next n a = some b) (hi : i ≤ n) :
    ∃ c, after next i a = some c ∧ after next (n - i) c = some b := by
  obtain ⟨j, rfl⟩ := Nat.exists_eq_add_of_le hi
  rw [after_add] at h
  obtain ⟨c, hc, hb⟩ := Option.bind_eq_some_iff.1 h
  exact ⟨c, hc, by rwa [Nat.add_sub_cancel_left]⟩

/-- A place that is reached twice can be left out in between. -/
theorem after_cut (h : after next n a = some b) (hi : after next i a = some c)
    (hj : after next j a = some c) (hjn : j ≤ n) : after next (i + (n - j)) a = some b := by
  obtain ⟨c', hc', hb⟩ := exists_after_of_le h hjn
  obtain rfl : c = c' := Option.some.inj (hj.symm.trans hc')
  rw [after_add, hi]
  exact hb

/-- Two different numbers of links lead to one place, if there are more links than places. -/
theorem exists_repeat (S : Finset α) (hS : ∀ b c, next b = some c → c ∈ S)
    (h : after next n a = some b) (hn : S.card < n) :
    ∃ i j c, i < j ∧ j ≤ n ∧ after next i a = some c ∧ after next j a = some c := by
  classical
  have hmem : ∀ k ∈ Finset.Icc 1 n, ∃ c ∈ S, after next k a = some c := by
    intro k hk
    obtain ⟨hone, hle⟩ := Finset.mem_Icc.1 hk
    obtain ⟨c, hc, -⟩ := exists_after_of_le h hle
    obtain ⟨k, rfl⟩ : ∃ m, k = m + 1 := ⟨k - 1, by omega⟩
    refine ⟨c, ?_, hc⟩
    rw [after_succ] at hc
    obtain ⟨b', -, hlink⟩ := Option.bind_eq_some_iff.1 hc
    exact hS b' c hlink
  have : Nonempty α := ⟨a⟩
  choose! place hplace hafter using hmem
  have hcard : S.card < (Finset.Icc 1 n).card := by
    rw [Nat.card_Icc]
    omega
  obtain ⟨i, hi, j, hj, hne, heq⟩ :=
    Finset.exists_ne_map_eq_of_card_lt_of_maps_to hcard fun k hk => hplace k hk
  rcases Nat.lt_or_gt_of_ne hne with hlt | hgt
  · exact ⟨i, j, place i, hlt, (Finset.mem_Icc.1 hj).2, hafter i hi, heq ▸ hafter j hj⟩
  · exact ⟨j, i, place i, hgt, (Finset.mem_Icc.1 hi).2, heq ▸ hafter j hj, hafter i hi⟩

/-- What a chain reaches, it reaches with no more links than there are places. -/
theorem exists_short (S : Finset α) (hS : ∀ b c, next b = some c → c ∈ S)
    (h : after next n a = some b) : ∃ m ≤ n, m ≤ S.card ∧ after next m a = some b := by
  induction n using Nat.strong_induction_on with
  | _ n ih =>
    by_cases hn : n ≤ S.card
    · exact ⟨n, le_rfl, hn, h⟩
    · obtain ⟨i, j, c, hij, hjn, hi, hj⟩ := exists_repeat S hS h (Nat.lt_of_not_le hn)
      obtain ⟨m, hm, hcard, hb⟩ := ih (i + (n - j)) (by omega) (after_cut h hi hj hjn)
      exact ⟨m, by omega, hcard, hb⟩

/-- A chain does not go on behind its end. -/
theorem le_of_end (h : after next n a = some b) (hend : next b = none)
    (hi : after next i a = some c) : i ≤ n := by
  by_contra hlong
  obtain ⟨d, hd, -⟩ := exists_after_of_le hi (show n + 1 ≤ i by omega)
  rw [after_succ, h, Option.bind_some, hend] at hd
  exact absurd hd (by simp)

/-- A chain that ends has at most as many links as there are places. -/
theorem length_le_card (S : Finset α) (hS : ∀ b c, next b = some c → c ∈ S)
    (h : after next n a = some b) (hend : next b = none) : n ≤ S.card := by
  obtain ⟨m, hm, hcard, hb⟩ := exists_short S hS h
  exact (le_of_end hb hend h).trans hcard

theorem after_eq_none (h : after next n a = some b) (hend : next b = none) (hi : n < i) :
    after next i a = none := by
  cases hc : after next i a with
  | none => rfl
  | some c => exact absurd (le_of_end h hend hc) (Nat.not_le_of_lt hi)

/-- A chain without `n` links has an end. -/
theorem exists_end (h : after next n a = none) :
    ∃ m < n, ∃ b, after next m a = some b ∧ next b = none := by
  induction n with
  | zero => exact absurd h (by simp [after])
  | succ n ih =>
    cases hn : after next n a with
    | none =>
      obtain ⟨m, hm, hend⟩ := ih hn
      exact ⟨m, by omega, hend⟩
    | some b =>
      rw [after_succ, hn, Option.bind_some] at h
      exact ⟨n, Nat.lt_succ_self n, b, hn, h⟩

end Chains
