import MiniVisor.Fat32Stretches

/-!
# Which calls end in time

`read` and `write` leave their loops only where the bytes that they have transferred are
exactly the length, or where the chain of clusters ends. Every stretch is measured against
the whole length, so that the loops can run past it and then follow the chain as far as it
goes, round and round if it is a cycle. A call ends in time if it returns and has followed at
most one link more than the range has clusters.
-/
namespace MiniVisor

open Effects

namespace Fat32

/-! ## The places of a call -/

/-- A place behind the first one. As long as the bytes are not more than the length, they are
those of the clusters before it. -/
structure Behind (f : Fat32) (n d k₀ : ℕ) (p : Place) : Prop where
  start : p.dataOffset = 0
  links : k₀ < p.links
  pointer : 0 < p.bufferPointer
  le : p.bufferPointer ≤ p.links * f.bytesPerCluster
  place : p.bufferPointer ≤ n → p.bufferPointer + f.rest d = (p.links - k₀) * f.bytesPerCluster

section Places

variable {f : Fat32} {isWrite : Bool} {entry n d c₀ k₀ B i : ℕ} {p q : Place}
  {x : Except Fault Stretch}

/-- A first stretch that ends with the length is the last one. -/
theorem Goes.first (h : f.Goes isWrite n ⟨k₀, d, c₀, 0⟩ q) : ∃ i next,
    (i + 1) * f.bytesPerCluster < n + f.rest d ∧ f.Consecutive c₀ i ∧
      f.nextCluster (c₀ + i) = .ok next ∧ next ≠ c₀ + i + 1 ∧
      (isWrite = true → f.rest d = 0) ∧
      q = ⟨k₀ + i + 1, 0, next, (i + 1) * f.bytesPerCluster - f.rest d⟩ := by
  obtain ⟨i, r, hend, haligned, hmore, hnext, hlinks, hpointer⟩ := h.stretch
  have hstart := h.start
  cases hend with
  | full => exact absurd (Nat.zero_add n).symm hmore
  | broken hgets hleft hclusters hlink hne hword =>
    refine ⟨i, q.cluster, hclusters, hgets.run, hnext, ?_, haligned, ?_⟩
    · rw [← Except.ok.inj (hlink.symm.trans hnext)]
      exact hne
    · cases q
      simp only [Nat.zero_add] at hpointer
      simp_all [broken]

/-- A later stretch leads to the one behind it, whose bytes are more than the length if it has
taken the whole length. -/
theorem Goes.later (hstart : p.dataOffset = 0) (h : f.Goes isWrite n p q) : ∃ i,
    f.Gets isWrite n 0 p.cluster i ∧ f.nextCluster (p.cluster + i) = .ok q.cluster ∧
      q.links = p.links + i + 1 ∧ q.dataOffset = 0 ∧
      ((n ≤ (i + 1) * f.bytesPerCluster ∧
          f.leastBytes isWrite ≤ n - i * f.bytesPerCluster ∧
          q.bufferPointer = p.bufferPointer + n) ∨
        ((i + 1) * f.bytesPerCluster < n ∧ q.cluster ≠ p.cluster + i + 1 ∧
          n ≠ q.bufferPointer ∧
          q.bufferPointer = p.bufferPointer + (i + 1) * f.bytesPerCluster)) := by
  obtain ⟨i, r, hend, haligned, hmore, hnext, hlinks, hpointer⟩ := h.stretch
  rw [hstart] at hend
  have hzero := rest_zero f
  refine ⟨i, hend.gets, ?_, hlinks, h.start, ?_⟩
  · rw [← hend.stretch.1]
    exact hnext
  · cases hend with
    | full hgets hleft hlast =>
      rw [hzero, Nat.add_zero] at hlast
      rw [mid_bytes, hzero, Nat.sub_zero] at hleft
      exact .inl ⟨hlast, hleft, hpointer⟩
    | broken hgets hleft hclusters hlink hne hword =>
      have hsame := Except.ok.inj (hlink.symm.trans hnext)
      rw [hzero, Nat.add_zero] at hclusters
      have hbytes : (f.broken 0 p.cluster i).bytes = (i + 1) * f.bytesPerCluster := by
        change (i + 1) * f.bytesPerCluster - f.rest 0 = _
        rw [hzero, Nat.sub_zero]
      rw [hbytes] at hpointer hmore
      refine .inr ⟨hclusters, ?_, ?_, hpointer⟩
      · rw [← hsame]
        exact hne
      · rw [hpointer]
        exact hmore

theorem Goes.behind (hd : d < f.bytesPerCluster) (h : f.Goes isWrite n p q)
    (hp : p = ⟨k₀, d, c₀, 0⟩ ∨ f.Behind n d k₀ p) : f.Behind n d k₀ q := by
  have hrest := rest_le f d
  rcases hp with rfl | hp
  · obtain ⟨i, next, hclusters, -, -, -, -, rfl⟩ := h.first
    have hone : f.bytesPerCluster ≤ (i + 1) * f.bytesPerCluster :=
      Nat.le_mul_of_pos_left _ (Nat.succ_pos i)
    have hmul : (i + 1) * f.bytesPerCluster ≤ (k₀ + i + 1) * f.bytesPerCluster :=
      Nat.mul_le_mul_right _ (by omega)
    refine ⟨rfl, ?_, ?_, ?_, fun _ => ?_⟩
    · dsimp only
      omega
    · dsimp only
      omega
    · dsimp only
      omega
    · dsimp only
      rw [show k₀ + i + 1 - k₀ = i + 1 by omega]
      omega
  · obtain ⟨i, -, -, hlinks, hstart, hcases⟩ := h.later hp.start
    have hle := hp.le
    have hk := hp.links
    have hpointer := hp.pointer
    have hsum : (p.links + i + 1) * f.bytesPerCluster =
        p.links * f.bytesPerCluster + (i + 1) * f.bytesPerCluster := by
      rw [Nat.add_assoc, Nat.add_mul]
    refine ⟨hstart, by omega, by omega, ?_, fun hshort => ?_⟩
    · rw [hlinks, hsum]
      rcases hcases with ⟨hlast, -, hq⟩ | ⟨-, -, -, hq⟩
      · omega
      · omega
    · rcases hcases with ⟨-, -, hq⟩ | ⟨-, -, -, hq⟩
      · omega
      · have hplace := hp.place (by omega)
        rw [hlinks, show p.links + i + 1 - k₀ = p.links - k₀ + (i + 1) by omega, Nat.add_mul, hq]
        omega

/-- The place is as many links behind the entry as the loop has followed. -/
theorem Goes.after (h : f.Goes isWrite n p q)
    (hp : Chains.after f.getNextCluster p.links entry = some p.cluster) :
    Chains.after f.getNextCluster q.links entry = some q.cluster := by
  obtain ⟨i, r, hend, -, -, hnext, hlinks, -⟩ := h.stretch
  rw [hend.stretch.1] at hnext
  rw [hlinks, Chains.after_succ, hend.after hp le_rfl, Option.bind_some]
  exact nextCluster_eq_ok.1 hnext

theorem Visits.after (h : f.Visits isWrite n p q)
    (hp : Chains.after f.getNextCluster p.links entry = some p.cluster) :
    Chains.after f.getNextCluster q.links entry = some q.cluster := by
  induction h with
  | refl => exact hp
  | tail _ hgoes ih => exact hgoes.after ih

theorem Visits.cases (hd : d < f.bytesPerCluster) (h : f.Visits isWrite n ⟨k₀, d, c₀, 0⟩ p) :
    p = ⟨k₀, d, c₀, 0⟩ ∨ f.Behind n d k₀ p := by
  induction h with
  | refl => exact .inl rfl
  | tail _ hgoes ih => exact .inr (hgoes.behind hd ih)

/-- Without a second stretch there is only the first place. -/
theorem Visits.eq_of_stop (h : f.Visits isWrite n p q) (hstop : ∀ q, ¬f.Goes isWrite n p q) :
    q = p := by
  rcases Relation.ReflTransGen.cases_head h with rfl | ⟨r, hgoes, -⟩
  · rfl
  · exact absurd hgoes (hstop r)

end Places

/-! ## Where the loop stops -/

/-- The tables on which a call for `n` bytes, `d` bytes into cluster number `k₀` of the chain,
stops within `B` links. -/
inductive Stops (f : Fat32) (isWrite : Bool) (entry n d k₀ B : ℕ) : Prop
  /-- The chain ends. -/
  | chain (h : Chains.after f.getNextCluster (B + 1) entry = none)
  /-- The clusters of the range have consecutive numbers. -/
  | line {c : ℕ} (hc : Chains.after f.getNextCluster k₀ entry = some c)
      (h : f.Consecutive c ((n + f.rest d - 1) / f.bytesPerCluster))
  /-- The range ends with a cluster that links to another place. -/
  | boundary {e next : ℕ} (hdvd : f.bytesPerCluster ∣ n + f.rest d)
      (he : Chains.after f.getNextCluster (k₀ + (n + f.rest d - 1) / f.bytesPerCluster) entry =
        some e)
      (hnext : f.nextCluster e = .ok next) (hne : next ≠ e + 1)
  /-- A write that does not begin with a sector is refused. -/
  | unaligned (hwrite : isWrite = true) (h : f.rest d ≠ 0)
  /-- So is one that comes to less than a sector, in a fragment that is long enough for it. -/
  | remainder {j e next : ℕ} (hwrite : isWrite = true) (hpos : 0 < n % f.bytesPerCluster)
      (hless : n % f.bytesPerCluster < f.bytesPerSector) (hj : k₀ ≤ j)
      (hlinks : j + 1 + n / f.bytesPerCluster ≤ B)
      (he : Chains.after f.getNextCluster j entry = some e)
      (hnext : f.nextCluster e = .ok next) (hne : next ≠ e + 1)
      (h : f.Consecutive next (n / f.bytesPerCluster))

/-- No more than `L` links are followed from the places behind `p`. -/
def Within (f : Fat32) (isWrite : Bool) (n L : ℕ) (p : Place) : Prop :=
  ∀ q, f.Visits isWrite n p q →
    ∀ i x, f.Ending isWrite n q.dataOffset q.cluster i x → q.links + i ≤ L

section Stops

variable {f : Fat32} {isWrite : Bool} {entry n d c₀ k₀ B i j e next : ℕ} {p q : Place}
  {x : Except Fault Stretch}

/-- A run of consecutive numbers does not cross a link to another place. -/
theorem Consecutive.le_break {c k : ℕ} (h : f.Consecutive c i)
    (hc : Chains.after f.getNextCluster k entry = some c)
    (he : Chains.after f.getNextCluster j entry = some e) (hnext : f.nextCluster e = .ok next)
    (hne : next ≠ e + 1) (hk : k ≤ j) : k + i ≤ j := by
  by_contra hlong
  have hat : Chains.after f.getNextCluster (k + (j - k)) entry = some (c + (j - k)) := by
    rw [Chains.after_add, hc]
    exact h.after (by omega)
  rw [Nat.add_sub_cancel' hk, he] at hat
  obtain rfl := Option.some.inj hat
  have hlink := h (j - k) (by omega)
  rw [hnext] at hlink
  exact hne (Except.ok.inj hlink)

theorem within_of_stop {L : ℕ} (hf : f.Sized) (hstop : ∀ q, ¬f.Goes isWrite n p q)
    (hL : p.links + (n + f.rest p.dataOffset - 1) / f.bytesPerCluster ≤ L) :
    f.Within isWrite n L p := by
  intro q hq i x hend
  obtain rfl := Visits.eq_of_stop hq hstop
  have hle := hend.gets.le_links hf
  omega

/-- A chain that ends within the links. -/
theorem within_of_chain (hat : Chains.after f.getNextCluster k₀ entry = some c₀)
    (h : Chains.after f.getNextCluster (B + 1) entry = none) :
    ∃ L ≤ B, L < 2 ^ 34 ∧ f.Within isWrite n L ⟨k₀, d, c₀, 0⟩ := by
  obtain ⟨m, hm, b, hb, hend⟩ := Chains.exists_end h
  have hcard := Chains.length_le_card _ getNextCluster_mem hb hend
  rw [Finset.card_range] at hcard
  refine ⟨m, by omega, by omega, fun q hq i x hx => ?_⟩
  exact Chains.le_of_end hb hend (hx.after (Visits.after hq hat) le_rfl)

/-- A range that is one run. -/
theorem not_goes_of_line (hf : f.Sized)
    (h : f.Consecutive c₀ ((n + f.rest d - 1) / f.bytesPerCluster)) (q : Place) :
    ¬f.Goes isWrite n ⟨k₀, d, c₀, 0⟩ q := by
  intro hgoes
  obtain ⟨i, next, hclusters, -, hnext, hne, -, -⟩ := hgoes.first
  have hi : i + 1 ≤ (n + f.rest d - 1) / f.bytesPerCluster :=
    (Nat.le_div_iff_mul_le hf.cluster_pos).2 (by omega)
  have hlink := h i (by omega)
  rw [hnext] at hlink
  exact hne (Except.ok.inj hlink)

theorem not_goes_of_unaligned (hwrite : isWrite = true) (h : f.rest d ≠ 0) (q : Place) :
    ¬f.Goes isWrite n ⟨k₀, d, c₀, 0⟩ q := by
  intro hgoes
  obtain ⟨i, next, -, -, -, -, haligned, -⟩ := hgoes.first
  exact h (haligned hwrite)

/-- A range that ends where the chain goes on at another place: the stretches end with the
fragments, and the last of them with the range. -/
theorem within_of_boundary (hf : f.Sized) (hd : d < f.bytesPerCluster)
    (hat : Chains.after f.getNextCluster k₀ entry = some c₀)
    (hdvd : f.bytesPerCluster ∣ n + f.rest d)
    (he : Chains.after f.getNextCluster (k₀ + (n + f.rest d - 1) / f.bytesPerCluster) entry =
      some e)
    (hnext : f.nextCluster e = .ok next) (hne : next ≠ e + 1) :
    f.Within isWrite n (k₀ + (n + f.rest d - 1) / f.bytesPerCluster) ⟨k₀, d, c₀, 0⟩ := by
  have hpos := hf.cluster_pos
  obtain ⟨m, hm⟩ := hdvd
  generalize hE : (n + f.rest d - 1) / f.bytesPerCluster = E at he ⊢
  have hwhole : 0 < n + f.rest d → n + f.rest d = (E + 1) * f.bytesPerCluster := by
    intro hsome
    obtain ⟨m, rfl⟩ : ∃ l, m = l + 1 := ⟨m - 1, by
      rcases Nat.eq_zero_or_pos m with rfl | h
      · omega
      · omega⟩
    rw [hm, ← hE, hm, Nat.mul_comm, Nat.succ_mul, Nat.add_sub_assoc hpos, Nat.mul_comm m,
      Nat.mul_add_div hpos, Nat.div_eq_of_lt (by omega), Nat.add_zero, Nat.add_mul, Nat.one_mul,
      Nat.mul_comm m]
  have hplaces : ∀ q, f.Visits isWrite n ⟨k₀, d, c₀, 0⟩ q → q = ⟨k₀, d, c₀, 0⟩ ∨
      (q.bufferPointer ≤ n ∧ q.links ≤ k₀ + E) := by
    intro q hq
    induction hq with
    | refl => exact .inl rfl
    | @tail q q' hq hgoes ih =>
      right
      rcases ih with rfl | ⟨hle, hlinks⟩
      · obtain ⟨i, next', hclusters, -, -, -, -, rfl⟩ := hgoes.first
        have hi : i + 1 ≤ E := by
          rw [← hE]
          exact (Nat.le_div_iff_mul_le hpos).2 (by omega)
        dsimp only
        omega
      · rcases Visits.cases hd hq with rfl | hbehind
        · obtain ⟨i, next', hclusters, -, -, -, -, rfl⟩ := hgoes.first
          have hi : i + 1 ≤ E := by
            rw [← hE]
            exact (Nat.le_div_iff_mul_le hpos).2 (by omega)
          dsimp only
          omega
        obtain ⟨i, hgets, -, hlinks', -, hcases⟩ := hgoes.later hbehind.start
        have hrun := hgets.run.le_break (Visits.after hq hat) he hnext hne hlinks
        have hplace := hbehind.place hle
        have hpointer := hbehind.pointer
        have hk := hbehind.links
        have hn := hwhole (by omega)
        have hmul : (q.links - k₀ + (i + 1)) * f.bytesPerCluster ≤ (E + 1) * f.bytesPerCluster :=
          Nat.mul_le_mul_right _ (by omega)
        rw [Nat.add_mul] at hmul
        rcases hcases with ⟨hlast, -, -⟩ | ⟨-, -, hmore, hq'⟩
        · omega
        · refine ⟨by omega, ?_⟩
          have hlt : (q.links - k₀ + (i + 1)) * f.bytesPerCluster <
              (E + 1) * f.bytesPerCluster := by
            rw [Nat.add_mul]
            omega
          have := Nat.lt_of_mul_lt_mul_right hlt
          omega
  intro q hq i x hend
  have hlinks : q.links ≤ k₀ + E := by
    rcases hplaces q hq with rfl | ⟨-, h⟩
    · exact Nat.le_add_right _ _
    · exact h
  exact hend.gets.run.le_break (Visits.after hq hat) he hnext hne hlinks

/-- A fragment in which a write comes to less than a sector. -/
theorem within_of_remainder (hf : f.Sized) (hwrite : isWrite = true)
    (hat : Chains.after f.getNextCluster k₀ entry = some c₀) (hpos : 0 < n % f.bytesPerCluster)
    (hless : n % f.bytesPerCluster < f.bytesPerSector) (hj : k₀ ≤ j)
    (he : Chains.after f.getNextCluster j entry = some e)
    (hnext : f.nextCluster e = .ok next) (hne : next ≠ e + 1)
    (h : f.Consecutive next (n / f.bytesPerCluster)) :
    f.Within isWrite n (j + 1 + n / f.bytesPerCluster) ⟨k₀, d, c₀, 0⟩ := by
  have hcluster := hf.cluster_pos
  have hdiv := Nat.div_add_mod n f.bytesPerCluster
  rw [Nat.mul_comm] at hdiv
  have hplaces : ∀ q, f.Visits isWrite n ⟨k₀, d, c₀, 0⟩ q →
      q.links ≤ j ∨ (q.links = j + 1 ∧ q.cluster = next ∧ q.dataOffset = 0) := by
    intro q hq
    induction hq with
    | refl => exact .inl hj
    | @tail q q' hq hgoes ih =>
      rcases ih with hle | ⟨-, hc, hstart⟩
      · obtain ⟨i, r, hend, -, -, hlink, hlinks', -⟩ := hgoes.stretch
        have hrun := hend.gets.run.le_break (Visits.after hq hat) he hnext hne hle
        rcases Nat.lt_or_eq_of_le hrun with hlt | heq
        · left
          omega
        · refine .inr ⟨by omega, ?_, hgoes.start⟩
          have hlast := hend.after (Visits.after hq hat) le_rfl
          rw [heq, he] at hlast
          rw [hend.stretch.1, ← Option.some.inj hlast, hnext] at hlink
          exact (Except.ok.inj hlink).symm
      · -- No stretch of this fragment is transferred.
        exfalso
        obtain ⟨i, hgets, hlink, -, -, hcases⟩ := hgoes.later hstart
        rw [hc] at hlink hcases
        rcases hcases with ⟨hlast, hleft, -⟩ | ⟨hclusters, hbreak, -, -⟩
        · have hsector : f.bytesPerSector ≤ n - i * f.bytesPerCluster := by
            rw [hwrite] at hleft
            exact hleft
          have hin : i * f.bytesPerCluster < n := by omega
          have hi : i ≤ n / f.bytesPerCluster := (Nat.le_div_iff_mul_le hcluster).2 hin.le
          have hi' : n / f.bytesPerCluster ≤ i := by
            by_contra hgt
            have hmul : (i + 1) * f.bytesPerCluster ≤
                n / f.bytesPerCluster * f.bytesPerCluster := Nat.mul_le_mul_right _ (by omega)
            omega
          obtain rfl := Nat.le_antisymm hi hi'
          omega
        · have hi : i + 1 ≤ n / f.bytesPerCluster :=
            (Nat.le_div_iff_mul_le hcluster).2 hclusters.le
          have hline := h i (by omega)
          rw [hlink] at hline
          exact hbreak (Except.ok.inj hline)
  intro q hq i x hend
  rcases hplaces q hq with hle | ⟨hlinks, -, hstart⟩
  · have hrun := hend.gets.run.le_break (Visits.after hq hat) he hnext hne hle
    exact hrun.trans ((Nat.le_succ j).trans (Nat.le_add_right _ _))
  · have hi : i ≤ n / f.bytesPerCluster := by
      rcases hend.gets.inside with rfl | hin
      · exact Nat.zero_le _
      · rw [hstart, rest_zero, Nat.add_zero] at hin
        exact (Nat.le_div_iff_mul_le hcluster).2 hin.le
    omega

/-- On these tables the links are bounded. -/
theorem Stops.within (h : f.Stops isWrite entry n d k₀ B) (hf : f.Sized)
    (hd : d < f.bytesPerCluster) (hat : Chains.after f.getNextCluster k₀ entry = some c₀)
    (hk₀ : k₀ < 2 ^ 32) (hn : n + f.rest d < 2 ^ 32)
    (hB : k₀ + (n + f.rest d - 1) / f.bytesPerCluster ≤ B) :
    ∃ L ≤ B, L < 2 ^ 34 ∧ f.Within isWrite n L ⟨k₀, d, c₀, 0⟩ := by
  have hsmall := Nat.div_le_self (n + f.rest d - 1) f.bytesPerCluster
  cases h with
  | chain h => exact within_of_chain hat h
  | line hc h =>
    obtain rfl := Option.some.inj (hc.symm.trans hat)
    exact ⟨_, hB, by omega, within_of_stop hf (not_goes_of_line hf h) le_rfl⟩
  | boundary hdvd he hnext hne =>
    exact ⟨_, hB, by omega, within_of_boundary hf hd hat hdvd he hnext hne⟩
  | unaligned hwrite h =>
    exact ⟨_, hB, by omega, within_of_stop hf (not_goes_of_unaligned hwrite h) le_rfl⟩
  | @remainder j e _ hwrite hpos hless hj hlinks he hnext hne h =>
    -- The fragment is reached early, as there are not more clusters than numbers.
    have hfrom : Chains.after f.getNextCluster (j - k₀) c₀ = some e := by
      have hsplit := Chains.after_add f.getNextCluster k₀ (j - k₀) entry
      rwa [Nat.add_sub_cancel' hj, he, hat, Option.bind_some, eq_comm] at hsplit
    obtain ⟨m, hm, hcard, he'⟩ := Chains.exists_short _ getNextCluster_mem hfrom
    rw [Finset.card_range] at hcard
    have hearly : Chains.after f.getNextCluster (k₀ + m) entry = some e := by
      rw [Chains.after_add, hat]
      exact he'
    have hquot := Nat.div_le_self n f.bytesPerCluster
    exact ⟨k₀ + m + 1 + n / f.bytesPerCluster, by omega, by omega,
      within_of_remainder hf hwrite hat hpos hless (Nat.le_add_right _ _) hearly hnext hne h⟩

/-- If the links are bounded, the loop comes to a last place. -/
theorem exists_last (hf : f.Sized) : ∀ {m : ℕ} {p : Place}, B < p.links + m →
    n + f.rest p.dataOffset < 2 ^ 32 → f.Within isWrite n B p →
    ∃ q, f.Visits isWrite n p q ∧ ∀ q', ¬f.Goes isWrite n q q'
  | 0, p, hm, hn, h => by
    obtain ⟨i, x, hend⟩ := exists_ending hf (show n < 2 ^ 32 by omega) (sectorCount_lt hn) isWrite
      p.cluster
    have hle := h p .refl i x hend
    omega
  | m + 1, p, hm, hn, h => by
    by_cases hlast : ∀ q', ¬f.Goes isWrite n p q'
    · exact ⟨p, .refl, hlast⟩
    · push Not at hlast
      obtain ⟨q, hgoes⟩ := hlast
      obtain ⟨i, r, -, -, -, -, hlinks, -⟩ := hgoes.stretch
      obtain ⟨q', hq', hend⟩ := exists_last hf (m := m) (p := q) (by omega)
        (by rw [hgoes.start, rest_zero]; omega) fun q' hq' => h q' (.head hgoes hq')
      exact ⟨q', .head hgoes hq', hend⟩

theorem stops_of_end {k : ℕ} (hat : Chains.after f.getNextCluster k entry = some e)
    (hnext : f.nextCluster e = .error .err) (hk : k ≤ B) : f.Stops isWrite entry n d k₀ B :=
  .chain (Chains.after_eq_none hat (nextCluster_eq_error.1 hnext) (Nat.lt_succ_of_le hk))

/-- A write that comes to less than a sector. -/
theorem stops_of_short (hf : f.Sized) (hd : d < f.bytesPerCluster)
    (hat : Chains.after f.getNextCluster k₀ entry = some c₀) (hwrite : isWrite = true)
    (hq : f.Visits isWrite n ⟨k₀, d, c₀, 0⟩ q) (hgets : f.Gets isWrite n q.dataOffset q.cluster i)
    (hshort : n - (f.mid q.dataOffset q.cluster i).bytes < f.bytesPerSector)
    (hB : q.links + i ≤ B) :
    f.Stops isWrite entry n d k₀ B := by
  by_cases hrest : f.rest d ≠ 0
  · exact .unaligned hwrite hrest
  rw [not_not] at hrest
  have hpos := hf.cluster_pos
  have hsector : f.bytesPerSector ≤ f.bytesPerCluster := Nat.le_mul_of_pos_left _ hf.cluster
  have hzero : f.rest q.dataOffset = 0 := by
    rcases Visits.cases hd hq with rfl | hbehind
    · exact hrest
    · rw [hbehind.start, rest_zero]
  rw [mid_bytes, hzero, Nat.sub_zero] at hshort
  have hinside := hgets.inside
  rw [hzero, Nat.add_zero] at hinside
  rcases Relation.ReflTransGen.cases_tail hq with heq | ⟨p, hp, hgoes⟩
  · obtain rfl := heq
    refine .line hat (hgets.run.le ?_)
    rw [hrest, Nat.add_zero]
    refine Nat.le_of_lt_succ ((Nat.div_lt_iff_lt_mul hpos).2 ?_)
    rw [Nat.succ_mul]
    omega
  · have hplace := Visits.cases hd hp
    have hstart : f.rest p.dataOffset = 0 := by
      rcases hplace with rfl | hbehind
      · exact hrest
      · rw [hbehind.start, rest_zero]
    -- The stretch before was taken, so that a whole sector was left for it.
    obtain ⟨i', r, hend, -, -, hlink, hlinks, -⟩ := hgoes.stretch
    have hsome : f.bytesPerSector ≤ n - i' * f.bytesPerCluster := by
      cases hend with
      | full _ hleft | broken _ hleft =>
        rw [mid_bytes, hstart, Nat.sub_zero, hwrite] at hleft
        exact hleft
    have hin : i * f.bytesPerCluster < n := by
      rcases hinside with rfl | hin
      · omega
      · exact hin
    have hi : n / f.bytesPerCluster = i := by
      refine Nat.div_eq_of_lt_le hin.le ?_
      rw [Nat.succ_mul]
      omega
    have hmod := Nat.div_add_mod n f.bytesPerCluster
    rw [hi, Nat.mul_comm] at hmod
    have hhead := Goes.after hgoes (Visits.after hp hat)
    have hk₀ : k₀ ≤ p.links := by
      rcases hplace with rfl | hbehind
      · exact le_rfl
      · exact hbehind.links.le
    cases hend with
    | full _ hleft hlast =>
      exfalso
      rw [hstart, Nat.add_zero, Nat.succ_mul] at hlast
      have hi' : n / f.bytesPerCluster = i' ∨ n = (i' + 1) * f.bytesPerCluster := by
        rcases Nat.lt_or_eq_of_le hlast with hlt | heq
        · refine .inl (Nat.div_eq_of_lt_le ?_ ?_)
          · omega
          · rw [Nat.succ_mul]
            exact hlt
        · exact .inr (by rw [Nat.succ_mul]; exact heq)
      rcases hi' with hi' | hi'
      · obtain rfl := hi.symm.trans hi'
        omega
      · rw [hi', Nat.mul_div_cancel _ hpos] at hi
        subst hi
        omega
    | broken hgets' hleft hclusters hlink' hne hword =>
      obtain rfl := Except.ok.inj (hlink.symm.trans hlink')
      exact .remainder hwrite (by omega) (by omega) (show k₀ ≤ p.links + i' by omega)
        (by omega) (by
          rw [Chains.after_add, Visits.after hp hat]
          exact hgets'.run.after le_rfl)
        hlink' hne (by rw [hi]; exact hgets.run)

/-- A stretch that completes the length, or that the loop wrongly takes for the last one. -/
theorem stops_of_done {r : Stretch} (hf : f.Sized) (hd : d < f.bytesPerCluster)
    (hat : Chains.after f.getNextCluster k₀ entry = some c₀)
    (hq : f.Visits isWrite n ⟨k₀, d, c₀, 0⟩ q)
    (hend : f.Ending isWrite n q.dataOffset q.cluster i (.ok r))
    (hdone : n = q.bufferPointer + r.bytes) : f.Stops isWrite entry n d k₀ B := by
  have hpos := hf.cluster_pos
  have hafter := hend.after (Visits.after hq hat) le_rfl
  rcases Visits.cases hd hq with rfl | hbehind
  · cases hend with
    | full hgets hleft hlast =>
      refine .line hat (hgets.run.le (Nat.le_of_lt_succ ((Nat.div_lt_iff_lt_mul hpos).2 ?_)))
      dsimp only at hlast
      have hsome : 0 < (i + 1) * f.bytesPerCluster := Nat.mul_pos (Nat.succ_pos i) hpos
      rw [Nat.succ_eq_add_one]
      omega
    | broken hgets hleft hmore =>
      have hrest := rest_le_cluster hf d
      have hone : f.bytesPerCluster ≤ (i + 1) * f.bytesPerCluster :=
        Nat.le_mul_of_pos_left _ (Nat.succ_pos i)
      dsimp only [broken] at hmore hdone
      omega
  · obtain ⟨links, dataOffset, cluster, pointer⟩ := q
    obtain rfl : dataOffset = 0 := hbehind.start
    have hpointer := hbehind.pointer
    have hk := hbehind.links
    dsimp only at hpointer hk hdone hafter hend
    cases hend with
    | full =>
      dsimp only [full] at hdone
      omega
    | broken hgets hleft hmore hnext hne =>
      have hplace := hbehind.place (by dsimp only; omega)
      have hbytes : (f.broken 0 cluster i).bytes = (i + 1) * f.bytesPerCluster := by
        change (i + 1) * f.bytesPerCluster - f.rest 0 = _
        rw [rest_zero, Nat.sub_zero]
      rw [hbytes] at hdone
      have hwhole : n + f.rest d = (links - k₀ + i + 1) * f.bytesPerCluster := by
        rw [Nat.add_assoc, Nat.add_mul]
        dsimp only at hplace
        omega
      have hquot : k₀ + (n + f.rest d - 1) / f.bytesPerCluster = links + i := by
        have hlast : (links - k₀ + i + 1) * f.bytesPerCluster - 1 =
            (links - k₀ + i) * f.bytesPerCluster + (f.bytesPerCluster - 1) := by
          rw [Nat.succ_mul]
          omega
        rw [hwhole, hlast, Nat.mul_comm, Nat.mul_add_div hpos,
          Nat.div_eq_of_lt (show f.bytesPerCluster - 1 < f.bytesPerCluster by omega)]
        omega
      exact .boundary ⟨links - k₀ + i + 1, by rw [hwhole, Nat.mul_comm]⟩
        (by rw [hquot]; exact hafter)
        hnext hne

/-- On all other tables they are not. -/
theorem Stops.of_within (hf : f.Sized) (hd : d < f.bytesPerCluster)
    (hat : Chains.after f.getNextCluster k₀ entry = some c₀) (hn : n + f.rest d < 2 ^ 32)
    (hfits : ∀ q, f.Visits isWrite n ⟨k₀, d, c₀, 0⟩ q → f.Fits isWrite n q)
    (h : f.Within isWrite n B ⟨k₀, d, c₀, 0⟩) : f.Stops isWrite entry n d k₀ B := by
  obtain ⟨q, hq, hlast⟩ := exists_last hf (m := B + 1) (p := ⟨k₀, d, c₀, 0⟩)
    (by dsimp only; omega) hn h
  have hsmall : n + f.rest q.dataOffset < 2 ^ 32 := by
    rcases Visits.cases hd hq with rfl | hbehind
    · exact hn
    · rw [hbehind.start, rest_zero]
      omega
  obtain ⟨i, x, hend⟩ := exists_ending hf (show n < 2 ^ 32 by omega) (sectorCount_lt hsmall) isWrite
    q.cluster
  have hB := h q hq i x hend
  have hafter := hend.after (Visits.after hq hat) le_rfl
  cases x with
  | error e =>
    cases hend with
    | short hgets hshort =>
      cases isWrite with
      | false => exact absurd hshort (Nat.not_lt_zero _)
      | true => exact stops_of_short hf hd hat rfl hq hgets hshort hB
    | last _ _ _ hnext => exact stops_of_end hafter hnext hB
    | overflow hgets hleft hmore hnext hne hword =>
      exact absurd (.overflow hgets hleft hmore hnext hne hword) ((hfits q hq).cluster i)
  | ok r =>
    obtain ⟨hcluster, hbackup, -⟩ := hend.stretch
    by_cases haligned : isWrite = true → r.dataOffsetBackup = 0
    · by_cases hdone : n = q.bufferPointer + r.bytes
      · exact stops_of_done hf hd hat hq hend hdone
      · cases hnext : f.nextCluster r.cluster with
        | error e =>
          obtain rfl := nextCluster_error hnext
          rw [hcluster] at hnext
          exact stops_of_end hafter hnext hB
        | ok next =>
          exact absurd ⟨⟨i, r, hend, haligned, hdone, hnext, rfl, rfl⟩, rfl⟩
            (hlast ⟨q.links + i + 1, 0, next, q.bufferPointer + r.bytes⟩)
    · push Not at haligned
      obtain ⟨hwrite, hrest⟩ := haligned
      rw [hbackup] at hrest
      rcases Visits.cases hd hq with rfl | hbehind
      · exact .unaligned hwrite hrest
      · rw [hbehind.start, rest_zero] at hrest
        exact absurd rfl hrest

end Stops

/-! ## The call -/

/-- Whatever the driver answers, the call returns, and it follows at most one link more than the
range has clusters. -/
def EndsInTime (f : Fat32) (isWrite : Bool) (file : FileInfo) (offset length : ℕ) : Prop :=
  ∀ env driver bufferAddress s, bufferAddress < 2 ^ 63 → Answers driver →
    ∃ enough, ∀ fuel, enough ≤ fuel →
      Returns (f.followFile env driver isWrite fuel file bufferAddress offset length (s, 0)).1 ∧
        (f.followFile env driver isWrite fuel file bufferAddress offset length (s, 0)).2.2 ≤
          (offset + length) / f.bytesPerCluster + 1

/-- All requests of the call have numbers of 32 bits. -/
def AllFit (f : Fat32) (isWrite : Bool) (file : FileInfo) (offset length : ℕ) : Prop :=
  ∀ c, Chains.after f.getNextCluster (offset / f.bytesPerCluster) file.entryCluster = some c →
    ∀ p, f.Visits isWrite (clamp file offset length)
      ⟨offset / f.bytesPerCluster, offset % f.bytesPerCluster, c, 0⟩ p →
        f.Fits isWrite (clamp file offset length) p

/-- The calls that end in time. -/
def Finishes (f : Fat32) (isWrite : Bool) (file : FileInfo) (offset length : ℕ) : Prop :=
  offset + length < 2 ^ 64 ∧ ((file.fileSize < offset + length ∧ file.fileSize ≤ offset) ∨
    (f.AllFit isWrite file offset length ∧
      f.Stops isWrite file.entryCluster (clamp file offset length) (offset % f.bytesPerCluster)
        (offset / f.bytesPerCluster) ((offset + length) / f.bytesPerCluster + 1)))

section Call

variable {f : Fat32} {env : Environment} {driver : Driver} {isWrite : Bool} {file : FileInfo}
  {bufferAddress offset length fuel c count : ℕ} {s : Host}

theorem followClusters_some {e : ℕ} : ∀ {count c k : ℕ},
    Chains.after f.getNextCluster count c = some e →
    f.followClusters count c (s, k) = (.ok e, (s, k + count))
  | 0, c, k, h => by
    obtain rfl := Option.some.inj h
    rfl
  | count + 1, c, k, h => by
    rw [Chains.after] at h
    obtain ⟨next, hnext, hrest⟩ := Option.bind_eq_some_iff.1 h
    have hlink : f.nextCluster c = .ok next := nextCluster_eq_ok.2 hnext
    have hgo := followClusters_some (k := k + 1) hrest
    rw [followClusters, hlink]
    refine hgo.trans ?_
    rw [show k + 1 + count = k + (count + 1) by omega]

theorem followClusters_none : ∀ {count c k : ℕ}, Chains.after f.getNextCluster count c = none →
    ∃ m < count, f.followClusters count c (s, k) = (.error .err, (s, k + m))
  | 0, c, k, h => absurd h (by simp [Chains.after])
  | count + 1, c, k, h => by
    rw [Chains.after] at h
    cases hnext : f.getNextCluster c with
    | none =>
      refine ⟨0, Nat.succ_pos _, ?_⟩
      rw [followClusters, nextCluster_eq_error.2 hnext]
      rfl
    | some next =>
      rw [hnext, Option.bind_some] at h
      obtain ⟨m, hm, hgo⟩ := followClusters_none (k := k + 1) h
      refine ⟨m + 1, by omega, ?_⟩
      rw [followClusters, nextCluster_eq_ok.2 hnext]
      refine hgo.trans ?_
      rw [show k + 1 + m = k + (m + 1) by omega]

theorem followFile_overflow (h : ¬offset + length < 2 ^ 64) :
    (f.followFile env driver isWrite fuel file bufferAddress offset length (s, 0)).1 =
      .error .panic := by
  rw [followFile, Checked.add, if_neg h]
  rfl

theorem followFile_past (hword : offset + length < 2 ^ 64)
    (h : file.fileSize < offset + length ∧ file.fileSize ≤ offset) :
    f.followFile env driver isWrite fuel file bufferAddress offset length (s, 0) =
      (.ok 0, (s, 0)) := by
  rw [followFile, Checked.add_eq_some.2 ⟨hword, rfl⟩, Effect.checked_bind, if_pos h]
  rfl

theorem followFile_eq (hf : f.Sized) (hword : offset + length < 2 ^ 64)
    (h : ¬(file.fileSize < offset + length ∧ file.fileSize ≤ offset)) :
    f.followFile env driver isWrite fuel file bufferAddress offset length (s, 0) =
      (do
        let cluster ← f.followClusters (offset / f.bytesPerCluster) file.entryCluster
        f.followLoop env driver isWrite bufferAddress (clamp file offset length) fuel
          (offset % f.bytesPerCluster) cluster 0) (s, 0) := by
  have hlength : (if file.fileSize < offset + length then file.fileSize - offset else length) =
      clamp file offset length := by
    rw [clamp]
    split_ifs <;> omega
  have hmod : offset - offset / f.bytesPerCluster * f.bytesPerCluster =
      offset % f.bytesPerCluster := by
    have hdiv := Nat.div_add_mod offset f.bytesPerCluster
    rw [Nat.mul_comm] at hdiv
    omega
  rw [followFile, Checked.add_eq_some.2 ⟨hword, rfl⟩, Effect.checked_bind, if_neg h,
    if_neg hf.cluster_pos.ne', Effect.checked_bind, hlength, hmod]

/-- The range and the rest of its first cluster are a part of the file. -/
theorem clamp_add_rest_lt (h : ¬(file.fileSize < offset + length ∧ file.fileSize ≤ offset)) :
    clamp file offset length + f.rest (offset % f.bytesPerCluster) < 2 ^ 32 := by
  have hrest := rest_le f (offset % f.bytesPerCluster)
  have hmod := Nat.mod_le offset f.bytesPerCluster
  have hsize := file.fileSize_lt
  rw [clamp]
  omega

theorem links_le_bound (hf : f.Sized) : offset / f.bytesPerCluster +
    (clamp file offset length + f.rest (offset % f.bytesPerCluster) - 1) / f.bytesPerCluster ≤
      (offset + length) / f.bytesPerCluster + 1 := by
  have hrest := rest_le f (offset % f.bytesPerCluster)
  have hclamp : clamp file offset length ≤ length := Nat.min_le_left _ _
  have hdiv := Nat.div_add_mod offset f.bytesPerCluster
  have hle : offset / f.bytesPerCluster * f.bytesPerCluster +
      (clamp file offset length + f.rest (offset % f.bytesPerCluster) - 1) ≤ offset + length := by
    rw [Nat.mul_comm]
    omega
  have hsum := Nat.div_le_div_right (c := f.bytesPerCluster) hle
  rw [Nat.mul_comm, Nat.mul_add_div hf.cluster_pos] at hsum
  omega

theorem Finishes.endsInTime (hf : f.Sized) (h : f.Finishes isWrite file offset length) :
    f.EndsInTime isWrite file offset length := by
  obtain ⟨hword, hcases⟩ := h
  intro env driver bufferAddress s hbuffer hdriver
  by_cases hpast : file.fileSize < offset + length ∧ file.fileSize ≤ offset
  · refine ⟨0, fun fuel _ => ?_⟩
    rw [followFile_past hword hpast]
    exact ⟨.inl ⟨0, rfl⟩, Nat.zero_le _⟩
  obtain ⟨hfits, hstops⟩ := hcases.resolve_left hpast
  have hquot : offset / f.bytesPerCluster ≤ (offset + length) / f.bytesPerCluster :=
    Nat.div_le_div_right (Nat.le_add_right _ _)
  cases hat : Chains.after f.getNextCluster (offset / f.bytesPerCluster) file.entryCluster with
  | none =>
    obtain ⟨m, hm, hskip⟩ := followClusters_none (s := s) (k := 0) hat
    refine ⟨0, fun fuel _ => ?_⟩
    rw [followFile_eq hf hword hpast, Effect.bind_error hskip]
    refine ⟨.inr rfl, ?_⟩
    dsimp only
    omega
  | some c =>
    have hsmall := clamp_add_rest_lt (f := f) hpast
    have hsize := file.fileSize_lt
    have hfirst := Nat.div_le_self offset f.bytesPerCluster
    obtain ⟨L, hL, hfew, hwithin⟩ := hstops.within hf (Nat.mod_lt _ hf.cluster_pos) hat
      (by omega) hsmall (links_le_bound hf)
    refine ⟨2 ^ 32 + L + 1, fun fuel hfuel => ?_⟩
    have hskip := followClusters_some (s := s) (k := 0) hat
    rw [Nat.zero_add] at hskip
    rw [followFile_eq hf hword hpast, Effect.bind_ok hskip]
    refine And.imp_right (fun hlinks => Nat.le_trans hlinks hL) ?_
    exact followLoop_bounded (p := ⟨offset / f.bytesPerCluster, _, c, 0⟩) hf hdriver hbuffer
      hfew (fun q hq => ⟨hfits c hat q hq, hwithin q hq⟩) hsmall (Nat.zero_le _) (fun _ => rfl)
      (Nat.lt_of_lt_of_le hfuel (Nat.le_add_right fuel _))

theorem EndsInTime.finishes (hf : f.Sized) (h : f.EndsInTime isWrite file offset length) :
    f.Finishes isWrite file offset length := by
  obtain ⟨enough, hend⟩ := h (servingAt 0) served 0 servingHost (by norm_num)
    fun _ _ _ _ => .inl ⟨⟨⟩, rfl⟩
  obtain ⟨hreturns, hlinks⟩ := hend enough le_rfl
  have hword : offset + length < 2 ^ 64 := by
    by_contra hlong
    rw [followFile_overflow hlong] at hreturns
    exact absurd (returns_error hreturns) (by decide)
  refine ⟨hword, ?_⟩
  by_cases hpast : file.fileSize < offset + length ∧ file.fileSize ≤ offset
  · exact .inl hpast
  have hquot : offset / f.bytesPerCluster ≤ (offset + length) / f.bytesPerCluster :=
    Nat.div_le_div_right (Nat.le_add_right _ _)
  refine .inr ?_
  rw [followFile_eq hf hword hpast] at hreturns hlinks
  cases hat : Chains.after f.getNextCluster (offset / f.bytesPerCluster) file.entryCluster with
  | none =>
    obtain ⟨m, hm, b, hb, hnone⟩ := Chains.exists_end hat
    refine ⟨fun c hc => absurd (hat.symm.trans hc) (by simp), .chain ?_⟩
    exact Chains.after_eq_none hb hnone (by omega)
  | some c =>
    have hskip := followClusters_some (s := servingHost) (k := 0) hat
    rw [Nat.zero_add] at hskip
    rw [Effect.bind_ok hskip] at hreturns hlinks
    have hsmall := clamp_add_rest_lt (f := f) hpast
    have hvisits := followLoop_visits hf (servingAt_supplies 0)
      (p := ⟨offset / f.bytesPerCluster, offset % f.bytesPerCluster, c, 0⟩) rfl hreturns hsmall
      (by norm_num) (fun _ => rfl)
    refine ⟨fun c' hc' q hq => ?_, Stops.of_within hf (Nat.mod_lt _ hf.cluster_pos) hat hsmall
      (fun q hq => (hvisits q hq).1) fun q hq i x hx => ((hvisits q hq).2 i x hx).trans hlinks⟩
    obtain rfl := Option.some.inj (hat.symm.trans hc')
    exact (hvisits q hq).1

/-- If all clusters of the chain are on the volume, the numbers of all requests fit. -/
theorem AllFit.of_addressable (hf : f.Sized) (hentry : file.entryCluster < 0x0FFFFFF8)
    (h : ∀ j c, Chains.after f.getNextCluster j file.entryCluster = some c → f.Addressable c) :
    f.AllFit isWrite file offset length := by
  intro c hat p hp
  have hafter := Visits.after hp hat
  have hd : p.dataOffset < f.bytesPerCluster := by
    rcases Visits.cases (Nat.mod_lt _ hf.cluster_pos) hp with rfl | hbehind
    · exact Nat.mod_lt _ hf.cluster_pos
    · rw [hbehind.start]
      exact hf.cluster_pos
  refine ⟨fun i r hend _ => ?_, fun i hend => ?_⟩
  · rw [(h _ _ hafter).firstSector hf hd hend.stretch.2.2]
    exact Option.some_ne_none _
  · have hlast := hend.after hafter le_rfl
    have hlt : p.cluster + i < 0x0FFFFFF8 := by
      rcases Nat.eq_zero_or_pos (p.links + i) with hzero | hpos
      · rw [hzero] at hlast
        rw [← Option.some.inj hlast]
        exact hentry
      · obtain ⟨k, hk⟩ : ∃ k, p.links + i = k + 1 := ⟨p.links + i - 1, by omega⟩
        rw [hk, Chains.after_succ] at hlast
        obtain ⟨b, -, hlink⟩ := Option.bind_eq_some_iff.1 hlast
        exact Finset.mem_range.1 (getNextCluster_mem b _ hlink)
    cases hend with
    | overflow _ _ _ _ _ hword => omega

/-- Exactly these calls end in time. -/
theorem endsInTime_iff (hf : f.Sized) :
    f.EndsInTime isWrite file offset length ↔ f.Finishes isWrite file offset length :=
  ⟨EndsInTime.finishes hf, Finishes.endsInTime hf⟩

/-- A volume whose clusters 2 and 5 are a cycle. -/
def cycleVolume : Fat32 where
  baseLba := 128
  lbaSize := 512
  bytesPerSector := 8192
  sectorsPerCluster := 32
  reservedSectors := 16
  fatSectors := 1
  numberOfFats := 1
  fat i := if i = 2 then 5 else 2
  bytesPerSector_lt := by decide
  sectorsPerCluster_lt := by decide

/-- A file of two clusters and one byte. -/
def cycleFile : FileInfo where
  entryCluster := 2
  fileSize := 2 * 2 ^ 18 + 1
  fileSize_lt := by decide

theorem cycleVolume_sized : cycleVolume.Sized where
  sector := by decide
  cluster := by decide
  block_pos := by decide
  block_le := by decide
  disk := by decide

theorem cycleFile_allFit (offset length : ℕ) :
    cycleVolume.AllFit false cycleFile offset length := by
  refine .of_addressable cycleVolume_sized (by decide) fun j c hc => ?_
  have hcluster : c = 2 ∨ c = 5 := by
    cases j with
    | zero => exact .inl (Option.some.inj hc).symm
    | succ j =>
      rw [Chains.after_succ] at hc
      obtain ⟨b, -, hlink⟩ := Option.bind_eq_some_iff.1 hc
      rw [getNextCluster] at hlink
      split_ifs at hlink with hin
      obtain rfl := Option.some.inj hlink
      change (if b = 2 then 5 else 2) = 2 ∨ (if b = 2 then 5 else 2) = 5
      split_ifs
      · exact .inr rfl
      · exact .inl rfl
  rcases hcluster with rfl | rfl
  · exact ⟨by decide, by decide⟩
  · exact ⟨by decide, by decide⟩

/-- Two clusters are read in time, the byte behind them is not. -/
theorem cycle_read_ends : cycleVolume.EndsInTime false cycleFile 0 (2 * 2 ^ 18) ∧
    ¬cycleVolume.EndsInTime false cycleFile 0 (2 * 2 ^ 18 + 1) := by
  constructor
  · refine (endsInTime_iff cycleVolume_sized).2 ⟨by decide, .inr ⟨cycleFile_allFit _ _, ?_⟩⟩
    have hnext : cycleVolume.nextCluster 5 = .ok 2 := rfl
    exact .boundary (by decide) (by decide) hnext (by decide)
  · rw [endsInTime_iff cycleVolume_sized]
    rintro ⟨-, ⟨-, hpast⟩ | ⟨-, hstops⟩⟩
    · exact absurd hpast (by decide)
    · cases hstops with
      | chain h => exact absurd h (by decide)
      | line hc h =>
        obtain rfl := Option.some.inj hc
        exact absurd (h 0 (by decide)) (by decide)
      | boundary hdvd => exact absurd hdvd (by decide)
      | unaligned hwrite => exact absurd hwrite (by decide)
      | remainder hwrite => exact absurd hwrite (by decide)

end Call

end Fat32

end MiniVisor
