import MiniVisor.Fat32Reads

/-!
# The bytes of a file that is written

`write` goes through the fragments of a file as `read` does, with the same slips: every fragment
is compared with the whole length, and a start behind the first sector of its cluster is not
taken off the first fragment. It checks the alignment from fragment to fragment, when some of
them may have been written, and takes a start at the second sector of a cluster for unaligned.
-/
namespace MiniVisor

open Effects

namespace Fat32

/-! ## The inner loop -/

section Stretches

variable {f : Fat32} {c d i k n fuel : ℕ} {r r' : Stretch}

/-- The loop comes to the end of a stretch if a sector is left at every cluster. -/
theorem writeStretch_eq (hf : f.Geometry) (hn : n < 2 ^ 32) (hrun : f.Consecutive c i)
    (hin : i * f.bytesPerCluster < n + f.rest d)
    (hleft : i * f.bytesPerCluster - f.rest d + f.bytesPerSector ≤ n)
    (hlast : f.extend n (f.mid d c i) = .ok (r', true)) (hk : k ≤ i)
    (hr : f.skipSectors r = f.mid d c k) (hfuel : i - k < fuel) :
    f.writeStretch n fuel r = .ok r' := by
  have hsector := hf.sector_ge
  induction fuel generalizing k r with
  | zero => exact absurd hfuel (by omega)
  | succ fuel ih =>
    have hmul := Nat.mul_le_mul_right f.bytesPerCluster hk
    have hbytes : r.bytes = k * f.bytesPerCluster - f.rest d := by
      rw [← skipSectors_bytes (f := f), hr]
      rfl
    have hsub : Checked.sub n r.bytes = some (n - r.bytes) :=
      Checked.sub_eq_some.2 ⟨by omega, rfl⟩
    have hsome : ¬n - r.bytes < f.bytesPerSector := by omega
    rw [writeStretch, hsub, checked_some, ok_bind, if_neg hsome, hr]
    rcases Nat.lt_or_eq_of_le hk with hlt | rfl
    · have hmore := Nat.mul_le_mul_right f.bytesPerCluster (show k + 1 ≤ i by omega)
      rw [extend_mid_next hf hn (by omega) (hrun k hlt), ok_bind]
      exact ih hlt (skipSectors_mid (by omega)) (by omega)
    · rw [hlast, ok_bind]
      rfl

/-- Less than a sector is left behind a run of clusters. -/
theorem writeStretch_short (hf : f.Geometry) (hn : n < 2 ^ 32) (hrun : f.Consecutive c i)
    (hin : i * f.bytesPerCluster < n + f.rest d)
    (hshort : n < i * f.bytesPerCluster - f.rest d + f.bytesPerSector) (hk : k ≤ i)
    (hr : f.skipSectors r = f.mid d c k) (hfuel : i - k < fuel) :
    f.writeStretch n fuel r = .error .err := by
  have hsector := hf.sector_ge
  induction fuel generalizing k r with
  | zero => exact absurd hfuel (by omega)
  | succ fuel ih =>
    have hmul := Nat.mul_le_mul_right f.bytesPerCluster hk
    have hbytes : r.bytes = k * f.bytesPerCluster - f.rest d := by
      rw [← skipSectors_bytes (f := f), hr]
      rfl
    have hsub : Checked.sub n r.bytes = some (n - r.bytes) :=
      Checked.sub_eq_some.2 ⟨by omega, rfl⟩
    rw [writeStretch, hsub, checked_some, ok_bind, hr]
    by_cases hless : n - r.bytes < f.bytesPerSector
    · rw [if_pos hless]
    · have hlt : k < i := by
        rcases Nat.lt_or_eq_of_le hk with hlt | rfl
        · exact hlt
        · omega
      have hmore := Nat.mul_le_mul_right f.bytesPerCluster (show k + 1 ≤ i by omega)
      rw [if_neg hless, extend_mid_next hf hn (by omega) (hrun k hlt), ok_bind]
      exact ih hlt (skipSectors_mid (by omega)) (by omega)

/-- The numbers of the loop do not overflow. -/
theorem writeStretch_ne_panic (fuel : ℕ) (hf : f.Geometry) (hpos : 0 < n) (hn : n < 2 ^ 32)
    (hin : k * f.bytesPerCluster < n + f.rest d) (hc : c + k < 0x0FFFFFF8)
    (hr : f.skipSectors r = f.mid d c k) : f.writeStretch n fuel r ≠ .error .panic := by
  have hsector := hf.sector_ge
  induction fuel generalizing k r with
  | zero => simp [writeStretch]
  | succ fuel ih =>
    have hbytes : r.bytes = k * f.bytesPerCluster - f.rest d := by
      rw [← skipSectors_bytes (f := f), hr]
      rfl
    have hsub : Checked.sub n r.bytes = some (n - r.bytes) :=
      Checked.sub_eq_some.2 ⟨by omega, rfl⟩
    rw [writeStretch, hsub, checked_some, ok_bind, hr]
    by_cases hless : n - r.bytes < f.bytesPerSector
    · simp [if_pos hless]
    rw [if_neg hless]
    by_cases hend : n + f.rest d ≤ (k + 1) * f.bytesPerCluster
    · rw [extend_mid_full hf hn hin hend, ok_bind]
      exact fun h => absurd h (by simp [pure, Except.pure])
    · have hmore : (k + 1) * f.bytesPerCluster < n + f.rest d := Nat.lt_of_not_le hend
      cases hnext : f.nextCluster (c + k) with
      | error e =>
        rw [extend_mid hf hn hmore, hnext, nextCluster_error hnext]
        simp [bind, Except.bind]
      | ok next =>
        by_cases hne : next = c + k + 1
        · subst hne
          rw [extend_mid_next hf hn hmore hnext, ok_bind]
          exact ih hmore (Consecutive.next_lt hnext) (skipSectors_mid (by omega))
        · rw [extend_mid_break hf hn hmore hnext hne (by omega), ok_bind]
          exact fun h => absurd h (by simp [pure, Except.pure])

end Stretches

/-! ## The outer loop -/

section Loop

variable {f : Fat32} {env : Environment} {file : FileInfo} {clusters : ℕ → ℕ}
  {bufferAddress bufferPointer offset length fuel c d e i j k m n p : ℕ} {r : Stretch} {s t : Host}

/-- The parts of a successful iteration. -/
theorem writeLoop_eq_ok {x : ℕ}
    (h : f.writeLoop env bufferAddress n (fuel + 1) d c bufferPointer s = (.ok x, t)) :
    ∃ r u s₁, f.Gathers n (.start d c) r ∧
      f.writePart env bufferAddress c bufferPointer r s = (.ok u, s₁) ∧
      f.advance n (f.writeLoop env bufferAddress n fuel 0) bufferPointer r s₁ = (.ok x, t) := by
  rw [writeLoop_succ, Effect.bind_eq_ok] at h
  obtain ⟨r, s₀, hlift, h⟩ := h
  obtain ⟨hr, rfl⟩ := liftExcept_eq_ok.1 hlift
  rw [Effect.bind_eq_ok] at h
  obtain ⟨u, s₁, hpart, h⟩ := h
  exact ⟨r, u, s₁, writeStretch_gathers hr, hpart, h⟩

theorem writeLoop_completes {x : ℕ}
    (h : f.writeLoop env bufferAddress n fuel d c bufferPointer s = (.ok x, t)) :
    f.Completes n d c bufferPointer := by
  induction fuel generalizing d c bufferPointer s with
  | zero => exact absurd h (by simp [writeLoop, Effect.fail])
  | succ fuel ih =>
    obtain ⟨r, u, s₁, hr, -, h⟩ := writeLoop_eq_ok h
    rcases advance_eq_ok h with ⟨hdone, -⟩ | ⟨hmore, next, hnext, h⟩
    · exact .last hr hdone
    · exact .next hr hmore hnext (ih h)

/-- The disk after a stretch that begins with a whole sector. -/
theorem writePart_run {u : PUnit} (hf : f.Geometry) (hc : f.Addressable c)
    (hd : d < f.bytesPerCluster) (hrest : f.rest d = 0) (hoffset : r.sectorOffset = f.skipped d)
    (h : f.writePart env bufferAddress c bufferPointer r s = (.ok u, t)) :
    t.memory = s.memory ∧ t.drive.disk = copyBytes s.drive.disk (f.positionAt c d) s.memory
      (bufferAddress + bufferPointer) (r.size f) := by
  obtain ⟨-, sector, hfirst, hmemory, hdisk⟩ := writePart_moves h
  rw [hc.firstSector hf.sized hd hoffset] at hfirst
  obtain rfl := Option.some.inj hfirst
  have hplace := sectorPosition_skipped f c d
  rw [hrest, Nat.add_zero] at hplace
  rw [hplace] at hdisk
  exact ⟨hmemory, hdisk⟩

theorem writePart_run_ready (bufferAddress bufferPointer : ℕ) (hf : f.Geometry)
    (hc : f.Addressable c) (hd : d < f.bytesPerCluster)
    (hoffset : r.sectorOffset = f.skipped d) (hdirect : r.dataOffsetBackup = 0)
    (henv : VirtioBlk.Serves env) (hs : VirtioBlk.Ready k s) (hk : k + 1 < 2 ^ 16)
    (hbuffer : bufferAddress + bufferPointer < 2 ^ 64) :
    ∃ t, f.writePart env bufferAddress c bufferPointer r s = (.ok ⟨⟩, t) ∧
      VirtioBlk.Ready (k + 1) t := by
  have hle := hc.le
  have hskip := skipped_lt hf.sized hd
  exact writePart_ready hf henv hs (hc.firstSector hf.sized hd hoffset) (by omega) hk hbuffer hdirect

theorem full_size (hdvd : f.bytesPerSector ∣ n) (hsector : 0 < f.bytesPerSector) (hpos : 0 < n)
    (hn : n < 2 ^ 32) (hrest : f.rest d = 0) : (f.full n d c i).size f = n := by
  change f.sectorCount n d * f.bytesPerSector % 2 ^ 32 = n
  obtain ⟨q, rfl⟩ := hdvd
  obtain ⟨q, rfl⟩ : ∃ p, q = p + 1 := by
    cases q with
    | zero => exact absurd hpos (by simp)
    | succ q => exact ⟨q, rfl⟩
  have hdiv : (f.bytesPerSector * (q + 1) - 1) / f.bytesPerSector = q := by
    rw [Nat.mul_succ, Nat.add_sub_assoc hsector, Nat.mul_add_div hsector,
      Nat.div_eq_of_lt (by omega), Nat.add_zero]
  rw [sectorCount, hrest, Nat.add_zero (f.bytesPerSector * (q + 1)), hdiv, Nat.mul_comm, Nat.mod_eq_of_lt hn]

theorem broken_size (hsize : (i + 1) * f.bytesPerCluster < 2 ^ 32) :
    (f.broken d c i).size f = (i + 1) * f.bytesPerCluster := by
  change (i + 1) * f.sectorsPerCluster * f.bytesPerSector % 2 ^ 32 = _
  rw [Nat.mul_assoc, ← bytesPerCluster, Nat.mod_eq_of_lt hsize]

/-- The bytes of the buffer from number `low` on are at the places of the file, and the rest of the
disk is as it was. -/
structure Written (f : Fat32) (clusters : ℕ → ℕ) (bufferAddress offset low n : ℕ)
    (memory disk disk' : Memory) : Prop where
  inside : ∀ x < n, low ≤ x → disk' (f.filePosition clusters (offset + x)) =
    memory (bufferAddress + x)
  outside : ∀ y, (∀ x < n, low ≤ x → y ≠ f.filePosition clusters (offset + x)) → disk' y = disk y

/-- No cluster is twice in the chain. -/
def Acyclic (clusters : ℕ → ℕ) (m : ℕ) : Prop :=
  ∀ i < m, ∀ j < m, clusters i = clusters j → i = j

theorem positionAt_eq (f : Fat32) (c x : ℕ) : f.positionAt c x = f.baseLba * f.lbaSize +
    (f.reservedSectors + f.numberOfFats * f.fatSectors) * f.bytesPerSector +
      ((c - 2) * f.bytesPerCluster + x) := by
  rw [positionAt, sectorAt, bytesPerCluster]
  ring

/-- Different bytes of a file are at different places. -/
theorem Chain.filePosition_injective (hf : f.Geometry) (hchain : f.Chain file clusters m)
    (hacyclic : Acyclic clusters m) {x y : ℕ} (hx : x / f.bytesPerCluster < m)
    (hy : y / f.bytesPerCluster < m) (h : f.filePosition clusters x = f.filePosition clusters y) :
    x = y := by
  have hcluster := hf.cluster_pos
  have hcx := (hchain.addressable _ hx).ge
  have hcy := (hchain.addressable _ hy).ge
  have hmx := Nat.mod_lt x hcluster
  have hmy := Nat.mod_lt y hcluster
  have hplaces : (clusters (x / f.bytesPerCluster) - 2) * f.bytesPerCluster + x % f.bytesPerCluster =
      (clusters (y / f.bytesPerCluster) - 2) * f.bytesPerCluster + y % f.bytesPerCluster := by
    rw [filePosition, filePosition, positionAt_eq, positionAt_eq] at h
    omega
  have hquot := congrArg (· / f.bytesPerCluster) hplaces
  simp only [Nat.add_comm _ (_ % f.bytesPerCluster), Nat.add_mul_div_right _ _ hcluster,
    Nat.div_eq_of_lt hmx, Nat.div_eq_of_lt hmy, Nat.zero_add] at hquot
  have hindex := hacyclic _ hx _ hy (by omega)
  have hmod : x % f.bytesPerCluster = y % f.bytesPerCluster := by
    rw [hquot] at hplaces
    omega
  rw [← Nat.div_add_mod x f.bytesPerCluster, ← Nat.div_add_mod y f.bytesPerCluster, hindex, hmod]

/-- A write over clusters in line. -/
theorem InLine.written (h : InLine clusters j k) (hge : 2 ≤ clusters j)
    (hpos : 0 < f.bytesPerCluster) {low y size : ℕ} {memory disk : Memory}
    (hplace : j * f.bytesPerCluster + y = offset + low)
    (hsize : y + size ≤ (k + 1) * f.bytesPerCluster) :
    f.Written clusters bufferAddress offset low (low + size) memory disk
      (copyBytes disk (f.positionAt (clusters j) y) memory (bufferAddress + low) size) := by
  have hposition : ∀ z < size, f.filePosition clusters (offset + (low + z)) =
      f.positionAt (clusters j) y + z := by
    intro z hz
    have hquot : (y + z) / f.bytesPerCluster ≤ k := Nat.lt_succ_iff.1
      ((Nat.div_lt_iff_lt_mul hpos).2 (show y + z < (k + 1) * f.bytesPerCluster by omega))
    rw [positionAt_shift, ← h.filePosition hge hpos hquot, ← Nat.add_assoc, ← hplace, Nat.add_assoc]
  refine ⟨fun x hx hlow => ?_, fun y' hout => copyBytes_of_not_mem ?_⟩
  · obtain ⟨z, rfl⟩ := Nat.exists_eq_add_of_le hlow
    rw [hposition z (by omega), copyBytes_of_mem (by omega), Nat.add_assoc]
  · rintro ⟨hlow, hhigh⟩
    obtain ⟨z, rfl⟩ := Nat.exists_eq_add_of_le hlow
    exact hout (low + z) (by omega) (Nat.le_add_right _ _) (hposition z (by omega)).symm

/-- Two parts of a write, one behind the other. -/
theorem Written.trans {low middle : ℕ} {memory disk₁ disk₂ disk₃ : Memory}
    (h₁ : f.Written clusters bufferAddress offset low middle memory disk₁ disk₂)
    (h₂ : f.Written clusters bufferAddress offset middle n memory disk₂ disk₃)
    (hlow : low ≤ middle) (hle : middle ≤ n)
    (hne : ∀ x < n, ∀ y < n, f.filePosition clusters (offset + x) =
      f.filePosition clusters (offset + y) → x = y) :
    f.Written clusters bufferAddress offset low n memory disk₁ disk₃ := by
  refine ⟨fun x hx hfirst => ?_, fun y hout => ?_⟩
  · by_cases hin : middle ≤ x
    · exact h₂.inside x hx hin
    · rw [h₂.outside _ fun y hy hmiddle heq => hin (hne x hx y hy heq ▸ hmiddle),
        h₁.inside x (by omega) hfirst]
  · rw [h₂.outside y fun x hx hmiddle => hout x hx (hlow.trans hmiddle),
      h₁.outside y fun x hx hfirst => hout x (by omega) hfirst]

/-- Two multiples of a sector are a sector apart. -/
theorem add_le_of_dvd {x : ℕ} (hx : f.bytesPerSector ∣ x) (hn : f.bytesPerSector ∣ n) (h : x < n) :
    x + f.bytesPerSector ≤ n := by
  have hle := Nat.le_of_dvd (by omega) (Nat.dvd_sub hn hx)
  omega

theorem dvd_clusters (f : Fat32) (i : ℕ) : f.bytesPerSector ∣ i * f.bytesPerCluster :=
  (Dvd.intro_left _ rfl).mul_left i

/-- The inner loop of a start at a sector comes to the end of a run. -/
theorem writeStretch_start {r' : Stretch} (hf : f.Geometry) (hn : n < 2 ^ 32)
    (hdvd : f.bytesPerSector ∣ n) (hrest : f.rest d = 0) (hrun : f.Consecutive c i)
    (hin : i * f.bytesPerCluster < n) (hlast : f.extend n (f.mid d c i) = .ok (r', true))
    (hfuel : n < fuel) : f.writeStretch n fuel (.start d c) = .ok r' := by
  have hcluster := hf.cluster_pos
  have hleft := add_le_of_dvd (dvd_clusters f i) hdvd hin
  have hi : i ≤ i * f.bytesPerCluster := Nat.le_mul_of_pos_right _ hcluster
  exact writeStretch_eq hf hn hrun (by omega) (by rw [hrest]; exact hleft) hlast (Nat.zero_le i)
    (skipSectors_start f d c) (by omega)

/-- One iteration of the outer loop. -/
theorem writeLoop_of_stretch (h : f.writeStretch n fuel (.start d c) = .ok r) :
    f.writeLoop env bufferAddress n (fuel + 1) d c bufferPointer s = (do
      f.writePart env bufferAddress c bufferPointer r
      f.advance n (f.writeLoop env bufferAddress n fuel 0) bufferPointer r) s := by
  rw [writeLoop_succ, h, liftExcept_ok_bind]

/-- The fragments of a range that begins with a cluster, if the last of them ends with it. -/
theorem writeLoop_fragments (hf : f.Geometry) (hchain : f.Chain file clusters m)
    (hentry : file.entryCluster < 0x0FFFFFF8) (hacyclic : Acyclic clusters m) (hm : e < m)
    (hn : n < 2 ^ 32) (hrange : (e + 1) * f.bytesPerCluster = offset + n)
    (hdvd : f.bytesPerSector ∣ n) (hbuffer : bufferAddress + n ≤ 2 ^ 64)
    (henv : VirtioBlk.Serves env)
    (hend : ∃ next, f.nextCluster (clusters e) = .ok next ∧ next ≠ clusters e + 1)
    (hj : j ≤ e) (hplace : p + offset = j * f.bytesPerCluster)
    (hmore : 0 < p ∨ ¬InLine clusters j (e - j))
    (hfuel : n + (n - p) < fuel) (hs : VirtioBlk.Ready k s)
    (hroom : k + fragments clusters j (e - j) < 2 ^ 16) :
    ∃ t, f.writeLoop env bufferAddress n fuel 0 (clusters j) p s = (.ok n, t) ∧
      t.memory = s.memory ∧ f.Written clusters bufferAddress offset p n s.memory
        s.drive.disk t.drive.disk := by
  have hcluster := hf.cluster_pos
  induction fuel generalizing j k p s with
  | zero => exact absurd hfuel (by omega)
  | succ fuel ih =>
    obtain ⟨i, hi, hline, hstop⟩ := exists_run clusters j (e - j)
    have hje : j + (e - j) = e := by omega
    have hc := hchain.addressable j (by omega)
    obtain ⟨next, hnext, hne, heq⟩ := hchain.stops hline hstop hi (by omega) (by rw [hje]; exact hend)
    have hclusters : p + (i + 1) * f.bytesPerCluster + offset =
        (j + i + 1) * f.bytesPerCluster := by
      rw [Nat.add_assoc j, Nat.add_mul j, ← hplace]
      omega
    have hle : p + (i + 1) * f.bytesPerCluster ≤ n := by
      have hmul := Nat.mul_le_mul_right f.bytesPerCluster (show j + i + 1 ≤ e + 1 by omega)
      omega
    have hgrow : 0 < (i + 1) * f.bytesPerCluster := Nat.mul_pos (Nat.succ_pos i) hcluster
    have hpart : (i + 1) * f.bytesPerCluster < n := by
      rcases hmore with hpos | hbroken
      · omega
      · have hlt : i < e - j := by
          rcases Nat.lt_or_eq_of_le hi with hlt | rfl
          · exact hlt
          · exact absurd hline hbroken
        have hmul := Nat.mul_lt_mul_of_pos_right (show j + i + 1 < e + 1 by omega) hcluster
        omega
    have hbreak := extend_mid_break (d := 0) hf hn (by rw [rest_zero]; exact hpart) hnext hne
      (hchain.next_word hentry hline (by omega))
    have hstretch := writeStretch_start hf hn hdvd (rest_zero f)
      (hchain.consecutive hline (by omega)) (by rw [Nat.succ_mul] at hpart; omega) hbreak
      (show n < fuel by omega)
    obtain ⟨s₁, h₁, hready⟩ := writePart_run_ready bufferAddress p
      (r := f.broken 0 (clusters j) i) (d := 0) hf hc hcluster rfl
      (rest_zero f) henv hs (by have := fragments_pos clusters j (e - j); omega) (by omega)
    obtain ⟨hmemory, hdisk⟩ := writePart_run hf hc hcluster (rest_zero f) rfl h₁
    have hfirst : f.Written clusters bufferAddress offset p
        (p + (i + 1) * f.bytesPerCluster) s.memory s.drive.disk s₁.drive.disk := by
      rw [hdisk, broken_size (by omega)]
      exact hline.written hc.ge hcluster (by omega) (by omega)
    have hsum : p + (f.broken 0 (clusters j) i).bytes =
        p + (i + 1) * f.bytesPerCluster := by
      change p + ((i + 1) * f.bytesPerCluster - f.rest 0) = _
      rw [rest_zero, Nat.sub_zero]
    rw [writeLoop_of_stretch hstretch, Effect.bind_ok h₁]
    by_cases hdone : n = p + (i + 1) * f.bytesPerCluster
    · rw [advance_done (hdone.trans hsum.symm) (by omega)]
      rw [← hdone] at hfirst
      exact ⟨s₁, rfl, hmemory, hfirst⟩
    · have hlt : i < e - j := by
        by_contra hnot
        have hsame : j + i + 1 = e + 1 := by omega
        rw [hsame] at hclusters
        omega
      obtain rfl := heq hlt
      have hfragments : fragments clusters j (e - j) =
          1 + fragments clusters (j + i + 1) (e - (j + i + 1)) := by
        have hsplit : e - j = i + (e - (j + i + 1) + 1) := by omega
        rw [hsplit, fragments_line hline, fragments_break (hstop hlt)]
      obtain ⟨t, ht, hsame, hrest⟩ := ih (j := j + i + 1) (k := k + 1)
        (p := p + (i + 1) * f.bytesPerCluster) (s := s₁) (by omega) hclusters
        (.inl (by omega)) (by omega) hready (by omega)
      rw [advance_next (by rw [hsum]; exact hdone) (by omega) hnext, hsum]
      rw [hmemory] at hrest
      refine ⟨t, ht, hsame.trans hmemory, hfirst.trans hrest (by omega) hle ?_⟩
      intro x hx y hy hxy
      have hindex : ∀ z < n, (offset + z) / f.bytesPerCluster < m := by
        intro z hz
        rw [Nat.div_lt_iff_lt_mul hcluster]
        have hmul := Nat.mul_le_mul_right f.bytesPerCluster (show e + 1 ≤ m by omega)
        omega
      have hequal := hchain.filePosition_injective hf hacyclic (hindex x hx) (hindex y hy) hxy
      omega

end Loop

/-! ## The whole call -/

section Call

variable {f : Fat32} {env : Environment} {file : FileInfo} {clusters : ℕ → ℕ}
  {bufferAddress bufferPointer offset length fuel c d i k m n : ℕ} {r : Stretch} {s t : Host}

/-- A write of whole sectors whose requests all succeed puts the buffer into the range, and one
of parts of sectors fails and leaves the disk as it was. -/
structure WritesFile (f : Fat32) (file : FileInfo) (clusters : ℕ → ℕ)
    (bufferAddress offset length : ℕ) : Prop where
  aligned : f.bytesPerSector ∣ offset → f.bytesPerSector ∣ length → ∀ env fuel k (s : Host),
    2 ^ 64 + length < fuel → VirtioBlk.Serves env → VirtioBlk.Ready k s →
    k + fragments clusters (offset / f.bytesPerCluster) (f.links file offset length) < 2 ^ 16 →
      ∃ t, f.write env fuel file bufferAddress offset length s =
          (.ok (clamp file offset length), t) ∧
        f.Written clusters bufferAddress offset 0 (clamp file offset length) s.memory s.drive.disk
          t.drive.disk
  unaligned : ¬(f.bytesPerSector ∣ offset ∧ f.bytesPerSector ∣ clamp file offset length) →
    ∀ env fuel (s : Host), 2 ^ 64 + length < fuel →
      (f.write env fuel file bufferAddress offset length s).1 = .error .err ∧
        (f.write env fuel file bufferAddress offset length s).2.drive.disk = s.drive.disk

/-- Whole sectors that are written as they should be. -/
def WritesSectors (f : Fat32) (file : FileInfo) (clusters : ℕ → ℕ) (offset length : ℕ) : Prop :=
  2 ^ 16 ≤ fragments clusters (offset / f.bytesPerCluster) (f.links file offset length) ∨
    (offset + length < 2 ^ 64 ∧ offset % f.bytesPerCluster ≠ f.bytesPerSector ∧
      (InLine clusters (offset / f.bytesPerCluster) (f.links file offset length) ∨
        (offset % f.bytesPerCluster = 0 ∧ f.EndsWithFragment file clusters offset length)))

/-- Parts of sectors that are refused as they should be. -/
def RefusesParts (f : Fat32) (file : FileInfo) (clusters : ℕ → ℕ) (offset length : ℕ) : Prop :=
  offset + length < 2 ^ 64 ∧
    (¬f.bytesPerSector ∣ offset ∨ offset % f.bytesPerCluster = f.bytesPerSector ∨
      (clamp file offset length % f.bytesPerCluster < f.bytesPerSector ∧
        InLine clusters (offset / f.bytesPerCluster)
          (clamp file offset length / f.bytesPerCluster)))

/-- The writes that do what they should. -/
structure Writable (f : Fat32) (file : FileInfo) (clusters : ℕ → ℕ) (offset length : ℕ) : Prop where
  aligned : f.bytesPerSector ∣ offset → f.bytesPerSector ∣ length →
    f.WritesSectors file clusters offset length
  unaligned : ¬(f.bytesPerSector ∣ offset ∧ f.bytesPerSector ∣ clamp file offset length) →
    f.RefusesParts file clusters offset length

theorem write_of_locate (h : f.locate file offset length = .ok (some (n, d, c))) :
    f.write env fuel file bufferAddress offset length s =
      f.writeLoop env bufferAddress n fuel d c 0 s := by
  rw [write_eq, around, h]
  rfl

/-- The end of the range has to be a machine word. -/
theorem write_overflow (hword : 2 ^ 64 ≤ offset + length) :
    (f.write env fuel file bufferAddress offset length s).1 = .error .panic := by
  have hlast : Checked.add 64 offset length = none := by
    rw [Option.eq_none_iff_forall_ne_some]
    intro last hlast
    have hlt := (Checked.add_eq_some.1 hlast).1
    omega
  rw [write_eq, around, locate, hlast]
  rfl

theorem dvd_offset (f : Fat32) (offset : ℕ) : f.bytesPerSector ∣ offset % f.bytesPerCluster ↔
    f.bytesPerSector ∣ offset :=
  Nat.dvd_mod_iff (Dvd.intro_left _ rfl)

/-- A start at a sector is skipped, but for the second sector of a cluster. -/
theorem rest_of_dvd (hf : f.Geometry) (hdvd : f.bytesPerSector ∣ d) (hne : d ≠ f.bytesPerSector) :
    f.rest d = 0 := by
  have hsector := hf.sector_ge
  unfold rest skipped
  split_ifs with hlt
  · rw [Nat.div_mul_cancel hdvd, Nat.sub_self]
  · obtain ⟨q, rfl⟩ := hdvd
    cases q with
    | zero => rw [Nat.mul_zero, Nat.zero_sub]
    | succ q =>
      cases q with
      | zero => exact absurd (Nat.mul_one _) hne
      | succ q =>
        have hle : f.bytesPerSector * 2 ≤ f.bytesPerSector * (q + 1 + 1) :=
          Nat.mul_le_mul_left _ (by omega)
        omega

theorem rest_ne_zero (hf : f.Geometry) (h : ¬f.bytesPerSector ∣ d ∨ d = f.bytesPerSector) :
    f.rest d ≠ 0 := by
  have hsector := hf.sector_ge
  intro hzero
  have hsplit := skipped_rest f d
  rw [hzero, Nat.add_zero] at hsplit
  rcases h with hdvd | rfl
  · exact hdvd (Dvd.intro_left _ hsplit)
  · rw [rest_of_le le_rfl] at hzero
    omega

theorem Comes.sectorOffset (h : f.Comes n d c r) : r.sectorOffset = f.skipped d := by
  cases h with
  | full => rfl
  | broken => rfl

theorem Comes.backup (h : f.Comes n d c r) : r.dataOffsetBackup = f.rest d := by
  cases h with
  | full => rfl
  | broken => rfl

/-- The bytes of whole sectors that are in the file. -/
theorem dvd_clamp (hfile : f.bytesPerSector ∣ file.fileSize) (hoffset : f.bytesPerSector ∣ offset)
    (hlength : f.bytesPerSector ∣ length) : f.bytesPerSector ∣ clamp file offset length := by
  rw [clamp]
  rcases Nat.le_total length (file.fileSize - offset) with h | h
  · rw [Nat.min_eq_left h]
    exact hlength
  · rw [Nat.min_eq_right h]
    exact Nat.dvd_sub hfile hoffset

/-- A start inside a sector is refused. -/
theorem write_refuses_start (hf : f.Geometry) (hchain : f.Chain file clusters m)
    (hentry : file.entryCluster < 0x0FFFFFF8) (hoffset : offset < file.fileSize)
    (hpos : 0 < length) (hword : offset + length < 2 ^ 64)
    (hrest : f.rest (offset % f.bytesPerCluster) ≠ 0) (hfuel : 2 ^ 64 + length < fuel) :
    f.write env fuel file bufferAddress offset length s = (.error .err, s) := by
  have hcluster := hf.cluster_pos
  have hn := clamp_pos hoffset hpos
  have hle := clamp_le length hoffset
  have hlength : clamp file offset length ≤ length := Nat.min_le_left _ _
  have hsmall := file.fileSize_lt
  have hd := Nat.mod_lt offset hcluster
  obtain ⟨fuel, rfl⟩ : ∃ more, fuel = more + 1 := ⟨fuel - 1, by omega⟩
  rw [write_of_locate (hchain.locate hf hoffset hword), writeLoop_succ]
  cases hstretch : f.writeStretch (clamp file offset length) fuel
      (.start (offset % f.bytesPerCluster) (clusters (offset / f.bytesPerCluster))) with
  | error e =>
    have hpanic := writeStretch_ne_panic fuel (d := offset % f.bytesPerCluster) (k := 0) hf hn (by omega) (by omega) (hchain.lt_end hentry (hchain.index_lt hoffset))
      (skipSectors_start f _ _)
    have hstuck : f.writeStretch (clamp file offset length) fuel
        (.start (offset % f.bytesPerCluster) (clusters (offset / f.bytesPerCluster))) ≠
          .error .stuck :=
      writeStretch_ne_stuck (.start hd) (lt_of_le_of_lt (Nat.sub_le _ _) (by omega))
    cases e with
    | err => rfl
    | panic => exact absurd hstretch hpanic
    | stuck => exact absurd hstretch hstuck
  | ok r =>
    have hbackup := ((writeStretch_gathers hstretch).comes hf hn (by omega)).backup
    rw [liftExcept_ok_bind, writePart, if_pos (by rw [hbackup]; exact hrest)]
    rfl

/-- Less than a sector behind the last whole cluster is refused, if the loop gets there. -/
theorem write_refuses_end (hf : f.Geometry) (hchain : f.Chain file clusters m)
    (hoffset : offset < file.fileSize) (hpos : 0 < length) (hword : offset + length < 2 ^ 64)
    (hrest : f.rest (offset % f.bytesPerCluster) = 0)
    (hdvd : ¬f.bytesPerSector ∣ clamp file offset length)
    (hshort : clamp file offset length % f.bytesPerCluster < f.bytesPerSector)
    (hline : InLine clusters (offset / f.bytesPerCluster)
      (clamp file offset length / f.bytesPerCluster)) (hfuel : 2 ^ 64 + length < fuel) :
    f.write env fuel file bufferAddress offset length s = (.error .err, s) := by
  have hcluster := hf.cluster_pos
  have hn := clamp_pos hoffset hpos
  have hle := clamp_le length hoffset
  have hlength : clamp file offset length ≤ length := Nat.min_le_left _ _
  have hsmall := file.fileSize_lt
  have hdiv := Nat.div_add_mod' (clamp file offset length) f.bytesPerCluster
  have hmod : clamp file offset length % f.bytesPerCluster ≠ 0 := by
    intro hzero
    exact hdvd ((Dvd.intro_left _ rfl : f.bytesPerSector ∣ f.bytesPerCluster).trans
      (Nat.dvd_of_mod_eq_zero hzero))
  have hin : clamp file offset length / f.bytesPerCluster * f.bytesPerCluster <
      clamp file offset length := by omega
  have hm := chain_end length hchain hoffset
    (k := clamp file offset length / f.bytesPerCluster) (by omega)
  have hfew : clamp file offset length / f.bytesPerCluster ≤ clamp file offset length :=
    Nat.div_le_self _ _
  obtain ⟨fuel, rfl⟩ : ∃ more, fuel = more + 1 := ⟨fuel - 1, by omega⟩
  have hstretch := writeStretch_short (d := offset % f.bytesPerCluster)
    (n := clamp file offset length) hf (by omega) (hchain.consecutive hline hm) (by omega) (by omega)
    (Nat.zero_le _) (skipSectors_start f _ _)
    (show clamp file offset length / f.bytesPerCluster - 0 < fuel by omega)
  rw [write_of_locate (hchain.locate hf hoffset hword), writeLoop_succ, hstretch]
  rfl

/-- Whole sectors of clusters in line are written. -/
theorem write_line (hf : f.Geometry) (hchain : f.Chain file clusters m)
    (hoffset : offset < file.fileSize) (hpos : 0 < length) (hword : offset + length < 2 ^ 64)
    (hbuffer : bufferAddress + clamp file offset length ≤ 2 ^ 64)
    (hrest : f.rest (offset % f.bytesPerCluster) = 0)
    (hdvd : f.bytesPerSector ∣ clamp file offset length)
    (hline : InLine clusters (offset / f.bytesPerCluster) (f.links file offset length))
    (hfuel : 2 ^ 64 + length < fuel) (henv : VirtioBlk.Serves env) (hs : VirtioBlk.Ready k s)
    (hk : k + 1 < 2 ^ 16) :
    ∃ t, f.write env fuel file bufferAddress offset length s =
        (.ok (clamp file offset length), t) ∧
      f.Written clusters bufferAddress offset 0 (clamp file offset length) s.memory s.drive.disk
        t.drive.disk := by
  have hcluster := hf.cluster_pos
  have hsector := hf.sector_ge
  have hn := clamp_pos hoffset hpos
  have hle := clamp_le length hoffset
  have hlength : clamp file offset length ≤ length := Nat.min_le_left _ _
  have hsmall := file.fileSize_lt
  have hd := Nat.mod_lt offset hcluster
  have hdiv := Nat.div_add_mod' offset f.bytesPerCluster
  have hc := hchain.addressable _ (hchain.index_lt hoffset)
  obtain ⟨i, hi⟩ : ∃ i, i = (clamp file offset length - 1) / f.bytesPerCluster := ⟨_, rfl⟩
  have hlow := Nat.div_mul_le_self (clamp file offset length - 1) f.bytesPerCluster
  have hhigh := Nat.lt_div_mul_add (a := clamp file offset length - 1) hcluster
  rw [← hi] at hlow hhigh
  have hil : i ≤ f.links file offset length := by
    rw [hi, links]
    exact Nat.div_le_div_right (by omega)
  have hm := chain_end length hchain hoffset (k := i) (by omega)
  have hfew : clamp file offset length < 2 ^ 32 := by omega
  have hfull := extend_mid_full (d := offset % f.bytesPerCluster)
    (c := clusters (offset / f.bytesPerCluster)) (k := i) hf hfew (by omega)
    (by rw [Nat.succ_mul]; omega)
  obtain ⟨fuel, rfl⟩ : ∃ more, fuel = more + 1 := ⟨fuel - 1, by omega⟩
  have hstretch := writeStretch_start hf (by omega) hdvd hrest
    (hchain.consecutive (hline.le hil) hm) (by omega) hfull
    (show clamp file offset length < fuel by omega)
  obtain ⟨t, ht, -⟩ := writePart_run_ready bufferAddress 0
    (r := f.full (clamp file offset length) (offset % f.bytesPerCluster)
      (clusters (offset / f.bytesPerCluster)) i) hf hc hd rfl hrest henv hs hk (by omega)
  obtain ⟨-, hdisk⟩ := writePart_run hf hc hd hrest rfl ht
  rw [full_size hdvd (by omega) hn (by omega) hrest] at hdisk
  have hlinks := Nat.lt_div_mul_add (a := clamp file offset length + offset % f.bytesPerCluster - 1)
    hcluster
  refine ⟨t, ?_, ?_⟩
  · rw [write_of_locate (hchain.locate hf hoffset hword), writeLoop_of_stretch hstretch,
      Effect.bind_ok ht]
    have hdone : clamp file offset length = 0 + (f.full (clamp file offset length)
        (offset % f.bytesPerCluster) (clusters (offset / f.bytesPerCluster)) i).bytes :=
      (Nat.zero_add _).symm
    rw [advance_done hdone (by omega)]
    rfl
  · rw [hdisk]
    have hwritten : f.Written clusters bufferAddress offset 0 (0 + clamp file offset length)
        s.memory s.drive.disk (copyBytes s.drive.disk
          (f.positionAt (clusters (offset / f.bytesPerCluster)) (offset % f.bytesPerCluster))
            s.memory (bufferAddress + 0) (clamp file offset length)) :=
      hline.written hc.ge hcluster (by omega) (by rw [links, Nat.succ_mul]; omega)
    rw [Nat.zero_add] at hwritten
    exact hwritten

/-- Whole clusters of several fragments are written, if the last of them ends with the range. -/
theorem write_fragments (hf : f.Geometry) (hchain : f.Chain file clusters m)
    (hentry : file.entryCluster < 0x0FFFFFF8) (hacyclic : Acyclic clusters m)
    (hoffset : offset < file.fileSize) (hpos : 0 < length) (hword : offset + length < 2 ^ 64)
    (hbuffer : bufferAddress + clamp file offset length ≤ 2 ^ 64)
    (hdvd : f.bytesPerSector ∣ clamp file offset length)
    (hline : ¬InLine clusters (offset / f.bytesPerCluster) (f.links file offset length))
    (hzero : offset % f.bytesPerCluster = 0) (h : f.EndsWithFragment file clusters offset length)
    (hfuel : 2 ^ 64 + length < fuel) (henv : VirtioBlk.Serves env) (hs : VirtioBlk.Ready k s)
    (hroom : k + fragments clusters (offset / f.bytesPerCluster) (f.links file offset length) <
      2 ^ 16) :
    ∃ t, f.write env fuel file bufferAddress offset length s =
        (.ok (clamp file offset length), t) ∧
      f.Written clusters bufferAddress offset 0 (clamp file offset length) s.memory s.drive.disk
        t.drive.disk := by
  have hcluster := hf.cluster_pos
  have hle := clamp_le length hoffset
  have hlength : clamp file offset length ≤ length := Nat.min_le_left _ _
  have hsmall := file.fileSize_lt
  have hdiv := Nat.div_add_mod' offset f.bytesPerCluster
  have hwhole := h.covers hf hoffset hpos
  have hm := chain_end length hchain hoffset (k := f.links file offset length)
    (by rw [Nat.succ_mul] at hwhole; omega)
  have hsub : offset / f.bytesPerCluster + f.links file offset length - offset / f.bytesPerCluster =
      f.links file offset length := Nat.add_sub_cancel_left _ _
  have hrange : (offset / f.bytesPerCluster + f.links file offset length + 1) * f.bytesPerCluster =
      offset + clamp file offset length := by
    rw [Nat.add_assoc, Nat.add_mul]
    omega
  have hplace : 0 + offset = offset / f.bytesPerCluster * f.bytesPerCluster := by omega
  obtain ⟨t, ht, -, hwritten⟩ := writeLoop_fragments hf hchain hentry hacyclic hm (by omega) hrange
    hdvd hbuffer henv h.stop (Nat.le_add_right _ _) hplace (.inr (by rw [hsub]; exact hline))
    (show clamp file offset length + (clamp file offset length - 0) < fuel by omega) hs
    (by rw [hsub]; exact hroom)
  refine ⟨t, ?_, hwritten⟩
  rw [write_of_locate (hchain.locate hf hoffset hword), hzero]
  exact ht

theorem Writable.writesFile (hf : f.Geometry) (hchain : f.Chain file clusters m)
    (hentry : file.entryCluster < 0x0FFFFFF8) (hacyclic : Acyclic clusters m)
    (hfile : f.bytesPerSector ∣ file.fileSize) (hoffset : offset < file.fileSize)
    (hpos : 0 < length) (hbuffer : bufferAddress + clamp file offset length ≤ 2 ^ 64)
    (h : f.Writable file clusters offset length) :
    f.WritesFile file clusters bufferAddress offset length where
  aligned haligned hlength env fuel k s hfuel henv hs hroom := by
    rcases h.aligned haligned hlength with hmany | ⟨hword, hne, hcase⟩
    · omega
    have hfew := fragments_pos clusters (offset / f.bytesPerCluster) (f.links file offset length)
    have hdvd := dvd_clamp hfile haligned hlength
    have hrest := rest_of_dvd hf ((dvd_offset f offset).2 haligned) hne
    by_cases hline : InLine clusters (offset / f.bytesPerCluster) (f.links file offset length)
    · exact write_line hf hchain hoffset hpos hword hbuffer hrest hdvd hline hfuel henv hs (by omega)
    · obtain ⟨hzero, hend⟩ := hcase.resolve_left hline
      exact write_fragments hf hchain hentry hacyclic hoffset hpos hword hbuffer hdvd hline hzero
        hend hfuel henv hs hroom
  unaligned hparts env fuel s hfuel := by
    obtain ⟨hword, hcase⟩ := h.unaligned hparts
    by_cases hrest : f.rest (offset % f.bytesPerCluster) = 0
    · have hne : ¬(¬f.bytesPerSector ∣ offset ∨ offset % f.bytesPerCluster = f.bytesPerSector) := by
        rw [← dvd_offset]
        exact fun hbad => rest_ne_zero hf hbad hrest
      rw [not_or, not_not] at hne
      have hdvd : ¬f.bytesPerSector ∣ clamp file offset length := fun hdvd => hparts ⟨hne.1, hdvd⟩
      rcases hcase with hbad | hbad | ⟨hshort, hline⟩
      · exact absurd hne.1 hbad
      · exact absurd hbad hne.2
      · rw [write_refuses_end hf hchain hoffset hpos hword hrest hdvd hshort hline hfuel]
        exact ⟨rfl, rfl⟩
    · rw [write_refuses_start hf hchain hentry hoffset hpos hword hrest hfuel]
      exact ⟨rfl, rfl⟩

end Call

/-! ## What goes wrong otherwise -/

section Wrong

variable {f : Fat32} {env : Environment} {file : FileInfo} {clusters : ℕ → ℕ}
  {bufferAddress bufferPointer offset length fuel c d i k m n x : ℕ} {r : Stretch} {s t : Host}

/-- A one on the disk that only other ones can overwrite. -/
def Inked (x : ℕ) (s : Host) : Prop := s.drive.disk x = 1 ∧ ∀ y, s.memory y = 1

theorem inked_triple {α : Type} {g : Effect Host α}
    (hg : Effect.Keeps (fun s : Host => (s.memory, s.drive.disk)) g) :
    Effect.Triple (Inked x) g (fun _ => Inked x) (Inked x) :=
  contents_triple (P := fun memory disk => disk x = 1 ∧ ∀ y, memory y = 1) hg

theorem operationSync_inked {blockAddress : ℕ} : Effect.Triple (Inked x)
    (VirtioBlk.operationSync env bufferAddress blockAddress n true) (fun _ => Inked x)
    (Inked x) := by
  apply operationSync_contents (P := fun memory disk => disk x = 1 ∧ ∀ y, memory y = 1)
  rintro s ⟨hone, hmemory⟩
  refine ⟨?_, hmemory⟩
  show copyBytes _ _ _ _ _ x = 1
  rw [copyBytes]
  split_ifs with hin
  · exact hmemory _
  · exact hone

theorem writePart_inked : Effect.Triple (Inked x)
    (f.writePart env bufferAddress c bufferPointer r) (fun _ => Inked x) (Inked x) := by
  rw [writePart]
  split_ifs with hdirect
  · exact .fail fun s hs => hs
  apply (inked_triple (.checked _)).bind
  intro sector
  apply (inked_triple (.checked _)).bind
  intro buffer
  rw [writeSectors]
  apply (inked_triple (.checked _)).bind
  rintro ⟨position, n⟩
  exact operationSync_inked

theorem writeLoop_inked : Effect.Triple (Inked x)
    (f.writeLoop env bufferAddress n fuel d c bufferPointer) (fun _ => Inked x) (Inked x) := by
  induction fuel generalizing d c bufferPointer with
  | zero => exact .fail fun s hs => hs
  | succ fuel ih =>
    rw [writeLoop_succ]
    apply liftExcept_triple _ fun s hs => hs
    intro r hr
    exact writePart_inked.bind fun _ => advance_triple fun next q => ih

/-- A host whose memory is full of ones and whose disk is empty. -/
def inkedHost : Host :=
  { servingHost with
    memory := fun _ => 1
    drive.disk := fun _ => 0 }

/-- A host whose memory has one byte that is not zero, with an empty disk. -/
def singleHost (address : ℕ) : Host :=
  { servingHost with
    memory := fun y => if y = address then 1 else 0
    drive.disk := fun _ => 0 }

/-- What is written from empty memory is empty. -/
theorem writeLoop_unmarked {position y : ℕ}
    (h : f.writeLoop env bufferAddress n fuel d c bufferPointer s = (.ok y, t))
    (hmemory : ∀ a, bufferAddress + bufferPointer ≤ a → s.memory a = 0)
    (hdisk : s.drive.disk position = 0) : t.drive.disk position = 0 := by
  induction fuel generalizing d c bufferPointer s with
  | zero => exact absurd h (by simp [writeLoop, Effect.fail])
  | succ fuel ih =>
    obtain ⟨r, u, s₁, -, hpart, h⟩ := writeLoop_eq_ok h
    obtain ⟨-, sector, -, hkept, hwritten⟩ := writePart_moves hpart
    have hstill : s₁.drive.disk position = 0 := by
      rw [hwritten, copyBytes]
      split_ifs with hin
      · exact hmemory _ (Nat.le_add_right _ _)
      · exact hdisk
    rcases advance_eq_ok h with ⟨-, rfl⟩ | ⟨-, next, -, h⟩
    · exact hstill
    · refine ih h (fun a ha => ?_) hstill
      rw [hkept]
      exact hmemory a (by omega)

/-- A start behind the first sector is not written over the end of a fragment. -/
theorem WritesFile.in_line (hf : f.Geometry) (hchain : f.Chain file clusters m)
    (hacyclic : Acyclic clusters m) (hoffset : offset < file.fileSize) (hpos : 0 < length)
    (hword : offset + length < 2 ^ 64) (hfile : f.bytesPerSector ∣ file.fileSize)
    (haligned : f.bytesPerSector ∣ offset) (hlength : f.bytesPerSector ∣ length)
    (hfew : fragments clusters (offset / f.bytesPerCluster) (f.links file offset length) < 2 ^ 16)
    (hrest : f.rest (offset % f.bytesPerCluster) = 0) (hd : 0 < offset % f.bytesPerCluster)
    (h : f.WritesFile file clusters bufferAddress offset length) :
    InLine clusters (offset / f.bytesPerCluster) (f.links file offset length) := by
  have hcluster := hf.cluster_pos
  have hsector := hf.sector_ge
  have hmod := Nat.mod_lt offset hcluster
  have hmodle := Nat.mod_le offset f.bytesPerCluster
  have hn := clamp_pos hoffset hpos
  have hle := clamp_le length hoffset
  have hsmall := file.fileSize_lt
  have hc := hchain.addressable _ (hchain.index_lt hoffset)
  obtain ⟨i, hi, hrun, hstop⟩ := exists_run clusters (offset / f.bytesPerCluster)
    (f.links file offset length)
  rcases Nat.lt_or_eq_of_le hi with hlt | rfl
  · have hin : (i + 1) * f.bytesPerCluster ≤
        clamp file offset length + offset % f.bytesPerCluster - 1 :=
      (Nat.le_div_iff_mul_le hcluster).1 hlt
    have hgrow : f.bytesPerCluster ≤ (i + 1) * f.bytesPerCluster :=
      Nat.le_mul_of_pos_left _ (Nat.succ_pos i)
    obtain ⟨x, hx⟩ : ∃ x, offset % f.bytesPerCluster + x = (i + 1) * f.bytesPerCluster :=
      ⟨(i + 1) * f.bytesPerCluster - offset % f.bytesPerCluster, by omega⟩
    obtain ⟨t, ht, hwritten⟩ := h.aligned haligned hlength (servingAt 0) (2 ^ 64 + length + 1) 0
      (singleHost (bufferAddress + x)) (Nat.lt_succ_self _) (servingAt_serves 0) ⟨rfl, rfl⟩
      (by omega)
    have hone : t.drive.disk (f.filePosition clusters (offset + x)) = 1 :=
      (hwritten.inside x (by omega) (Nat.zero_le x)).trans (if_pos rfl)
    rw [write_of_locate (hchain.locate hf hoffset hword)] at ht
    have hm := chain_end length hchain hoffset (k := i + 1) (by omega)
    have hnext := hchain.addressable (offset / f.bytesPerCluster + i + 1) hm
    have hplace : f.filePosition clusters (offset + x) =
        f.positionAt (clusters (offset / f.bytesPerCluster + i + 1)) 0 := by
      have hindex : offset + x = (offset / f.bytesPerCluster + i + 1) * f.bytesPerCluster := by
        rw [split_offset f offset x, hx, Nat.add_assoc _ i, Nat.add_mul (offset / _)]
      rw [hindex, filePosition, Nat.mul_div_cancel _ hcluster, Nat.mul_mod_left]
    -- the request begins inside its first cluster and ends before the cluster behind the fragment
    have hout : ∀ size ≤ (i + 1) * f.bytesPerCluster,
        ¬(f.positionAt (clusters (offset / f.bytesPerCluster)) (offset % f.bytesPerCluster) ≤
            f.filePosition clusters (offset + x) ∧
          f.filePosition clusters (offset + x) <
            f.positionAt (clusters (offset / f.bytesPerCluster)) (offset % f.bytesPerCluster) +
              size) := by
      rintro size hsize ⟨hlow, hhigh⟩
      rw [hplace, positionAt_eq, positionAt_eq] at hlow hhigh
      have hafter : (clusters (offset / f.bytesPerCluster) - 2) * f.bytesPerCluster <
          (clusters (offset / f.bytesPerCluster + i + 1) - 2) * f.bytesPerCluster := by omega
      have hbefore : (clusters (offset / f.bytesPerCluster + i + 1) - 2) * f.bytesPerCluster <
          (clusters (offset / f.bytesPerCluster) - 2 + (i + 2)) * f.bytesPerCluster := by
        rw [Nat.add_mul (clusters _ - 2), Nat.succ_mul (i + 1)]
        omega
      have hge := hc.ge
      have hge' := hnext.ge
      have hfirst := Nat.lt_of_mul_lt_mul_right hafter
      have hlast := Nat.lt_of_mul_lt_mul_right hbefore
      obtain ⟨z, hz⟩ : ∃ z, clusters (offset / f.bytesPerCluster + i + 1) =
          clusters (offset / f.bytesPerCluster) + z :=
        ⟨clusters (offset / f.bytesPerCluster + i + 1) - clusters (offset / f.bytesPerCluster),
          by omega⟩
      rcases Nat.lt_or_ge i z with hiz | hzi
      · obtain rfl : z = i + 1 := by omega
        have hbad := hstop hlt
        rw [hz, hrun.eq le_rfl] at hbad
        omega
      · rw [← hrun.eq hzi] at hz
        have hequal := hacyclic _ hm _ (by omega) hz
        omega
    cases hfuel : 2 ^ 64 + length + 1 with
    | zero => exact absurd hfuel (by omega)
    | succ fuel =>
      rw [hfuel] at ht
      obtain ⟨r, u, s₁, hr, hpart, ht⟩ := writeLoop_eq_ok ht
      have hzero : r.size f ≤ (i + 1) * f.bytesPerCluster ∧
          (clamp file offset length = r.bytes ∨ (i + 1) * f.bytesPerCluster ≤ r.bytes) := by
        rcases (hr.comes hf hn (by omega)).run hf hchain hoffset hpos hrun hlt (hstop hlt) with
          ⟨rfl, hfull⟩ | ⟨rfl, hbroken⟩
        · refine ⟨?_, .inl rfl⟩
          rw [full_size (dvd_clamp hfile haligned hlength) (by omega) hn (by omega) hrest]
          omega
        · refine ⟨(broken_size (by omega)).le, .inr ?_⟩
          change _ ≤ (i + 1) * f.bytesPerCluster - f.rest _
          rw [hrest, Nat.sub_zero]
      obtain ⟨hsize, hbytes⟩ := hzero
      obtain ⟨hkept, hdisk⟩ := writePart_run hf hc hmod hrest
        (hr.comes hf hn (by omega)).sectorOffset hpart
      have hstill : s₁.drive.disk (f.filePosition clusters (offset + x)) = 0 := by
        rw [hdisk, copyBytes_of_not_mem (hout _ hsize)]
        rfl
      have hunmarked : t.drive.disk (f.filePosition clusters (offset + x)) = 0 := by
        rcases advance_eq_ok ht with ⟨-, rfl⟩ | ⟨hmore, next, -, ht⟩
        · exact hstill
        · refine writeLoop_unmarked ht (fun a ha => ?_) hstill
          rw [hkept]
          exact if_neg (by omega)
      rw [hunmarked] at hone
      exact absurd hone (by decide)
  · exact hrun

/-- Whole sectors are written as they should be only in these cases. -/
theorem WritesFile.writesSectors (hf : f.Geometry) (hchain : f.Chain file clusters m)
    (hacyclic : Acyclic clusters m) (hoffset : offset < file.fileSize) (hpos : 0 < length)
    (hfile : f.bytesPerSector ∣ file.fileSize) (haligned : f.bytesPerSector ∣ offset)
    (hlength : f.bytesPerSector ∣ length)
    (h : f.WritesFile file clusters bufferAddress offset length) :
    f.WritesSectors file clusters offset length := by
  have hcluster := hf.cluster_pos
  have hle := clamp_le length hoffset
  have hsmall := file.fileSize_lt
  by_cases hmany : 2 ^ 16 ≤ fragments clusters (offset / f.bytesPerCluster)
      (f.links file offset length)
  · exact .inl hmany
  have hfew := Nat.lt_of_not_le hmany
  obtain ⟨t, ht, -⟩ := h.aligned haligned hlength (servingAt 0) (2 ^ 64 + length + 1) 0 servingHost
    (Nat.lt_succ_self _) (servingAt_serves 0) ⟨rfl, rfl⟩ (by omega)
  have hword : offset + length < 2 ^ 64 := by
    by_contra hover
    have hpanic : (f.write (servingAt 0) (2 ^ 64 + length + 1) file bufferAddress offset length
        servingHost).1 = .error .panic := write_overflow (Nat.le_of_not_lt hover)
    rw [ht] at hpanic
    exact absurd hpanic (by simp)
  rw [write_of_locate (hchain.locate hf hoffset hword)] at ht
  have hrest : f.rest (offset % f.bytesPerCluster) = 0 := by
    obtain ⟨r, u, s₁, hr, hpart, -⟩ := writeLoop_eq_ok ht
    rw [← (hr.comes hf (clamp_pos hoffset hpos) (by omega)).backup]
    exact (writePart_moves hpart).1
  have hne : offset % f.bytesPerCluster ≠ f.bytesPerSector :=
    fun hsecond => rest_ne_zero hf (.inr hsecond) hrest
  refine .inr ⟨hword, hne, ?_⟩
  by_cases hline : InLine clusters (offset / f.bytesPerCluster) (f.links file offset length)
  · exact .inl hline
  have hzero : offset % f.bytesPerCluster = 0 := by
    by_contra hmiddle
    exact hline (h.in_line hf hchain hacyclic hoffset hpos hword hfile haligned hlength hfew hrest
      (Nat.pos_of_ne_zero hmiddle))
  exact .inr ⟨hzero, (writeLoop_completes ht).endsWithFragment hf hchain hoffset hpos hline
    (hrest.trans hzero.symm)⟩

/-- A write into the first fragment leaves a byte behind. -/
theorem write_inks (bufferAddress : ℕ) (hf : f.Geometry) (hc : f.Addressable c) (hd : d < f.bytesPerCluster)
    (hrest : f.rest d = 0) (hdirect : r.dataOffsetBackup = 0) (hoffset : r.sectorOffset = f.skipped d)
    (hsize : 0 < r.size f) (hbuffer : bufferAddress < 2 ^ 64)
    (hstretch : f.writeStretch n fuel (.start d c) = .ok r) :
    (f.writeLoop (servingAt 0) bufferAddress n (fuel + 1) d c 0 inkedHost).2.drive.disk
      (f.positionAt c d) = 1 := by
  obtain ⟨t, ht, -⟩ := writePart_run_ready bufferAddress 0 hf
    hc hd hoffset hdirect (servingAt_serves 0) (s := inkedHost) (k := 0) ⟨rfl, rfl⟩ (by decide)
    (by omega)
  obtain ⟨hkept, hdisk⟩ := writePart_run hf hc hd hrest hoffset ht
  have hinked : Inked (f.positionAt c d) t := by
    refine ⟨?_, fun y => by rw [hkept]; rfl⟩
    rw [hdisk, copyBytes, if_pos (by omega)]
    rfl
  rw [writeLoop_of_stretch hstretch, Effect.bind_ok ht]
  exact ((advance_triple fun next q => writeLoop_inked).state hinked).1

/-- Parts of sectors are refused as they should be only in these cases. -/
theorem WritesFile.refusesParts (hf : f.Geometry) (hchain : f.Chain file clusters m)
    (hentry : file.entryCluster < 0x0FFFFFF8) (hoffset : offset < file.fileSize)
    (hpos : 0 < length) (hbuffer : bufferAddress + clamp file offset length ≤ 2 ^ 64)
    (hparts : ¬(f.bytesPerSector ∣ offset ∧ f.bytesPerSector ∣ clamp file offset length))
    (h : f.WritesFile file clusters bufferAddress offset length) :
    f.RefusesParts file clusters offset length := by
  have hcluster := hf.cluster_pos
  have hsector := hf.sector_ge
  have hn := clamp_pos hoffset hpos
  have hle := clamp_le length hoffset
  have hlength : clamp file offset length ≤ length := Nat.min_le_left _ _
  have hsmall := file.fileSize_lt
  have hd := Nat.mod_lt offset hcluster
  have hc := hchain.addressable _ (hchain.index_lt hoffset)
  obtain ⟨herr, hdisk⟩ := h.unaligned hparts (servingAt 0) (2 ^ 64 + length + 1) inkedHost
    (Nat.lt_succ_self _)
  have hword : offset + length < 2 ^ 64 := by
    by_contra hover
    rw [write_overflow (Nat.le_of_not_lt hover)] at herr
    exact absurd herr (by simp)
  refine ⟨hword, ?_⟩
  by_cases hrest : f.rest (offset % f.bytesPerCluster) ≠ 0
  · by_cases haligned : f.bytesPerSector ∣ offset
    · right
      left
      by_contra hne
      exact hrest (rest_of_dvd hf ((dvd_offset f offset).2 haligned) hne)
    · exact .inl haligned
  rw [not_not] at hrest
  have haligned : f.bytesPerSector ∣ offset := by
    by_contra hbad
    rw [← dvd_offset] at hbad
    exact rest_ne_zero hf (.inl hbad) hrest
  have hdvd : ¬f.bytesPerSector ∣ clamp file offset length := fun hdvd => hparts ⟨haligned, hdvd⟩
  have hdiv := Nat.div_add_mod' (clamp file offset length) f.bytesPerCluster
  have hmod : clamp file offset length % f.bytesPerCluster ≠ 0 := by
    intro hzero
    exact hdvd ((Dvd.intro_left _ rfl : f.bytesPerSector ∣ f.bytesPerCluster).trans
      (Nat.dvd_of_mod_eq_zero hzero))
  have hwhole : f.bytesPerSector ≤ f.bytesPerCluster := Nat.le_mul_of_pos_left _ hf.cluster
  rw [write_of_locate (hchain.locate hf hoffset hword)] at herr hdisk
  obtain ⟨i, hi, hrun, hstop⟩ := exists_run clusters (offset / f.bytesPerCluster)
    (clamp file offset length / f.bytesPerCluster)
  have hmul := Nat.mul_le_mul_right f.bytesPerCluster hi
  have hm := chain_end length hchain hoffset
    (k := clamp file offset length / f.bytesPerCluster) (by omega)
  have hconsecutive := hchain.consecutive hrun (by omega)
  have hfew : i ≤ i * f.bytesPerCluster := Nat.le_mul_of_pos_right _ hcluster
  obtain ⟨fuel, hfuel⟩ : ∃ fuel, 2 ^ 64 + length + 1 = fuel + 1 := ⟨_, rfl⟩
  rw [hfuel] at herr hdisk
  rcases Nat.lt_or_eq_of_le hi with hlt | rfl
  · have hmore := Nat.mul_le_mul_right f.bytesPerCluster
      (show i + 1 ≤ clamp file offset length / f.bytesPerCluster by omega)
    have hstep : (i + 1) * f.bytesPerCluster = i * f.bytesPerCluster + f.bytesPerCluster :=
      Nat.succ_mul _ _
    have hnext := hchain.next (offset / f.bytesPerCluster + i) (by omega)
    have hne := hstop hlt
    rw [hrun.eq le_rfl] at hnext hne
    have hbreak := extend_mid_break (d := offset % f.bytesPerCluster) hf
      (show clamp file offset length < 2 ^ 32 by omega) (by omega) hnext hne
      (hchain.next_word hentry hrun (by omega))
    have hstretch := writeStretch_eq hf (by omega) hconsecutive (by omega) (by omega) hbreak
      (Nat.zero_le i) (skipSectors_start f _ _) (show i - 0 < fuel by omega)
    have hink := write_inks bufferAddress hf hc hd hrest hrest rfl
      (by rw [broken_size (by omega)]; omega) (by omega) hstretch
    rw [hdisk] at hink
    exact absurd hink (by simp [inkedHost])
  · refine .inr (.inr ⟨?_, hrun⟩)
    by_contra hmany
    have hfew : clamp file offset length < 2 ^ 32 := by omega
    have hfull := extend_mid_full (d := offset % f.bytesPerCluster)
      (c := clusters (offset / f.bytesPerCluster))
      (k := clamp file offset length / f.bytesPerCluster) hf hfew (by omega)
      (by rw [Nat.succ_mul]; have := Nat.mod_lt (clamp file offset length) hcluster; omega)
    have hstretch := writeStretch_eq hf (by omega) hconsecutive (by omega) (by omega) hfull
      (Nat.zero_le _) (skipSectors_start f _ _)
      (show clamp file offset length / f.bytesPerCluster - 0 < fuel by omega)
    obtain ⟨t, ht, -⟩ := writePart_run_ready bufferAddress 0
      (r := f.full (clamp file offset length) (offset % f.bytesPerCluster)
        (clusters (offset / f.bytesPerCluster)) (clamp file offset length / f.bytesPerCluster))
      hf hc hd rfl hrest (servingAt_serves 0) (s := inkedHost) (k := 0) ⟨rfl, rfl⟩ (by decide)
      (by omega)
    have hdone : clamp file offset length = 0 + (f.full (clamp file offset length)
        (offset % f.bytesPerCluster) (clusters (offset / f.bytesPerCluster))
          (clamp file offset length / f.bytesPerCluster)).bytes := (Nat.zero_add _).symm
    rw [writeLoop_of_stretch hstretch, Effect.bind_ok ht, advance_done hdone (by omega)] at herr
    exact absurd herr (by simp [pure])

/-- Exactly these writes do what they should. -/
theorem writesFile_iff (hf : f.Geometry) (hchain : f.Chain file clusters m)
    (hentry : file.entryCluster < 0x0FFFFFF8) (hacyclic : Acyclic clusters m)
    (hfile : f.bytesPerSector ∣ file.fileSize) (hoffset : offset < file.fileSize)
    (hpos : 0 < length) (hbuffer : bufferAddress + clamp file offset length ≤ 2 ^ 64) :
    f.WritesFile file clusters bufferAddress offset length ↔
      f.Writable file clusters offset length := by
  constructor
  · intro h
    exact ⟨fun haligned hlength =>
      h.writesSectors hf hchain hacyclic hoffset hpos hfile haligned hlength,
      fun hparts => h.refusesParts hf hchain hentry hoffset hpos hbuffer hparts⟩
  · exact Writable.writesFile hf hchain hentry hacyclic hfile hoffset hpos hbuffer

theorem split_write : splitVolume.WritesFile splitFile splitClusters 0x1000 0 65536 :=
  (writesFile_iff splitVolume_geometry splitFile_chain (by decide) (by unfold Acyclic; decide)
    (by decide) (by decide) (by decide) (by decide)).2
    ⟨fun _ _ => .inr ⟨by decide, by decide,
      .inr ⟨by decide, by decide, by decide, 9, rfl, by decide⟩⟩,
      fun hparts => absurd ⟨by decide, by decide⟩ hparts⟩

/-- A volume with sixteen sectors in a cluster. -/
def twinVolume : Fat32 where
  baseLba := 2048
  lbaSize := 512
  bytesPerSector := 2048
  sectorsPerCluster := 16
  reservedSectors := 32
  fatSectors := 1
  numberOfFats := 2
  fat _ := 0x0FFFFFFF
  bytesPerSector_lt := by decide
  sectorsPerCluster_lt := by decide

def twinFile : FileInfo where
  entryCluster := 2
  fileSize := 32768
  fileSize_lt := by decide

theorem twinVolume_geometry : twinVolume.Geometry where
  sector := ⟨11, by decide, rfl⟩
  cluster := by decide
  block := dvd_rfl
  block_pos := by decide
  block_le := by decide
  disk := by decide

theorem twinFile_chain : twinVolume.Chain twinFile (fun _ => 2) 1 where
  first := rfl
  next j hj := absurd hj (by omega)
  addressable j hj := ⟨by decide, by decide⟩
  enough := by decide

/-- The second sector of a cluster is not written. -/
theorem twin_second_sector_refused : twinVolume.Geometry ∧
    twinVolume.Chain twinFile (fun _ => 2) 1 ∧ Acyclic (fun _ => 2) 1 ∧
    ¬twinVolume.WritesFile twinFile (fun _ => 2) 0x1000 2048 2048 := by
  have hacyclic : Acyclic (fun _ => 2) 1 := fun i hi j hj _ => by omega
  refine ⟨twinVolume_geometry, twinFile_chain, hacyclic, fun h => ?_⟩
  rcases h.writesSectors twinVolume_geometry twinFile_chain hacyclic (by decide) (by decide)
    (by decide) (by decide) (by decide) with hmany | ⟨-, hsecond, -⟩
  · exact absurd hmany (by decide)
  · exact absurd hsecond (by decide)

end Wrong

end Fat32

end MiniVisor
