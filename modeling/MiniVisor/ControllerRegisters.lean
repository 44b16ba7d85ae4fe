import MiniVisor.TriggerOutcomes

/-!
# Priority and routing registers of the emulated controllers

A priority register holds the bytes of four interrupts. A byte write replaces
one of these lanes, but the source shifts the guest's value without cutting it
to a byte first, so the bits above the byte are or-ed into the lanes behind it.

A routing register is found by the guest at `0x6000 + 8 * n`. The accessors
count from `GICD_IROUTER0`, which is the offset of interrupt 32, while the
lookup of a route counts from interrupt 0.
-/
namespace MiniVisor

/-- Byte `j` of a register. -/
def lane {w : ℕ} (register : BitVec w) (j : ℕ) : BitVec 8 := Masks.byteAt register (j * 8)

theorem getLsbD_lane {w : ℕ} (x : BitVec w) (j k : ℕ) :
    (lane x j).getLsbD k = (decide (k < 8) && x.getLsbD (j * 8 + k)) :=
  Masks.getLsbD_byteAt x _ k

/-- A byte write at lane `i`, as the source computes it. -/
def writeLane (register : BitVec 32) (i : ℕ) (value : BitVec 64) : BitVec 32 :=
  (register &&& ~~~ (0xFF#32 <<< (i * 8))) ||| (value <<< (i * 8)).setWidth 32

theorem getLsbD_writeLane (x : BitVec 32) (i : ℕ) (v : BitVec 64) (k : ℕ) :
    (writeLane x i v).getLsbD k = (decide (k < 32) &&
      ((x.getLsbD k && !(decide (i * 8 ≤ k) && decide (k < i * 8 + 8))) ||
        (decide (i * 8 ≤ k) && v.getLsbD (k - i * 8)))) := by
  have hff : (0xFF#32).getLsbD (k - i * 8) = decide (k - i * 8 < 8) := by
    rw [BitVec.getLsbD_ofNat, show 0xFF = 2 ^ 8 - 1 by norm_num, Nat.testBit_two_pow_sub_one]
    by_cases h8 : k - i * 8 < 8
    · simp [h8, show k - i * 8 < 32 by omega]
    · simp [h8]
  rw [writeLane, BitVec.getLsbD_or, BitVec.getLsbD_and, BitVec.getLsbD_not, BitVec.getLsbD_shiftLeft,
    BitVec.getLsbD_setWidth, BitVec.getLsbD_shiftLeft, hff]
  by_cases h32 : k < 32
  · by_cases hi : i * 8 ≤ k
    · have hlt : (k < i * 8 + 8) ↔ (k - i * 8 < 8) := by omega
      simp [h32, hi, hlt, show k < 64 by omega, show ¬ k < i * 8 by omega]
    · simp [h32, hi, show k < i * 8 by omega]
  · simp [h32]

/-- A byte write sets its own lane, keeps the lanes below it and ors the bits of
the value above the byte into the lanes behind it. -/
theorem lane_writeLane (x : BitVec 32) (v : BitVec 64) {i j : ℕ} (hj : j < 4) :
    lane (writeLane x i v) j = if j < i then lane x j else if j = i then lane v 0
      else lane x j ||| lane v (j - i) := by
  apply BitVec.eq_of_getLsbD_eq
  intro k hk
  rw [getLsbD_lane, getLsbD_writeLane]
  split_ifs with hlt heq
  · rw [getLsbD_lane]
    simp [hk, show j * 8 + k < 32 by omega, show ¬ i * 8 ≤ j * 8 + k by omega]
  · subst heq
    rw [getLsbD_lane]
    simp [hk, show j * 8 + k < 32 by omega]
  · have hle : i * 8 ≤ j * 8 + k := by omega
    have hnot : ¬ j * 8 + k < i * 8 + 8 := by omega
    have hpos : j * 8 + k - i * 8 = (j - i) * 8 + k := by omega
    rw [BitVec.getLsbD_or, getLsbD_lane, getLsbD_lane]
    simp [hk, show j * 8 + k < 32 by omega, hle, hnot, hpos]

/-! ## Banks of priority registers -/

section Bank

variable {k : ℕ}

/-- The priority byte of interrupt `m` in a bank. -/
def bankLane (bank : Vector (BitVec 32) k) (m : ℕ) : Option (BitVec 8) :=
  bank[m / 4]?.map (lane · (m % 4))

/-- No bit of the value above its low byte lands on a lane where it was not set before. -/
def SpillFree (bank : Vector (BitVec 32) k) (n : ℕ) (v : BitVec 64) : Prop :=
  ∀ m, n < m → m / 4 = n / 4 → ∀ old, bankLane bank m = some old → old ||| lane v (m - n) = old

theorem writePriority_byte (bank : Vector (BitVec 32) k) {n : ℕ} (v : BitVec 64) (hn : n / 4 < k) :
    GicDistributorMmio.writePriority bank n 8 v =
      some (bank.set (n / 4) (writeLane bank[n / 4] (n % 4) v)) := by
  have hbyte : n - n / 4 * 4 = n % 4 := by omega
  simp [GicDistributorMmio.writePriority, Checked.modify, hn, hbyte, writeLane]

theorem writePriority_word (bank : Vector (BitVec 32) k) {r : ℕ} (v : BitVec 64) (hr : r < k) :
    GicDistributorMmio.writePriority bank (4 * r) 32 v = some (bank.set r (v.setWidth 32)) := by
  have hdiv : 4 * r / 4 = r := by omega
  have hbyte : 4 * r - r * 4 = 0 := by omega
  simp [GicDistributorMmio.writePriority, Checked.modify, hdiv, hbyte, hr]

theorem bankLane_of_lt (bank : Vector (BitVec 32) k) {m : ℕ} (hm : m / 4 < k) :
    bankLane bank m = some (lane bank[m / 4] (m % 4)) := by
  simp [bankLane, hm]

/-- `get_priority` of both controllers. -/
theorem priority_eq_bankLane (bank : Vector (BitVec 32) k) (m : ℕ) :
    ((Checked.index bank (m / 4)).bind fun register =>
      some ((register >>> (m % 4 * 8)) &&& 0xFF)) = (bankLane bank m).map (·.setWidth 32) := by
  rw [Checked.index, bankLane]
  cases bank[m / 4]? with
  | none => rfl
  | some x => exact congrArg some (Masks.and_ff _)

theorem bankLane_set (bank : Vector (BitVec 32) k) {r m : ℕ} (hr : r < k) (x : BitVec 32) :
    bankLane (bank.set r x) m = if m / 4 = r then some (lane x (m % 4)) else bankLane bank m := by
  by_cases hm : m / 4 = r
  · subst hm
    simp [bankLane, hr]
  · simp [bankLane, hm, Ne.symm hm]

theorem bankLane_writeLane_self (bank : Vector (BitVec 32) k) {n : ℕ} (v : BitVec 64)
    (hn : n / 4 < k) :
    bankLane (bank.set (n / 4) (writeLane bank[n / 4] (n % 4) v)) n = some (lane v 0) := by
  rw [bankLane_set bank hn, if_pos rfl, lane_writeLane _ _ (Nat.mod_lt n (by omega)),
    if_neg (lt_irrefl _), if_pos rfl]

theorem bankLane_writeLane_others (bank : Vector (BitVec 32) k) {n : ℕ} (v : BitVec 64)
    (hn : n / 4 < k) :
    (∀ m, m / 4 < k → m ≠ n →
      bankLane (bank.set (n / 4) (writeLane bank[n / 4] (n % 4) v)) m = bankLane bank m) ↔
      SpillFree bank n v := by
  constructor
  · intro hsame m hnm hword old hold
    have hm : m / 4 < k := by omega
    have h := hsame m hm (by omega)
    rw [bankLane_set bank hn, if_pos hword, lane_writeLane _ _ (Nat.mod_lt m (by omega)),
      if_neg (by omega), if_neg (by omega), hold] at h
    rw [bankLane_of_lt bank hm] at hold
    have hsub : m % 4 - n % 4 = m - n := by omega
    simp only [hword] at hold
    rw [Option.some.inj hold, hsub] at h
    exact Option.some.inj h
  · intro hspill m hm hne
    rw [bankLane_set bank hn]
    split_ifs with hword
    · rw [lane_writeLane _ _ (Nat.mod_lt m (by omega)), bankLane_of_lt bank hm]
      simp only [hword]
      rcases Nat.lt_or_ge m n with hlt | hge
      · rw [if_pos (by omega)]
      · have hold := hspill m (by omega) hword _ (bankLane_of_lt bank hm)
        have hsub : m % 4 - n % 4 = m - n := by omega
        rw [if_neg (by omega), if_neg (by omega), hsub]
        simp only [hword] at hold
        rw [hold]
    · rfl

/-- A value that is a byte spills nothing. -/
theorem spillFree_of_byte (bank : Vector (BitVec 32) k) (n : ℕ) {v : BitVec 64}
    (hv : v.toNat < 256) : SpillFree bank n v := by
  intro m hnm _ old _
  have hzero : lane v (m - n) = 0#8 := by
    apply BitVec.eq_of_getLsbD_eq
    intro k hk
    rw [getLsbD_lane, BitVec.getLsbD, Nat.testBit_lt_two_pow]
    · simp
    · calc v.toNat < 2 ^ 8 := hv
        _ ≤ 2 ^ ((m - n) * 8 + k) := Nat.pow_le_pow_right (by decide) (by omega)
  rw [hzero, BitVec.or_zero]

end Bank

/-- The priority registers of a controller, as the guest and the trigger path see them.
Positions of accesses are byte offsets from the first register. -/
structure PriorityPort (σ : Type) where
  registers : ℕ
  bank : σ → Vector (BitVec 32) registers
  withBank : σ → Vector (BitVec 32) registers → σ
  getPriority : σ → BitVec 32 → Option (BitVec 32)
  write : σ → ℕ → ℕ → BitVec 64 → Option σ
  read : σ → ℕ → ℕ → Option (BitVec 64)

def distributorPriorities : PriorityPort (GicDistributorMmio × Pcpu) where
  registers := 255
  bank s := s.1.priority
  withBank s priority := ({ s.1 with priority := priority }, s.2)
  getPriority s intId := s.1.getPriority intId
  write s position accessWidth value := s.1.write s.2 (gicdIpriorityr0 + position) accessWidth value
  read s position accessWidth := s.1.read (gicdIpriorityr0 + position) accessWidth

def redistributorPriorities : PriorityPort (GicRedistributorMmio × Pcpu) where
  registers := 8
  bank s := s.1.priority
  withBank s priority := ({ s.1 with priority := priority }, s.2)
  getPriority s intId := s.1.getPriority intId
  write s position accessWidth value := s.1.write s.2 (gicrIpriorityr0 + position) accessWidth value
  read s position accessWidth := s.1.read (gicrIpriorityr0 + position) accessWidth

namespace PriorityPort

variable {σ : Type} (port : PriorityPort σ)

/-- A byte write at the byte of `n` sets the priority of `n` to the low byte of the
value, changes nothing else and is read back. -/
def ByteWritten (s : σ) (n : ℕ) (v : BitVec 64) : Prop :=
  ∃ s', port.write s n 8 v = some s' ∧ s' = port.withBank s (port.bank s') ∧
    port.getPriority s' (BitVec.ofNat 32 n) = some ((lane v 0).setWidth 32) ∧
    (∀ m, m / 4 < port.registers → m ≠ n →
      port.getPriority s' (BitVec.ofNat 32 m) = port.getPriority s (BitVec.ofNat 32 m)) ∧
    port.read s' n 8 = some ((lane v 0).setWidth 64)

/-- A word write at register `r` sets the priorities of its four interrupts and
changes nothing else. -/
def WordWritten (s : σ) (r : ℕ) (v : BitVec 64) : Prop :=
  ∃ s', port.write s (4 * r) 32 v = some s' ∧ s' = port.withBank s (port.bank s') ∧
    ∀ m, m / 4 < port.registers → port.getPriority s' (BitVec.ofNat 32 m) =
      if m / 4 = r then some ((lane v (m % 4)).setWidth 32)
      else port.getPriority s (BitVec.ofNat 32 m)

/-- The accesses of a port go to its bank and to nothing else. -/
structure Lawful : Prop where
  registers_le : port.registers ≤ 255
  bank_withBank : ∀ s b, port.bank (port.withBank s b) = b
  getPriority_eq : ∀ s m, port.getPriority s m = (bankLane (port.bank s) m.toNat).map (·.setWidth 32)
  write_eq : ∀ s n w v, n / 4 < port.registers → port.write s n w v =
    (GicDistributorMmio.writePriority (port.bank s) n w v).map (port.withBank s)

variable {port} {s : σ} {n : ℕ} {v : BitVec 64}

theorem Lawful.getPriority_ofNat (h : port.Lawful) (s : σ) {m : ℕ} (hm : m / 4 < port.registers) :
    port.getPriority s (BitVec.ofNat 32 m) = (bankLane (port.bank s) m).map (·.setWidth 32) := by
  have hle := h.registers_le
  rw [h.getPriority_eq, BitVec.toNat_ofNat, Nat.mod_eq_of_lt (by omega)]

theorem setWidth_map_inj {x y : Option (BitVec 8)} :
    x.map (·.setWidth 32) = y.map (·.setWidth 32) ↔ x = y := by
  refine ⟨fun h => ?_, fun h => h ▸ rfl⟩
  refine Option.map_injective (f := fun b : BitVec 8 => b.setWidth 32) (fun a b hab => ?_) h
  have hback := congrArg (BitVec.setWidth 8) hab
  simpa using hback

/-- The byte write is right exactly when nothing spills over and the read path serves bytes. -/
theorem Lawful.byteWritten_iff (h : port.Lawful) (hn : n / 4 < port.registers) :
    port.ByteWritten s n v ↔ SpillFree (port.bank s) n v ∧
      port.read (port.withBank s ((port.bank s).set (n / 4)
        (writeLane (port.bank s)[n / 4] (n % 4) v))) n 8 = some ((lane v 0).setWidth 64) := by
  have hwrite := h.write_eq s n 8 v hn
  rw [writePriority_byte _ v hn, Option.map_some] at hwrite
  have hothers := bankLane_writeLane_others (port.bank s) v hn
  constructor
  · rintro ⟨s', hs', -, -, hsame, hread⟩
    obtain rfl : _ = s' := Option.some.inj (hwrite.symm.trans hs')
    refine ⟨hothers.1 fun m hm hne => ?_, hread⟩
    have hm' := hsame m hm hne
    rwa [h.getPriority_ofNat _ hm, h.getPriority_ofNat _ hm, setWidth_map_inj, h.bank_withBank] at hm'
  · rintro ⟨hspill, hread⟩
    refine ⟨_, hwrite, by rw [h.bank_withBank], ?_, fun m hm hne => ?_, hread⟩
    · rw [h.getPriority_ofNat _ hn, h.bank_withBank, bankLane_writeLane_self _ v hn, Option.map_some]
    · rw [h.getPriority_ofNat _ hm, h.getPriority_ofNat _ hm, h.bank_withBank, hothers.2 hspill m hm hne]

theorem Lawful.wordWritten (h : port.Lawful) {r : ℕ} (hr : r < port.registers) (s : σ)
    (v : BitVec 64) : port.WordWritten s r v := by
  have hwrite := h.write_eq s (4 * r) 32 v (by omega)
  rw [writePriority_word _ v hr, Option.map_some] at hwrite
  refine ⟨_, hwrite, by rw [h.bank_withBank], fun m hm => ?_⟩
  rw [h.getPriority_ofNat _ hm, h.getPriority_ofNat _ hm, h.bank_withBank, bankLane_set _ hr]
  split_ifs
  · have hlane : lane (v.setWidth 32) (m % 4) = lane v (m % 4) := by
      apply BitVec.eq_of_getLsbD_eq
      intro k hk
      rw [getLsbD_lane, getLsbD_lane, BitVec.getLsbD_setWidth]
      simp [show m % 4 * 8 + k < 32 by omega]
    rw [Option.map_some, hlane]
  · rfl

/-- A bank that ends before an offset is not hit by an access there. -/
theorem not_hits_of_lt {first last offset accessWidth : ℕ} (h : last < offset) :
    ¬ GicDistributorMmio.Hits first last offset accessWidth :=
  fun ⟨_, hle, _⟩ => absurd hle (by omega)

theorem not_hits_of_width {first last offset accessWidth : ℕ} (h : accessWidth ≠ 32) :
    ¬ GicDistributorMmio.Hits first last offset accessWidth := fun ⟨_, _, hw⟩ => h hw

theorem lane_setWidth (x : BitVec 32) {j : ℕ} (hj : j < 4) :
    lane (x.setWidth 64 : BitVec 64) j = lane x j := by
  apply BitVec.eq_of_getLsbD_eq
  intro k hk
  rw [getLsbD_lane, getLsbD_lane, BitVec.getLsbD_setWidth]
  simp [show j * 8 + k < 64 by omega]

theorem distributor_write_priority (d : GicDistributorMmio) (cpu : Pcpu) {n : ℕ} (w : ℕ)
    (v : BitVec 64) (hn : n < 1020) : d.write cpu (gicdIpriorityr0 + n) w v =
      (GicDistributorMmio.writePriority d.priority n w v).map
        fun p => ({ d with priority := p }, cpu) := by
  have hoff : ∀ last, last < 0x400 → last < gicdIpriorityr0 + n := fun _ h => Nat.lt_add_right n h
  have hin : gicdIpriorityr0 ≤ gicdIpriorityr0 + n ∧
      gicdIpriorityr0 + n < gicdIpriorityr254 + 4 := by
    simp only [gicdIpriorityr0, gicdIpriorityr254]
    omega
  have hctlr : ¬ (gicdIpriorityr0 + n = gicdCtlr ∧ w = 32) := by
    simp only [gicdIpriorityr0, gicdCtlr]
    omega
  unfold GicDistributorMmio.write
  rw [if_neg hctlr, if_neg (not_hits_of_lt (hoff _ (by decide))),
    if_neg (not_hits_of_lt (hoff _ (by decide))), if_neg (not_hits_of_lt (hoff _ (by decide))),
    if_neg (not_hits_of_lt (hoff _ (by decide))), if_neg (not_hits_of_lt (hoff _ (by decide))),
    if_neg (not_hits_of_lt (hoff _ (by decide))), if_neg (not_hits_of_lt (hoff _ (by decide))),
    if_pos hin, Nat.add_sub_cancel_left]
  cases GicDistributorMmio.writePriority d.priority n w v <;> rfl

theorem redistributor_write_priority (r : GicRedistributorMmio) (cpu : Pcpu) {n : ℕ} (w : ℕ)
    (v : BitVec 64) (hn : n < 32) : r.write cpu (gicrIpriorityr0 + n) w v =
      (GicDistributorMmio.writePriority r.priority n w v).map
        fun p => ({ r with priority := p }, cpu) := by
  have hlast : gicrIpriorityr7 + 4 = gicrIpriorityr0 + 32 := rfl
  have hoff : ∀ offset, offset < gicrIpriorityr0 → ¬ (gicrIpriorityr0 + n = offset ∧ w = 32) :=
    fun offset hlt h => absurd h.1 (by omega)
  have hin : gicrIpriorityr0 ≤ gicrIpriorityr0 + n ∧
      gicrIpriorityr0 + n < gicrIpriorityr7 + 4 := by
    omega
  unfold GicRedistributorMmio.write GicRedistributorMmio.writeCtlr GicRedistributorMmio.writeRegister
  rw [if_neg (hoff _ (by decide +kernel)), if_neg (hoff _ (by decide +kernel)), if_neg (hoff _ (by decide +kernel)),
    if_neg (hoff _ (by decide +kernel)), if_neg (hoff _ (by decide +kernel)), if_neg (hoff _ (by decide +kernel)),
    if_neg (hoff _ (by decide +kernel)), if_neg (hoff _ (by decide +kernel)), if_neg (hoff _ (by decide +kernel)),
    if_pos hin, Nat.add_sub_cancel_left]
  cases GicDistributorMmio.writePriority r.priority n w v <;> rfl

theorem distributor_read_priority (d : GicDistributorMmio) {n : ℕ} (hn : n < 1020) :
    d.read (gicdIpriorityr0 + n) 8 = (bankLane d.priority n).map (·.setWidth 64) := by
  have hbyte : n - n / 4 * 4 = n % 4 := by omega
  have hword : ∀ offset, ¬ (gicdIpriorityr0 + n = offset ∧ 8 = 32) := fun _ h => by omega
  have hin : gicdIpriorityr0 ≤ gicdIpriorityr0 + n ∧
      gicdIpriorityr0 + n < gicdIpriorityr254 + 4 := by
    simp only [gicdIpriorityr0, gicdIpriorityr254]
    omega
  have hwidth : ∀ first last, ¬ GicDistributorMmio.Hits first last (gicdIpriorityr0 + n) 8 :=
    fun _ _ => not_hits_of_width (by decide)
  unfold GicDistributorMmio.read
  simp only [hword, hwidth, if_false]
  rw [if_pos hin, Nat.add_sub_cancel_left, GicDistributorMmio.readPriority, if_pos rfl, hbyte]
  simp only [Checked.index, bankLane, Option.map_map]
  refine congrArg₂ Option.map (funext fun x => ?_) rfl
  exact (Masks.and_ff _).trans (congrArg (BitVec.setWidth 64) (lane_setWidth x (Nat.mod_lt n (by omega))))

/-- The redistributor serves no byte reads. -/
theorem redistributor_read_byte (r : GicRedistributorMmio) (offset : ℕ) :
    r.read offset 8 = some 0 := by
  simp [GicRedistributorMmio.read, GicDistributorMmio.Hits]

theorem distributorPriorities_lawful : distributorPriorities.Lawful where
  registers_le := le_refl _
  bank_withBank _ _ := rfl
  getPriority_eq s m := priority_eq_bankLane s.1.priority m.toNat
  write_eq s n w v hn := distributor_write_priority s.1 s.2 w v (by
    change n / 4 < 255 at hn
    omega)

theorem redistributorPriorities_lawful : redistributorPriorities.Lawful where
  registers_le := by decide
  bank_withBank _ _ := rfl
  getPriority_eq s m := priority_eq_bankLane s.1.priority m.toNat
  write_eq s n w v hn := redistributor_write_priority s.1 s.2 w v (by
    change n / 4 < 8 at hn
    omega)

theorem setWidth_64_eq_iff (x y : BitVec 8) :
    (some (x.setWidth 64) = some (y.setWidth 64)) ↔ x = y := by
  refine ⟨fun h => ?_, fun h => h ▸ rfl⟩
  have hback := congrArg (BitVec.setWidth 8) (Option.some.inj h)
  simpa using hback

/-- Byte writes of priorities are right exactly when no bit above the low byte of the
value spills into a later lane of the word; the redistributor reads every byte as zero.
Word writes are always right. -/
theorem priority_writes_iff (v : BitVec 64) :
    (∀ s n, n < 1020 → (distributorPriorities.ByteWritten s n v ↔ SpillFree s.1.priority n v)) ∧
    (∀ s n, n < 32 → (redistributorPriorities.ByteWritten s n v ↔
      SpillFree s.1.priority n v ∧ v.setWidth 8 = 0#8)) ∧
    (∀ s r, r < 255 → distributorPriorities.WordWritten s r v) ∧
    (∀ s r, r < 8 → redistributorPriorities.WordWritten s r v) := by
  refine ⟨fun s n hn => ?_, fun s n hn => ?_, fun s r hr => ?_, fun s r hr => ?_⟩
  · have hreg : n / 4 < 255 := by omega
    rw [distributorPriorities_lawful.byteWritten_iff hreg]
    refine and_iff_left ?_
    change GicDistributorMmio.read _ _ _ = _
    rw [distributor_read_priority _ hn]
    exact congrArg (Option.map _) (bankLane_writeLane_self s.1.priority v hreg)
  · have hreg : n / 4 < 8 := by omega
    rw [redistributorPriorities_lawful.byteWritten_iff hreg]
    refine and_congr_right fun _ => ?_
    change GicRedistributorMmio.read _ _ _ = _ ↔ _
    rw [redistributor_read_byte]
    have hlow : lane v 0 = v.setWidth 8 := by simp [lane, Masks.byteAt]
    rw [hlow, ← setWidth_64_eq_iff, eq_comm]
    rfl
  · exact distributorPriorities_lawful.wordWritten hr s v
  · exact redistributorPriorities_lawful.wordWritten hr s v

theorem priority_write_a0 :
    distributorPriorities.ByteWritten (GicDistributorMmio.new 0, .idle 0 3 0) 33 0xA0#64 ∧
    redistributorPriorities.ByteWritten (GicRedistributorMmio.new 0 0, .idle 0 3 0) 27 0#64 ∧
    distributorPriorities.WordWritten (GicDistributorMmio.new 0, .idle 0 3 0) 8 0xA0A0A0A0#64 ∧
    redistributorPriorities.WordWritten (GicRedistributorMmio.new 0 0, .idle 0 3 0) 7 0xA0#64 :=
  ⟨((priority_writes_iff _).1 _ 33 (by decide)).2 (spillFree_of_byte _ _ (by decide)),
    ((priority_writes_iff _).2.1 _ 27 (by decide)).2 ⟨spillFree_of_byte _ _ (by decide), by decide⟩,
    (priority_writes_iff _).2.2.1 _ 8 (by decide), (priority_writes_iff _).2.2.2 _ 7 (by decide)⟩

/-- Storing `0x1FF` as the priority of interrupt 32 also gives interrupt 33 priority 1. -/
theorem priority_write_1ff_spills :
    ¬ distributorPriorities.ByteWritten (GicDistributorMmio.new 0, .idle 0 3 0) 32 0x1FF#64 := by
  intro h
  have hspill := ((distributorPriorities_lawful.byteWritten_iff (by decide)).1 h).1
  have hold := hspill 33 (by decide) (by decide) (0#8) (by decide)
  exact absurd hold (by decide)

end PriorityPort

/-! ## Routing registers -/

namespace GicDistributorMmio

/-- Slot `i` of the router array after a write. -/
theorem write_router {d : GicDistributorMmio} {cpu : Pcpu} {offset accessWidth : ℕ}
    {value : BitVec 64} {s' : GicDistributorMmio × Pcpu}
    (h : d.write cpu offset accessWidth value = some s') {i : ℕ} (hi : i < 1020) :
    s'.1.router[i] = if accessWidth = 64 ∧ gicdIrouter0 ≤ offset ∧ offset ≤ gicdIrouter1019 ∧
      (offset - gicdIrouter0) / 8 = i then value else d.router[i] := by
  have ho := d.write_outcome cpu offset accessWidth value
  generalize hres : d.write cpu offset accessWidth value = res at ho
  rw [hres] at h
  cases ho with
  | enables k hk hhits =>
    rw [if_neg (fun hc => absurd (hhits.2.2.symm.trans hc.1) (by decide)),
      (forSetBits_triggerFrame h).registers]
  | pends k hk hhits =>
    rw [if_neg (fun hc => absurd (hhits.2.2.symm.trans hc.1) (by decide)),
      (forSetBits_triggerFrame h).registers]
  | beyond => exact absurd h (by simp)
  | routes j hj hwidth hlow hhigh hslot =>
    obtain rfl := Option.some.inj h
    simp only [Vector.getElem_set, hwidth, hlow, hhigh, true_and, hslot]
  | plain d' _ _ _ hmiss hrouter _ =>
    obtain rfl := Option.some.inj h
    have hnot : ¬ (accessWidth = 64 ∧ gicdIrouter0 ≤ offset ∧ offset ≤ gicdIrouter1019 ∧
        (offset - gicdIrouter0) / 8 = i) := by
      rintro ⟨hwidth, hlow, hhigh, -⟩
      have := hmiss hwidth
      omega
    rw [if_neg hnot, hrouter]

/-- One guest write. -/
structure GuestWrite where
  offset : ℕ
  accessWidth : ℕ
  value : BitVec 64

def writeAll (s : GicDistributorMmio × Pcpu) (writes : List GuestWrite) :
    Option (GicDistributorMmio × Pcpu) :=
  writes.foldlM (fun s w => s.1.write s.2 w.offset w.accessWidth w.value) s

/-- The last 64-bit value written to an offset that passes the test, or zero. -/
def lastWritten (target : ℕ → Bool) (writes : List GuestWrite) : BitVec 64 :=
  writes.foldl (fun v w => if w.accessWidth = 64 ∧ target w.offset = true then w.value else v) 0

/-- The offset of `GICD_IROUTER<n>`. -/
def irouter (n : ℕ) : ℕ := 0x6000 + 8 * n

/-- The offset falls into `GICD_IROUTER<n>`, up to the last register the handler serves. -/
def inRouter (n offset : ℕ) : Bool :=
  decide (irouter n ≤ offset ∧ offset < irouter n + 8 ∧ offset ≤ gicdIrouter1019)

/-- Slot `i` of the router array holds what was last written to `GICD_IROUTER<i + 32>`. -/
theorem router_eq_lastWritten {writes : List GuestWrite} {owner : ℕ} {cpu : Pcpu}
    {s : GicDistributorMmio × Pcpu} (h : writeAll (new owner, cpu) writes = some s) {i : ℕ}
    (hi : i < 1020) : s.1.router[i] = lastWritten (inRouter (i + 32)) writes := by
  induction writes using List.reverseRecOn generalizing s with
  | nil =>
    obtain rfl : (new owner, cpu) = s := by simpa [writeAll] using h
    simp [new, lastWritten]
  | append_singleton writes w ih =>
    rw [writeAll, List.foldlM_append] at h
    obtain ⟨s₁, hs₁, h⟩ := Option.bind_eq_some_iff.1 h
    rw [List.foldlM_cons] at h
    obtain ⟨s₂, hs₂, h⟩ := Option.bind_eq_some_iff.1 h
    obtain rfl : s₂ = s := by simpa using h
    have hold := ih hs₁
    have hlast : lastWritten (inRouter (i + 32)) (writes ++ [w]) =
        if w.accessWidth = 64 ∧ inRouter (i + 32) w.offset = true then w.value
        else lastWritten (inRouter (i + 32)) writes := by
      rw [lastWritten, List.foldl_append]
      rfl
    rw [hlast]
    rw [write_router hs₂ hi, hold]
    refine if_congr (and_congr_right fun _ => ?_) rfl rfl
    rw [inRouter, decide_eq_true_iff]
    simp only [irouter, gicdIrouter0, gicdIrouter1019]
    omega

/-- Interrupt `n` is routed by the value last written to `GICD_IROUTER<n>`, which also
reads back. -/
def RoutedAsWritten (d : GicDistributorMmio) (writes : List GuestWrite) (n : ℕ) : Prop :=
  d.getRouter (BitVec.ofNat 32 n) = some (lastWritten (· = irouter n) writes) ∧
    d.read (irouter n) 64 = some (lastWritten (· = irouter n) writes)

theorem read_irouter (d : GicDistributorMmio) {n : ℕ} (hlow : 32 ≤ n) (hhigh : n ≤ 1019) :
    d.read (irouter n) 64 = some (d.router.get ⟨n - 32, by omega⟩) := by
  have hword : ∀ offset, ¬ (irouter n = offset ∧ 64 = 32) := fun _ h => absurd h.2 (by decide)
  have hbank : ∀ first last, ¬ Hits first last (irouter n) 64 :=
    fun _ _ => PriorityPort.not_hits_of_width (by decide)
  have hprio : ¬ (gicdIpriorityr0 ≤ irouter n ∧ irouter n < gicdIpriorityr254 + 4) := by
    rintro ⟨-, hlt⟩
    simp only [irouter, gicdIpriorityr254] at hlt
    omega
  have hin : gicdIrouter0 ≤ irouter n ∧ irouter n ≤ gicdIrouter1019 := by
    simp only [irouter, gicdIrouter0, gicdIrouter1019]
    omega
  have hslot : (irouter n - gicdIrouter0) / 8 = n - 32 := by
    simp only [irouter, gicdIrouter0]
    omega
  unfold read
  simp only [hword, hbank, if_false]
  rw [if_neg hprio, if_pos ⟨hin.1, hin.2, trivial⟩, hslot]
  exact Checked.index_eq_some.2 ⟨by omega, rfl⟩

/-- The lookup takes the slot of `GICD_IROUTER<n + 32>`, and a misaligned write reaches
the register it falls into: the route is right exactly when this makes no difference. -/
theorem routed_as_written_iff {writes : List GuestWrite} {owner : ℕ} {cpu : Pcpu}
    {s : GicDistributorMmio × Pcpu} (h : writeAll (new owner, cpu) writes = some s) {n : ℕ}
    (hlow : 32 ≤ n) (hhigh : n ≤ 1019) :
    s.1.RoutedAsWritten writes n ↔
      lastWritten (inRouter (n + 32)) writes = lastWritten (· = irouter n) writes ∧
      lastWritten (inRouter n) writes = lastWritten (· = irouter n) writes := by
  have hroute : s.1.getRouter (BitVec.ofNat 32 n) = some (lastWritten (inRouter (n + 32)) writes) := by
    have hid : (BitVec.ofNat 32 n).toNat = n := Nat.mod_eq_of_lt (by omega)
    rw [getRouter, hid, ← router_eq_lastWritten h (show n < 1020 by omega)]
    exact Checked.index_eq_some.2 ⟨by omega, rfl⟩
  have hread : s.1.read (irouter n) 64 = some (lastWritten (inRouter n) writes) := by
    have hslot := router_eq_lastWritten h (show n - 32 < 1020 by omega)
    rw [show n - 32 + 32 = n by omega] at hslot
    rw [read_irouter s.1 hlow hhigh, ← hslot]
    rfl
  rw [RoutedAsWritten, hroute, hread, Option.some.injEq, Option.some.injEq]

/-- The same route for interrupts 40 and 72. -/
def equalRoutes : List GuestWrite := [⟨irouter 40, 64, 1⟩, ⟨irouter 72, 64, 1⟩]

theorem equalRoutes_routed :
    ∃ s, writeAll (new 0, .idle 0 3 0) equalRoutes = some s ∧ s.1.RoutedAsWritten equalRoutes 40 := by
  obtain ⟨s, hs⟩ : ∃ s, writeAll (new 0, .idle 0 3 0) equalRoutes = some s := ⟨_, rfl⟩
  exact ⟨s, hs, (routed_as_written_iff hs (by decide) (by decide)).2 (by decide)⟩

/-- Routing interrupt 40 to CPU 1 leaves it routed to CPU 0. -/
theorem route_of_40_not_used :
    ∃ s, writeAll (new 0, .idle 0 3 0) [⟨irouter 40, 64, 1⟩] = some s ∧
      ¬ s.1.RoutedAsWritten [⟨irouter 40, 64, 1⟩] 40 := by
  refine ⟨_, rfl, fun h => ?_⟩
  have hzero : some (0 : BitVec 64) = some (1 : BitVec 64) := h.1
  exact absurd hzero (by decide)

end GicDistributorMmio

end MiniVisor
