import MiniVisor.MmioEmulation

/-!
# Narrow accesses

The devices look at the width of an access or they do not, and the handler of data aborts
cuts a value to 32 bits at most. The registers of each device that show this to a guest are
listed for loads and for stores, and on all others a trap does what the instruction does.
-/
namespace MiniVisor

namespace Trap

open Effects

variable {p : Platform} {fuel w offset : ℕ} {device : Device}

/-! ## Loads -/

/-- The registers that have more bits than a load of `w` bits takes. -/
def LoadDeviates : Device → ℕ → ℕ → Prop
  | .uart, w, offset => w = 8 ∧ (offset = uartCr ∨ offset = uartImsc)
  | .blk, w, offset =>
    (w = 8 ∨ w = 16) ∧ (offset = VirtioBlkMmio.virtioMmioMagic ∨
      offset = VirtioBlkMmio.virtioMmioVendorId ∨ offset = VirtioBlkMmio.virtioMmioStatus ∨
      offset = VirtioBlkMmio.virtioConfigOffset) ∨
    w = 8 ∧ (offset = VirtioBlkMmio.virtioMmioQueueNumMax ∨
      offset = VirtioBlkMmio.virtioConfigOffset + 1) ∨
    w ≠ 64 ∧ offset = VirtioBlkMmio.virtioMmioQueuePfn
  | .distributor, _, _ => False
  | .redistributor, w, offset => w = 32 ∧ offset = gicrTyper

theorem truncate_eq_self_iff {value : BitVec 64} : truncate w value = value ↔ value.toNat < 2 ^ w := by
  rw [← BitVec.toNat_inj, truncate, BitVec.toNat_setWidth, BitVec.toNat_setWidth]
  constructor
  · intro h
    rw [← h]
    exact (Nat.mod_le _ _).trans_lt (Nat.mod_lt _ (by positivity))
  · intro h
    rw [Nat.mod_eq_of_lt h, Nat.mod_eq_of_lt value.isLt]

/-- A value that a load may give has at most `w` bits. -/
def Fits (w : ℕ) (value : Option (BitVec 64)) : Prop := ∀ v ∈ value, v.toNat < 2 ^ w

theorem Fits.mono {n : ℕ} {value : Option (BitVec 64)} (h : Fits n value) (hw : n ≤ w) :
    Fits w value := fun v hv => (h v hv).trans_le (Nat.pow_le_pow_right (by decide) hw)

theorem Fits.ite {P : Prop} [Decidable P] {a b : Option (BitVec 64)} (ha : P → Fits w a)
    (hb : Fits w b) : Fits w (if P then a else b) := by
  split_ifs with h
  · exact ha h
  · exact hb

theorem fits_none : Fits w none := fun v h => absurd h (Option.not_mem_none v)

theorem fits_of_le {o : Option (BitVec 64)} (h : 64 ≤ w) : Fits w o :=
  fun v _ => v.isLt.trans_le (Nat.pow_le_pow_right (by decide) h)

theorem fits_some {v : BitVec 64} (h : v.toNat < 2 ^ w) : Fits w (some v) := by
  rintro _ ⟨⟩
  exact h

theorem fits_setWidth {n : ℕ} (v : BitVec n) : Fits n (some (v.setWidth 64)) :=
  fits_some (by
    rw [BitVec.toNat_setWidth]
    exact (Nat.mod_le _ _).trans_lt v.isLt)

theorem fits_word {o : Option (BitVec 32)} : Fits 32 (o.map (·.setWidth 64)) := by
  cases o with
  | none => exact fits_none
  | some v => exact fits_setWidth v

theorem fits_readBank {n position : ℕ} {bank : Vector (BitVec 32) n} :
    Fits 32 (GicDistributorMmio.readBank bank position) := fits_word

theorem fits_readPriority {n position : ℕ} {priority : Vector (BitVec 32) n} (hw : 8 ≤ w) :
    Fits w (GicDistributorMmio.readPriority priority position w) := by
  rw [GicDistributorMmio.readPriority]
  split_ifs with h8 hword
  · subst h8
    cases Checked.index priority (position / 4) with
    | none => exact fits_none
    | some v =>
      refine fits_some ?_
      rw [BitVec.toNat_and]
      exact Nat.and_lt_two_pow _ (by decide)
  · rw [hword.2]
    exact fits_word
  · exact fits_some (by simp)

/-- The distributor gives no more than it is asked for. -/
theorem distributor_fits (d : GicDistributorMmio) (hw : 8 ≤ w) : Fits w (d.read offset w) := by
  have hbank : ∀ {first last n : ℕ} {bank : Vector (BitVec 32) n} {position : ℕ},
      GicDistributorMmio.Hits first last offset w →
        Fits w (GicDistributorMmio.readBank bank position) :=
    fun h => fits_readBank.mono h.2.2.ge
  refine .ite (fun h => (fits_setWidth _).mono h.2.ge) ?_
  refine .ite (fun h => (fits_setWidth _).mono h.2.ge) ?_
  refine .ite hbank (.ite hbank (.ite hbank (.ite hbank (.ite hbank (.ite hbank (.ite hbank ?_))))))
  refine .ite (fun _ => fits_readPriority hw) (.ite hbank (.ite hbank ?_))
  refine .ite (fun h => fits_of_le h.2.2.ge) ?_
  exact .ite (fun h => (fits_some (w := 32) (by decide)).mono h.2.ge) (fits_some (by simp))

/-- So does the redistributor, except for the register with the affinity. -/
theorem redistributor_fits (r : GicRedistributorMmio) (h : ¬(w = 32 ∧ offset = gicrTyper)) :
    Fits w (r.read offset w) := by
  have hword : ∀ {P : Prop} {n : ℕ} {v : BitVec n}, n ≤ 32 → P ∧ w = 32 →
      Fits w (some (v.setWidth 64)) := fun hn h => (fits_setWidth _).mono (hn.trans h.2.ge)
  have hbank : ∀ {first last n : ℕ} {bank : Vector (BitVec 32) n} {position : ℕ},
      GicDistributorMmio.Hits first last offset w →
        Fits w (GicDistributorMmio.readBank bank position) :=
    fun h => fits_readBank.mono h.2.2.ge
  refine .ite (hword le_rfl) (.ite (fun htyper => ?_) (.ite (fun hhigh => ?_) ?_))
  · have h64 : w = 64 := htyper.2.resolve_left fun h32 => h ⟨h32, htyper.1⟩
    exact fits_of_le h64.ge
  · refine fits_some ?_
    rw [hhigh.2, BitVec.toNat_ushiftRight, Nat.shiftRight_eq_div_pow]
    have hlt := r.generateTyper.isLt
    omega
  refine .ite (hword le_rfl) (.ite (fun h => (fits_some (w := 32) (by decide)).mono h.2.ge) ?_)
  refine .ite (hword le_rfl) (.ite (hword le_rfl) (.ite (hword le_rfl) (.ite (hword le_rfl) ?_)))
  exact .ite hbank (.ite hbank (.ite (hword le_rfl) (fits_some (by simp))))

/-- The flags of the UART are single bits, and its two other registers have 16. -/
theorem uart_fits {u : Pl011Mmio} (hflag : u.flag = 0 ∨ u.flag = uartFrRxfe)
    (hraw : u.rawInterruptStatus = 0 ∨ u.rawInterruptStatus = uartRisRxris) (hw : 8 ≤ w)
    (h : w = 8 → offset ≠ uartCr ∧ offset ≠ uartImsc) (hsize : w = 8 ∨ 16 ≤ w) :
    Fits w (some (u.read offset).2) := by
  have hbyte : ∀ {v : BitVec 64}, v.toNat < 2 ^ 8 → Fits w (some v) :=
    fun hv => (fits_some hv).mono hw
  simp only [Pl011Mmio.read, apply_ite Prod.snd, apply_ite some]
  refine .ite (fun _ => (fits_setWidth _).mono hw) (.ite (fun _ => ?_) ?_)
  · exact hbyte (by rcases hflag with h0 | h1 <;> simp only [*] <;> decide)
  refine .ite (fun hcr => (fits_setWidth _).mono (hsize.resolve_left fun h8 => (h h8).1 hcr)) ?_
  refine .ite (fun hi => (fits_setWidth _).mono (hsize.resolve_left fun h8 => (h h8).2 hi)) ?_
  refine .ite (fun _ => ?_) ?_
  · exact hbyte (by rcases hraw with h0 | h1 <;> simp only [*] <;> decide)
  -- the identification bytes
  iterate 8 refine .ite (fun _ => hbyte (by decide)) ?_
  exact hbyte (by decide)

theorem fits_ofNat {v : ℕ} (h : v < 2 ^ w) : Fits w (some (BitVec.ofNat 64 v)) :=
  fits_some (by
    rw [BitVec.toNat_ofNat]
    exact (Nat.mod_le _ _).trans_lt h)

/-- The registers of the block device by their numbers of bits. -/
theorem blk_fits {d : VirtioBlkMmio} (hstatus : d.interruptStatus = 0 ∨ d.interruptStatus = 1)
    (hsize : w = 8 ∨ w = 16 ∨ w = 32 ∨ w = 64) (h : ¬LoadDeviates .blk w offset) :
    Fits w ((d.read offset).map (BitVec.ofNat 64)) := by
  have hw : 2 ^ 8 ≤ 2 ^ w := Nat.pow_le_pow_right (by decide) (by omega)
  have hbyte : ∀ {v : ℕ}, v < 2 ^ 8 → Fits w (some (BitVec.ofNat 64 v)) :=
    fun hv => fits_ofNat (hv.trans_le hw)
  have hword : ¬(w = 8 ∨ w = 16) → ∀ {v : ℕ}, v < 2 ^ 32 → Fits w (some (BitVec.ofNat 64 v)) :=
    fun hlong v hv => fits_ofNat (hv.trans_le (Nat.pow_le_pow_right (by decide) (by omega)))
  obtain ⟨hlong, hrest⟩ := not_or.1 h
  obtain ⟨hmiddle, hpfn⟩ := not_or.1 hrest
  simp only [VirtioBlkMmio.read, apply_ite (Option.map (BitVec.ofNat 64)), Option.map_some,
    Option.map_none]
  refine .ite (fun ho => hword (fun hs => hlong ⟨hs, .inl ho⟩) (by decide)) ?_
  refine .ite (fun _ => hbyte (by decide)) (.ite (fun _ => hbyte (by decide)) ?_)
  refine .ite (fun ho => hword (fun hs => hlong ⟨hs, .inr (.inl ho)⟩) (by decide)) ?_
  refine .ite (fun _ => hbyte (by decide)) (.ite (fun ho => ?_) (.ite (fun _ => ?_) ?_))
  · have h8 : w ≠ 8 := fun h8 => hmiddle ⟨h8, .inl ho⟩
    exact fits_ofNat ((by decide : 1024 < 2 ^ 16).trans_le
      (Nat.pow_le_pow_right (by decide) (by omega)))
  · exact hbyte (by cases d.queueReady <;> decide)
  refine .ite (fun ho => .ite (fun _ => fits_none) (fits_of_le ?_)) ?_
  · have h64 : ¬w ≠ 64 := fun hne => hpfn ⟨hne, ho⟩
    omega
  refine .ite (fun _ => ?_) (.ite (fun ho => ?_) (.ite (fun ho => ?_) (hbyte (by decide))))
  · exact hbyte (by rcases hstatus with h0 | h1 <;> simp only [*] <;> decide)
  · exact hword (fun hs => hlong ⟨hs, .inr (.inr (.inl ho))⟩) d.status.isLt
  -- the byte at `k` of the capacity is what is left of its 23 bits
  have hcapacity : d.file.fileSize >>> 9 < 2 ^ 23 := by
    have hlt := d.file.fileSize_lt
    rw [Nat.shiftRight_eq_div_pow]
    omega
  obtain ⟨k, rfl⟩ := Nat.exists_eq_add_of_le ho.1
  rw [Nat.add_sub_cancel_left, Nat.shiftRight_eq_div_pow]
  by_cases h0 : k = 0
  · subst h0
    exact hword (fun hs => hlong ⟨hs, by simp⟩) (by omega)
  by_cases h1 : k = 1
  · subst h1
    have h8 : w ≠ 8 := fun h8 => hmiddle ⟨h8, .inr rfl⟩
    have hlt : d.file.fileSize >>> 9 / 2 ^ (1 * 8) < 2 ^ 16 := by omega
    exact fits_ofNat (hlt.trans_le (Nat.pow_le_pow_right (by decide) (by omega)))
  · have hle : d.file.fileSize >>> 9 / 2 ^ (k * 8) ≤ d.file.fileSize >>> 9 / 2 ^ 16 :=
      Nat.div_le_div_left (Nat.pow_le_pow_right (by decide) (by omega)) (by decide)
    exact hbyte (by omega)

variable {s t : Devices} {v : BitVec 64}

/-- What the handlers of the devices give back. -/
def Device.loaded (s : Devices) (offset w : ℕ) : Device → Option (BitVec 64)
  | .uart => some (s.uart.read offset).2
  | .blk => (s.blk.device.read offset).map (BitVec.ofNat 64)
  | .distributor => s.blk.distributor.read offset w
  | .redistributor => s.redistributor.read offset w

theorem loaded_of_read (h : (device.entry p fuel).handler.read offset w s = (.ok v, t)) :
    v ∈ device.loaded s offset w := by
  cases device with
  | uart => exact congrArg some (Except.ok.inj (congrArg Prod.fst h))
  | blk =>
    have hchecked : (Effect.checked (s.blk.device.read offset) >>= fun n =>
        pure (BitVec.ofNat 64 n) : Effect Devices (BitVec 64)) s = (.ok v, t) := h
    obtain ⟨n, hn, hv⟩ := Effect.checked_bind_eq_ok.1 hchecked
    have hvalue : BitVec.ofNat 64 n = v := Except.ok.inj (congrArg Prod.fst hv)
    rw [Device.loaded, hn, ← hvalue]
    rfl
  | distributor => exact (Effect.checked_eq_ok.1 ((Effect.look_bind _ _ _).symm.trans h)).1
  | redistributor => exact (Effect.checked_eq_ok.1 ((Effect.look_bind _ _ _).symm.trans h)).1

theorem loaded_fits (hs : s.Wf) (hw : w = 8 ∨ w = 16 ∨ w = 32 ∨ w = 64)
    (h : ¬LoadDeviates device w offset) : Fits w (device.loaded s offset w) := by
  cases device with
  | uart =>
    refine uart_fits hs.flag hs.raw (by omega) (fun h8 => ?_) (by omega)
    exact ⟨fun ho => h ⟨h8, .inl ho⟩, fun ho => h ⟨h8, .inr ho⟩⟩
  | blk => exact blk_fits hs.interruptStatus hw h
  | distributor => exact distributor_fits _ (by omega)
  | redistributor => exact redistributor_fits _ h

/-- The handler gives no more than the load takes. -/
theorem truncate_of_read (hs : s.Wf) (hw : w = 8 ∨ w = 16 ∨ w = 32 ∨ w = 64)
    (h : ¬LoadDeviates device w offset)
    (hread : (device.entry p fuel).handler.read offset w s = (.ok v, t)) :
    truncate w v = v :=
  truncate_eq_self_iff.2 (loaded_fits hs hw h v (loaded_of_read hread))

/-! ## Stores -/

/-- The registers that see more bits of a value than a store of `w` bits has. -/
def StoreDeviates : Device → ℕ → ℕ → Prop
  | .uart, w, offset => w = 8 ∧ (offset = uartCr ∨ offset = uartImsc)
  | .blk, w, offset =>
    (w = 8 ∨ w = 16) ∧ (offset = VirtioBlkMmio.virtioMmioGuestPageSize ∨
      offset = VirtioBlkMmio.virtioMmioQueueNum ∨ offset = VirtioBlkMmio.virtioMmioQueuePfn ∨
      offset = VirtioBlkMmio.virtioMmioQueueNotify ∨ offset = VirtioBlkMmio.virtioMmioStatus)
  | .distributor, w, offset =>
    w = 8 ∧ gicdIpriorityr0 ≤ offset ∧ offset < gicdIpriorityr254 + 4 ∧ offset % 4 ≠ 3
  | .redistributor, w, offset =>
    w = 8 ∧ gicrIpriorityr0 ≤ offset ∧ offset < gicrIpriorityr7 + 4 ∧ offset % 4 ≠ 3

/-- Two values with the same low `w` bits. -/
def Same (w : ℕ) (a b : BitVec 64) : Prop := ∀ i < w, a.getLsbD i = b.getLsbD i

section Same

variable {a b : BitVec 64} {n : ℕ}

theorem Same.setWidth (h : Same w a b) (hn : n ≤ w) : a.setWidth n = b.setWidth n := by
  apply BitVec.eq_of_getLsbD_eq
  intro i hi
  rw [BitVec.getLsbD_setWidth, BitVec.getLsbD_setWidth, h i (by omega)]

/-- Only the bits that are set in `x` matter for what is cleared there. -/
theorem and_not_congr {x y z : BitVec n} (h : ∀ i, x.getLsbD i = true → y.getLsbD i = z.getLsbD i) :
    x &&& ~~~y = x &&& ~~~z := by
  apply BitVec.eq_of_getLsbD_eq
  intro i hi
  simp only [BitVec.getLsbD_and, BitVec.getLsbD_not]
  cases hx : x.getLsbD i with
  | false => rfl
  | true => rw [h i hx]

theorem getLsbD_truncate {v : BitVec 64} {i : ℕ} :
    (truncate w v).getLsbD i = (decide (i < w) && v.getLsbD i) := by
  rw [truncate, BitVec.getLsbD_setWidth, BitVec.getLsbD_setWidth]
  by_cases hi : i < 64
  · simp [hi]
  · simp [hi, v.getLsbD_of_ge i (by omega)]

theorem getLsbD_storeValue {size : BitVec 2} {v : BitVec 64} {i : ℕ} :
    (storeValue size v).getLsbD i = (decide (size = 3 ∨ i < 32) && v.getLsbD i) := by
  rw [storeValue]
  split_ifs with h3
  · simp [h3]
  · rw [BitVec.getLsbD_and, show (0xFFFFFFFF : BitVec 64) = BitVec.ofNat 64 (2 ^ 32 - 1) from rfl,
      BitVec.getLsbD_ofNat, Nat.testBit_two_pow_sub_one]
    by_cases hi : i < 32
    · simp [hi, show i < 64 by omega]
    · rw [decide_eq_false (not_or.2 ⟨h3, hi⟩)]
      simp [hi]

/-- A width below 64 bits is 32 bits at most. -/
theorem size_eq_or (size : BitVec 2) : size = 3 ∨ 8 * 2 ^ size.toNat ≤ 32 := by
  revert size
  decide

theorem storeValue_same (size : BitVec 2) (v : BitVec 64) :
    Same (8 * 2 ^ size.toNat) (storeValue size v) (truncate (8 * 2 ^ size.toNat) v) := by
  intro i hi
  have hin : size = 3 ∨ i < 32 := (size_eq_or size).imp_right fun hle => by omega
  rw [getLsbD_storeValue, getLsbD_truncate, decide_eq_true hin, decide_eq_true hi]

/-- Words and double words are cut as they should be. -/
theorem storeValue_eq_truncate {size : BitVec 2} (h : size = 2 ∨ size = 3) (v : BitVec 64) :
    storeValue size v = truncate (8 * 2 ^ size.toNat) v := by
  apply BitVec.eq_of_getLsbD_eq
  intro i hi
  rw [getLsbD_storeValue, getLsbD_truncate]
  rcases h with rfl | rfl
  · simp
  · simp [hi]

theorem uart_write_same {u : Pl011Mmio}
    (hraw : u.rawInterruptStatus = 0 ∨ u.rawInterruptStatus = uartRisRxris) (hw : 8 ≤ w)
    (hsize : w = 8 ∨ 16 ≤ w) (h : w = 8 → offset ≠ uartCr ∧ offset ≠ uartImsc)
    (hab : Same w a b) : u.write offset a = u.write offset b := by
  have hwide : w ≠ 8 → a.setWidth 16 = b.setWidth 16 := fun h8 =>
    hab.setWidth (hsize.resolve_left h8)
  rw [Pl011Mmio.write, Pl011Mmio.write]
  split_ifs with hcr himsc hicr
  · rw [hwide fun h8 => (h h8).1 hcr]
  · rw [hwide fun h8 => (h h8).2 himsc]
  · rw [and_not_congr]
    intro i hi
    have h4 : i = 4 := by
      rcases hraw with h0 | h1
      · simp [h0] at hi
      · rw [h1, uartRisRxris, BitVec.getLsbD_shiftLeft, BitVec.getLsbD_one] at hi
        simp at hi
        omega
    rw [h4, BitVec.getLsbD_setWidth, BitVec.getLsbD_setWidth, hab 4 (by omega)]
  · rfl

/-- Bytes and half words reach the priority registers of the distributor only. -/
theorem distributor_write_short {d : GicDistributorMmio} {cpu : Pcpu} (hw : w = 8 ∨ w = 16) :
    d.write cpu offset w a =
      if gicdIpriorityr0 ≤ offset ∧ offset < gicdIpriorityr254 + 4 then
        (GicDistributorMmio.writePriority d.priority (offset - gicdIpriorityr0) w a).map
          fun priority => ({ d with priority := priority }, cpu)
      else some (d, cpu) := by
  have h32 : w ≠ 32 := by omega
  have h64 : w ≠ 64 := by omega
  simp only [GicDistributorMmio.write, GicDistributorMmio.Hits, h32, h64, and_false, if_false]
  split_ifs
  · cases GicDistributorMmio.writePriority d.priority (offset - gicdIpriorityr0) w a <;> rfl
  · rfl

theorem redistributor_write_short {r : GicRedistributorMmio} {cpu : Pcpu} (hw : w = 8 ∨ w = 16) :
    r.write cpu offset w a =
      if gicrIpriorityr0 ≤ offset ∧ offset < gicrIpriorityr7 + 4 then
        (GicDistributorMmio.writePriority r.priority (offset - gicrIpriorityr0) w a).map
          fun priority => ({ r with priority := priority }, cpu)
      else some (r, cpu) := by
  have h32 : w ≠ 32 := by omega
  simp only [GicRedistributorMmio.write, GicRedistributorMmio.writeCtlr,
    GicRedistributorMmio.writeRegister, GicDistributorMmio.Hits, h32, and_false, if_false]
  split_ifs
  · cases GicDistributorMmio.writePriority r.priority (offset - gicrIpriorityr0) w a <;> rfl
  · rfl

/-- The highest byte of a register has nothing above it. -/
theorem writePriority_same {priority : Vector (BitVec 32) n} {position : ℕ}
    (hw : w = 8 ∨ w = 16) (hab : Same w a b) (h : w = 8 → position % 4 = 3) :
    GicDistributorMmio.writePriority priority position w a =
      GicDistributorMmio.writePriority priority position w b := by
  rw [GicDistributorMmio.writePriority, GicDistributorMmio.writePriority]
  rcases hw with h8 | h16
  · have hbyte : (position - position / 4 * 4) * 8 = 24 := by
      have := h h8
      omega
    have hshift : (a <<< 24).setWidth 32 = (b <<< 24).setWidth 32 := by
      apply BitVec.eq_of_getLsbD_eq
      intro i hi
      simp only [BitVec.getLsbD_setWidth, BitVec.getLsbD_shiftLeft]
      rw [hab (i - 24) (by omega)]
    rw [if_pos h8, if_pos h8, hbyte, hshift]
  · rw [if_neg (by omega), if_neg (by omega), if_neg (by omega), if_neg (by omega)]

theorem blk_write_same {blk : BlkState}
    (hstatus : blk.device.interruptStatus = 0 ∨ blk.device.interruptStatus = 1)
    (hw : w = 8 ∨ w = 16) (h : ¬StoreDeviates .blk w offset) (hab : Same w a b) :
    VirtioBlkMmio.write p fuel offset a.toNat blk = VirtioBlkMmio.write p fuel offset b.toNat blk := by
  have hoffset : ¬_ := fun ho => h ⟨hw, ho⟩
  simp only [not_or] at hoffset
  obtain ⟨hpage, hnum, hpfn, hnotify, hst⟩ := hoffset
  simp only [VirtioBlkMmio.write, if_neg hpage, if_neg hnum, if_neg hpfn, if_neg hnotify,
    if_neg hst]
  split_ifs
  · have hclear : blk.device.interruptStatus &&& ~~~(BitVec.ofNat 32 a.toNat) =
        blk.device.interruptStatus &&& ~~~(BitVec.ofNat 32 b.toNat) := by
      apply and_not_congr
      intro i hi
      have h0 : i = 0 := by
        rcases hstatus with hz | ho
        · simp [hz] at hi
        · simpa [ho] using hi
      rw [h0, BitVec.ofNat_toNat, BitVec.ofNat_toNat, BitVec.getLsbD_setWidth,
        BitVec.getLsbD_setWidth, hab 0 (by omega)]
    rw [VirtioBlkMmio.update, VirtioBlkMmio.update, Effect.change, Effect.change, hclear]
  · rfl

/-- A store of a byte or a half word says no more than its bits, unless it deviates. -/
theorem write_same (hs : s.Wf) (hw : w = 8 ∨ w = 16) (h : ¬StoreDeviates device w offset)
    (hab : Same w a b) :
    (device.entry p fuel).handler.write offset w a s =
      (device.entry p fuel).handler.write offset w b s := by
  have hposition : ∀ {first last : ℕ}, first % 4 = 0 →
      ¬(w = 8 ∧ first ≤ offset ∧ offset < last ∧ offset % 4 ≠ 3) →
        first ≤ offset ∧ offset < last → w = 8 → (offset - first) % 4 = 3 := by
    intro first last hfirst hdev hrange h8
    by_contra hne
    exact hdev ⟨h8, hrange.1, hrange.2, by omega⟩
  cases device with
  | uart =>
    have hdata : a.setWidth 8 = b.setWidth 8 := hab.setWidth (by omega)
    have hwrite : s.uart.write offset a = s.uart.write offset b :=
      uart_write_same hs.raw (by omega) (by omega)
        (fun h8 => ⟨fun ho => h ⟨h8, .inl ho⟩, fun ho => h ⟨h8, .inr ho⟩⟩) hab
    simp only [Device.entry, pl011Handler, Effect.change, hdata, hwrite]
  | blk =>
    have hwrite : VirtioBlkMmio.write p fuel offset a.toNat s.blk =
        VirtioBlkMmio.write p fuel offset b.toNat s.blk :=
      blk_write_same hs.interruptStatus hw h hab
    simp only [Device.entry, virtioBlkHandler, hwrite]
  | distributor =>
    have hwrite : s.blk.distributor.write s.blk.cpu offset w a =
        s.blk.distributor.write s.blk.cpu offset w b := by
      rw [distributor_write_short hw, distributor_write_short hw]
      split_ifs with hrange
      · rw [writePriority_same hw hab (hposition (by decide) h hrange)]
      · rfl
    simp only [Device.entry, gicDistributorHandler]
    rw [Effect.look_bind, Effect.look_bind, hwrite]
  | redistributor =>
    have hwrite : s.redistributor.write s.blk.cpu offset w a =
        s.redistributor.write s.blk.cpu offset w b := by
      rw [redistributor_write_short hw, redistributor_write_short hw]
      split_ifs with hrange
      · rw [writePriority_same hw hab (hposition (by decide) h hrange)]
      · rfl
    simp only [Device.entry, gicRedistributorHandler]
    rw [Effect.look_bind, Effect.look_bind, hwrite]

end Same

/-! ## Traps -/

/-- The trap does not do what the instruction does. -/
def Deviates (device : Device) (offset : ℕ) (a : Access) : Prop :=
  a.register ≠ 31 ∧ if a.isWrite then StoreDeviates device a.width offset
    else LoadDeviates device a.width offset

/-- The trap does what the instruction does, whatever the guest and its devices are. -/
def Emulates (p : Platform) (fuel : ℕ) (device : Device) (a : Access) : Prop :=
  ∀ abort g, Reports abort a → g.devices.Wf → g.pc.toNat + 4 < 2 ^ 64 →
    trap (mmioHandlers p fuel) abort g = a.execute (device.entry p fuel).handler
      (a.address - (device.entry p fuel).baseAddress) g

theorem width_eq (a : Access) : a.width = 8 ∨ a.width = 16 ∨ a.width = 32 ∨ a.width = 64 := by
  rw [Access.width]
  generalize a.size = size
  revert size
  decide

theorem width_or_size (a : Access) : (a.width = 8 ∨ a.width = 16) ∨ a.size = 2 ∨ a.size = 3 := by
  rw [Access.width]
  generalize a.size = size
  revert size
  decide

theorem readRegister_zero {x : Vector (BitVec 64) 31} {n : BitVec 5} (hn : n = 31) :
    readRegister x n = 0 := by
  subst hn
  rfl

theorem writeRegister_zero {x : Vector (BitVec 64) 31} {n : BitVec 5} (hn : n = 31)
    (value : BitVec 64) : writeRegister x n value = x := by
  subst hn
  rfl

variable {a : Access} {g : Guest Devices}

theorem stored_eq (hg : g.devices.Wf) (hw : a.isWrite = true) (h : ¬Deviates device offset a) :
    (device.entry p fuel).handler.write offset a.width
        (storeValue a.size (readRegister g.x a.register)) g.devices =
      (device.entry p fuel).handler.write offset a.width
        (truncate a.width (readRegister g.x a.register)) g.devices := by
  by_cases h31 : a.register = 31
  · have hzero : storeValue a.size 0 = 0 := by
      rw [storeValue]
      split_ifs <;> rfl
    have htruncate : truncate a.width 0 = 0 := truncate_eq_self_iff.2 (by simp)
    rw [readRegister_zero h31, hzero, htruncate]
  · have hstore : ¬StoreDeviates device a.width offset := fun hdev => h ⟨h31, by rwa [if_pos hw]⟩
    rcases width_or_size a with hwidth | hsize
    · exact write_same hg hwidth hstore (storeValue_same _ _)
    · rw [storeValue_eq_truncate hsize, Access.width]

theorem loaded_eq (hg : g.devices.Wf) (hw : a.isWrite = false) (h : ¬Deviates device offset a) :
    g.loaded a.register id ((device.entry p fuel).handler.read offset a.width g.devices) =
      g.loaded a.register (truncate a.width)
        ((device.entry p fuel).handler.read offset a.width g.devices) := by
  rcases hread : (device.entry p fuel).handler.read offset a.width g.devices with ⟨r, d⟩
  cases r with
  | error e => rfl
  | ok v =>
    by_cases h31 : a.register = 31
    · rw [Guest.loaded, Guest.loaded, writeRegister_zero h31, writeRegister_zero h31]
    · have hload : ¬LoadDeviates device a.width offset :=
        fun hdev => h ⟨h31, by rwa [if_neg (by rw [hw]; decide)]⟩
      rw [Guest.loaded, Guest.loaded, truncate_of_read hg (width_eq a) hload hread]
      rfl

/-- An access that does not deviate is what the trap makes of it. -/
theorem executeWith_eq (hg : g.devices.Wf) (h : ¬Deviates device offset a) :
    a.executeWith id (storeValue a.size) (device.entry p fuel).handler offset g =
      a.execute (device.entry p fuel).handler offset g := by
  rw [Access.execute]
  cases hw : a.isWrite with
  | true => rw [executeWith_of_write hw, executeWith_of_write hw, stored_eq hg hw h]
  | false => rw [executeWith_of_read hw, executeWith_of_read hw, loaded_eq hg hw h]

/-! ### Where they differ -/

theorem longFile_lt : 2 ^ 25 < 2 ^ 32 := by decide

/-- Devices of a new VM. -/
def plainDevices : Devices where
  uart := Pl011Mmio.new
  blk := VirtioBlkMmio.sampleNew
  redistributor := GicRedistributorMmio.new 0 1
  printed := []

/-- Devices with long values in their registers. -/
def wideDevices : Devices :=
  { plainDevices with
    uart := { Pl011Mmio.new with control := 0x100, interruptMask := 0x100 }
    blk.device :=
      { plainDevices.blk.device with
        file := ⟨2, 2 ^ 25, longFile_lt⟩
        status := 0x10000
        descriptor := 2 ^ 32
        pageSize := 1 } }

theorem wideDevices_wf : wideDevices.Wf := ⟨.inl rfl, .inl rfl, .inl rfl⟩

theorem plainDevices_wf : plainDevices.Wf := ⟨.inl rfl, .inl rfl, .inl rfl⟩

/-- Every register in the list can hold a value that is too long. -/
theorem exists_read_of_deviates (hw : w = 8 ∨ w = 16 ∨ w = 32 ∨ w = 64)
    (h : LoadDeviates device w offset) (p : Platform) (fuel : ℕ) :
    ∃ v t, (device.entry p fuel).handler.read offset w wideDevices = (.ok v, t) ∧
      truncate w v ≠ v := by
  have hlong : ∀ {v : BitVec 64}, 2 ^ w ≤ v.toNat → truncate w v ≠ v :=
    fun hv heq => absurd (truncate_eq_self_iff.1 heq) (by omega)
  cases device with
  | uart =>
    obtain ⟨rfl, rfl | rfl⟩ := h
    · exact ⟨_, _, rfl, hlong (by decide)⟩
    · exact ⟨_, _, rfl, hlong (by decide)⟩
  | blk =>
    rcases h with h | h | ⟨h64, rfl⟩
    · rcases h with ⟨rfl | rfl, rfl | rfl | rfl | rfl⟩ <;> exact ⟨_, _, rfl, hlong (by decide)⟩
    · rcases h with ⟨rfl, rfl | rfl⟩ <;> exact ⟨_, _, rfl, hlong (by decide)⟩
    · have hle : 2 ^ w ≤ 2 ^ 32 := Nat.pow_le_pow_right (by decide) (by omega)
      exact ⟨_, _, rfl, hlong (hle.trans (by decide))⟩
  | distributor => exact h.elim
  | redistributor =>
    obtain ⟨rfl, rfl⟩ := h
    exact ⟨_, _, rfl, hlong (by decide)⟩

/-- What a guest stores to see a difference: nothing below the bit. -/
def wideValue : Device → BitVec 64
  | .blk => 0x10000
  | _ => 0x100

/-- The platform of a VM. -/
def platform (ramPhysicalBaseAddress : ℕ) (fat32 : Fat32) (env : Environment) : Platform :=
  ⟨⟨Creation.ramVirtualBase, ramPhysicalBaseAddress, Creation.ramSize⟩, fat32, env⟩

variable {ramPhysicalBaseAddress : ℕ} {fat32 : Fat32} {env : Environment}

/-- Bit 8 of the value lands in the byte above. -/
theorem writePriority_ne {n position : ℕ} (hn : position / 4 < n) (h : position % 4 ≠ 3) :
    GicDistributorMmio.writePriority (Vector.replicate n 0) position 8 0x100 ≠
      GicDistributorMmio.writePriority (Vector.replicate n 0) position 8 0 := by
  intro heq
  rw [GicDistributorMmio.writePriority, GicDistributorMmio.writePriority, if_pos rfl, if_pos rfl,
    Checked.modify, Checked.modify, dif_pos hn, dif_pos hn] at heq
  have hregister := congrArg (fun v => v[position / 4]) (Option.some.inj heq)
  simp only [Vector.getElem_set_self, Vector.getElem_replicate] at hregister
  have hbyte : (position - position / 4 * 4) * 8 = 0 ∨ (position - position / 4 * 4) * 8 = 8 ∨
      (position - position / 4 * 4) * 8 = 16 := by omega
  rcases hbyte with h0 | h8 | h16
  · rw [h0] at hregister
    exact absurd hregister (by decide)
  · rw [h8] at hregister
    exact absurd hregister (by decide)
  · rw [h16] at hregister
    exact absurd hregister (by decide)

theorem notify_ne (p : Platform) (fuel : ℕ) :
    VirtioBlkMmio.write p fuel VirtioBlkMmio.virtioMmioQueueNotify 0x10000
        VirtioBlkMmio.sampleNew ≠
      VirtioBlkMmio.write p fuel VirtioBlkMmio.virtioMmioQueueNotify 0
        VirtioBlkMmio.sampleNew := by
  intro heq
  cases fuel with
  | zero =>
    have hresult : (.ok ⟨⟩ : Except Fault PUnit) = .error .stuck := congrArg Prod.fst heq
    cases hresult
  | succ fuel =>
    have hstatus : (0 : BitVec 32) = 0 ||| 1 :=
      congrArg (fun r => r.2.device.interruptStatus) heq
    exact absurd hstatus (by decide)

/-- Devices with a page size that no guest has. -/
def largePages : Devices := { plainDevices with blk.device.pageSize := 2 ^ 48 }

theorem blk_write_inj {p : Platform} {s : Devices} {a b : BitVec 64}
    (h : (Device.blk.entry p fuel).handler.write offset w a s =
      (Device.blk.entry p fuel).handler.write offset w b s) :
    VirtioBlkMmio.write p fuel offset a.toNat s.blk =
      VirtioBlkMmio.write p fuel offset b.toNat s.blk := by
  simp only [Device.entry, virtioBlkHandler] at h
  revert h
  rcases VirtioBlkMmio.write p fuel offset a.toNat s.blk with ⟨r, blk⟩
  rcases VirtioBlkMmio.write p fuel offset b.toNat s.blk with ⟨r', blk'⟩
  intro h
  obtain ⟨hresult, hstate⟩ := Prod.mk.inj h
  exact Prod.ext hresult (congrArg Devices.blk hstate)

theorem checked_inj {α : Type} {o o' : Option α} {f : α → Devices → Devices} {s : Devices}
    (hf : ∀ x y, f x s = f y s → x = y)
    (h : (Effect.checked o >>= fun x => Effect.change (f x) : Effect Devices PUnit) s =
      (Effect.checked o' >>= fun x => Effect.change (f x) : Effect Devices PUnit) s) : o = o' := by
  cases o with
  | none =>
    cases o' with
    | none => rfl
    | some y => cases congrArg Prod.fst h
  | some x =>
    cases o' with
    | none => cases congrArg Prod.fst h
    | some y => exact congrArg some (hf x y (congrArg Prod.snd h))

theorem distributor_write_inj {p : Platform} {s : Devices} {a b : BitVec 64}
    (h : (Device.distributor.entry p fuel).handler.write offset w a s =
      (Device.distributor.entry p fuel).handler.write offset w b s) :
    s.blk.distributor.write s.blk.cpu offset w a = s.blk.distributor.write s.blk.cpu offset w b := by
  refine checked_inj (s := s) (f := fun x s => { s with blk.distributor := x.1, blk.cpu := x.2 })
    (fun x y hxy => ?_) h
  exact Prod.ext (congrArg (fun s => s.blk.distributor) hxy) (congrArg (fun s => s.blk.cpu) hxy)

theorem redistributor_write_inj {p : Platform} {s : Devices} {a b : BitVec 64}
    (h : (Device.redistributor.entry p fuel).handler.write offset w a s =
      (Device.redistributor.entry p fuel).handler.write offset w b s) :
    s.redistributor.write s.blk.cpu offset w a = s.redistributor.write s.blk.cpu offset w b := by
  refine checked_inj (s := s) (f := fun x s => { s with redistributor := x.1, blk.cpu := x.2 })
    (fun x y hxy => ?_) h
  exact Prod.ext (congrArg Devices.redistributor hxy) (congrArg (fun s => s.blk.cpu) hxy)

theorem getPhysicalAddress_below {ram : GuestRam} {address : ℕ}
    (hfits : ram.ramVirtualBaseAddress + ram.ramSize < 2 ^ 64)
    (h : address < ram.ramVirtualBaseAddress) : ram.getPhysicalAddress address = some none := by
  have hadd : Checked.add 64 ram.ramVirtualBaseAddress ram.ramSize =
      some (ram.ramVirtualBaseAddress + ram.ramSize) := Checked.add_eq_some.2 ⟨hfits, rfl⟩
  rw [GuestRam.getPhysicalAddress, hadd]
  exact if_neg (by omega)

/-- With pages of `2 ^ 48` bytes, the page number `2 ^ 16` is an overflow. -/
theorem pfn_ne (blk : BlkState) (hsize : blk.device.pageSize = 2 ^ 48) :
    VirtioBlkMmio.write (platform ramPhysicalBaseAddress fat32 env) fuel
        VirtioBlkMmio.virtioMmioQueuePfn 0x10000 blk ≠
      VirtioBlkMmio.write (platform ramPhysicalBaseAddress fat32 env) fuel
        VirtioBlkMmio.virtioMmioQueuePfn 0 blk := by
  have hover : Checked.mul 64 0x10000 (2 ^ 48) = none := by
    rw [Checked.mul, if_neg (by norm_num)]
  have hzero : Checked.mul 64 0 (2 ^ 48) = some 0 := by
    rw [Checked.mul, if_pos (by norm_num), Nat.zero_mul]
  have houtside : (platform ramPhysicalBaseAddress fat32 env).ram.getPhysicalAddress 0 =
      some none :=
    getPhysicalAddress_below (by norm_num [platform, Creation.ramVirtualBase, Creation.ramSize])
      (by norm_num [platform, Creation.ramVirtualBase])
  obtain ⟨f, hwrite, hf⟩ : ∃ f : ℕ → Effect BlkState PUnit,
      (∀ value, VirtioBlkMmio.write (platform ramPhysicalBaseAddress fat32 env) fuel
        VirtioBlkMmio.virtioMmioQueuePfn value blk =
          (Effect.checked (Checked.mul 64 value blk.device.pageSize) >>= f) blk) ∧
      f 0 blk = (.ok ⟨⟩, blk) := by
    refine ⟨_, fun value => rfl, ?_⟩
    rw [houtside]
    rfl
  rw [hwrite, hwrite, hsize, hover, hzero, Effect.checked_bind, hf]
  intro heq
  have hresult : (.error .panic : Except Fault PUnit) = .ok ⟨⟩ := congrArg Prod.fst heq
  cases hresult

/-- Every register in the list can tell the values apart. -/
theorem exists_write_of_deviates (h : StoreDeviates device w offset) :
    ∃ s : Devices, s.Wf ∧
      (device.entry (platform ramPhysicalBaseAddress fat32 env) fuel).handler.write offset w
          (wideValue device) s ≠
        (device.entry (platform ramPhysicalBaseAddress fat32 env) fuel).handler.write offset w 0 s := by
  cases device with
  | uart =>
    refine ⟨plainDevices, plainDevices_wf, fun heq => ?_⟩
    obtain ⟨rfl, rfl | rfl⟩ := h
    · have hcontrol : (0x100 : BitVec 16) = 0 := congrArg (fun r => r.2.uart.control) heq
      exact absurd hcontrol (by decide)
    · have hmask : (0x100 : BitVec 16) = 0 := congrArg (fun r => r.2.uart.interruptMask) heq
      exact absurd hmask (by decide)
  | blk =>
    obtain ⟨-, rfl | rfl | rfl | rfl | rfl⟩ := h
    · refine ⟨plainDevices, plainDevices_wf, fun heq => ?_⟩
      have hsize : 0x10000 = 0 := congrArg (fun r => r.2.blk.device.pageSize) heq
      omega
    · refine ⟨plainDevices, plainDevices_wf, fun heq => ?_⟩
      have hsize : 0x10000 = 0 := congrArg (fun r => r.2.blk.device.queueSize) heq
      omega
    -- the page number overflows
    · refine ⟨largePages, ⟨.inl rfl, .inl rfl, .inl rfl⟩, fun heq => ?_⟩
      exact pfn_ne largePages.blk rfl (blk_write_inj heq)
    · refine ⟨plainDevices, plainDevices_wf, fun heq => ?_⟩
      exact notify_ne _ fuel (blk_write_inj heq)
    · refine ⟨plainDevices, plainDevices_wf, fun heq => ?_⟩
      have hstatus : (0x10000 : BitVec 32) = 0 := congrArg (fun r => r.2.blk.device.status) heq
      exact absurd hstatus (by decide)
  | distributor =>
    obtain ⟨rfl, hfirst, hlast, hbyte⟩ := h
    refine ⟨plainDevices, plainDevices_wf, fun heq => ?_⟩
    have hwrite := distributor_write_inj heq
    rw [distributor_write_short (.inl rfl), distributor_write_short (.inl rfl),
      if_pos ⟨hfirst, hlast⟩, if_pos ⟨hfirst, hlast⟩] at hwrite
    have hposition : (offset - gicdIpriorityr0) / 4 < 255 ∧ (offset - gicdIpriorityr0) % 4 ≠ 3 := by
      simp only [gicdIpriorityr0, gicdIpriorityr254] at hfirst hlast ⊢
      omega
    generalize offset - gicdIpriorityr0 = position at hwrite hposition
    refine writePriority_ne hposition.1 hposition.2 (Option.map_injective (fun x y hxy => ?_) hwrite)
    exact congrArg (fun r => r.1.priority) hxy
  | redistributor =>
    obtain ⟨rfl, hfirst, hlast, hbyte⟩ := h
    refine ⟨plainDevices, plainDevices_wf, fun heq => ?_⟩
    have hwrite := redistributor_write_inj heq
    rw [redistributor_write_short (.inl rfl), redistributor_write_short (.inl rfl),
      if_pos ⟨hfirst, hlast⟩, if_pos ⟨hfirst, hlast⟩] at hwrite
    have hposition : (offset - gicrIpriorityr0) / 4 < 8 ∧ (offset - gicrIpriorityr0) % 4 ≠ 3 := by
      have hfour : gicrIpriorityr0 % 4 = 0 := by decide
      have hend : gicrIpriorityr7 + 4 = gicrIpriorityr0 + 32 := by decide
      omega
    generalize offset - gicrIpriorityr0 = position at hwrite hposition
    have hinj := Option.map_injective (fun x y hxy => congrArg (fun r => r.1.priority) hxy) hwrite
    exact writePriority_ne hposition.1 hposition.2 hinj

theorem emulates_of_not_deviates {p : Platform} (hcovers : (device.entry p fuel).Covers a.address)
    (h : ¬Deviates device (a.address - (device.entry p fuel).baseAddress) a) :
    Emulates p fuel device a := fun _ _ hreports hg hpc =>
  (trap_eq hreports hpc (find_device hcovers) (fun _ _ => read_firm) fun _ _ _ => write_firm).trans
    (executeWith_eq hg h)

/-- The values that tell a store apart pass the handler of data aborts and not the store. -/
theorem wideValue_cut {size : BitVec 2} (h : StoreDeviates device (8 * 2 ^ size.toNat) offset) :
    storeValue size (wideValue device) = wideValue device ∧
      truncate (8 * 2 ^ size.toNat) (wideValue device) = 0 := by
  have hwidth : 8 * 2 ^ size.toNat = 8 ∨ 8 * 2 ^ size.toNat = 16 ∧ device = .blk := by
    cases device with
    | uart => exact .inl h.1
    | blk => exact h.1.imp_right fun h16 => ⟨h16, rfl⟩
    | distributor => exact .inl h.1
    | redistributor => exact .inl h.1
  have hbytes : 8 * 2 ^ size.toNat = 8 → size = 0 := by
    generalize size = size
    revert size
    decide
  have hhalves : 8 * 2 ^ size.toNat = 16 → size = 1 := by
    generalize size = size
    revert size
    decide
  have hsize : size = 0 ∨ size = 1 ∧ device = .blk := hwidth.imp hbytes (And.imp_left hhalves)
  rcases hsize with rfl | ⟨rfl, rfl⟩
  · cases device <;> decide
  · decide

/-- Exactly the accesses on the lists are not emulated. -/
theorem emulates_iff
    (hcovers : (device.entry (platform ramPhysicalBaseAddress fat32 env) fuel).Covers a.address) :
    Emulates (platform ramPhysicalBaseAddress fat32 env) fuel device a ↔ ¬Deviates device
      (a.address - (device.entry (platform ramPhysicalBaseAddress fat32 env) fuel).baseAddress) a := by
  refine ⟨fun hemulates => ?_, emulates_of_not_deviates hcovers⟩
  rintro ⟨h31, hdev⟩
  have haddress : a.address < 2 ^ 52 := by
    cases device <;> simp only [MmioEntry.Covers, Device.entry] at hcovers <;> omega
  obtain ⟨abort, hreports⟩ := exists_reports haddress
  have hsame : ∀ g : Guest Devices, g.devices.Wf → g.pc = 0 → a.executeWith id (storeValue a.size)
      (device.entry (platform ramPhysicalBaseAddress fat32 env) fuel).handler _ g =
        a.execute _ _ g := fun g hg hpc =>
    (trap_eq hreports (by rw [hpc]; decide) (find_device hcovers) (fun _ _ => read_firm)
      fun _ _ _ => write_firm).symm.trans (hemulates abort g hreports hg (by rw [hpc]; decide))
  cases hw : a.isWrite with
  | true =>
    rw [if_pos hw] at hdev
    obtain ⟨s, hs, hne⟩ := exists_write_of_deviates hdev
    obtain ⟨x, hx⟩ := exists_readRegister h31 (wideValue device)
    have hstored := hsame ⟨x, 0, s⟩ hs rfl
    rw [Access.execute, executeWith_of_write hw, executeWith_of_write hw, hx] at hstored
    have hcut := wideValue_cut hdev
    rw [hcut.1, show truncate a.width (wideValue device) = 0 from hcut.2] at hstored
    exact hne (stored_inj hstored)
  | false =>
    rw [if_neg (by rw [hw]; decide)] at hdev
    obtain ⟨v, t, hread, hne⟩ := exists_read_of_deviates (width_eq a) hdev
      (platform ramPhysicalBaseAddress fat32 env) fuel
    have hloaded := hsame ⟨Vector.replicate 31 0, 0, wideDevices⟩ wideDevices_wf rfl
    rw [Access.execute, executeWith_of_read hw, executeWith_of_read hw, hread] at hloaded
    have hregister := congrArg (fun r => readRegister r.2.x a.register) hloaded
    simp only [Guest.loaded, readRegister_writeRegister h31, id_eq] at hregister
    exact hne hregister.symm

/-- A byte that is stored to a priority register. -/
def samplePriority : Access := ⟨0x8000400, 0, 3, true⟩

theorem sample_not_emulated : ¬Emulates (platform 0x80000000 VirtioBlkMmio.samplePlatform.fat32
    VirtioBlkMmio.samplePlatform.env) 4 .distributor samplePriority := by
  rw [emulates_iff (by decide), not_not]
  exact ⟨by decide, by decide, by decide, by decide, by decide⟩

end Trap

end MiniVisor
