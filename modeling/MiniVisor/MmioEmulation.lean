import MiniVisor.BlockProgress
import MiniVisor.Library.Masks
import MiniVisor.MmioTraps
import MiniVisor.VmCreation

/-!
# What a trapped access does

A load of `w` bits is to set its register to the low `w` bits of what the device says, and
a store is to hand over the low `w` bits of its register. `Access.execute` does this. The
handler of data aborts cuts a value to 32 bits at most, and the devices look at the width or
not, so that the two agree on some of the registers of each device only.
-/
namespace MiniVisor

open Effects

namespace VirtioBlkMmio

variable {p : Platform} {fuel offset value : ℕ}

theorem getNextAvailId_firm : Effect.Firm getNextAvailId := by
  rw [getNextAvailId]
  apply (Effect.Firm.look _).bind
  intro device
  apply (Effect.Firm.change _).bind
  intro _
  apply (Effect.Firm.look _).bind
  intro m
  split_ifs
  · exact .pure _
  · exact (Effect.Firm.checked _).bind fun _ => (Effect.Firm.checked _).bind fun _ =>
      (Effect.Firm.change _).bind fun _ => .pure _

theorem operation_firm : Effect.Firm (operation p fuel) := by
  induction fuel with
  | zero => exact .fail (by decide)
  | succ fuel ih =>
    rw [operation]
    apply getNextAvailId_firm.bind
    intro id
    cases id with
    | none =>
      exact (Effect.Firm.change _).bind fun _ => (Effect.Firm.look _).bind fun _ =>
        (Effect.Firm.checked _).bind fun _ => .change _
    | some id =>
      apply request_firm.bind
      intro again
      split_ifs
      · exact ih
      · exact .pure _

theorem rings_firm : Effect.Firm rings :=
  (Effect.Firm.look _).bind fun _ => (Effect.Firm.checked _).bind fun _ => .change _

/-- A write to a register panics or returns. -/
theorem write_firm : Effect.Firm (write p fuel offset value) := by
  rw [write]
  split_ifs
  · exact .change _
  · exact (Effect.Firm.change _).bind fun _ => rings_firm
  · apply (Effect.Firm.look _).bind
    intro device
    apply (Effect.Firm.checked _).bind
    intro virtualAddress
    apply (Effect.Firm.checked _).bind
    intro address
    cases address with
    | none => exact .pure _
    | some address => exact (Effect.Firm.change _).bind fun _ => rings_firm
  · exact operation_firm
  · exact .pure _
  · exact .change _
  · exact .change _
  · exact .change _
  · exact .pure _

end VirtioBlkMmio

namespace Trap

/-! ## Accesses -/

/-- A load or a store of a guest at an address of its own. -/
structure Access where
  address : ℕ
  /-- The binary logarithm of the number of bytes. -/
  size : BitVec 2
  register : BitVec 5
  isWrite : Bool

/-- The number of bits. -/
def Access.width (a : Access) : ℕ := 8 * 2 ^ a.size.toNat

/-- The registers describe the access in the fields of the architecture. A load does not
extend the sign, and the register of an access counts as 64 bits wide for 64 bits only. -/
structure Reports (abort : AbortRegisters) (a : Access) : Prop where
  ec : abort.esrEl2.extractLsb' 26 6 = 0b100100#6
  isv : abort.esrEl2.getLsbD 24 = true
  sas : abort.esrEl2.extractLsb' 22 2 = a.size
  sse : abort.esrEl2.getLsbD 21 = false
  srt : abort.esrEl2.extractLsb' 16 5 = a.register
  sf : abort.esrEl2.getLsbD 15 = decide (a.size = 3)
  wnr : abort.esrEl2.getLsbD 6 = a.isWrite
  fipa : (abort.hpfarEl2.extractLsb' 4 40).toNat = a.address / 4096
  far : abort.farEl2.toNat % 4096 = a.address % 4096

/-- Register 31 reads as zero. -/
def readRegister (x : Vector (BitVec 64) 31) (n : BitVec 5) : BitVec 64 :=
  if h : n.toNat < 31 then x[n.toNat] else 0

/-- A write to register 31 is lost. -/
def writeRegister (x : Vector (BitVec 64) 31) (n : BitVec 5) (value : BitVec 64) :
    Vector (BitVec 64) 31 :=
  if h : n.toNat < 31 then x.set n.toNat value else x

/-- The low `w` bits. -/
def truncate (w : ℕ) (value : BitVec 64) : BitVec 64 := (value.setWidth w).setWidth 64

variable {σ : Type}

def onBus {α : Type} (x : Effect σ α) : Effect (Guest σ) α := fun g =>
  ((x g.devices).1, { g with devices := (x g.devices).2 })

/-- An access at an offset of a device, with what becomes of a value on the way. -/
def Access.executeWith (loaded stored : BitVec 64 → BitVec 64) (handler : MmioHandler σ)
    (offset : ℕ) (a : Access) : Effect (Guest σ) PUnit := do
  if a.isWrite then
    let value ← Effect.look fun g : Guest σ => readRegister g.x a.register
    onBus (handler.write offset a.width (stored value))
  else
    let value ← onBus (handler.read offset a.width)
    Effect.change fun g => { g with x := writeRegister g.x a.register (loaded value) }
  Effect.change fun g => { g with pc := g.pc + 4 }

/-- The instruction. -/
def Access.execute (handler : MmioHandler σ) (offset : ℕ) (a : Access) : Effect (Guest σ) PUnit :=
  a.executeWith (truncate a.width) (truncate a.width) handler offset

/-! ## The syndrome -/

theorem and_field (x : BitVec 64) {n o : ℕ} (h : n + o ≤ 64) :
    x &&& (BitVec.ofNat 64 (2 ^ n - 1) <<< o) = (x.extractLsb' o n).setWidth 64 <<< o := by
  apply BitVec.eq_of_getLsbD_eq
  intro i hi
  simp only [BitVec.getLsbD_and, BitVec.getLsbD_shiftLeft, BitVec.getLsbD_setWidth,
    BitVec.getLsbD_extractLsb', BitVec.getLsbD_ofNat, Nat.testBit_two_pow_sub_one]
  by_cases hlow : i < o
  · simp [hlow]
  · by_cases hn : i - o < n
    · simp [hlow, hn, hi, show i - o < 64 by omega, show o + (i - o) = i by omega]
    · simp [hn]

theorem field_eq (x : BitVec 64) {n o : ℕ} (h : n + o ≤ 64) :
    (x &&& (BitVec.ofNat 64 (2 ^ n - 1) <<< o)) >>> o = (x.extractLsb' o n).setWidth 64 := by
  rw [and_field x h]
  apply BitVec.eq_of_getLsbD_eq
  intro i hi
  simp only [BitVec.getLsbD_ushiftRight, BitVec.getLsbD_shiftLeft, BitVec.getLsbD_setWidth,
    BitVec.getLsbD_extractLsb']
  by_cases hn : i < n
  · simp [hi, hn, show o + i < 64 by omega]
  · simp [hn]

variable {abort : AbortRegisters} {a : Access}

theorem Reports.dataAbort (h : Reports abort a) : abort.esrEl2 &&& esrEl2Ec = esrEl2EcDataAbort := by
  rw [show esrEl2Ec = BitVec.ofNat 64 (2 ^ 6 - 1) <<< 26 from rfl,
    and_field _ (by decide), h.ec]
  rfl

theorem Reports.isv_ne_zero (h : Reports abort a) : abort.esrEl2 &&& esrEl2IssIsv ≠ 0 :=
  (Masks.and_bit_ne_zero _ (by decide)).2 h.isv

theorem Reports.wnr_ne_zero_iff (h : Reports abort a) :
    abort.esrEl2 &&& esrEl2IssWnr ≠ 0 ↔ a.isWrite = true :=
  (Masks.and_bit_ne_zero _ (by decide)).trans (by rw [h.wnr])

theorem Reports.sf_ne_zero_iff (h : Reports abort a) :
    abort.esrEl2 &&& esrEl2IssSf ≠ 0 ↔ a.size = 3 :=
  (Masks.and_bit_ne_zero _ (by decide)).trans (by rw [h.sf, decide_eq_true_iff])

theorem Reports.accessWidth_eq (h : Reports abort a) :
    accessWidth abort.esrEl2 = some a.width := by
  have hfield := field_eq abort.esrEl2 (n := 2) (o := 22) (by decide)
  rw [h.sas] at hfield
  rw [accessWidth, show esrEl2IssSas = BitVec.ofNat 64 (2 ^ 2 - 1) <<< 22 from rfl,
    show esrEl2IssSasBitsOffset = 22 from rfl, hfield, Access.width]
  generalize a.size = size
  revert size
  decide

theorem Reports.registerNumber_eq (h : Reports abort a) :
    ((abort.esrEl2 &&& esrEl2IssSrt) >>> esrEl2IssSrtBitsOffset).toNat = a.register.toNat := by
  rw [show esrEl2IssSrt = BitVec.ofNat 64 (2 ^ 5 - 1) <<< 16 from rfl,
    show esrEl2IssSrtBitsOffset = 16 from rfl,
    field_eq abort.esrEl2 (n := 5) (o := 16) (by decide), h.srt]
  exact BitVec.toNat_setWidth_of_le (by decide)

theorem Reports.address_eq (h : Reports abort a) : abort.address.toNat = a.address := by
  have hfield := field_eq abort.hpfarEl2 (n := 40) (o := 4) (by decide)
  have hpage : ((abort.hpfarEl2 &&& hpfarEl2Fipa) >>> hpfarEl2FipaBitsOffset).toNat =
      a.address / 4096 := by
    rw [show hpfarEl2Fipa = BitVec.ofNat 64 (2 ^ 40 - 1) <<< 4 from rfl,
      show hpfarEl2FipaBitsOffset = 4 from rfl, hfield, ← h.fipa]
    exact BitVec.toNat_setWidth_of_le (by decide)
  have hlt : a.address / 4096 < 2 ^ 40 := h.fipa ▸ (abort.hpfarEl2.extractLsb' 4 40).isLt
  have hoffset : (abort.farEl2 &&& ((1#64 <<< 12) - 1)).toNat = a.address % 4096 := by
    rw [BitVec.toNat_and, show ((1#64 <<< 12) - 1).toNat = 2 ^ 12 - 1 from rfl,
      Nat.and_two_pow_sub_one_eq_mod, ← h.far]
  rw [AbortRegisters.address, BitVec.toNat_or, BitVec.toNat_shiftLeft, hpage, hoffset,
    Nat.shiftLeft_eq, Nat.mod_eq_of_lt (by omega), ← Nat.shiftLeft_eq,
    ← Nat.shiftLeft_add_eq_or_of_lt (by omega), Nat.shiftLeft_eq]
  omega

/-- The fields of a syndrome in their places. -/
def syndrome (size register sf wnr : ℕ) : ℕ :=
  0b100100 * 2 ^ 26 + 2 ^ 24 + size * 2 ^ 22 + register * 2 ^ 16 + sf * 2 ^ 15 + wnr * 2 ^ 6

/-- Every access with a 52-bit address can be reported. -/
theorem exists_reports (h : a.address < 2 ^ 52) : ∃ abort, Reports abort a := by
  have hsize := a.size.isLt
  have hregister := a.register.isLt
  obtain ⟨sf, hsf, hsf2⟩ : ∃ sf, (sf = 1 ↔ a.size = 3) ∧ sf < 2 := by
    by_cases h3 : a.size = 3
    · exact ⟨1, iff_of_true rfl h3, by decide⟩
    · exact ⟨0, iff_of_false (by decide) h3, by decide⟩
  obtain ⟨wnr, hwnr, hwnr2⟩ : ∃ wnr, (wnr = 1 ↔ a.isWrite = true) ∧ wnr < 2 :=
    ⟨a.isWrite.toNat, by cases a.isWrite <;> simp, a.isWrite.toNat_lt⟩
  obtain ⟨n, hn⟩ : ∃ n, n = syndrome a.size.toNat a.register.toNat sf wnr := ⟨_, rfl⟩
  rw [syndrome] at hn
  have hlt : n < 2 ^ 64 := by omega
  have hfield (i k : ℕ) : ((BitVec.ofNat 64 n).extractLsb' i k).toNat = n / 2 ^ i % 2 ^ k := by
    rw [BitVec.extractLsb'_toNat, BitVec.toNat_ofNat, Nat.mod_eq_of_lt hlt,
      Nat.shiftRight_eq_div_pow]
  have hbit (i : ℕ) (hi : i < 64) :
      (BitVec.ofNat 64 n).getLsbD i = decide (n / 2 ^ i % 2 = 1) := by
    rw [BitVec.getLsbD_ofNat, Nat.testBit_eq_decide_div_mod_eq, decide_eq_true hi, Bool.true_and]
  refine ⟨⟨BitVec.ofNat 64 n, BitVec.ofNat 64 (a.address % 4096),
    BitVec.ofNat 64 (a.address / 4096 * 16)⟩, ⟨?_, ?_, ?_, ?_, ?_, ?_, ?_, ?_, ?_⟩⟩
  · exact BitVec.eq_of_toNat_eq ((hfield 26 6).trans (by simp; omega))
  · rw [hbit 24 (by decide), decide_eq_true_iff]
    omega
  · exact BitVec.eq_of_toNat_eq ((hfield 22 2).trans (by omega))
  · rw [hbit 21 (by decide), decide_eq_false_iff_not]
    omega
  · exact BitVec.eq_of_toNat_eq ((hfield 16 5).trans (by omega))
  · rw [hbit 15 (by decide), decide_eq_decide, ← hsf]
    omega
  · refine Bool.eq_iff_iff.2 ?_
    rw [hbit 6 (by decide), decide_eq_true_iff, ← hwnr]
    omega
  · rw [BitVec.extractLsb'_toNat, BitVec.toNat_ofNat, Nat.mod_eq_of_lt (by omega),
      Nat.shiftRight_eq_div_pow]
    omega
  · rw [BitVec.toNat_ofNat]
    omega

/-! ## The frame -/

theorem index_frame (x : Vector (BitVec 64) 31) (n : BitVec 5) :
    Checked.index (x.push 0) n.toNat = some (readRegister x n) := by
  rw [Checked.index_eq_some]
  refine ⟨n.isLt, ?_⟩
  rw [readRegister, Vector.getElem_push]

theorem modify_frame (x : Vector (BitVec 64) 31) (n : BitVec 5) (value : BitVec 64) :
    ∃ registers, Checked.modify (x.push 0) n.toNat (fun _ => value) = some registers ∧
      registers.pop = writeRegister x n value := by
  refine ⟨_, Checked.modify_eq_some.2 ⟨n.isLt, rfl⟩, ?_⟩
  rw [writeRegister]
  ext i hi
  have hi31 : i < 31 := hi
  split_ifs with hn
  · simp [Vector.getElem_set, hi31]
  · have hne : n.toNat ≠ i := by omega
    simp [hi31, hne]

/-- What the handler of data aborts hands to a device. -/
def storeValue (size : BitVec 2) (value : BitVec 64) : BitVec 64 :=
  if size = 3 then value else value &&& 0xFFFFFFFF

variable {handlers : List (MmioEntry σ)} {e : MmioEntry σ} {g : Guest σ}

theorem onDevices_apply {α : Type} {x : Effect σ α} (hx : Effect.Firm x) (c : Context σ) :
    onDevices x c = ((x c.devices).1, { c with devices := (x c.devices).2 }) := by
  have hs := hx c.devices
  rw [onDevices]
  rcases h : x c.devices with ⟨r, d⟩
  rw [h] at hs
  cases r with
  | ok v => rfl
  | error e => cases e <;> simp_all

theorem advanceElrEl2_apply {c : Context σ} (h : c.elrEl2.toNat + 4 < 2 ^ 64) :
    advanceElrEl2 c = (.ok ⟨⟩, { c with elrEl2 := c.elrEl2 + 4 }) := by
  have hadd : Checked.add 64 c.elrEl2.toNat 4 = some (c.elrEl2.toNat + 4) :=
    Checked.add_eq_some.2 ⟨h, rfl⟩
  have hnext : BitVec.ofNat 64 (c.elrEl2.toNat + 4) = c.elrEl2 + 4 := by
    rw [BitVec.ofNat_add, BitVec.ofNat_toNat, BitVec.setWidth_eq]
    rfl
  rw [advanceElrEl2, Effect.look_bind, hadd, Effect.checked_bind, hnext]
  rfl

theorem dataAbortHandler_of_write (h : Reports abort a) (hw : a.isWrite = true) :
    dataAbortHandler handlers abort ⟨g.x.push 0, g.pc, g.devices⟩ =
      (do
        onDevices (handleMmioWrite handlers a.address a.width
          (storeValue a.size (readRegister g.x a.register)))
        advanceElrEl2 : Effect (Context σ) PUnit) ⟨g.x.push 0, g.pc, g.devices⟩ := by
  have hvalue : (if abort.esrEl2 &&& esrEl2IssSf ≠ 0 then readRegister g.x a.register
      else readRegister g.x a.register &&& 0xFFFFFFFF) =
      storeValue a.size (readRegister g.x a.register) := if_congr h.sf_ne_zero_iff rfl rfl
  rw [dataAbortHandler, if_neg h.isv_ne_zero, h.accessWidth_eq, Effect.checked_bind,
    Effect.look_bind, h.registerNumber_eq, index_frame, Effect.checked_bind, h.address_eq,
    if_pos (h.wnr_ne_zero_iff.2 hw), hvalue]

theorem dataAbortHandler_of_read (h : Reports abort a) (hw : a.isWrite = false) :
    dataAbortHandler handlers abort ⟨g.x.push 0, g.pc, g.devices⟩ =
      (do
        let value ← onDevices (handleMmioRead handlers a.address a.width)
        let registers ← Effect.checked
          (Checked.modify (g.x.push 0) a.register.toNat fun _ => value)
        Effect.change fun c => { c with registers := registers }
        advanceElrEl2 : Effect (Context σ) PUnit) ⟨g.x.push 0, g.pc, g.devices⟩ := by
  have hload : ¬abort.esrEl2 &&& esrEl2IssWnr ≠ 0 := by
    rw [h.wnr_ne_zero_iff, hw]
    decide
  rw [dataAbortHandler, if_neg h.isv_ne_zero, h.accessWidth_eq, Effect.checked_bind,
    Effect.look_bind, h.registerNumber_eq, index_frame, Effect.checked_bind, h.address_eq,
    if_neg hload]

/-- The trap of an access is the access without the cut of what it loads, and with another
cut of what it stores. -/
theorem trap_eq (h : Reports abort a) (hpc : g.pc.toNat + 4 < 2 ^ 64)
    (hfind : (handlers.find? fun e => e.Covers a.address) = some e)
    (hread : ∀ offset w, Effect.Firm (e.handler.read offset w))
    (hwrite : ∀ offset w value, Effect.Firm (e.handler.write offset w value)) :
    trap handlers abort g =
      a.executeWith id (storeValue a.size) e.handler (a.address - e.baseAddress) g := by
  rw [trap, synchronousHandler, if_pos h.dataAbort, Access.executeWith]
  cases hw : a.isWrite with
  | true =>
    rw [dataAbortHandler_of_write h hw, handleMmioWrite, hfind, Effect.bind_apply,
      onDevices_apply (hwrite _ _ _), if_pos rfl, Effect.look_bind]
    rw [Effect.bind_apply, onBus]
    rcases e.handler.write (a.address - e.baseAddress) a.width
      (storeValue a.size (readRegister g.x a.register)) g.devices with ⟨r, d⟩
    cases r with
    | error e => simp
    | ok v =>
      simp only
      rw [advanceElrEl2_apply hpc]
      simp [Effect.change]
  | false =>
    rw [dataAbortHandler_of_read h hw, handleMmioRead, hfind, Effect.bind_apply,
      onDevices_apply (hread _ _), if_neg (by decide), Effect.bind_apply, onBus]
    rcases e.handler.read (a.address - e.baseAddress) a.width g.devices with ⟨r, d⟩
    cases r with
    | error e => simp
    | ok value =>
      obtain ⟨registers, hmodify, hpop⟩ := modify_frame g.x a.register value
      simp only [hmodify]
      rw [Effect.checked_bind, Effect.change_bind, advanceElrEl2_apply hpc, Effect.change_bind]
      simp only [hpop, id_eq, Effect.change]

variable {p : Platform} {fuel w offset address : ℕ} {device : Device}

/-- The guest after a store. -/
def Guest.stored (g : Guest σ) : Except Fault PUnit × σ → Except Fault PUnit × Guest σ
  | (.ok _, d) => (.ok ⟨⟩, ⟨g.x, g.pc + 4, d⟩)
  | (.error e, d) => (.error e, ⟨g.x, g.pc, d⟩)

/-- The guest after a load to register `n`. -/
def Guest.loaded (g : Guest σ) (n : BitVec 5) (f : BitVec 64 → BitVec 64) :
    Except Fault (BitVec 64) × σ → Except Fault PUnit × Guest σ
  | (.ok value, d) => (.ok ⟨⟩, ⟨writeRegister g.x n (f value), g.pc + 4, d⟩)
  | (.error e, d) => (.error e, ⟨g.x, g.pc, d⟩)

section Execute

variable {load store : BitVec 64 → BitVec 64} {handler : MmioHandler σ} {o : ℕ}

theorem executeWith_of_write (hw : a.isWrite = true) :
    a.executeWith load store handler o g =
      g.stored (handler.write o a.width (store (readRegister g.x a.register)) g.devices) := by
  rw [Access.executeWith, if_pos hw, Effect.look_bind, Effect.bind_apply, onBus]
  rcases handler.write o a.width (store (readRegister g.x a.register)) g.devices with ⟨r, d⟩
  cases r <;> rfl

theorem executeWith_of_read (hw : a.isWrite = false) :
    a.executeWith load store handler o g =
      g.loaded a.register load (handler.read o a.width g.devices) := by
  rw [Access.executeWith, if_neg (by rw [hw]; decide), Effect.bind_apply, onBus]
  rcases handler.read o a.width g.devices with ⟨r, d⟩
  cases r <;> rfl

theorem stored_inj {r r' : Except Fault PUnit × σ} (h : g.stored r = g.stored r') : r = r' := by
  rcases r with ⟨r | r, d⟩ <;> rcases r' with ⟨r' | r', d'⟩ <;> simp_all [Guest.stored]

theorem readRegister_writeRegister {x : Vector (BitVec 64) 31} {n : BitVec 5} (hn : n ≠ 31)
    (value : BitVec 64) : readRegister (writeRegister x n value) n = value := by
  have hlt : n.toNat < 31 := by
    have h32 := n.isLt
    have hne : n.toNat ≠ 31 := fun h => hn (BitVec.eq_of_toNat_eq h)
    omega
  simp [readRegister, writeRegister, hlt]

/-- A register can hold any value. -/
theorem exists_readRegister {n : BitVec 5} (hn : n ≠ 31) (value : BitVec 64) :
    ∃ x, readRegister x n = value :=
  ⟨writeRegister (Vector.replicate 31 0) n value, readRegister_writeRegister hn value⟩

end Execute

/-! ## The devices -/

/-- No address belongs to two devices. -/
theorem covers_unique {other : Device} (h : (device.entry p fuel).Covers address)
    (hother : (other.entry p fuel).Covers address) : other = device := by
  cases device <;> cases other <;> simp only [MmioEntry.Covers, Device.entry] at h hother <;>
    first | rfl | omega

/-- The place in the list does not matter. -/
theorem find_map {l : List Device} (hmem : device ∈ l)
    (h : (device.entry p fuel).Covers address) :
    ((l.map (Device.entry p fuel)).find? fun e => e.Covers address) =
      some (device.entry p fuel) := by
  induction l with
  | nil => exact absurd hmem List.not_mem_nil
  | cons other l ih =>
    rw [List.map_cons]
    by_cases hother : (other.entry p fuel).Covers address
    · rw [List.find?_cons_of_pos (by simpa using hother), covers_unique h hother]
    · rw [List.find?_cons_of_neg (by simpa using hother)]
      refine ih ((List.mem_cons.1 hmem).resolve_left ?_)
      rintro rfl
      exact hother h

theorem find_device (h : (device.entry p fuel).Covers address) :
    ((mmioHandlers p fuel).find? fun e => e.Covers address) = some (device.entry p fuel) :=
  find_map (by cases device <;> decide) h

theorem read_firm : Effect.Firm ((device.entry p fuel).handler.read offset w) := by
  cases device with
  | uart => exact fun _ => nofun
  | blk => exact (Effect.Firm.look _).bind fun _ => (Effect.Firm.checked _).bind fun _ => .pure _
  | distributor => exact (Effect.Firm.look _).bind fun _ => .checked _
  | redistributor => exact (Effect.Firm.look _).bind fun _ => .checked _

theorem write_firm {value : BitVec 64} :
    Effect.Firm ((device.entry p fuel).handler.write offset w value) := by
  cases device with
  | uart => exact .change _
  | blk => exact fun s => VirtioBlkMmio.write_firm s.blk
  | distributor =>
    exact (Effect.Firm.look _).bind fun _ => (Effect.Firm.checked _).bind fun _ => .change _
  | redistributor =>
    exact (Effect.Firm.look _).bind fun _ => (Effect.Firm.checked _).bind fun _ => .change _

/-- What holds of the devices of a VM from its creation on. -/
structure Devices.Wf (s : Devices) : Prop where
  flag : s.uart.flag = 0 ∨ s.uart.flag = uartFrRxfe
  raw : s.uart.rawInterruptStatus = 0 ∨ s.uart.rawInterruptStatus = uartRisRxris
  interruptStatus : s.blk.device.interruptStatus = 0 ∨ s.blk.device.interruptStatus = 1

end Trap

end MiniVisor
