import MiniVisor.Library.Checked
import Mathlib.Data.List.Basic

/-!
# Command console

`write` takes the bytes of the host's serial port while the console is active. It collects
a line of up to 64 bytes and runs it at a terminator. The flag `ignore_lf` is set at a
carriage return and is meant for the line feed behind it; only a line feed that ends a line
clears it again.

The functions behind the commands are outside of the console: whether a VM could be booted
or switched to is a parameter.
-/
namespace MiniVisor

def cr : UInt8 := 0x0D
def lf : UInt8 := 0x0A

/-- `is_ascii_control`. -/
def isAsciiControl (b : UInt8) : Bool := b < 0x20 || b == 0x7F

structure Console where
  buffer : Vector UInt8 64
  bufferPointer : ℕ
  ignoreLf : Bool
  bufferPointer_le : bufferPointer ≤ 64

/-- What the commands find when they run: for the command number `k`, whether `launch_cpu`
starts a CPU, and whether `switch_active_vm` knows the VM. -/
structure Hypervisor where
  launchCpu : ℕ → Bool
  switchActiveVm : ℕ → ℕ → Bool

/-- What a command comes to. `off` does not return. -/
inductive Reply where
  | stays
  | leaves
  | off
  deriving DecidableEq

namespace Console

def bufferSize : ℕ := 64

def new : Console where
  buffer := Vector.replicate 64 0
  bufferPointer := 0
  ignoreLf := false
  bufferPointer_le := Nat.zero_le _

/-- `buffer[0..buffer_pointer]` -/
def line (c : Console) : List UInt8 := c.buffer.toList.take c.bufferPointer

/-! ## Commands -/

/-- The characters between which `split_whitespace` splits. -/
def isWhitespace (c : Char) : Bool :=
  (0x09 ≤ c.val && c.val ≤ 0x0D) || c.val == 0x20 || c.val == 0x85 || c.val == 0xA0 ||
    c.val == 0x1680 || (0x2000 ≤ c.val && c.val ≤ 0x200A) || c.val == 0x2028 ||
    c.val == 0x2029 || c.val == 0x202F || c.val == 0x205F || c.val == 0x3000

/-- `split_whitespace`; `word` is the beginning of the current part. -/
def splitWhitespace (word : List Char) : List Char → List (List Char)
  | [] => if word = [] then [] else [word]
  | c :: rest =>
    if isWhitespace c then
      if word = [] then splitWhitespace [] rest else word :: splitWhitespace [] rest
    else splitWhitespace (word ++ [c]) rest

/-- `to_digit` -/
def toDigit (radix : ℕ) (c : Char) : Option ℕ :=
  let value :=
    if '0' ≤ c ∧ c ≤ '9' then c.toNat - '0'.toNat
    else if 'a' ≤ c ∧ c ≤ 'z' then c.toNat - 'a'.toNat + 10
    else if 'A' ≤ c ∧ c ≤ 'Z' then c.toNat - 'A'.toNat + 10
    else radix
  if value < radix then some value else none

/-- `usize::from_str_radix` -/
def fromStrRadix (radix : ℕ) (s : List Char) : Option ℕ :=
  let digits := if s.head? = some '+' then s.tail else s
  if digits = [] then none
  else digits.foldlM (fun n c => do
    Checked.add 64 (← Checked.mul 64 n radix) (← toDigit radix c)) 0

def strToUsize (s : List Char) : Option ℕ :=
  if s.take 2 = ['0', 'x'] then fromStrRadix 16 (s.drop 2)
  else if s.take 2 = ['0', 'o'] then fromStrRadix 8 (s.drop 2)
  else if s.take 2 = ['0', 'b'] then fromStrRadix 2 (s.drop 2)
  else fromStrRadix 10 s

def switchVm (switchActiveVm : ℕ → Bool) : List (List Char) → Reply
  | [] => .stays
  | arg :: _ =>
    match strToUsize arg with
    | none => .stays
    | some vmId => if switchActiveVm vmId then .leaves else .stays

/-- The commands of `COMMAND_LIST`, as number `k`. -/
def runCommand (h : Hypervisor) (k : ℕ) (command : List Char) (args : List (List Char)) : Reply :=
  if command = "boot".toList then if h.launchCpu k then .leaves else .stays
  else if command = "switch".toList then switchVm (h.switchActiveVm k) args
  else if command = "echo".toList then .stays
  else if command = "poweroff".toList then .off
  else .stays

/-- What the line of `exec_command` comes to. -/
def reply (h : Hypervisor) (k : ℕ) (input : List UInt8) : Reply :=
  match String.fromUTF8? ⟨input.toArray⟩ with
  | none => .stays
  | some text =>
    match splitWhitespace [] text.toList with
    | [] => .stays
    | command :: args => runCommand h k command args

end Console

/-- The console, whether it is active, and the buffers that `exec_command` ran with. -/
structure Session where
  console : Console
  active : Bool
  runs : List (List UInt8)

namespace Session

/-- `exec_command`; the prompt that it prints is left out. -/
def execCommand (h : Hypervisor) (s : Session) : Session :=
  let runs := s.runs ++ [s.console.line]
  let empty := { s.console with bufferPointer := 0, bufferPointer_le := Nat.zero_le _ }
  if s.console.bufferPointer = 0 then { s with console := empty, runs := runs }
  else
    match Console.reply h s.runs.length s.console.line with
    | .stays => { s with console := empty, runs := runs }
    | .leaves => { s with active := false, runs := runs }
    | .off => { s with active := false, runs := runs }

/-- `Console::write` -/
def write (h : Hypervisor) (s : Session) (data : UInt8) : Session :=
  if data = cr ∨ (data = lf ∧ s.console.ignoreLf = false) then
    execCommand h { s with console.ignoreLf := data == cr }
  else if isAsciiControl data then s
  else if hfull : s.console.bufferPointer = Console.bufferSize then s
  else
    have hroom : s.console.bufferPointer < 64 :=
      Nat.lt_of_le_of_ne s.console.bufferPointer_le hfull
    { s with console :=
      { s.console with
        buffer := s.console.buffer.set s.console.bufferPointer data
        bufferPointer := s.console.bufferPointer + 1
        bufferPointer_le := hroom } }

/-- The bytes one after the other, as long as the console is active. -/
def writeAll (h : Hypervisor) (s : Session) (stream : List UInt8) : Session :=
  stream.foldl (fun s data => if s.active then s.write h data else s) s

end Session

/-! ## What a line is -/

namespace Console

/-- The lines of a stream: a carriage return ends one, and so does a line feed unless it is
the byte right behind a carriage return. Of a line the first 64 bytes that are no control
bytes count. `afterCr`: the byte before was a carriage return; `typed`: the line so far. -/
def lines (afterCr : Bool) (typed : List UInt8) : List UInt8 → List (List UInt8)
  | [] => []
  | b :: rest =>
    if b = cr then typed.take bufferSize :: lines true [] rest
    else if b = lf then
      if afterCr then lines false typed rest
      else typed.take bufferSize :: lines false [] rest
    else lines false (if isAsciiControl b then typed else typed ++ [b]) rest

/-- The lines that `write` runs, without the buffer. -/
def runLines (ignoreLf : Bool) (typed : List UInt8) : List UInt8 → List (List UInt8)
  | [] => []
  | b :: rest =>
    if b = cr then typed.take bufferSize :: runLines true [] rest
    else if b = lf ∧ ignoreLf = false then typed.take bufferSize :: runLines false [] rest
    else runLines ignoreLf (if isAsciiControl b then typed else typed ++ [b]) rest

/-- Every line feed that comes while line feeds are ignored stands right behind a carriage
return. -/
def LfsFollow (ignoreLf afterCr : Bool) (stream : List UInt8) : Prop :=
  ∀ i, stream[i]? = some lf → (ignoreLf = true ∨ cr ∈ stream.take i) →
    (i = 0 ∧ afterCr = true) ∨ (0 < i ∧ stream[i - 1]? = some cr)

theorem lfsFollow_cons (ignoreLf afterCr : Bool) (b : UInt8) (rest : List UInt8) :
    LfsFollow ignoreLf afterCr (b :: rest) ↔
      (b = lf → ignoreLf = true → afterCr = true) ∧
        LfsFollow (ignoreLf || b == cr) (b == cr) rest := by
  constructor
  · intro hall
    constructor
    · intro hb hignore
      have hfirst := hall 0 (by simp [hb]) (.inl hignore)
      simpa using hfirst
    · intro i hi hignored
      have hnext := hall (i + 1) (by simpa using hi) (by
        simp only [List.take_succ_cons, List.mem_cons]
        rcases hignored with hflag | hmem
        · simp only [Bool.or_eq_true, beq_iff_eq] at hflag
          exact hflag.imp_right fun h => .inl h.symm
        · exact .inr (.inr hmem))
      simp only [Nat.add_eq_zero_iff, one_ne_zero, and_false, false_and, false_or,
        Nat.add_sub_cancel] at hnext
      cases i with
      | zero => exact .inl ⟨rfl, by simpa using hnext⟩
      | succ i => exact .inr ⟨Nat.succ_pos i, by simpa using hnext⟩
  · rintro ⟨hfirst, hrest⟩ i hi hignored
    cases i with
    | zero =>
      simp only [List.getElem?_cons_zero, Option.some.injEq] at hi
      simp only [List.take_zero, List.not_mem_nil, or_false] at hignored
      exact .inl ⟨rfl, hfirst hi hignored⟩
    | succ i =>
      have hnext := hrest i (by simpa using hi) (by
        simp only [List.take_succ_cons, List.mem_cons] at hignored
        simp only [Bool.or_eq_true, beq_iff_eq]
        rcases hignored with hflag | hcr | hmem
        · exact .inl (.inl hflag)
        · exact .inl (.inr hcr.symm)
        · exact .inr hmem)
      refine .inr ⟨Nat.succ_pos i, ?_⟩
      rcases hnext with ⟨rfl, hcr⟩ | ⟨hpos, hcr⟩
      · simpa using hcr
      · obtain ⟨i, rfl⟩ := Nat.exists_eq_succ_of_ne_zero hpos.ne'
        simpa using hcr

theorem isAsciiControl_lf : isAsciiControl lf = true := by decide

/-- The code never runs more often than there are terminators. -/
theorem runLines_length_le (stream : List UInt8) :
    ∀ {ignoreLf afterCr : Bool} {typed typed' : List UInt8}, (afterCr = true → ignoreLf = true) →
      (runLines ignoreLf typed stream).length ≤ (lines afterCr typed' stream).length := by
  induction stream with
  | nil => intros; exact Nat.le_refl _
  | cons b rest ih =>
    intro ignoreLf afterCr typed typed' hflag
    by_cases hcr : b = cr
    · simp only [runLines, lines, if_pos hcr, List.length_cons]
      exact Nat.succ_le_succ (ih fun _ => rfl)
    · by_cases hlf : b = lf
      · subst hlf
        cases ignoreLf with
        | true =>
          cases afterCr with
          | true => simpa [runLines, lines, hcr] using ih (by simp)
          | false =>
            simp only [runLines, lines, if_neg hcr, Bool.true_eq_false, and_false, if_false,
              if_true, Bool.false_eq_true, List.length_cons]
            exact Nat.le_succ_of_le (ih (by simp))
        | false =>
          have hafter : afterCr = false := by simpa using hflag
          subst hafter
          simpa [runLines, lines, hcr] using ih (by simp)
      · simp only [runLines, lines, if_neg hcr, hlf, false_and, if_false]
        exact ih (by simp)

theorem runLines_eq_lines_iff (stream : List UInt8) :
    ∀ {ignoreLf afterCr : Bool} {typed : List UInt8}, (afterCr = true → ignoreLf = true) →
      (runLines ignoreLf typed stream = lines afterCr typed stream ↔
        LfsFollow ignoreLf afterCr stream) := by
  induction stream with
  | nil =>
    intros
    simp [runLines, lines, LfsFollow]
  | cons b rest ih =>
    intro ignoreLf afterCr typed hflag
    rw [lfsFollow_cons]
    by_cases hcr : b = cr
    · have hb : b ≠ lf := by rw [hcr]; decide
      simpa [runLines, lines, hcr, hb, show cr ≠ lf by decide] using ih (fun _ => rfl)
    · have hrest : (b == cr) = false := by simpa using hcr
      rw [hrest, Bool.or_false]
      by_cases hlf : b = lf
      · subst hlf
        cases ignoreLf with
        | true =>
          cases afterCr with
          | true => simpa [runLines, lines, hcr, isAsciiControl_lf] using ih (by simp)
          | false =>
            -- here the code misses a terminator, and never catches up
            have hshort : (runLines true typed rest).length <
                (typed.take bufferSize :: lines false [] rest).length :=
              Nat.lt_succ_of_le (runLines_length_le rest (by simp))
            have hne : runLines true typed rest ≠ typed.take bufferSize :: lines false [] rest :=
              fun h => absurd (congrArg List.length h) hshort.ne
            simpa [runLines, lines, hcr, isAsciiControl_lf] using hne
        | false =>
          have hafter : afterCr = false := by simpa using hflag
          subst hafter
          simpa [runLines, lines, hcr] using ih (by simp)
      · simpa [runLines, lines, hcr, hlf] using ih (by simp)

theorem line_length (c : Console) : c.line.length = c.bufferPointer := by
  simpa [line] using c.bufferPointer_le

end Console

/-! ## The buffer and the lines -/

namespace Session

section Writing

variable {h : Hypervisor} {s : Session} {typed : List UInt8}

/-- A command that leaves the console active has emptied the buffer. -/
theorem execCommand_stays (hactive : (s.execCommand h).active = true) :
    (s.execCommand h).runs = s.runs ++ [s.console.line] ∧
      (s.execCommand h).console.line = [] ∧
      (s.execCommand h).console.ignoreLf = s.console.ignoreLf := by
  unfold execCommand at hactive ⊢
  by_cases hempty : s.console.bufferPointer = 0
  · simp [if_pos hempty, Console.line]
  · simp only [if_neg hempty] at hactive ⊢
    cases hreply : Console.reply h s.runs.length s.console.line with
    | stays => simp [Console.line]
    | leaves => simp [hreply] at hactive
    | off => simp [hreply] at hactive

/-- A terminator that counts: the line runs. -/
theorem write_terminator {b : UInt8} (hline : s.console.line = typed.take Console.bufferSize)
    (hends : b = cr ∨ (b = lf ∧ s.console.ignoreLf = false))
    (hactive : (s.write h b).active = true) :
    (s.write h b).runs = s.runs ++ [typed.take Console.bufferSize] ∧
      (s.write h b).console.line = [] ∧ (s.write h b).console.ignoreLf = (b == cr) := by
  unfold write at hactive ⊢
  rw [if_pos hends] at hactive ⊢
  have hstays := execCommand_stays hactive
  rw [← hline]
  exact hstays

/-- Any other byte: the line may grow, and nothing else changes. -/
theorem write_other {b : UInt8} (hline : s.console.line = typed.take Console.bufferSize)
    (hends : ¬ (b = cr ∨ (b = lf ∧ s.console.ignoreLf = false))) :
    (s.write h b).runs = s.runs ∧ (s.write h b).active = s.active ∧
      (s.write h b).console.ignoreLf = s.console.ignoreLf ∧
      (s.write h b).console.line =
        (if isAsciiControl b then typed else typed ++ [b]).take Console.bufferSize := by
  unfold write
  rw [if_neg hends]
  by_cases hcontrol : isAsciiControl b = true
  · simp only [if_pos hcontrol]
    exact ⟨trivial, trivial, trivial, hline⟩
  · simp only [if_neg hcontrol]
    have hlength : s.console.bufferPointer = min 64 typed.length := by
      rw [← Console.line_length, hline, List.length_take, Console.bufferSize]
    by_cases hfull : s.console.bufferPointer = Console.bufferSize
    · simp only [dif_pos hfull]
      refine ⟨trivial, trivial, trivial, ?_⟩
      rw [hline, List.take_append_of_le_length]
      simp only [Console.bufferSize] at hfull ⊢
      omega
    · simp only [dif_neg hfull]
      refine ⟨trivial, trivial, trivial, ?_⟩
      have hroom : typed.length < Console.bufferSize := by
        simp only [Console.bufferSize] at hfull ⊢
        omega
      have hall : typed.take Console.bufferSize = typed := List.take_of_length_le hroom.le
      have hmore : (typed ++ [b]).take Console.bufferSize = typed ++ [b] :=
        List.take_of_length_le (by simpa using hroom)
      rw [hmore, ← hall, ← hline]
      simp only [Console.line, Vector.toList_set]
      rw [List.take_add_one, List.take_set_of_le (Nat.le_refl _), List.getElem?_set_self]
      · rfl
      · rw [Vector.length_toList]
        exact Nat.lt_of_le_of_ne s.console.bufferPointer_le hfull

end Writing

theorem writeAll_cons (h : Hypervisor) (s : Session) (b : UInt8) (rest : List UInt8) :
    s.writeAll h (b :: rest) = (if s.active then s.write h b else s).writeAll h rest := rfl

theorem writeAll_inactive (h : Hypervisor) {s : Session} (hs : s.active = false)
    (stream : List UInt8) : s.writeAll h stream = s := by
  induction stream with
  | nil => rfl
  | cons b rest ih => rw [writeAll_cons, hs, if_neg Bool.false_ne_true, ih]

/-- While the console stays active, the lines it runs are those of `runLines`. -/
theorem writeAll_runs (h : Hypervisor) (stream : List UInt8) :
    ∀ {s : Session} {typed : List UInt8}, s.console.line = typed.take Console.bufferSize →
      (s.writeAll h stream).active = true →
      (s.writeAll h stream).runs =
        s.runs ++ Console.runLines s.console.ignoreLf typed stream := by
  induction stream with
  | nil =>
    intro s typed _ _
    simp [writeAll, Console.runLines]
  | cons b rest ih =>
    intro s typed hline hactive
    cases hs : s.active with
    | false =>
      rw [writeAll_inactive h hs, hs] at hactive
      exact absurd hactive Bool.false_ne_true
    | true =>
      rw [writeAll_cons, if_pos hs] at hactive ⊢
      by_cases hends : b = cr ∨ (b = lf ∧ s.console.ignoreLf = false)
      · have hstill : (s.write h b).active = true := by
          by_contra hoff
          rw [Bool.not_eq_true] at hoff
          rw [writeAll_inactive h hoff, hoff] at hactive
          exact absurd hactive Bool.false_ne_true
        obtain ⟨hruns, hempty, hflag⟩ := write_terminator hline hends hstill
        have hnext : (s.write h b).console.line = ([] : List UInt8).take Console.bufferSize := by
          simpa using hempty
        rw [ih hnext hactive, hruns, hflag, List.append_assoc]
        rcases hends with hcr | ⟨hlf, hignore⟩
        · simp [Console.runLines, hcr]
        · have hcr : lf ≠ cr := by decide
          have hkind : (lf == cr) = false := by decide
          simp [Console.runLines, hcr, hkind, hlf, hignore]
      · obtain ⟨hruns, -, hflag, hnext⟩ := write_other (h := h) hline hends
        rw [ih hnext hactive, hruns, hflag]
        simp only [not_or] at hends
        rw [Console.runLines, if_neg hends.1, if_neg hends.2]

/-- `exec_command` runs once for each line, with the line in the buffer, exactly when no line
feed that does not belong to a carriage return comes after one. The flag of an earlier
carriage return counts too: `reset_buffer` keeps it. -/
theorem runs_lines_iff (h : Hypervisor) (s : Session) (stream : List UInt8)
    (hempty : s.console.bufferPointer = 0) (hactive : (s.writeAll h stream).active = true) :
    (s.writeAll h stream).runs = s.runs ++ Console.lines false [] stream ↔
      ∀ i, stream[i]? = some lf → (s.console.ignoreLf = true ∨ cr ∈ stream.take i) →
        0 < i ∧ stream[i - 1]? = some cr := by
  have hline : s.console.line = ([] : List UInt8).take Console.bufferSize := by
    simp [Console.line, hempty]
  rw [writeAll_runs h stream hline hactive, List.append_cancel_left_eq,
    Console.runLines_eq_lines_iff stream (by simp)]
  simp [Console.LfsFollow]

/-- A console that has just been activated, with no VM to boot or to switch to. -/
def fresh : Session := ⟨.new, true, []⟩

def noVms : Hypervisor := ⟨fun _ => false, fun _ _ => false⟩

/-- `hi`, CR, LF, `boot`, CR. -/
def typedLines : List UInt8 := [0x68, 0x69, 0x0D, 0x0A, 0x62, 0x6F, 0x6F, 0x74, 0x0D]

theorem typedLines_run :
    (fresh.writeAll noVms typedLines).runs =
      fresh.runs ++ Console.lines false [] typedLines := by
  refine (runs_lines_iff noVms fresh typedLines rfl (by decide +kernel)).mpr ?_
  intro i hi _
  have hplaces : ∀ i < 9, typedLines[i]? = some lf → 0 < i ∧ typedLines[i - 1]? = some cr := by
    decide
  exact hplaces i (List.getElem?_eq_some_iff.mp hi).1 hi

/-- CR, `a`, LF: the second line does not run. -/
theorem lone_lf_ignored :
    (fresh.writeAll noVms [0x0D, 0x61, 0x0A]).active = true ∧
      (fresh.writeAll noVms [0x0D, 0x61, 0x0A]).runs = [[]] ∧
      Console.lines false [] [0x0D, 0x61, 0x0A] = [[], [0x61]] := by
  decide +kernel

end Session

end MiniVisor
