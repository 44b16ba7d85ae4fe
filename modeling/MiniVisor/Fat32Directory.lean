import MiniVisor.Fat32
import MiniVisor.Library.AsciiCase
import Mathlib.Data.List.DropRight

/-!
# Files in the root directory

`search_file` scans the entries of the first cluster of the root directory. It decodes the
padded name of each file into a buffer and compares it with the target, as it is stored and
in lower case. The decoder leaves out every space behind the first byte, not only the
padding.
-/
namespace MiniVisor

open AsciiCase

structure DirectoryEntry where
  name : Vector UInt8 8
  nameExtension : Vector UInt8 3
  attributes : UInt8
  startingClusterNumberHigh : UInt16
  startingClusterNumber : UInt16
  fileLength : UInt32

namespace DirectoryEntry

/-- `size_of::<DirectoryEntry>()` -/
def size : ℕ := 32

def readU16 (m : Memory) (address : ℕ) : UInt16 :=
  (m address).toUInt16 ||| (m (address + 1)).toUInt16 <<< 8

def readU32 (m : Memory) (address : ℕ) : UInt32 :=
  (readU16 m address).toUInt32 ||| (readU16 m (address + 2)).toUInt32 <<< 16

/-- The entry at an address. -/
def ofMemory (m : Memory) (address : ℕ) : DirectoryEntry where
  name := Vector.ofFn fun i => m (address + i)
  nameExtension := Vector.ofFn fun i => m (address + 8 + i)
  attributes := m (address + 11)
  startingClusterNumberHigh := readU16 m (address + 20)
  startingClusterNumber := readU16 m (address + 26)
  fileLength := readU32 m (address + 28)

def info (e : DirectoryEntry) : FileInfo where
  entryCluster :=
    (e.startingClusterNumberHigh.toUInt32 <<< 16 ||| e.startingClusterNumber.toUInt32).toNat
  fileSize := e.fileLength.toNat
  fileSize_lt := e.fileLength.toNat_lt

end DirectoryEntry

namespace Fat32

def attributeDirectory : UInt8 := 0x10
def attributeLongFileName : UInt8 := 0x0F

def space : UInt8 := 0x20
def dot : UInt8 := 0x2E

/-- `p += 1; buffer[p] = n` -/
def push (b : Vector UInt8 12 × ℕ) (n : UInt8) : Option (Vector UInt8 12 × ℕ) :=
  if h : b.2 + 1 < 12 then some (b.1.set (b.2 + 1) n, b.2 + 1) else none

/-- One pass of the loops over the name and over the extension. -/
def pushName (b : Vector UInt8 12 × ℕ) (n : UInt8) : Option (Vector UInt8 12 × ℕ) :=
  if n = space then some b else push b n

/-- `buffer[0]` -/
def firstByte (e : DirectoryEntry) : UInt8 := if e.name.get 0 = 0x05 then 0xE5 else e.name.get 0

/-- The outer `Option` is an index out of the buffer. -/
def getFileName (e : DirectoryEntry) : Option (Option (List UInt8)) := do
  let b := ((Vector.replicate 12 0).set 0 (firstByte e), 0)
  let b ← e.name.toList.tail.foldlM pushName b
  let b ← push b dot
  let b ← e.nameExtension.toList.foldlM pushName b
  let last ← b.1[b.2]?
  let b := if last = dot then (b.1.setIfInBounds b.2 0, b.2) else (b.1, b.2 + 1)
  Checked.require (b.2 ≤ 12)
  let name := b.1.toList.take b.2
  return if ValidUtf8 name then some name else none

/-- The loop of `search_file`. -/
def searchEntries (target : List UInt8) : List DirectoryEntry → Option (Option FileInfo)
  | [] => some none
  | e :: rest =>
    if e.attributes &&& 0x3F = attributeLongFileName then searchEntries target rest
    else if e.attributes &&& attributeDirectory ≠ 0 then searchEntries target rest
    else if e.name.get 0 = 0 then some none
    else if e.name.get 0 = 0xE5 then searchEntries target rest
    else do
      match ← getFileName e with
      | some name =>
        if name = target ∨ name.map lower = target then return some e.info
        else searchEntries target rest
      | none => searchEntries target rest

/-- The entries of the first cluster, which is in memory. -/
def entries (f : Fat32) (m : Memory) (rootDirectoryList : ℕ) : List DirectoryEntry :=
  (List.range (f.bytesPerSector * f.sectorsPerCluster / DirectoryEntry.size)).map fun i =>
    .ofMemory m (rootDirectoryList + DirectoryEntry.size * i)

/-- `as_bytes` -/
def bytesOf (name : String) : List UInt8 := name.toByteArray.data.toList

def searchFile (f : Fat32) (m : Memory) (rootDirectoryList : ℕ) (targetName : String) :
    Option (Option FileInfo) :=
  searchEntries (bytesOf targetName) (f.entries m rootDirectoryList)

end Fat32

/-! ## Regular files -/

namespace DirectoryEntry

open Fat32

def attributeVolumeLabel : UInt8 := 0x08

def isLongName (e : DirectoryEntry) : Bool := e.attributes &&& 0x3F = attributeLongFileName

def isDirectory (e : DirectoryEntry) : Bool := e.attributes &&& attributeDirectory ≠ 0

def isVolumeLabel (e : DirectoryEntry) : Bool := e.attributes &&& attributeVolumeLabel ≠ 0

def isDeleted (e : DirectoryEntry) : Bool := e.name.get 0 = 0xE5

def isEnd (e : DirectoryEntry) : Bool := e.name.get 0 = 0

def isRegular (e : DirectoryEntry) : Bool :=
  !e.isDeleted && !e.isLongName && !e.isDirectory && !e.isVolumeLabel

/-- A field without the spaces at its end. -/
def trimmed (field : List UInt8) : List UInt8 := field.rdropWhile (· = space)

/-- The 8.3 name; a first byte 0xE5 is stored as 0x05. -/
def shortName (e : DirectoryEntry) : List UInt8 :=
  let name := trimmed (firstByte e :: e.name.toList.tail)
  let extension := trimmed e.nameExtension.toList
  if extension = [] then name else name ++ dot :: extension

/-- The entry has the name `target`, as stored or in lower case. -/
def isNamed (target : List UInt8) (e : DirectoryEntry) : Bool :=
  e.shortName = target ∨ e.shortName.map lower = target

def isWanted (target : List UInt8) (e : DirectoryEntry) : Bool := e.isRegular && e.isNamed target

/-- The first regular file in front of the end marker that has the name `target`. -/
def firstFile (target : List UInt8) (es : List DirectoryEntry) : Option FileInfo :=
  ((es.takeWhile (!·.isEnd)).find? (isWanted target)).map info

/-- A field whose spaces are all at its end. -/
def Padded (field : List UInt8) : Prop := field.Pairwise fun a b => a = space → b = space

instance (field : List UInt8) : Decidable (Padded field) :=
  inferInstanceAs (Decidable (field.Pairwise _))

/-- A name that the decoder gets right: the spaces behind the first byte are padding, the name
is not all spaces, and the extension does not end with a dot. -/
structure Tidy (e : DirectoryEntry) : Prop where
  name : Padded e.name.toList.tail
  first : e.name.get 0 = space → ∃ b ∈ e.name.toList.tail, b ≠ space
  nameExtension : Padded e.nameExtension.toList
  last : (trimmed e.nameExtension.toList).getLast? ≠ some dot

/-- The entries whose names are compared. -/
def isCompared (e : DirectoryEntry) : Bool :=
  !e.isEnd && !e.isDeleted && !e.isLongName && !e.isDirectory

/-- An entry that the scan takes for what it is: the end marker has none of the attributes that
are looked at before it, the name of a file is tidy, and no volume label has the target's
name. -/
structure Plain (target : List UInt8) (e : DirectoryEntry) : Prop where
  marker : e.isEnd = true → e.isLongName = false ∧ e.isDirectory = false
  tidy : e.isCompared = true → e.Tidy
  label : e.isCompared = true → e.isVolumeLabel = true → e.isNamed target = false

theorem trimmed_concat (l : List UInt8) (b : UInt8) :
    trimmed (l ++ [b]) = if b = space then trimmed l else l ++ [b] := by
  simp only [trimmed, List.rdropWhile_concat, decide_eq_true_eq]

theorem trimmed_cons {a : UInt8} {l : List UInt8} (h : a = space → ∃ b ∈ l, b ≠ space) :
    trimmed (a :: l) = a :: trimmed l := by
  induction l using List.reverseRecOn with
  | nil =>
    have ha : a ≠ space := fun heq => by simpa using h heq
    exact (trimmed_concat [] a).trans (if_neg ha)
  | append_singleton l b ih =>
    rw [← List.cons_append, trimmed_concat, trimmed_concat]
    by_cases hb : b = space
    · rw [if_pos hb, if_pos hb]
      refine ih fun heq => ?_
      obtain ⟨c, hc, hne⟩ := h heq
      rcases List.mem_append.1 hc with hc | hc
      · exact ⟨c, hc, hne⟩
      · exact absurd ((List.mem_singleton.1 hc).trans hb) hne
    · rw [if_neg hb, if_neg hb]
      rfl

theorem firstFile_cons (target : List UInt8) (e : DirectoryEntry) (rest : List DirectoryEntry) :
    firstFile target (e :: rest) =
      if e.isEnd then none
      else if e.isWanted target then some e.info
      else firstFile target rest := by
  unfold firstFile
  by_cases hend : e.isEnd = true
  · rw [if_pos hend, List.takeWhile_cons_of_neg (by simp [hend])]
    rfl
  · rw [if_neg hend, List.takeWhile_cons_of_pos (by simp [hend])]
    by_cases hfound : e.isWanted target = true
    · rw [if_pos hfound, List.find?_cons_of_pos hfound]
      rfl
    · rw [if_neg hfound, List.find?_cons_of_neg hfound]

end DirectoryEntry

/-! ## The decoder -/

namespace Fat32

open DirectoryEntry

variable {b : Vector UInt8 12 × ℕ} {l : List UInt8} {e : DirectoryEntry}

/-- The buffer holds `l` up to the index. -/
structure Holds (b : Vector UInt8 12 × ℕ) (l : List UInt8) : Prop where
  take : b.1.toList.take (b.2 + 1) = l
  length : l.length = b.2 + 1

theorem Holds.push (h : Holds b l) (hroom : l.length < 12) (n : UInt8) :
    ∃ b', Fat32.push b n = some b' ∧ Holds b' (l ++ [n]) := by
  have hlength := h.length
  have hlt : b.2 + 1 < 12 := by omega
  refine ⟨_, dif_pos hlt, ?_, by simp [hlength]⟩
  dsimp only
  rw [Vector.toList_set, List.take_add_one, List.take_set_of_le (Nat.le_refl _), h.take,
    List.getElem?_set_self (by simpa using hlt)]
  rfl

/-- What the loops keep of a field. -/
def kept (field : List UInt8) : List UInt8 := field.filter (· ≠ space)

theorem Holds.pushName (field : List UInt8) : ∀ {b l}, Holds b l → l.length + field.length ≤ 12 →
    ∃ b', field.foldlM Fat32.pushName b = some b' ∧ Holds b' (l ++ kept field) := by
  induction field with
  | nil =>
    intro b l h _
    exact ⟨b, rfl, by simpa [kept] using h⟩
  | cons n field ih =>
    intro b l h hroom
    rw [List.length_cons] at hroom
    by_cases hn : n = space
    · obtain ⟨b', hb', hholds⟩ := ih h (by omega)
      refine ⟨b', ?_, by simpa [kept, hn] using hholds⟩
      rw [List.foldlM_cons, Fat32.pushName, if_pos hn]
      exact hb'
    · obtain ⟨b₁, hb₁, hholds₁⟩ := h.push (by omega) n
      obtain ⟨b', hb', hholds⟩ := ih hholds₁ (by simp; omega)
      refine ⟨b', ?_, by simpa [kept, hn] using hholds⟩
      rw [List.foldlM_cons, Fat32.pushName, if_neg hn, hb₁]
      exact hb'

/-- What is in the buffer at the end. -/
def written (e : DirectoryEntry) : List UInt8 :=
  firstByte e :: kept e.name.toList.tail ++ [dot] ++ kept e.nameExtension.toList

def decodedName (e : DirectoryEntry) : List UInt8 :=
  if (written e).getLast? = some dot then (written e).dropLast else written e

/-- The decoder never leaves the buffer. -/
theorem getFileName_eq (e : DirectoryEntry) : getFileName e =
    some (if ValidUtf8 (decodedName e) then some (decodedName e) else none) := by
  have hkept (field : List UInt8) : (kept field).length ≤ field.length :=
    List.length_filter_le _ _
  have hname : e.name.toList.tail.length = 7 := by simp
  have hextension : e.nameExtension.toList.length = 3 := by simp
  have hstart : Holds ((Vector.replicate 12 0).set 0 (firstByte e), 0) [firstByte e] := ⟨rfl, rfl⟩
  obtain ⟨b₁, hb₁, h₁⟩ := hstart.pushName e.name.toList.tail (by simp)
  have hlength₁ := hkept e.name.toList.tail
  obtain ⟨b₂, hb₂, h₂⟩ := h₁.push (by simp; omega) dot
  obtain ⟨b₃, hb₃, h₃⟩ := h₂.pushName e.nameExtension.toList (by simp; omega)
  have hwritten : Holds b₃ (written e) := h₃
  have hroom : (written e).length ≤ 12 := by
    have hlength₃ := hkept e.nameExtension.toList
    simp only [written, List.length_append, List.length_cons, List.length_nil]
    omega
  have hlast : b₃.1[b₃.2]? = (written e).getLast? := by
    have htake := hwritten.take
    rw [List.getLast?_eq_getElem?, hwritten.length, Nat.add_sub_cancel, ← htake,
      List.getElem?_take_of_lt (Nat.lt_succ_self _), Vector.getElem?_toList]
  have hlength := hwritten.length
  obtain ⟨last, hsome⟩ : ∃ last, (written e).getLast? = some last := by
    rw [← Option.isSome_iff_exists, List.getLast?_isSome, ← List.length_pos_iff]
    omega
  rw [hsome] at hlast
  unfold getFileName
  simp only [hb₁, Option.bind_eq_bind, Option.bind_some, hb₂, hb₃, hlast]
  unfold decodedName
  by_cases hdot : last = dot
  · have hle : b₃.2 ≤ 12 := by omega
    have hname : (b₃.1.setIfInBounds b₃.2 0).toList.take b₃.2 = (written e).dropLast := by
      rw [Vector.toList_setIfInBounds, List.take_set_of_le (Nat.le_refl _), List.dropLast_eq_take,
        hlength, Nat.add_sub_cancel, ← hwritten.take, List.take_take]
      simp
    simp only [hsome, hdot, if_true, Checked.require, if_pos hle, hname]
    rfl
  · have hle : b₃.2 + 1 ≤ 12 := by omega
    have hne : (written e).getLast? ≠ some dot := by rwa [hsome, Ne, Option.some.injEq]
    simp only [if_neg hdot, if_neg hne, Checked.require, if_pos hle, hwritten.take]
    rfl

theorem kept_eq_trimmed (field : List UInt8) (h : Padded field) : kept field = trimmed field := by
  induction field with
  | nil => rfl
  | cons a field ih =>
    obtain ⟨hrest, hfield⟩ := List.pairwise_cons.1 h
    by_cases ha : a = space
    · have hspaces : ∀ b ∈ a :: field, b = space := by
        rintro b (_ | ⟨_, hb⟩)
        · exact ha
        · exact hrest b hb ha
      have hkept : kept (a :: field) = [] := by
        simpa [kept, List.filter_eq_nil_iff] using hspaces
      have htrimmed : trimmed (a :: field) = [] := by
        simpa [trimmed, List.rdropWhile_eq_nil_iff] using hspaces
      rw [hkept, htrimmed]
    · rw [trimmed_cons fun heq => absurd heq ha, ← ih hfield]
      simp [kept, ha]

/-- The decoder is right about tidy names. -/
theorem decodedName_eq (h : e.Tidy) : decodedName e = e.shortName := by
  have hname : firstByte e :: kept e.name.toList.tail =
      trimmed (firstByte e :: e.name.toList.tail) := by
    rw [trimmed_cons, kept_eq_trimmed _ h.name]
    intro hspace
    refine h.first ?_
    unfold firstByte at hspace
    split_ifs at hspace with hfive
    · exact absurd hspace (by decide)
    · exact hspace
  have hextension := kept_eq_trimmed _ h.nameExtension
  unfold decodedName shortName written
  rw [hname, hextension]
  by_cases hempty : trimmed e.nameExtension.toList = []
  · simp [hempty]
  · have hlast : (trimmed (firstByte e :: e.name.toList.tail) ++ [dot] ++
        trimmed e.nameExtension.toList).getLast? ≠ some dot := by
      rw [List.getLast?_append_of_ne_nil _ hempty]
      exact h.last
    rw [if_neg hlast, if_neg hempty, List.append_assoc]
    rfl

theorem searchEntries_cons {target : List UInt8} (htarget : ValidUtf8 target)
    (rest : List DirectoryEntry) (h : e.Plain target) :
    searchEntries target (e :: rest) =
      if e.isEnd then some none
      else if e.isWanted target then some (some e.info)
      else searchEntries target rest := by
  rw [searchEntries]
  by_cases hend : e.isEnd = true
  · obtain ⟨hlong, hdirectory⟩ := h.marker hend
    have hzero : e.name.get 0 = 0 := by simpa [isEnd] using hend
    rw [if_pos hend, if_neg (by simpa [isLongName] using hlong),
      if_neg (by simpa [isDirectory] using hdirectory), if_pos hzero]
  rw [if_neg hend]
  rw [Bool.not_eq_true] at hend
  by_cases hcompared : e.isCompared = true
  · have hskip : e.isDeleted = false ∧ e.isLongName = false ∧ e.isDirectory = false := by
      simpa [isCompared, hend, and_assoc] using hcompared
    obtain ⟨hdeleted, hlong, hdirectory⟩ := hskip
    rw [if_neg (by simpa [isLongName] using hlong), if_neg (by simpa [isDirectory] using hdirectory),
      if_neg (by simpa [isEnd] using hend), if_neg (by simpa [isDeleted] using hdeleted),
      getFileName_eq, decodedName_eq (h.tidy hcompared)]
    have hregular : e.isRegular = !e.isVolumeLabel := by
      simp [isRegular, hdeleted, hlong, hdirectory]
    have hmatch : (ValidUtf8 e.shortName ∧
        (e.shortName = target ∨ e.shortName.map lower = target)) ↔ e.isWanted target = true := by
      rw [isWanted, hregular]
      constructor
      · rintro ⟨-, hnamed⟩
        have hnamed : e.isNamed target = true := decide_eq_true hnamed
        rw [hnamed, Bool.and_true, Bool.not_eq_true']
        by_contra hlabel
        rw [Bool.not_eq_false] at hlabel
        exact absurd (h.label hcompared hlabel) (by simp [hnamed])
      · intro hwanted
        have hnamed : e.shortName = target ∨ e.shortName.map lower = target :=
          of_decide_eq_true (Bool.and_eq_true_iff.1 hwanted).2
        refine ⟨?_, hnamed⟩
        rcases hnamed with hsame | hlower
        · rwa [hsame]
        · exact validUtf8_of_lower (by rwa [hlower])
    by_cases hwanted : e.isWanted target = true
    · obtain ⟨hvalid, hnamed⟩ := hmatch.2 hwanted
      rw [if_pos hwanted, if_pos hvalid]
      exact if_pos hnamed
    · rw [if_neg hwanted]
      by_cases hvalid : ValidUtf8 e.shortName
      · rw [if_pos hvalid]
        exact if_neg fun hnamed => hwanted (hmatch.1 ⟨hvalid, hnamed⟩)
      · rw [if_neg hvalid]
        rfl
  · have hwanted : ¬ e.isWanted target = true := by
      intro hwanted
      simp only [isWanted, isRegular, Bool.and_eq_true, Bool.not_eq_true'] at hwanted
      exact hcompared (by simp [isCompared, hend, hwanted])
    rw [if_neg hwanted]
    by_cases hlong : e.isLongName = true
    · rw [if_pos (by simpa [isLongName] using hlong)]
    · by_cases hdirectory : e.isDirectory = true
      · rw [if_neg (by simpa [isLongName] using hlong),
          if_pos (by simpa [isDirectory] using hdirectory)]
      · have hdeleted : e.isDeleted = true := by
          by_contra hdeleted
          rw [Bool.not_eq_true] at hdeleted hlong hdirectory
          exact hcompared (by simp [isCompared, hend, hdeleted, hlong, hdirectory])
        rw [if_neg (by simpa [isLongName] using hlong),
          if_neg (by simpa [isDirectory] using hdirectory), if_neg (by simpa [isEnd] using hend),
          if_pos (by simpa [isDeleted] using hdeleted)]

/-- `search_file` finds the first regular file of that name, as long as it only passes plain
entries. -/
theorem searchEntries_eq {target : List UInt8} (htarget : ValidUtf8 target) :
    ∀ {es : List DirectoryEntry},
      (∀ pre e post, es = pre ++ e :: post →
        (∀ x ∈ pre, x.isEnd = false ∧ x.isWanted target = false) →
          e.Plain target) →
      searchEntries target es = some (firstFile target es) := by
  intro es
  induction es with
  | nil => exact fun _ => rfl
  | cons e rest ih =>
    intro hplain
    rw [searchEntries_cons htarget rest (hplain [] e rest rfl (by simp)), firstFile_cons]
    by_cases hend : e.isEnd = true
    · rw [if_pos hend, if_pos hend]
    · rw [if_neg hend, if_neg hend]
      by_cases hfound : e.isWanted target = true
      · rw [if_pos hfound, if_pos hfound]
      · rw [if_neg hfound, if_neg hfound]
        rw [Bool.not_eq_true] at hend hfound
        refine ih fun pre x post heq hpre => ?_
        refine hplain (e :: pre) x post (by rw [heq]; rfl) ?_
        rintro y (_ | ⟨_, hy⟩)
        · exact ⟨hend, hfound⟩
        · exact hpre y hy

theorem validUtf8_bytesOf (name : String) : ValidUtf8 (bytesOf name) := by
  have hsame : (bytesOf name).toByteArray = name.toByteArray := by
    apply ByteArray.ext
    rw [List.data_toByteArray]
    rfl
  rw [ValidUtf8, hsame]
  exact name.isValidUTF8

/-- `search_file` returns the first regular file of the target's name in front of the end
marker, whenever the entries that it passes are plain. -/
theorem searchFile_eq (f : Fat32) (m : Memory) (rootDirectoryList : ℕ) (targetName : String)
    (hplain : ∀ pre e post, f.entries m rootDirectoryList = pre ++ e :: post →
      (∀ x ∈ pre, x.isEnd = false ∧ x.isWanted (bytesOf targetName) = false) →
        e.Plain (bytesOf targetName)) :
    f.searchFile m rootDirectoryList targetName =
      some (firstFile (bytesOf targetName) (f.entries m rootDirectoryList)) :=
  searchEntries_eq (validUtf8_bytesOf targetName) hplain

/-- Directories of two entries. -/
def tinyVolume : Fat32 where
  baseLba := 0
  lbaSize := 512
  bytesPerSector := 32
  sectorsPerCluster := 2
  reservedSectors := 1
  fatSectors := 1
  numberOfFats := 1
  fat := fun _ => 0
  bytesPerSector_lt := by decide
  sectorsPerCluster_lt := by decide

/-- An entry `A.TXT` of five bytes at cluster 3, with the attributes as given. -/
def oneEntry (attributes : UInt8) : Memory := fun x =>
  [0x41, 0x20, 0x20, 0x20, 0x20, 0x20, 0x20, 0x20, 0x54, 0x58, 0x54, attributes,
    0, 0, 0, 0, 0, 0, 0, 0, 0, 0, 0, 0, 0, 0, 3, 0, 5, 0, 0, 0].getD x 0

theorem oneEntry_found :
    tinyVolume.searchFile (oneEntry 0x20) 0 "a.txt" =
        some (firstFile (bytesOf "a.txt") (tinyVolume.entries (oneEntry 0x20) 0)) ∧
      (firstFile (bytesOf "a.txt") (tinyVolume.entries (oneEntry 0x20) 0)).map FileInfo.fileSize =
        some 5 := by
  refine ⟨searchFile_eq tinyVolume (oneEntry 0x20) 0 "a.txt" fun pre e post heq _ => ?_,
    by decide +kernel⟩
  have hmem : e ∈ tinyVolume.entries (oneEntry 0x20) 0 := by
    rw [heq]
    simp
  obtain ⟨i, hi, rfl⟩ := List.mem_map.1 hmem
  have hlt : i < 2 := List.mem_range.1 hi
  interval_cases i
  · refine ⟨by decide +kernel, fun _ => ⟨?_, ?_, ?_, ?_⟩, by decide +kernel⟩
    · decide +kernel
    · decide +kernel
    · decide +kernel
    · decide +kernel
  · exact ⟨by decide +kernel, fun h => absurd h (by decide +kernel), by decide +kernel⟩

/-- The same entry as a volume label is taken for a file. -/
theorem label_found :
    (tinyVolume.searchFile (oneEntry 0x08) 0 "a.txt").map (Option.map FileInfo.fileSize) =
        some (some 5) ∧
      (firstFile (bytesOf "a.txt") (tinyVolume.entries (oneEntry 0x08) 0)).map FileInfo.fileSize =
        none := by
  decide +kernel

end Fat32

end MiniVisor
