import MiniVisor.PagingRuns

/-!
# What a mapping call writes

A call writes descriptors into the tables that it was given and into the pages that it takes
for new ones, whether it returns `Ok` or `Err`. In the other direction a walk reads tables
only, so what happens outside of them does not change a translation.
-/
namespace MiniVisor

open RadixTree

namespace Paging

/-- The bytes of the tables. -/
def pagesOf (tables : List ℕ) : Set ℕ := {a | ∃ p ∈ tables, p ≤ a ∧ a < p + 4096}

theorem mem_pagesOf {tables : List ℕ} {a : ℕ} :
    a ∈ pagesOf tables ↔ ∃ p ∈ tables, p ≤ a ∧ a < p + 4096 := Iff.rfl

theorem pagesOf_append (l₁ l₂ : List ℕ) : pagesOf (l₁ ++ l₂) = pagesOf l₁ ∪ pagesOf l₂ := by
  ext a
  simp only [mem_pagesOf, List.mem_append, Set.mem_union]
  constructor
  · rintro ⟨p, hp | hp, ha⟩
    · exact .inl ⟨p, hp, ha⟩
    · exact .inr ⟨p, hp, ha⟩
  · rintro (⟨p, hp, ha⟩ | ⟨p, hp, ha⟩)
    · exact ⟨p, .inl hp, ha⟩
    · exact ⟨p, .inr hp, ha⟩

theorem pagesOf_reverse (l : List ℕ) : pagesOf l.reverse = pagesOf l := by
  ext a
  simp only [mem_pagesOf, List.mem_reverse]

theorem pagesOf_nil : pagesOf [] = ∅ := by
  ext a
  simp [mem_pagesOf]

theorem pagesOf_singleton (p : ℕ) : pagesOf [p] = Set.Ico p (p + 4096) := by
  ext a
  simp [mem_pagesOf]

/-- The state that a call leaves, with `Ok` or with `Err`. -/
def MapResult.state : MapResult → MapState
  | .ok s => s
  | .error s => s

/-- The step from `s` to `s'` took `used` from the pages and wrote into tables only. -/
structure Frames (s s' : MapState) (used : List ℕ) : Prop where
  pages : s.pages = used ++ s'.pages
  tables : s'.tables = used.reverse ++ s.tables
  memory : ∀ a ∉ pagesOf s'.tables, s'.memory a = s.memory a

section Frames

variable {own : Owner} {s s' s₁ s₂ : MapState} {a base depth r₀ num : ℕ} {used used' : List ℕ}
  {r w : Bool}

theorem Frames.refl (s : MapState) : Frames s s [] := ⟨rfl, rfl, fun _ _ => rfl⟩

theorem Frames.trans (h : Frames s s₁ used) (h' : Frames s₁ s₂ used') :
    Frames s s₂ (used ++ used') where
  pages := by rw [h.pages, h'.pages, List.append_assoc]
  tables := by rw [h'.tables, h.tables, List.reverse_append, List.append_assoc]
  memory a ha := by
    rw [h'.memory a ha, h.memory a]
    intro hin
    rw [h'.tables, pagesOf_append] at ha
    exact ha (.inr hin)

/-- A descriptor is written to a cell of a table. -/
theorem Good.put_frames {d : Descriptor} {size : ℕ} (h : Good own s) (ha : own a ≠ none)
    (hput : s.put a d size = some s') : Frames s s' [] := by
  obtain ⟨rfl, -⟩ := put_eq_some hput
  refine ⟨rfl, rfl, fun b hb => Function.update_of_ne ?_ ..⟩
  rintro rfl
  exact hb (h.covered b ha)

theorem Good.nextLevelTable_frames {q : ℕ} (h : Good own s) (ha : own a ≠ none)
    (hnext : Paging.nextLevelTable s a = .ok (q, s₁)) : ∃ used, Frames s s₁ used := by
  unfold Paging.nextLevelTable at hnext
  split_ifs at hnext with htable
  · obtain ⟨rfl, rfl⟩ := Prod.mk.injEq .. ▸ Except.ok.inj hnext
    exact ⟨[], Frames.refl s⟩
  · split at hnext
    · exact absurd hnext (by simp)
    rename_i page pages hpages
    obtain ⟨rfl, rfl⟩ := Prod.mk.injEq .. ▸ Except.ok.inj hnext
    refine ⟨[page], hpages, rfl, fun b hb => ?_⟩
    dsimp only at hb ⊢
    have hba : b ≠ a := by
      rintro rfl
      obtain ⟨p, hp, hin⟩ := h.covered b ha
      exact hb ⟨p, by simp [hp], hin⟩
    rw [Function.update_of_ne hba, initTable_of_not_mem]
    rintro ⟨hlo, hhi⟩
    exact hb ⟨page, by simp, hlo, hhi⟩

theorem mapPages_frames {n : ℕ} {p : BitVec 64} (hgood : Good own s) (hcells : Cells own 0 a n)
    (h : mapPages p n a s = some s') : ∃ used, Frames s s' used := by
  induction n generalizing s a with
  | zero => exact ⟨[], Option.some.inj h ▸ Frames.refl s⟩
  | succ n ih =>
    obtain ⟨t, ha⟩ := hcells.head
    obtain ⟨s₁, hput, h⟩ := Option.bind_eq_some_iff.1 h
    have hfirst := hgood.put_frames (by simp [ha]) hput
    split_ifs at h with hzero
    · exact ⟨_, Option.some.inj h ▸ hfirst⟩
    · have hgood₁ := hgood.update ha (fun hne => absurd rfl hne) hput
      obtain ⟨used, hrest⟩ := ih hgood₁ (hcells.tail fun _ _ h => h) h
      exact ⟨_, hfirst.trans hrest⟩

/-- What the loop of an upper level needs from the tables of the next level. -/
structure FramesBelow (depth : ℕ) (next : ℕ → MapState → Option MapResult) : Prop where
  frames : ∀ {own : Owner} {s : MapState} {result : MapResult} {q t : ℕ}, Good own s →
    Slots own depth q (512 * t) 512 → next q s = some result → ∃ used, Frames s result.state used
  good : ∀ {own : Owner} {s s' : MapState} {q t : ℕ}, Good own s →
    Slots own depth q (512 * t) 512 → next q s = some (.ok s') → Grows own s'

theorem mapEntries_frames {n : ℕ} {next : ℕ → MapState → Option MapResult} {result : MapResult}
    (hnext : FramesBelow depth next) (hgood : Good own s) (hcells : Cells own (depth + 1) a n)
    (h : mapEntries (permissionBits r w) (depth + 1) next n a s = some result) :
    ∃ used, Frames s result.state used := by
  induction n generalizing s a own with
  | zero =>
    obtain rfl := Option.some.inj h
    exact ⟨[], Frames.refl s⟩
  | succ n ih =>
    obtain ⟨t, ha⟩ := hcells.head
    -- after one cell the loop ends or goes on
    have hgo : ∀ {own₁ : Owner} {s₁ : MapState} {used : List ℕ}, Good own₁ s₁ →
        (∀ a p, own a = some p → own₁ a = some p) → Frames s s₁ used →
        (if s₁.remainingSize = 0 then some (.ok s₁)
          else mapEntries (permissionBits r w) (depth + 1) next n (a + 8) s₁) = some result →
        ∃ used, Frames s result.state used := by
      intro own₁ s₁ used hgood₁ hext hfirst h
      split_ifs at h with hzero
      · obtain rfl := Option.some.inj h
        exact ⟨used, hfirst⟩
      · obtain ⟨used', hrest⟩ := ih hgood₁ (hcells.tail hext) h
        exact ⟨_, hfirst.trans hrest⟩
    unfold mapEntries at h
    dsimp only at h
    split_ifs at h with hblock
    · obtain ⟨-, -, hpa, -⟩ := hblock
      obtain ⟨s₁, hput, h⟩ := Option.bind_eq_some_iff.1 h
      have hpage : s.physicalAddress % 4096 = 0 := by
        rw [Nat.one_shiftLeft, Nat.and_two_pow_sub_one_eq_mod] at hpa
        have hdvd : 4096 ∣ 2 ^ (12 + 9 * (depth + 1)) :=
          pow_dvd_pow 2 (by omega : 12 ≤ 12 + 9 * (depth + 1))
        exact Nat.mod_eq_zero_of_dvd (hdvd.trans (Nat.dvd_of_mod_eq_zero hpa))
      exact hgo (hgood.update ha (fun _ => isTableDescriptor_block hpage r w) hput)
        (fun _ _ h => h) (hgood.put_frames (by simp [ha]) hput) h
    · split at h
      · obtain rfl := Option.some.inj h
        rename_i s₁ htable
        -- `allocate_pages` has failed, before anything was written
        unfold Paging.nextLevelTable at htable
        split_ifs at htable
        split at htable
        · obtain rfl := Except.error.inj htable
          exact ⟨[], Frames.refl s⟩
        · exact absurd htable (by simp)
      rename_i q s₁ htable
      have hlo : layout.region (depth + 1) (t * layout.size (depth + 1)) = t :=
        Nat.mul_div_cancel _ (layout.size_pos _)
      obtain ⟨own₁, hgood₁, hext, -, -, hslots₁, -⟩ := hgood.nextLevelTable ha hlo htable
      obtain ⟨used₁, hfirst⟩ := hgood.nextLevelTable_frames (by simp [ha]) htable
      obtain ⟨below, hbelow, h⟩ := Option.bind_eq_some_iff.1 h
      obtain ⟨used₂, hsecond⟩ := hnext.frames hgood₁ hslots₁ hbelow
      cases below with
      | error s₂ =>
        obtain rfl := Option.some.inj h
        exact ⟨_, hfirst.trans hsecond⟩
      | ok s₂ =>
        obtain ⟨own₂, hgood₂, hext₂⟩ := hnext.good hgood₁ hslots₁ hbelow
        exact hgo hgood₂ (fun b p hb => hext₂ b p (hext b p hb)) (hfirst.trans hsecond) h

theorem mapLevel_frames {result : MapResult} (hgood : Good own s)
    (hslots : Slots own depth base r₀ num)
    (h : mapLevel (permissionBits r w) depth base num s = some result) :
    ∃ used, Frames s result.state used := by
  induction depth generalizing own s result base r₀ num with
  | zero =>
    obtain ⟨s₁, hpages, rfl⟩ := Option.map_eq_some_iff.1 h
    exact mapPages_frames hgood hslots.cells hpages
  | succ depth ih =>
    exact mapEntries_frames ⟨fun hgood hslots hbelow => ih hgood hslots hbelow,
      fun hgood hslots hbelow => mapLevel_good hgood hslots hbelow⟩ hgood hslots.cells h

end Frames

/-! ## Calls -/

namespace Stage2

variable {own : Owner} {s : Stage2} {x : ℕ}

/-- The tables that a call leaves, with `Ok` or with `Err`. -/
def left : Except Stage2 Stage2 → Stage2
  | .ok t => t
  | .error t => t

/-- A call writes into the tables that it was given and into new ones. -/
theorem WellFormed.map_frames {c : MapCall} {result : Except Stage2 Stage2}
    (h : WellFormed own s) (hfresh : c.Fresh s)
    (hmap : mapAddressStage2 s c.pages c.physicalAddress c.intermediatePhysicalAddress c.mapSize
      c.isReadable c.isWritable = some result) :
    (∃ used, used <+: c.pages ∧ (left result).tables = used.reverse ++ s.tables) ∧
      ∀ a ∉ pagesOf (left result).tables, (left result).memory a = s.memory a := by
  rw [mapAddressStage2] at hmap
  split_ifs at hmap with hsize
  · obtain rfl := Option.some.inj hmap
    exact ⟨⟨[], List.nil_prefix, rfl⟩, fun _ _ => rfl⟩
  obtain ⟨u, hlevel, hu⟩ := Option.map_eq_some_iff.1 hmap
  obtain ⟨used, hframes⟩ := mapLevel_frames (h.start hfresh) h.root hlevel
  have hleft : (left result).tables = u.state.tables ∧ (left result).memory = u.state.memory := by
    subst hu
    cases u with
    | ok u => exact ⟨rfl, rfl⟩
    | error u => exact ⟨rfl, rfl⟩
  refine ⟨⟨used, ⟨_, hframes.pages.symm⟩, hleft.1.trans hframes.tables⟩, fun a ha => ?_⟩
  rw [hleft.2]
  exact hframes.memory a (hleft.1 ▸ ha)

/-- The same registers over another memory. -/
def withMemory (s : Stage2) (m : Memory) : Stage2 := { s with memory := m }

variable {m : Memory}

theorem WellFormed.agrees (h : WellFormed own s) (hm : ∀ a ∈ pagesOf s.tables, m a = s.memory a) :
    ∀ a, own a ≠ none → m a = s.memory a :=
  fun a ha => hm a (h.covered a ha)

/-- A translation reads the tables only. -/
theorem WellFormed.translate_congr (h : WellFormed own s)
    (hm : ∀ a ∈ pagesOf s.tables, m a = s.memory a) (x : ℕ) :
    (s.withMemory m).translate x = s.translate x := by
  by_cases hx : x < 2 ^ (64 - s.t0sz)
  · have hlookup : (s.withMemory m).lookup x = s.lookup x :=
      descend_congr h.tables.placed (h.agrees hm) (h.root_cell hx)
    rw [translate_eq _ hx, translate_eq (s.withMemory m) (show x < 2 ^ (64 - s.t0sz) from hx),
      hlookup]
  · rw [translate_eq_none hx]
    exact translate_eq_none hx

theorem WellFormed.withMemory (h : WellFormed own s)
    (hm : ∀ a ∈ pagesOf s.tables, m a = s.memory a) : WellFormed own (s.withMemory m) where
  tables :=
    { placed := fun a d r q ha hq => by
        change nextTable (m a) = some q at hq
        rw [h.agrees hm a (by simp [ha])] at hq
        exact h.tables.placed a d r q ha hq
      address := fun a d t ha htable => by
        change (m a).isTableDescriptor = true at htable
        change (m a).getNextLevelTableAddress = walkTableAddress (m a)
        rw [h.agrees hm a (by simp [ha])] at htable ⊢
        exact h.tables.address a d t ha htable }
  covered := h.covered
  aligned := h.aligned
  root := h.root
  width := h.width
  reach := h.reach

end Stage2

end Paging

end MiniVisor
