import Mathlib.Data.List.Basic
import Mathlib.Data.Nat.Notation

/-!
# Letter case in UTF-8

The bytes of a UTF-8 text can be lower-cased one by one: the bytes of a character outside
ASCII do not change, so no other bytes become a text by it.
-/
namespace AsciiCase

/-- `to_ascii_lowercase` -/
def lower (b : UInt8) : UInt8 := if 0x41 ≤ b ∧ b ≤ 0x5A then b + 0x20 else b

/-- The bytes are UTF-8. -/
def ValidUtf8 (l : List UInt8) : Prop := l.toByteArray.IsValidUTF8

instance (l : List UInt8) : Decidable (ValidUtf8 l) :=
  inferInstanceAs (Decidable l.toByteArray.IsValidUTF8)

theorem validUtf8_iff {l : List UInt8} :
    ValidUtf8 l ↔ ∃ text : List Char, l = text.flatMap String.utf8EncodeChar := by
  constructor
  · rintro ⟨text, h⟩
    exact ⟨text, List.toByteArray_inj.1 h⟩
  · rintro ⟨text, rfl⟩
    exact ⟨text, rfl⟩

theorem lower_toNat (b : UInt8) :
    (lower b).toNat = if 0x41 ≤ b.toNat ∧ b.toNat ≤ 0x5A then b.toNat + 0x20 else b.toNat := by
  unfold lower
  simp only [UInt8.le_iff_toNat_le]
  split_ifs with h h' h'
  · rw [UInt8.toNat_add]
    change (b.toNat + 0x20) % 256 = _
    exact Nat.mod_eq_of_lt (by omega)
  · exact absurd h h'
  · exact absurd h' h
  · rfl

theorem lower_lt_iff (b : UInt8) : (lower b).toNat < 0x80 ↔ b.toNat < 0x80 := by
  rw [lower_toNat]
  split_ifs <;> omega

theorem eq_of_lower_ge {b : UInt8} (h : 0x80 ≤ (lower b).toNat) : lower b = b := by
  apply UInt8.toNat_inj.1
  rw [lower_toNat] at h ⊢
  split_ifs at h ⊢ <;> omega

/-- A character is one byte of ASCII, or all its bytes are outside. -/
theorem utf8EncodeChar_cases (c : Char) :
    (∃ b, String.utf8EncodeChar c = [b] ∧ b.toNat < 0x80) ∨
      ∀ b ∈ String.utf8EncodeChar c, 0x80 ≤ b.toNat := by
  unfold String.utf8EncodeChar
  simp only
  split_ifs with h₁ h₂ h₃
  · refine .inl ⟨_, rfl, ?_⟩
    rw [UInt8.toNat_ofNat', Nat.mod_eq_of_lt (by omega)]
    omega
  all_goals
    refine .inr fun b hb => ?_
    simp only [List.mem_cons, List.not_mem_nil, or_false] at hb
  · rcases hb with rfl | rfl <;> rw [UInt8.toNat_ofNat', Nat.mod_eq_of_lt (by omega)] <;> omega
  · rcases hb with rfl | rfl | rfl <;> rw [UInt8.toNat_ofNat', Nat.mod_eq_of_lt (by omega)] <;>
      omega
  · rcases hb with rfl | rfl | rfl | rfl <;>
      rw [UInt8.toNat_ofNat', Nat.mod_eq_of_lt (by omega)] <;> omega

theorem validUtf8_singleton {b : UInt8} (h : b.toNat < 0x80) : ValidUtf8 [b] := by
  refine validUtf8_iff.2 ⟨[Char.ofNat b.toNat], ?_⟩
  have hval : (Char.ofNat b.toNat).val.toNat = b.toNat := by
    rw [Char.ofNat, dif_pos (.inl (by omega))]
    rfl
  rw [List.flatMap_singleton, String.utf8EncodeChar, hval, if_pos (by omega), UInt8.ofNat_toNat]

theorem ValidUtf8.append {l l' : List UInt8} (h : ValidUtf8 l) (h' : ValidUtf8 l') :
    ValidUtf8 (l ++ l') := by
  obtain ⟨text, rfl⟩ := validUtf8_iff.1 h
  obtain ⟨text', rfl⟩ := validUtf8_iff.1 h'
  exact validUtf8_iff.2 ⟨text ++ text', List.flatMap_append.symm⟩

/-- What is a text in lower case was one before. -/
theorem validUtf8_of_lower {l : List UInt8} (h : ValidUtf8 (l.map lower)) : ValidUtf8 l := by
  rw [validUtf8_iff] at h
  obtain ⟨text, h⟩ := h
  induction text generalizing l with
  | nil =>
    obtain rfl : l = [] := by simpa using h
    exact validUtf8_iff.2 ⟨[], rfl⟩
  | cons c text ih =>
    rw [List.flatMap_cons] at h
    obtain ⟨first, rest, rfl, hfirst, hrest⟩ := List.map_eq_append_iff.1 h
    refine ValidUtf8.append ?_ (ih hrest)
    rcases utf8EncodeChar_cases c with ⟨b, hb, hlt⟩ | hge
    · rw [hb] at hfirst
      obtain ⟨a, rfl, ha⟩ := List.map_eq_singleton_iff.1 hfirst
      exact validUtf8_singleton ((lower_lt_iff a).1 (by rw [ha]; exact hlt))
    · have hsame : first.map lower = first := by
        refine (List.map_congr_left fun b hb => ?_).trans (List.map_id first)
        have hmem := List.mem_map_of_mem (f := lower) hb
        rw [hfirst] at hmem
        exact eq_of_lower_ge (hge _ hmem)
      rw [← hsame, hfirst]
      exact validUtf8_iff.2 ⟨[c], by simp⟩

end AsciiCase
