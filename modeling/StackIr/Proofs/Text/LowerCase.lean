import Mathlib.Tactic.Common
import StackIr.Text.LowerCase

/-! # Lower case within and outside of ASCII

    Only two characters outside of ASCII have a lower case inside it: the dotted capital I and
    the Kelvin sign.  A text therefore has a word without the letters i and k as its lower case
    exactly if it is that word up to the case of ASCII letters. -/

namespace StackIr.Text

/-! ## Characters -/

/-- Every range that starts outside of ASCII is mapped outside of it, but for two
    characters. -/
theorem shift_of_mem_upperCaseRanges :
    ∀ r ∈ upperCaseRanges.toList, r.hi < 0x80 ∨ (0x80 : Int) ≤ r.lo + r.shift ∨
      (r.lo = r.hi ∧ (r.lo + r.shift = 'i'.toNat ∨ r.lo + r.shift = 'k'.toNat)) := by
  decide +kernel

theorem lowerChar_of_ascii {c : Char} (hc : c.toNat < 0x80) : lowerChar c = c.toLower := by
  have hvalue : ∀ n < 0x80, lowerChar (Char.ofNat n) = (Char.ofNat n).toLower := by decide
  rw [← Char.ofNat_toNat c]
  exact hvalue c.toNat hc

theorem toLower_of_not_ascii {c : Char} (hc : 0x80 ≤ c.toNat) : c.toLower = c := by
  have hnot : ¬ (c.val ≥ 'A'.val ∧ c.val ≤ 'Z'.val) := by
    intro ⟨_, hle⟩
    have : c.toNat ≤ 90 := UInt32.le_iff_toNat_le.1 hle
    omega
  exact dif_neg hnot

/-- A small letter that is the lower case of a character outside of ASCII is i or k. -/
theorem letter_of_not_ascii {c d : Char} (hc : 0x80 ≤ c.toNat) (hd : 'a' ≤ d) (hd' : d ≤ 'z')
    (h : lowerChar c = d) : d = 'i' ∨ d = 'k' := by
  have hlow : 97 ≤ d.toNat := hd
  have hhigh : d.toNat ≤ 122 := hd'
  rw [lowerChar, if_neg (by omega)] at h
  split at h
  · rename_i r hfound
    have hranges := shift_of_mem_upperCaseRanges
    -- the table is not looked at again
    generalize upperCaseRanges = ranges at hfound hranges
    have hmem : r ∈ ranges.toList := Array.mem_toList_iff.2 (Array.mem_of_find?_eq_some hfound)
    have hholds := Array.find?_some hfound
    simp only [CaseRange.holds, Bool.and_eq_true, decide_eq_true_eq] at hholds
    -- the number of the letter is what the shift gives, since no letter has the number zero
    have hnumber : (c.toNat + r.shift).toNat = d.toNat := by
      by_cases hvalid : (c.toNat + r.shift).toNat.isValidChar
      · rw [show Char.ofNat _ = _ from dif_pos hvalid] at h
        exact congrArg Char.toNat h
      · rw [← h, show Char.ofNat _ = _ from dif_neg hvalid] at hlow
        exact absurd hlow (by decide)
    rcases hranges r hmem with hascii | houtside | ⟨hsingle, hletter⟩
    · omega
    · omega
    · have heq : c.toNat = r.lo := by omega
      rw [heq] at hnumber
      rcases hletter with hi | hk
      · exact .inl (Char.toNat_inj.1 (by omega))
      · exact .inr (Char.toNat_inj.1 (by omega))
  · rw [← h] at hhigh
    omega

/-- A small letter that an ASCII word may be made of. -/
def IsPlainLetter (d : Char) : Prop :=
  'a' ≤ d ∧ d ≤ 'z' ∧ d ≠ 'i' ∧ d ≠ 'k'

instance (d : Char) : Decidable (IsPlainLetter d) :=
  inferInstanceAs (Decidable (_ ∧ _))

theorem lowerChar_eq_iff {c d : Char} (hd : IsPlainLetter d) : lowerChar c = d ↔ c.toLower = d := by
  obtain ⟨hlow, hhigh, hi, hk⟩ := hd
  by_cases hc : c.toNat < 0x80
  · rw [lowerChar_of_ascii hc]
  · -- neither holds: no plain letter is outside of ASCII, or the lower case of what is
    rw [toLower_of_not_ascii (by omega)]
    constructor
    · intro h
      rcases letter_of_not_ascii (by omega) hlow hhigh h with heq | heq
      · exact absurd heq hi
      · exact absurd heq hk
    · intro h
      have hnat : d.toNat ≤ 122 := hhigh
      rw [← h] at hnat
      omega

/-! ## Texts -/

/-- A text is such a word in any case exactly if it is the word in any ASCII case. -/
theorem lower_eq_iff_toLower {s word : String}
    (hword : word.toList.all (fun d => decide (IsPlainLetter d)) = true) :
    lower s = word ↔ s.toLower = word := by
  simp only [List.all_eq_true, decide_eq_true_eq] at hword
  have htoLower : s.toLower.toList = s.toList.map Char.toLower := String.toList_map ..
  rw [← String.toList_inj, ← String.toList_inj, lower, String.toList_map, htoLower]
  generalize s.toList = cs
  generalize word.toList = ds at hword
  induction ds generalizing cs with
  | nil => simp
  | cons d ds ih =>
    obtain ⟨hd, hds⟩ := List.forall_mem_cons.1 hword
    cases cs with
    | nil => simp
    | cons c cs =>
      rw [List.map_cons, List.map_cons, List.cons.injEq, List.cons.injEq, lowerChar_eq_iff hd]
      exact and_congr_right fun _ => ih cs hds

end StackIr.Text
