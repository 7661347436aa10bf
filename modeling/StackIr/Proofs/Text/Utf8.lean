import Mathlib.Data.String.Basic
import Mathlib.Tactic.Common
import StackIr.Text.Utf8

/-! # Encoded characters

    The bytes of a text are those of its characters, and the bytes of a character at the start
    of a byte text are read as that character.  Texts are ordered like their bytes. -/

namespace StackIr.Text.Utf8

/-! ## The bytes of a text -/

theorem toList_loop (b : ByteArray) (i : Nat) (r : List UInt8) :
    ByteArray.toList.loop b i r = r.reverse ++ b.data.toList.drop i := by
  by_cases h : i < b.size
  · have hget : b.get! i = b.data.toList.get ⟨i, h⟩ := by
      simp [ByteArray.get!, h]
    rw [ByteArray.toList.loop, if_pos h, toList_loop b (i + 1), hget,
      List.drop_eq_getElem_cons (l := b.data.toList) h]
    simp
  · rw [ByteArray.toList.loop, if_neg h, List.drop_eq_nil_of_le (by simpa using h)]
    simp
  termination_by b.size - i

/-- The bytes of a text are the bytes of its characters. -/
theorem encode_ofList (cs : List Char) :
    encode (String.ofList cs) = cs.flatMap String.utf8EncodeChar := by
  rw [encode, String.toUTF8_eq_toByteArray, String.toByteArray_ofList, ByteArray.toList, toList_loop]
  simp [List.utf8Encode]

/-- Texts with the same bytes are the same. -/
theorem encode_injective : Function.Injective encode := by
  intro s t h
  have hdata : ∀ s : String, encode s = s.toByteArray.data.toList := by
    intro s
    rw [encode, String.toUTF8_eq_toByteArray, ByteArray.toList, toList_loop]
    rfl
  rw [hdata, hdata] at h
  exact String.toByteArray_inj.1 (ByteArray.ext (Array.toList_inj.1 h))

/-! ## The bytes of a character -/

theorem toNat_ofNat {k : Nat} (hk : k < 256) : (UInt8.ofNat k).toNat = k :=
  UInt8.toNat_ofNat_of_lt' hk

theorem ofNat_lt {k : Nat} {b : UInt8} (hk : k < 256) (h : k < b.toNat) : UInt8.ofNat k < b := by
  rwa [UInt8.lt_iff_toNat_lt, toNat_ofNat hk]

theorem not_ofNat_lt {k : Nat} {b : UInt8} (hk : k < 256) (h : b.toNat ≤ k) :
    ¬ UInt8.ofNat k < b := by
  rw [UInt8.lt_iff_toNat_lt, toNat_ofNat hk]
  omega

theorem isContinuation_ofNat {k : Nat} (hk : k < 64) :
    isContinuation (UInt8.ofNat (k + 128)) = true := by
  have hlow : (0x80 : UInt8) ≤ UInt8.ofNat (k + 128) := by
    rw [UInt8.le_iff_toNat_le, toNat_ofNat (by omega)]
    exact Nat.le_add_left 128 k
  have hhigh : UInt8.ofNat (k + 128) < 0xC0 :=
    ofNat_lt (by omega) (show k + 128 < 192 by omega)
  rw [isContinuation, decide_eq_true hlow, decide_eq_true hhigh]
  rfl

theorem tailBits_ofNat {k : Nat} (hk : k < 64) : tailBits (UInt8.ofNat (k + 128)) = k := by
  rw [tailBits, toNat_ofNat (by omega)]
  omega

theorem scalar?_toNat {least n : Nat} {c : Char} (hn : n = c.toNat) (h : least ≤ n) :
    scalar? least n = some c := by
  subst hn
  have hvalid : c.toNat.isValidChar := c.valid
  rw [scalar?, dif_pos hvalid, if_pos h]
  rfl

theorem toNat_lt (c : Char) : c.toNat < 0x110000 := by
  have hvalid : c.toNat.isValidChar := c.valid
  rcases hvalid with h | h <;> omega

/-- The bytes of a character are read as that character. -/
theorem first?_utf8EncodeChar (c : Char) (rest : List UInt8) :
    first? (String.utf8EncodeChar c ++ rest) = some (c, (String.utf8EncodeChar c).length) := by
  have hmax := toNat_lt c
  rw [String.utf8EncodeChar.eq_1, show c.val.toNat = c.toNat from rfl]
  generalize hv : c.toNat = v at hmax
  -- One case for each length; the first byte tells the length, the others carry six bits.
  split_ifs with h₁ h₂ h₃
  · have hchar : Char.ofNat v = c := by rw [← hv, Char.ofNat_toNat]
    simp only [List.cons_append, List.nil_append, first?]
    rw [if_pos (ofNat_lt (by omega) (show v < 128 by omega)), toNat_ofNat (by omega), hchar]
    rfl
  · have hlead : v / 64 % 32 + 192 < 256 := by omega
    simp only [List.cons_append, List.nil_append, first?]
    rw [if_neg (not_ofNat_lt hlead (show 128 ≤ _ by omega)),
      if_neg (not_ofNat_lt hlead (show 192 ≤ _ by omega)),
      if_pos (ofNat_lt hlead (show _ < 224 by omega)),
      if_pos (isContinuation_ofNat (by omega)), toNat_ofNat hlead, tailBits_ofNat (by omega),
      scalar?_toNat (c := c) (by omega) (by omega)]
    rfl
  · have hlead : v / 4096 % 16 + 224 < 256 := by omega
    simp only [List.cons_append, List.nil_append, first?]
    rw [if_neg (not_ofNat_lt hlead (show 128 ≤ _ by omega)),
      if_neg (not_ofNat_lt hlead (show 192 ≤ _ by omega)),
      if_neg (not_ofNat_lt hlead (show 224 ≤ _ by omega)),
      if_pos (ofNat_lt hlead (show _ < 240 by omega)), isContinuation_ofNat (by omega),
      isContinuation_ofNat (by omega), Bool.and_self, if_pos rfl, toNat_ofNat hlead,
      tailBits_ofNat (by omega), tailBits_ofNat (by omega), scalar?_toNat (c := c) (by omega) (by omega)]
    rfl
  · have hlead : v / 262144 % 8 + 240 < 256 := by omega
    simp only [List.cons_append, List.nil_append, first?]
    rw [if_neg (not_ofNat_lt hlead (show 128 ≤ _ by omega)),
      if_neg (not_ofNat_lt hlead (show 192 ≤ _ by omega)),
      if_neg (not_ofNat_lt hlead (show 224 ≤ _ by omega)),
      if_neg (not_ofNat_lt hlead (show 240 ≤ _ by omega)),
      if_pos (ofNat_lt hlead (show _ < 248 by omega)), isContinuation_ofNat (by omega),
      isContinuation_ofNat (by omega), isContinuation_ofNat (by omega), Bool.and_self,
      Bool.and_self, if_pos rfl, toNat_ofNat hlead, tailBits_ofNat (by omega), tailBits_ofNat (by omega),
      tailBits_ofNat (by omega), scalar?_toNat (c := c) (by omega) (by omega)]
    rfl

theorem length_utf8EncodeChar_pos (c : Char) : 0 < (String.utf8EncodeChar c).length :=
  List.length_pos_iff.2 String.utf8EncodeChar_ne_nil

/-! ## The order of texts -/

/-- The first byte in which two byte texts differ decides. -/
theorem ofNat_cons_lt {k k' : Nat} (hk : k < 256) (hk' : k' < 256) (hle : k ≤ k')
    {x y : List UInt8} (hrest : k = k' → x < y) : UInt8.ofNat k :: x < UInt8.ofNat k' :: y := by
  rw [List.cons_lt_cons_iff, UInt8.lt_iff_toNat_lt, toNat_ofNat hk, toNat_ofNat hk']
  rcases Nat.lt_or_eq_of_le hle with hlt | rfl
  · exact .inl hlt
  · exact .inr ⟨rfl, hrest rfl⟩

/-- The bytes of two characters differ before either ends, in the order of the characters. -/
theorem utf8EncodeChar_append_lt {c d : Char} (h : c < d) (x y : List UInt8) :
    String.utf8EncodeChar c ++ x < String.utf8EncodeChar d ++ y := by
  have hlt : c.toNat < d.toNat := h
  have hc := toNat_lt c
  have hd := toNat_lt d
  rw [String.utf8EncodeChar.eq_1, String.utf8EncodeChar.eq_1, show c.val.toNat = c.toNat from rfl,
    show d.val.toNat = d.toNat from rfl]
  generalize c.toNat = v at hlt hc
  generalize d.toNat = w at hlt hd
  -- A longer encoding starts with a greater byte.  Encodings of one length are compared byte by
  -- byte, and if no byte differs, neither do the numbers.
  split_ifs
  any_goals omega
  all_goals
    simp only [List.cons_append, List.nil_append]
    refine ofNat_cons_lt (by omega) (by omega) (by omega) fun _ => ?_
  any_goals omega
  all_goals refine ofNat_cons_lt (by omega) (by omega) (by omega) fun _ => ?_
  any_goals omega
  all_goals refine ofNat_cons_lt (by omega) (by omega) (by omega) fun _ => ?_
  any_goals omega
  all_goals refine ofNat_cons_lt (by omega) (by omega) (by omega) fun _ => ?_
  omega

theorem flatMap_utf8EncodeChar_lt {cs ds : List Char} (h : cs < ds) :
    cs.flatMap String.utf8EncodeChar < ds.flatMap String.utf8EncodeChar := by
  induction h with
  | @nil d ds =>
    rw [List.flatMap_nil, List.flatMap_cons]
    cases henc : String.utf8EncodeChar d with
    | nil => exact absurd henc String.utf8EncodeChar_ne_nil
    | cons b bs => exact List.nil_lt_cons ..
  | @rel c cs d ds hlt => exact utf8EncodeChar_append_lt hlt _ _
  | @cons c cs ds _ ih =>
    rw [List.flatMap_cons, List.flatMap_cons]
    exact List.append_left_lt ih

/-- Texts are ordered like their bytes. -/
@[simp] theorem encode_lt_encode_iff {s t : String} : encode s < encode t ↔ s < t := by
  have hforward : ∀ {s t : String}, s < t → encode s < encode t := by
    intro s t h
    rw [String.lt_iff_toList_lt] at h
    have hbytes := flatMap_utf8EncodeChar_lt h
    rwa [← encode_ofList, ← encode_ofList, String.ofList_toList, String.ofList_toList] at hbytes
  refine ⟨fun h => ?_, hforward⟩
  -- the order of texts is total, so the first direction is enough
  by_contra hnot
  rcases Std.le_iff_lt_or_eq.1 (String.not_lt.1 hnot) with hgt | heq
  · exact List.lt_asymm h (hforward hgt)
  · rw [heq] at h
    exact List.lt_irrefl _ h

end StackIr.Text.Utf8
