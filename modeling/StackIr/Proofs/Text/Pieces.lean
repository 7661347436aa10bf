import StackIr.Proofs.Text.Utf8

/-! # The pieces of a byte text

    Reading takes bytes off the front, as many as the next piece has.  A byte that continues no
    character starts a piece, whatever stands before it.  So a text can be cut in front of it, and
    the two sides be read on their own.

    There are at most as many pieces as bytes, and as many exactly if all characters are below
    `0x80`: a character from there on takes two bytes or more, and everything else, stray bytes
    included, takes one. -/

namespace StackIr.Text

/-! ## The first character -/

namespace Utf8

theorem le_toNat_of_scalar? {least n : Nat} {c : Char} (h : scalar? least n = some c) :
    least ≤ c.toNat := by
  rw [scalar?] at h
  obtain ⟨hvalid, hscalar⟩ := Option.dite_none_right_eq_some.1 h
  obtain ⟨hle, hc⟩ := Option.ite_none_right_eq_some.1 hscalar
  obtain rfl := Option.some.inj hc
  exact hle

theorem le_toNat_of_map_scalar? {least n bytes width : Nat} {c : Char}
    (h : (scalar? least n).map (·, bytes) = some (c, width)) :
    least ≤ c.toNat ∧ width = bytes := by
  obtain ⟨c', hc, heq⟩ := Option.map_eq_some_iff.1 h
  cases heq
  exact ⟨le_toNat_of_scalar? hc, rfl⟩

/-- A character is one byte below `0x80`, or it is from `0x80` on and takes more bytes than
    one. -/
theorem first?_cases {a : UInt8} {rest : List UInt8} {c : Char} {width : Nat}
    (h : first? (a :: rest) = some (c, width)) :
    (a < 0x80 ∧ c = Char.ofNat a.toNat ∧ width = 1) ∨
      (0x80 ≤ c.toNat ∧ 1 < width ∧ width ≤ rest.length + 1) := by
  unfold first? at h
  dsimp only at h
  -- the first byte tells how many more there are
  split_ifs at h with h₁ h₂ h₃ h₄ h₅
  · cases h
    exact .inl ⟨h₁, rfl, rfl⟩
  · match rest, h with
    | _ :: _, h =>
      obtain ⟨-, hmap⟩ := Option.ite_none_right_eq_some.1 h
      obtain ⟨hc, rfl⟩ := le_toNat_of_map_scalar? hmap
      exact .inr ⟨hc, by decide, by simp⟩
  · match rest, h with
    | _ :: _ :: _, h =>
      obtain ⟨-, hmap⟩ := Option.ite_none_right_eq_some.1 h
      obtain ⟨hc, rfl⟩ := le_toNat_of_map_scalar? hmap
      exact .inr ⟨by omega, by decide, by simp⟩
  · match rest, h with
    | _ :: _ :: _ :: _, h =>
      obtain ⟨-, hmap⟩ := Option.ite_none_right_eq_some.1 h
      obtain ⟨hc, rfl⟩ := le_toNat_of_map_scalar? hmap
      exact .inr ⟨by omega, by decide, by simp⟩

theorem width_le_of_first? {a : UInt8} {rest : List UInt8} {c : Char} {width : Nat}
    (h : first? (a :: rest) = some (c, width)) : width - 1 ≤ rest.length := by
  rcases first?_cases h with ⟨-, -, rfl⟩ | ⟨-, -, hle⟩
  · exact Nat.zero_le _
  · omega

/-- The first character of a text is the same with more text after it, if that starts with no
    continuation byte. -/
theorem first?_append {b : UInt8} (hb : isContinuation b = false) (a : UInt8)
    (rest after : List UInt8) : first? (a :: (rest ++ b :: after)) = first? (a :: rest) := by
  -- at most three more bytes are looked at, and `b` ends them all
  match rest with
  | [] => rcases after with _ | ⟨x, _ | ⟨y, after⟩⟩ <;> simp [first?, hb]
  | [x] => cases after <;> simp [first?, hb]
  | [x, y] => simp [first?, hb]
  | x :: y :: z :: more => rfl

theorem first?_of_lt {b : UInt8} (hb : b < 0x80) (after : List UInt8) :
    first? (b :: after) = some (Char.ofNat b.toNat, 1) :=
  if_pos hb

theorem isContinuation_of_lt {b : UInt8} (hb : b < 0x80) : isContinuation b = false := by
  rw [isContinuation, decide_eq_false (UInt8.not_le.2 hb), Bool.false_and]

theorem toNat_ofNat_of_lt {b : UInt8} (hb : b < 0x80) : (Char.ofNat b.toNat).toNat = b.toNat := by
  have hlt : b.toNat < 0x80 := UInt8.lt_iff_toNat_lt.1 hb
  have hvalid : b.toNat.isValidChar := .inl (by omega)
  rw [Char.ofNat, dif_pos hvalid]
  rfl

end Utf8

/-! ## Piece by piece -/

namespace Piece

open Utf8

theorem decodeFrom_eq (skip : Nat) (bytes : List UInt8) :
    decodeFrom skip bytes = decode (bytes.drop skip) := by
  induction skip generalizing bytes with
  | zero => rfl
  | succ skip ih =>
    cases bytes with
    | nil => rfl
    | cons b rest => exact ih rest

theorem decode_of_char {a : UInt8} {rest : List UInt8} {c : Char} {width : Nat}
    (h : first? (a :: rest) = some (c, width)) :
    decode (a :: rest) = .char c :: decode (rest.drop (width - 1)) := by
  rw [decode, decodeFrom, h]
  show Piece.char c :: decodeFrom (width - 1) rest = _
  rw [decodeFrom_eq]

theorem decode_of_stray {a : UInt8} {rest : List UInt8} (h : first? (a :: rest) = none) :
    decode (a :: rest) = .stray a :: decode rest := by
  rw [decode, decodeFrom, h]
  rfl

/-- Induction over the pieces of a text. -/
theorem decode_induction {P : List UInt8 → Prop} (nil : P [])
    (char : ∀ (a : UInt8) (rest : List UInt8) (c : Char) (width : Nat),
      first? (a :: rest) = some (c, width) → P (rest.drop (width - 1)) → P (a :: rest))
    (stray : ∀ (a : UInt8) (rest : List UInt8), first? (a :: rest) = none → P rest →
      P (a :: rest))
    (bytes : List UInt8) : P bytes := by
  match bytes with
  | [] => exact nil
  | a :: rest =>
    match h : first? (a :: rest) with
    | some (c, width) => exact char a rest c width h (decode_induction nil char stray _)
    | none => exact stray a rest h (decode_induction nil char stray rest)
  termination_by bytes.length
  decreasing_by
    all_goals simp only [List.length_drop, List.length_cons]
    all_goals omega

/-- A text can be cut in front of a byte that continues no character. -/
theorem decode_append {b : UInt8} (hb : isContinuation b = false) (before after : List UInt8) :
    decode (before ++ b :: after) = decode before ++ decode (b :: after) := by
  induction before using decode_induction with
  | nil => rfl
  | char a rest c width h ih =>
    have happend : first? (a :: (rest ++ b :: after)) = some (c, width) :=
      (first?_append hb a rest after).trans h
    rw [List.cons_append, decode_of_char happend,
      List.drop_append_of_le_length (width_le_of_first? h), ih, decode_of_char h, List.cons_append]
  | stray a rest h ih =>
    have happend : first? (a :: (rest ++ b :: after)) = none :=
      (first?_append hb a rest after).trans h
    rw [List.cons_append, decode_of_stray happend, ih, decode_of_stray h, List.cons_append]

theorem decode_cons_of_lt {b : UInt8} (hb : b < 0x80) (after : List UInt8) :
    decode (b :: after) = .char (Char.ofNat b.toNat) :: decode after :=
  decode_of_char (first?_of_lt hb after)

/-- Bytes below `0x80` are characters wherever they stand, and only they are those characters. -/
theorem char_mem_decode_iff {c : Char} (hc : c.toNat < 0x80) {bytes : List UInt8} :
    .char c ∈ decode bytes ↔ UInt8.ofNat c.toNat ∈ bytes := by
  constructor
  · intro h
    induction bytes using decode_induction with
    | nil => cases h
    | char a rest c' width hfirst ih =>
      rw [decode_of_char hfirst] at h
      rcases List.mem_cons.1 h with heq | hrest
      · obtain rfl := Piece.char.inj heq
        rcases first?_cases hfirst with ⟨ha, rfl, -⟩ | ⟨hlarge, -⟩
        · rw [toNat_ofNat_of_lt ha, UInt8.ofNat_toNat]
          exact List.mem_cons_self
        · -- a character of several bytes is none of these
          omega
      · exact List.mem_cons_of_mem a (List.mem_of_mem_drop (ih hrest))
    | stray a rest hfirst ih =>
      rw [decode_of_stray hfirst] at h
      rcases List.mem_cons.1 h with heq | hrest
      · cases heq
      · exact List.mem_cons_of_mem a (ih hrest)
  · intro h
    -- the byte starts a piece of its own wherever it stands
    obtain ⟨before, after, rfl⟩ := List.append_of_mem h
    have hlt : UInt8.ofNat c.toNat < 0x80 := ofNat_lt (by omega) hc
    rw [decode_append (isContinuation_of_lt hlt), decode_cons_of_lt hlt, toNat_ofNat (by omega),
      Char.ofNat_toNat]
    simp

/-! ## How many pieces there are -/

theorem length_decode_le (bytes : List UInt8) : (decode bytes).length ≤ bytes.length := by
  induction bytes using decode_induction with
  | nil => exact Nat.le_refl 0
  | char a rest c width h ih =>
    rw [decode_of_char h]
    rw [List.length_drop] at ih
    simp only [List.length_cons]
    omega
  | stray a rest h ih =>
    rw [decode_of_stray h]
    simp only [List.length_cons]
    omega

theorem length_decode_eq_iff {bytes : List UInt8} :
    (decode bytes).length = bytes.length ↔ ∀ c, .char c ∈ decode bytes → c.toNat < 0x80 := by
  induction bytes using decode_induction with
  | nil => simp [decode, decodeFrom]
  | char a rest c width h ih =>
    rw [decode_of_char h]
    rcases first?_cases h with ⟨ha, hc, rfl⟩ | ⟨hlarge, hone, hwidth⟩
    · have hsmall : c.toNat < 0x80 := by
        rw [hc, toNat_ofNat_of_lt ha]
        exact UInt8.lt_iff_toNat_lt.1 ha
      simp only [Nat.sub_self, List.drop_zero] at ih ⊢
      simp [ih, hsmall]
    · -- a character of several bytes leaves fewer pieces than bytes, whatever follows
      have hle := length_decode_le (rest.drop (width - 1))
      rw [List.length_drop] at hle
      constructor
      · intro heq
        simp only [List.length_cons] at heq
        omega
      · intro hall
        have := hall c (List.mem_cons_self ..)
        omega
  | stray a rest h ih =>
    rw [decode_of_stray h]
    simp [ih]

end Piece

end StackIr.Text
