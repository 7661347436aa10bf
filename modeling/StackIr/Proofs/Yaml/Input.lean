import StackIr.Proofs.Text.Utf8
import StackIr.Yaml.Encoding
import Mathlib.Data.List.Basic

/-! # The characters of an encoded text

    A text whose characters are all allowed is read back from its bytes.  The bytes are read
    in pieces, and a character may lie across the end of one: what is left of a piece is the
    start of the bytes of the next character. -/

namespace StackIr.Yaml

open Text

/-- The bytes of some characters. -/
def bytesOf (cs : List Char) : List UInt8 :=
  cs.flatMap String.utf8EncodeChar

/-- A part of the bytes of the first character, or nothing. -/
def Partial (left : List UInt8) : List Char → Prop
  | [] => left = []
  | c :: _ => left.length < (String.utf8EncodeChar c).length

namespace Encoding

/-- The first byte of a character tells how many there are. -/
theorem width_utf8EncodeChar (c : Char) {b : UInt8} {more rest : List UInt8}
    (h : String.utf8EncodeChar c = b :: more) :
    width .utf8 (b :: rest) = (String.utf8EncodeChar c).length := by
  have hmax := Utf8.toNat_lt c
  have hb := congrArg List.head? h
  rw [String.utf8EncodeChar.eq_1, show c.val.toNat = c.toNat from rfl] at hb ⊢
  generalize c.toNat = v at hmax hb
  split_ifs at hb ⊢ with h₁ h₂ h₃ <;> simp only [List.head?_cons, Option.some.injEq] at hb <;>
    subst hb <;> simp only [width]
  · rw [if_pos (Utf8.ofNat_lt (by omega) (show v < 192 by omega))]
    rfl
  · have hlead : v / 64 % 32 + 192 < 256 := by omega
    rw [if_neg (Utf8.not_ofNat_lt hlead (show 192 ≤ _ by omega)),
      if_pos (Utf8.ofNat_lt hlead (show _ < 224 by omega))]
    rfl
  · have hlead : v / 4096 % 16 + 224 < 256 := by omega
    rw [if_neg (Utf8.not_ofNat_lt hlead (show 192 ≤ _ by omega)),
      if_neg (Utf8.not_ofNat_lt hlead (show 224 ≤ _ by omega)),
      if_pos (Utf8.ofNat_lt hlead (show _ < 240 by omega))]
    rfl
  · have hlead : v / 262144 % 8 + 240 < 256 := by omega
    rw [if_neg (Utf8.not_ofNat_lt hlead (show 192 ≤ _ by omega)),
      if_neg (Utf8.not_ofNat_lt hlead (show 224 ≤ _ by omega)),
      if_neg (Utf8.not_ofNat_lt hlead (show 240 ≤ _ by omega)),
      if_pos (Utf8.ofNat_lt hlead (show _ < 248 by omega))]
    rfl

@[simp] theorem width_append (c : Char) (bytes : List UInt8) :
    width .utf8 (String.utf8EncodeChar c ++ bytes) = (String.utf8EncodeChar c).length := by
  obtain ⟨b, more, hb⟩ := List.exists_cons_of_ne_nil (String.utf8EncodeChar_ne_nil (c := c))
  rw [hb, List.cons_append, width_utf8EncodeChar c hb, hb]

/-- One character that lies in the piece. -/
theorem decodePiece?_char {c : Char} (hc : isAllowed c = true) (fuel : Nat) (sofar : List Char)
    (piece : List UInt8) :
    decodePiece? .utf8 (fuel + 1) sofar (String.utf8EncodeChar c ++ piece) =
      decodePiece? .utf8 fuel (c :: sofar) piece := by
  have hpos := Utf8.length_utf8EncodeChar_pos c
  have hnonempty : ((String.utf8EncodeChar c ++ piece).drop
      ((String.utf8EncodeChar c).length - 1)).isEmpty = false := by
    rw [← Bool.not_eq_true, List.isEmpty_iff, List.drop_eq_nil_iff, List.length_append]
    omega
  have hfirst : first? .utf8 (String.utf8EncodeChar c ++ piece) = some c := by
    simp [first?, Utf8.first?_utf8EncodeChar]
  rw [decodePiece?, width_append, hnonempty, hfirst]
  · simp [hc]
  · intro h
    simp at h

/-- A character that does not end in the piece. -/
theorem decodePiece?_part {c : Char} {piece rest more : List UInt8} {fuel : Nat} (sofar : List Char)
    (hpiece : piece ++ rest = String.utf8EncodeChar c ++ more)
    (hshort : piece.length < (String.utf8EncodeChar c).length) (hfuel : piece.length ≤ fuel) :
    decodePiece? .utf8 fuel sofar piece = some (sofar, piece) := by
  cases piece with
  | nil => cases fuel <;> rfl
  | cons b piece =>
    obtain ⟨fuel, rfl⟩ : ∃ n, fuel = n + 1 := ⟨fuel - 1, by simp at hfuel; omega⟩
    obtain ⟨b', bytes, hb⟩ := List.exists_cons_of_ne_nil (String.utf8EncodeChar_ne_nil (c := c))
    obtain rfl : b = b' := by
      rw [hb, List.cons_append, List.cons_append] at hpiece
      exact (List.cons.inj hpiece).1
    have hempty : ((b :: piece).drop ((String.utf8EncodeChar c).length - 1)).isEmpty = true := by
      rw [List.isEmpty_iff, List.drop_eq_nil_iff]
      omega
    rw [decodePiece?, width_utf8EncodeChar c hb, if_pos hempty]
    simp

/-- A piece at the start of the bytes of some characters is read up to a part of one. -/
theorem decodePiece?_eq {cs : List Char} (hcs : ∀ c ∈ cs, isAllowed c = true) :
    ∀ (fuel : Nat) (sofar : List Char) (piece rest : List UInt8), piece ++ rest = bytesOf cs →
      piece.length ≤ fuel →
        ∃ read left' ahead, cs = read ++ ahead ∧ left' ++ rest = bytesOf ahead ∧
          Partial left' ahead ∧
          decodePiece? .utf8 fuel sofar piece = some (read.reverse ++ sofar, left') := by
  induction cs with
  | nil =>
    intro fuel sofar piece rest hpiece _
    obtain ⟨rfl, rfl⟩ := List.append_eq_nil_iff.1 (show piece ++ rest = [] from hpiece)
    refine ⟨[], [], [], rfl, rfl, rfl, ?_⟩
    cases fuel <;> rfl
  | cons c cs ih =>
    intro fuel sofar piece rest hpiece hfuel
    obtain ⟨hc, hcs'⟩ := List.forall_mem_cons.1 hcs
    have hbytes : bytesOf (c :: cs) = String.utf8EncodeChar c ++ bytesOf cs := by
      simp [bytesOf]
    rw [hbytes] at hpiece
    by_cases hshort : piece.length < (String.utf8EncodeChar c).length
    · -- the piece ends before the character does
      exact ⟨[], piece, c :: cs, rfl, by rw [hbytes, hpiece], hshort,
        decodePiece?_part sofar hpiece hshort hfuel⟩
    · obtain ⟨piece', rfl⟩ : String.utf8EncodeChar c <+: piece :=
        List.prefix_of_prefix_length_le ⟨bytesOf cs, hpiece.symm⟩ (List.prefix_append ..) (by omega)
      have hpiece' : piece' ++ rest = bytesOf cs := by
        rw [List.append_assoc] at hpiece
        exact List.append_cancel_left hpiece
      have hpos := Utf8.length_utf8EncodeChar_pos c
      rw [List.length_append] at hfuel
      obtain ⟨fuel, rfl⟩ : ∃ n, fuel = n + 1 := ⟨fuel - 1, by omega⟩
      obtain ⟨read, left', ahead, rfl, hleft, hpartial, hdecode⟩ :=
        ih hcs' fuel (c :: sofar) piece' rest hpiece' (by omega)
      refine ⟨c :: read, left', ahead, rfl, hleft, hpartial, ?_⟩
      rw [decodePiece?_char hc, hdecode]
      simp

/-- Reading piece by piece gives all characters. -/
theorem decodePieces_eq :
    ∀ (fuel : Nat) (cs : List Char), (∀ c ∈ cs, isAllowed c = true) →
      ∀ (sofar : List Char) (left bytes : List UInt8), left ++ bytes = bytesOf cs →
        Partial left cs → bytes.length ≤ fuel →
          decodePieces .utf8 fuel sofar left bytes = (cs.reverse ++ sofar, none) := by
  -- With no bytes left, a part of a character would be a whole one.
  have hend : ∀ {cs : List Char} {left : List UInt8}, left = bytesOf cs → Partial left cs →
      cs = [] ∧ left = [] := by
    intro cs left hleft hpartial
    cases cs with
    | nil => exact ⟨rfl, hpartial⟩
    | cons c cs =>
      have : left.length < (String.utf8EncodeChar c).length := hpartial
      rw [hleft, bytesOf, List.flatMap_cons, List.length_append] at this
      omega
  intro fuel
  induction fuel with
  | zero =>
    intro cs _ sofar left bytes hbytes hpartial hfuel
    obtain rfl : bytes = [] := List.length_eq_zero_iff.1 (by omega)
    obtain ⟨rfl, rfl⟩ := hend (by simpa using hbytes) hpartial
    rfl
  | succ fuel ih =>
    intro cs hcs sofar left bytes hbytes hpartial hfuel
    cases bytes with
    | nil =>
      obtain ⟨rfl, rfl⟩ := hend (by simpa using hbytes) hpartial
      rfl
    | cons b bytes =>
      -- so there is room for new bytes in the next piece
      have hleft : left.length < 4 := by
        cases cs with
        | nil => rw [show left = [] from hpartial]; simp
        | cons c cs =>
          have : left.length < (String.utf8EncodeChar c).length := hpartial
          have hmax : (String.utf8EncodeChar c).length ≤ 4 := by
            rw [String.length_utf8EncodeChar]
            exact Char.utf8Size_le_four c
          omega
      have hsize : pieceSize = 512 := rfl
      obtain ⟨read, left', ahead, rfl, hleft', hpartial', hdecode⟩ :=
        decodePiece?_eq hcs pieceSize sofar (left ++ (b :: bytes).take (pieceSize - left.length))
          ((b :: bytes).drop (pieceSize - left.length))
          (by rw [List.append_assoc, List.take_append_drop, hbytes])
          (by rw [List.length_append, List.length_take]; omega)
      have hnext := ih ahead (fun c hc => hcs c (by simp [hc])) (read.reverse ++ sofar) left' _ hleft'
        hpartial' (by simp at hfuel ⊢; omega)
      rw [decodePieces]
      · simp only [hdecode, hnext]
        simp
      · simp

end Encoding

/-- A text that starts with no mark is read as UTF-8. -/
theorem Encoding.ofBytes_bytesOf {cs : List Char} (h : cs.head? ≠ some '\ufeff') :
    Encoding.ofBytes (bytesOf cs) = (.utf8, 0) := by
  cases cs with
  | nil => rfl
  | cons c cs =>
    have hc : c.toNat ≠ 0xFEFF := by
      intro hc
      apply h
      have : c = Char.ofNat 0xFEFF := by rw [← hc, Char.ofNat_toNat]
      simp [this]
    have hmax := Utf8.toNat_lt c
    have hbyte : ∀ {k : Nat} {b : UInt8}, k < 256 → UInt8.ofNat k = b → k = b.toNat := by
      rintro k b hk rfl
      rw [Utf8.toNat_ofNat hk]
    rw [bytesOf, List.flatMap_cons, String.utf8EncodeChar.eq_1,
      show c.val.toNat = c.toNat from rfl]
    generalize c.toNat = v at hc hmax
    -- The first byte is neither 0xFE nor 0xFF, and 0xEF starts the mark only.
    unfold Encoding.ofBytes
    split
    · rename_i heq
      split_ifs at heq with h₁ h₂ h₃ <;> simp only [List.cons_append] at heq <;>
        have := hbyte (by omega) (List.cons.inj heq).1 <;> simp at this <;> omega
    · rename_i heq
      split_ifs at heq with h₁ h₂ h₃ <;> simp only [List.cons_append] at heq <;>
        have := hbyte (by omega) (List.cons.inj heq).1 <;> simp at this <;> omega
    · rename_i heq
      split_ifs at heq with h₁ h₂ h₃ <;> simp only [List.cons_append] at heq
      · have := hbyte (by omega) (List.cons.inj heq).1
        simp at this
        omega
      · have := hbyte (by omega) (List.cons.inj heq).1
        simp at this
        omega
      · obtain ⟨e₁, heq⟩ := List.cons.inj heq
        obtain ⟨e₂, heq⟩ := List.cons.inj heq
        obtain ⟨e₃, -⟩ := List.cons.inj heq
        have f₁ := hbyte (by omega) e₁
        have f₂ := hbyte (by omega) e₂
        have f₃ := hbyte (by omega) e₃
        simp at f₁ f₂ f₃
        omega
      · have := hbyte (by omega) (List.cons.inj heq).1
        simp at this
    · rfl

/-- The characters of an encoded text are those of the text. -/
theorem Input.ofBytes_encode {cs : List Char} (hcs : ∀ c ∈ cs, isAllowed c = true)
    (hmark : cs.head? ≠ some '\ufeff') :
    ∃ n, Input.ofBytes (Utf8.encode (String.ofList cs)) =
      { characters := cs, fault := none, firstPiece := n } := by
  have hbytes : Utf8.encode (String.ofList cs) = bytesOf cs := Utf8.encode_ofList cs
  have hsize : pieceSize = 512 := rfl
  obtain ⟨read, left, ahead, hsplit, hleft, hpartial, hdecode⟩ :=
    Encoding.decodePiece?_eq hcs pieceSize [] ((bytesOf cs).take pieceSize)
      ((bytesOf cs).drop pieceSize) (List.take_append_drop _ _)
      (by rw [List.length_take]; omega)
  have hrest := Encoding.decodePieces_eq (bytesOf cs).length ahead
    (fun c hc => hcs c (by simp [hsplit, hc])) (read.reverse ++ []) left _ hleft hpartial
    (by simp)
  refine ⟨read.length, ?_⟩
  rw [hbytes, Input.ofBytes, Encoding.ofBytes_bytesOf hmark]
  simp only [List.drop_zero, hdecode, hrest]
  simp [hsplit]

end StackIr.Yaml
