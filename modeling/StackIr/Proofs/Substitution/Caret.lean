import StackIr.Proofs.Substitution.Unclosed
import StackIr.Proofs.Text.Pieces

/-! # Where the caret stands

    The hint for an unclosed placeholder shows the string and, on a line below, a caret.  The
    caret is set in by a tab and by one blank for each byte before the placeholder, in the whole
    string.  The string is shown after a tab, and its further lines after nothing.

    So the caret points at the placeholder only where bytes, characters and places on the line
    are the same.  A line break anywhere in the string moves the caret away, and so does a
    character of several bytes before the placeholder; nothing else does. -/

namespace StackIr

/-! ## Places in a text -/

namespace Text

/-- A place in a text: how many lines are above it, and how many characters are before it on its
    own line. -/
structure Place where
  line : Nat
  column : Nat
  deriving DecidableEq, Repr

namespace Place

/-- The place at the end of a text. -/
def after (text : List Char) : Place where
  line := text.count '\n'
  column := (text.reverse.takeWhile (· ≠ '\n')).length

variable {s t : List Char}

theorem column_after_append (h : '\n' ∉ t) :
    (after (s ++ t)).column = (after s).column + t.length := by
  have hall : ∀ c ∈ t.reverse, decide (c ≠ '\n') = true := by
    intro c hc
    rw [decide_eq_true_iff]
    rintro rfl
    exact h (List.mem_reverse.1 hc)
  simp only [after]
  rw [List.reverse_append, List.takeWhile_append_of_pos hall, List.length_append,
    List.length_reverse, Nat.add_comm]

/-- On the first line every character counts. -/
theorem column_after_eq (h : '\n' ∉ s) : (after s).column = s.length :=
  (column_after_append (s := []) h).trans (Nat.zero_add _)

/-- A line break starts a new line. -/
theorem after_append_lineBreak (h : '\n' ∉ t) :
    after (s ++ '\n' :: t) = ⟨(after s).line + 1, t.length⟩ := by
  have hline : (after (s ++ '\n' :: t)).line = (after s).line + 1 := by
    simp [after, List.count_eq_zero.2 h]
  have hbreak : (after (s ++ ['\n'])).column = 0 := by
    simp [after]
  have hcolumn : (after (s ++ '\n' :: t)).column = t.length := by
    rw [List.append_cons, column_after_append h, hbreak, Nat.zero_add]
  rw [← hline, ← hcolumn]

theorem column_after_lt (h : '\n' ∈ s) : (after s).column < s.length := by
  -- the text is taken apart at its last line break
  obtain ⟨below, above, hs, hbelow⟩ := List.eq_append_cons_of_mem (List.mem_reverse.2 h)
  have hs' : s = above.reverse ++ '\n' :: below.reverse := by
    rw [← List.reverse_reverse s, hs]
    simp
  rw [hs', after_append_lineBreak (by rwa [List.mem_reverse])]
  simp only [List.length_append, List.length_cons]
  omega

end Place

/-! ## Texts as they are shown -/

namespace Utf8

@[simp] theorem toList_decodeLossy (bytes : List UInt8) :
    (decodeLossy bytes).toList = (Piece.decode bytes).map Piece.toChar :=
  String.toList_ofList

theorem toList_decodeLossy_append {b : UInt8} {c : Char} (hb : b < 0x80)
    (hc : Char.ofNat b.toNat = c) (before rest : List UInt8) :
    (decodeLossy (before ++ b :: rest)).toList =
      (decodeLossy before).toList ++ c :: (decodeLossy rest).toList := by
  rw [toList_decodeLossy, toList_decodeLossy, toList_decodeLossy,
    Piece.decode_append (isContinuation_of_lt hb), Piece.decode_cons_of_lt hb, hc, List.map_append,
    List.map_cons, Piece.toChar]

/-- The lines of a text are those of its bytes. -/
theorem lineBreak_mem_decodeLossy_iff {bytes : List UInt8} :
    '\n' ∈ (decodeLossy bytes).toList ↔ 10 ∈ bytes := by
  have hchar : Piece.char '\n' ∈ Piece.decode bytes ↔ 10 ∈ bytes :=
    Piece.char_mem_decode_iff (by decide)
  rw [toList_decodeLossy, ← hchar, List.mem_map]
  constructor
  · rintro ⟨piece, hmem, hpiece⟩
    cases piece with
    | char c => exact hpiece ▸ hmem
    | stray b =>
      have hne : '�' ≠ '\n' := by decide
      exact absurd hpiece hne
  · intro h
    exact ⟨_, h, rfl⟩

end Utf8

end Text

/-! ## Hints -/

namespace Substitution

open Text Alphabet

namespace Unterminated

/-- What the hint shows before the unclosed placeholder. -/
def shownBefore (u : Unterminated) : List Char :=
  '\t' :: (Utf8.decodeLossy (u.input.take u.start)).toList

/-- What the hint shows before the caret. -/
def beforeCaret (u : Unterminated) : List Char :=
  u.caret.toList.dropLast

/-- The caret stands on the line below the placeholder, and as many characters are before it as
    before the placeholder. -/
structure CaretPoints (u : Unterminated) : Prop where
  below : (Place.after u.beforeCaret).line = (Place.after u.shownBefore).line + 1
  aligned : (Place.after u.beforeCaret).column = (Place.after u.shownBefore).column

theorem toList_caret (u : Unterminated) :
    u.caret.toList =
      ('\t' :: (Utf8.decodeLossy u.input).toList) ++ '\n' :: ('\t' :: List.replicate u.start ' ') ++
        ['^'] := by
  simp [caret, Text.replicate]

theorem beforeCaret_eq (u : Unterminated) :
    u.beforeCaret = ('\t' :: (Utf8.decodeLossy u.input).toList) ++
      '\n' :: ('\t' :: List.replicate u.start ' ') := by
  rw [beforeCaret, toList_caret, List.dropLast_concat]

theorem line_beforeCaret (u : Unterminated) :
    (Place.after u.beforeCaret).line = (Utf8.decodeLossy u.input).toList.count '\n' + 1 := by
  rw [beforeCaret_eq, Place.after_append_lineBreak (by simp)]
  simp [Place.after]

theorem column_beforeCaret (u : Unterminated) :
    (Place.after u.beforeCaret).column = u.start + 1 := by
  rw [beforeCaret_eq, Place.after_append_lineBreak (by simp)]
  simp

/-- The string is shown as a whole: what is before the placeholder, the placeholder, and the
    rest. -/
theorem toList_decodeLossy_input {u : Unterminated} {rest : List UInt8}
    (h : u.input.drop u.start = dollar :: leftBrace :: rest) :
    (Utf8.decodeLossy u.input).toList =
      (Utf8.decodeLossy (u.input.take u.start)).toList ++
        '$' :: '\x7b' :: (Utf8.decodeLossy rest).toList := by
  have hinput : u.input = u.input.take u.start ++ 36 :: 123 :: rest :=
    (List.take_append_drop u.start u.input).symm.trans (congrArg _ h)
  calc (Utf8.decodeLossy u.input).toList
      = (Utf8.decodeLossy (u.input.take u.start ++ 36 :: ([] ++ 123 :: rest))).toList := by
        rw [List.nil_append, ← hinput]
    _ = (Utf8.decodeLossy (u.input.take u.start)).toList ++
          '$' :: ((Utf8.decodeLossy []).toList ++ '\x7b' :: (Utf8.decodeLossy rest).toList) := by
        rw [Utf8.toList_decodeLossy_append (c := '$') (by decide) (by decide),
          Utf8.toList_decodeLossy_append (c := '\x7b') (by decide) (by decide)]

theorem caret_eq {u : Unterminated} {rest : List UInt8}
    (h : u.input.drop u.start = dollar :: leftBrace :: rest) :
    u.caret.toList = u.shownBefore ++ '$' :: '\x7b' :: ((Utf8.decodeLossy rest).toList ++
      '\n' :: ('\t' :: List.replicate u.start ' ')) ++ ['^'] := by
  rw [toList_caret, toList_decodeLossy_input h, shownBefore]
  simp

/-- The caret is on the line below the placeholder exactly if no line break follows that. -/
theorem below_iff {u : Unterminated} {rest : List UInt8}
    (h : u.input.drop u.start = dollar :: leftBrace :: rest) :
    (Place.after u.beforeCaret).line = (Place.after u.shownBefore).line + 1 ↔ 10 ∉ rest := by
  rw [line_beforeCaret, toList_decodeLossy_input h, ← Utf8.lineBreak_mem_decodeLossy_iff,
    ← List.count_eq_zero]
  simp [Place.after, shownBefore]

/-- The caret is in the column of the placeholder exactly if that is on the first line and all
    characters before it have one byte. -/
theorem aligned_iff {u : Unterminated} (hstart : u.start ≤ u.input.length) :
    (Place.after u.beforeCaret).column = (Place.after u.shownBefore).column ↔
      10 ∉ u.input.take u.start ∧
        ∀ c, .char c ∈ Piece.decode (u.input.take u.start) → c.toNat < 0x80 := by
  have hlength : u.shownBefore.length = (Piece.decode (u.input.take u.start)).length + 1 := by
    rw [shownBefore, List.length_cons, Utf8.toList_decodeLossy, List.length_map]
  have hle : (Piece.decode (u.input.take u.start)).length ≤ u.start :=
    (Piece.length_decode_le _).trans (List.length_take_le _ _)
  rw [column_beforeCaret, ← Utf8.lineBreak_mem_decodeLossy_iff, ← Piece.length_decode_eq_iff,
    List.length_take_of_le hstart]
  by_cases hbreak : '\n' ∈ (Utf8.decodeLossy (u.input.take u.start)).toList
  · -- the column counts from the last line break on, the caret from the start of the string
    have hlt : (Place.after u.shownBefore).column < u.shownBefore.length :=
      Place.column_after_lt (List.mem_cons_of_mem _ hbreak)
    constructor
    · intro heq
      omega
    · rintro ⟨hnone, -⟩
      exact absurd hbreak hnone
  · -- on the first line there are as many places as characters before the placeholder
    have hcolumn : (Place.after u.shownBefore).column = u.shownBefore.length :=
      Place.column_after_eq (by simpa [shownBefore] using hbreak)
    rw [hcolumn, hlength, and_iff_right hbreak]
    omega

end Unterminated

/-- The hint for a rejected string shows its unclosed placeholder and ends with the caret.  The
    caret points at the placeholder exactly if the string has no line break (the byte 10) and no
    character of more than one byte is before the placeholder. -/
theorem caretPoints_iff_of_scanBytes {input : List UInt8} {u : Unterminated}
    (h : scanBytes input = .error u) :
    UnclosedAt input u.start ∧
      (∃ between, u.caret.toList = u.shownBefore ++ '$' :: '\x7b' :: between ++ ['^']) ∧
      (u.CaretPoints ↔
        10 ∉ input ∧ ∀ c, .char c ∈ Piece.decode (input.take u.start) → c.toNat < 0x80) := by
  have hlocates := locates_of_scanBytes h
  obtain ⟨rest, hdrop, -⟩ := hlocates.unclosed
  obtain rfl := hlocates.whole
  have hstart : u.start ≤ u.input.length :=
    (Nat.le_add_right _ 2).trans hlocates.inRange
  have hbreak : 10 ∈ u.input ↔ 10 ∈ u.input.take u.start ∨ 10 ∈ rest := by
    have hmem : 10 ∈ u.input.drop u.start ↔ 10 ∈ rest := by
      rw [hdrop]
      simp [dollar, leftBrace]
    rw [← hmem, ← List.mem_append, List.take_append_drop]
  refine ⟨hlocates.unclosed, ⟨_, Unterminated.caret_eq hdrop⟩, ?_⟩
  rw [hbreak, not_or]
  constructor
  · intro hpoints
    obtain ⟨hbefore, hsmall⟩ := (Unterminated.aligned_iff hstart).1 hpoints.aligned
    exact ⟨⟨hbefore, (Unterminated.below_iff hdrop).1 hpoints.below⟩, hsmall⟩
  · rintro ⟨⟨hbefore, hrest⟩, hsmall⟩
    exact ⟨(Unterminated.below_iff hdrop).2 hrest,
      (Unterminated.aligned_iff hstart).2 ⟨hbefore, hsmall⟩⟩

/-- `arn:` and a placeholder without an end. -/
def oneLine : List UInt8 :=
  [97, 114, 110, 58, dollar, leftBrace, 66]

/-- A letter of two bytes, and a placeholder without an end. -/
def accented : List UInt8 :=
  [0xC3, 0xA9, dollar, leftBrace, 66]

/-- A placeholder without an end on the second line. -/
def secondLine : List UInt8 :=
  [97, 10, dollar, leftBrace, 66]

theorem caretPoints_iff_of_scanBytes_hints :
    (scanBytes oneLine = .error ⟨oneLine, 4⟩ ∧ (Unterminated.mk oneLine 4).CaretPoints) ∧
      (scanBytes accented = .error ⟨accented, 2⟩ ∧ ¬ (Unterminated.mk accented 2).CaretPoints) ∧
      (scanBytes secondLine = .error ⟨secondLine, 2⟩ ∧
        ¬ (Unterminated.mk secondLine 2).CaretPoints) := by
  have hone : scanBytes oneLine = .error ⟨oneLine, 4⟩ := by cbv
  have haccented : scanBytes accented = .error ⟨accented, 2⟩ := by cbv
  have hsecond : scanBytes secondLine = .error ⟨secondLine, 2⟩ := by cbv
  have hpieces : Piece.decode (oneLine.take 4) = [.char 'a', .char 'r', .char 'n', .char ':'] := by
    decide
  have hpieces' : .char 'é' ∈ Piece.decode (accented.take 2) := by decide
  refine ⟨⟨hone, ?_⟩, ⟨haccented, ?_⟩, ⟨hsecond, ?_⟩⟩
  · refine (caretPoints_iff_of_scanBytes hone).2.2.2 ⟨by decide, ?_⟩
    intro c hc
    rw [hpieces] at hc
    simp only [List.mem_cons, Piece.char.injEq, List.not_mem_nil, or_false] at hc
    rcases hc with rfl | rfl | rfl | rfl <;> decide
  · intro hpoints
    have hsmall := ((caretPoints_iff_of_scanBytes haccented).2.2.1 hpoints).2
    exact absurd (hsmall 'é' hpieces') (by decide)
  · intro hpoints
    have hline := ((caretPoints_iff_of_scanBytes hsecond).2.2.1 hpoints).1
    exact hline (by decide)

end Substitution

end StackIr
