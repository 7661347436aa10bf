import StackIr.Proofs.Rendering.Nodes
import StackIr.Proofs.Text.LowerCase

/-! # Legible JSON texts

    A legible JSON text is read as a document that says what the text says, whatever its
    whitespace and the spelling of its strings.  Only brackets that are nested too deep are
    refused. -/

namespace StackIr.Json

open Yaml Yaml.Scanner

/-! ## Strings -/

open Text in
/-- Digits have the same value in either case. -/
theorem digitValue?_of_toLower {c : Char} {d : Nat} (hd : d < 16) (h : c.toLower = hexDigit d) :
    Decimal.digitValue? c = some d ∧ Quoted.Graphic c := by
  -- above ASCII a character is its own lower case, so it is no digit
  have hascii : c.toNat < 0x80 := by
    by_contra hlarge
    rw [toLower_of_not_ascii (by omega)] at h
    have hsmall : ∀ d < 16, (hexDigit d).toNat < 0x80 := by decide
    exact hlarge (h ▸ hsmall d hd)
  have hall : ∀ n < 0x80, ∀ d < 16, (Char.ofNat n).toLower = hexDigit d →
      Decimal.digitValue? (Char.ofNat n) = some d ∧ Quoted.Graphic (Char.ofNat n) := by
    decide +kernel
  have hc := hall c.toNat hascii d hd
  rw [Char.ofNat_toNat] at hc
  exact hc h

open Text in
theorem digitsFrom?_of_toLower {digits lower : List Char} (h : digits.map Char.toLower = lower)
    (hlower : ∀ x ∈ lower, ∃ d < 16, x = hexDigit d) (sofar : Nat) :
    Decimal.digitsFrom? 16 sofar digits = Decimal.digitsFrom? 16 sofar lower ∧
      ∀ x ∈ digits, Quoted.Graphic x := by
  induction digits generalizing lower sofar with
  | nil =>
    subst h
    exact ⟨rfl, nofun⟩
  | cons c digits ih =>
    subst h
    obtain ⟨⟨d, hd, hc⟩, hdigits⟩ := List.forall_mem_cons.1 hlower
    obtain ⟨hvalue, hgraphic⟩ := digitValue?_of_toLower hd hc
    obtain ⟨htail, hgraphics⟩ := ih rfl hdigits (sofar * 16 + d)
    refine ⟨?_, List.forall_mem_cons.2 ⟨hgraphic, hgraphics⟩⟩
    rw [List.map_cons, hc, Decimal.digitsFrom?, Decimal.digitsFrom?, hvalue,
      digitValue?_hexDigit d hd]
    simp only [hd, if_true]
    exact htail

/-- A number in an escape is read as the character with that number. -/
theorem isEscape_of_isHex {digits : List Char} {c : Char} (h : IsHex digits c.toNat) :
    Quoted.IsEscape ('u' :: digits) c := by
  obtain ⟨hsmall, hdigits⟩ := h
  obtain ⟨hvalue, hgraphic⟩ := digitsFrom?_of_toLower hdigits eq_hexDigit_of_mem_hex 0
  have hlength : digits.length = 4 := by
    rw [← List.length_map Char.toLower, hdigits, length_hex]
  refine Quoted.isEscape_number (by decide) (by decide) (by decide) hlength ?_ hgraphic
  apply digits?_of_digitsFrom?
  · rintro rfl
    cases hlength
  · rw [hvalue, digitsFrom?_hex, Nat.mod_eq_of_lt (by simpa using hsmall)]

namespace Piece

theorem spells {p : Piece} (h : p.legible = true) :
    Quoted.Spells p.text p.char ∨ p.text = [p.char] ∧ isSeparator p.char = true := by
  cases p with
  | raw c hraw =>
    simp only [legible, Bool.and_eq_true, Bool.or_eq_true, Bool.not_eq_true'] at h
    rcases h.2 with hbreak | hseparator
    · exact .inl (.inl ⟨rfl, hbreak, hraw.2⟩)
    · exact .inr ⟨rfl, hseparator⟩
  | letter l c hletter =>
    refine .inl (.inr ⟨[l], rfl, ?_⟩)
    have hslash : l ≠ '/' := by simpa [legible] using h
    -- the slash is the one letter that the reader does not know
    have hall : ∀ entry ∈ letters, entry.1 ≠ '/' →
        Quoted.simpleEscape? entry.1 = some entry.2 ∧ Quoted.Graphic entry.1 :=
      List.all_iff_forall_prop.1 (by decide)
    obtain ⟨hescape, hgraphic⟩ := hall (l, c) hletter hslash
    exact Quoted.isEscape_letter hescape hgraphic
  | number digits c hhex => exact .inl (.inr ⟨_, rfl, isEscape_of_isHex hhex⟩)
  | pair high low c hpair => cases h

/-- A legible string is spelled by its pieces. -/
theorem spelled {pieces : List Piece} (h : pieces.all legible = true)
    (hkept : Quoted.keepsSeparators (pieces.flatMap text) = true) :
    Spelled (pieces.map char) (pieces.flatMap text) := by
  rw [List.all_eq_true] at h
  refine spelled_of_pieces (fun p hp => spells (h p hp)) hkept fun p hp hself => ?_
  -- only a raw character is written as itself
  have hp := h p hp
  cases p with
  | raw c hraw =>
    simp only [legible, Bool.and_eq_true] at hp
    exact hp.1
  | letter l c hletter => cases hself
  | number digits c hhex => cases hself
  | pair high low c hpair => cases hp

end Piece

theorem isKey_of_legible {key : List Piece} {gap : Space} (h : legibleKeyText key gap = true) :
    IsKey (key.map Piece.char) (key.flatMap Piece.text) gap.chars := by
  simp only [legibleKeyText, Bool.and_eq_true, decide_eq_true_eq, List.all_eq_true,
    Bool.not_eq_true'] at h
  obtain ⟨⟨⟨hlegible, hline⟩, hblank⟩, hlength⟩ := h
  exact ⟨Piece.spelled (List.all_eq_true.2 hlegible) (Quoted.keepsSeparators_of_not_break hline),
    hline, hblank, hlength⟩

/-! ## Values -/

mutual

theorem Source.written (v : Source) (h : v.legible = true) : Written v.text v.shape := by
  match v with
  | .word w => exact .word w.isWord_text
  | .string pieces =>
    simp only [Source.legible, legibleString, Bool.and_eq_true] at h
    exact .string (Piece.spelled h.1 h.2)
  | .array items => exact .array (items.written true h)
  | .object members => exact .object (members.written true h)

theorem SourceItems.written (items : SourceItems) (first : Bool) (h : items.legible = true) :
    WrittenItems first (items.text first) items.shape := by
  match items with
  | .nil gap => exact .nil gap.blank
  | .cons before value after rest =>
    simp only [SourceItems.legible, Bool.and_eq_true] at h
    exact .cons before.blank (value.written h.1) after.blank (rest.written false h.2)

theorem SourceMembers.written (members : SourceMembers) (first : Bool) (h : members.legible = true) :
    WrittenMembers first (members.text first) members.shape := by
  match members with
  | .nil gap => exact .nil gap.blank
  | .cons before key beforeColon afterColon value after rest =>
    simp only [SourceMembers.legible, Bool.and_eq_true] at h
    exact .cons before.blank (isKey_of_legible h.1.1) afterColon.blank (value.written h.1.2)
      after.blank (rest.written false h.2)

end

/-! ## Texts -/

theorem isPassable_of_no_tab {flow tabs : Bool} {gap : List Char}
    (h : ∀ x ∈ gap, isWhitespace x = true) (htab : ∀ x ∈ gap, x ≠ '\t') :
    isPassable flow tabs gap = true := by
  induction gap generalizing tabs with
  | nil => rfl
  | cons x gap ih =>
    obtain ⟨hx, hgap⟩ := List.forall_mem_cons.1 h
    obtain ⟨hne, htabs⟩ := List.forall_mem_cons.1 htab
    have hcases : x = ' ' ∨ x = '\n' ∨ x = '\r' := by
      simpa [isWhitespace, hne, or_assoc] using hx
    rcases hcases with rfl | rfl | rfl <;> exact ih hgap htabs

/-- Behind the last bracket tabs are passed over up to the end of the line. -/
theorem isPassable_of_first_line {flow : Bool} {gap : List Char}
    (h : ∀ x ∈ gap, isWhitespace x = true) (htab : ∀ x ∈ gap.dropWhile isBlank, x ≠ '\t') :
    isPassable flow true gap = true := by
  induction gap with
  | nil => rfl
  | cons x gap ih =>
    obtain ⟨hx, hgap⟩ := List.forall_mem_cons.1 h
    have hcases : x = ' ' ∨ x = '\t' ∨ x = '\n' ∨ x = '\r' := by
      simpa [isWhitespace, or_assoc] using hx
    rcases hcases with rfl | rfl | rfl | rfl
    · exact ih hgap htab
    · exact ih hgap htab
    · exact isPassable_of_no_tab h htab
    · exact isPassable_of_no_tab h htab

/-- Bytes that are read as a document for what JSON text says, unless brackets are nested too
    deep. -/
def ReadAs (bytes : List UInt8) (v : Shape) : Prop :=
  v.depth ≤ depthLimit ∧
      (∃ node, Document.ofBytes? bytes = .ok (some { root := node }) ∧ Tells node v) ∨
    depthLimit < v.depth ∧
      ∃ line, Document.ofBytes? bytes = .error ⟨line, "exceeded max depth of 10000"⟩

theorem ObjectText.readAs {t : ObjectText} (h : t.legible = true) : ReadAs t.bytes t.shape := by
  simp only [legible, Bool.and_eq_true, List.all_eq_true, bne_iff_ne] at h
  obtain ⟨⟨hbefore, hmembers⟩, hafter⟩ := h
  have hwritten : Written t.root.text t.shape := Source.written (.object t.members) hmembers
  exact (hwritten.scan (Nat.succ_pos _) (isPassable_of_no_tab t.before.blank hbefore)
    (isPassable_of_first_line t.after.blank hafter)).ofInput?

end StackIr.Json
