import StackIr.Proofs.Json.Source
import StackIr.Proofs.Yaml.Escapes
import StackIr.Proofs.Yaml.Input
import StackIr.Proofs.Yaml.Tokens

/-! # Reading JSON texts

    JSON texts are read as flow collections.  `Shape.kinds` lists the tokens of what a text
    says, and the main statement says that reading a text gives these tokens, whatever its
    whitespace and its spelling, or stops where brackets are nested too deep.  It is about the
    texts of `Written`, on which the reader and JSON agree.  The induction is over the text.
    What follows a value decides where reading it stops, so each statement is about a value and
    the text behind it. -/

namespace StackIr.Json

open Yaml Yaml.Scanner

/-! ## Tokens -/

mutual

/-- The tokens of what a text says. -/
def Shape.kinds : Shape → List TokenKind
  | .word w => [.scalar (String.ofList w) .plain]
  | .string text => [.scalar text .doubleQuoted]
  | .array items => .flowSequenceStart :: (Shape.itemKinds true items ++ [.flowSequenceEnd])
  | .object members => .flowMappingStart :: (Shape.memberKinds true members ++ [.flowMappingEnd])

/-- The tokens of items, with a comma before each of them but the first of all. -/
def Shape.itemKinds (first : Bool) : List Shape → List TokenKind
  | [] => []
  | item :: items =>
    (if first then [] else [.flowEntry]) ++ (item.kinds ++ Shape.itemKinds false items)

/-- The tokens of members, with a comma before each of them but the first of all. -/
def Shape.memberKinds (first : Bool) : List (String × Shape) → List TokenKind
  | [] => []
  | (key, value) :: members =>
    (if first then [] else [.flowEntry]) ++ ([.key, .scalar key .doubleQuoted, .value] ++
      (value.kinds ++ Shape.memberKinds false members))

end

/-! ## Words -/

theorem Number.isWord_text (n : Number) : IsWord n.text := by
  have hdigits : ∀ (d : Digits), ∀ c ∈ d.chars, isWordChar c = true :=
    fun d c hc => isWordChar_of_isDigit (d.digits c hc)
  have hfraction : ∀ c ∈ n.fraction.elim [] (fun d => '.' :: d.chars), isWordChar c = true := by
    cases n.fraction with
    | none => nofun
    | some d => exact List.forall_mem_cons.2 ⟨by decide, hdigits d⟩
  have hexponent : ∀ c ∈ n.exponent.elim [] (fun e => e.letter :: (e.sign ++ e.digits.chars)),
      isWordChar c = true := by
    cases n.exponent with
    | none => nofun
    | some e =>
      refine List.forall_mem_cons.2 ⟨?_, List.forall_mem_append.2 ⟨?_, hdigits e.digits⟩⟩
      · rcases e.isLetter with h | h <;> rw [h] <;> decide
      · rcases e.isSign with h | h | h <;> rw [h] <;> exact List.all_iff_forall_prop.1 (by decide)
  have hunsigned : IsUnsigned (n.whole.chars ++ (n.fraction.elim [] (fun d => '.' :: d.chars) ++
      n.exponent.elim [] fun e => e.letter :: (e.sign ++ e.digits.chars))) :=
    (isUnsigned_of_isDigit n.whole.nonempty n.whole.digits).append
      (List.forall_mem_append.2 ⟨hfraction, hexponent⟩)
  unfold Number.text
  split
  · exact hunsigned.negative
  · exact hunsigned.isWord

theorem Word.isWord_text (w : Word) : IsWord w.text := by
  cases w with
  | null => exact isWord_null
  | bool b => exact isWord_bool b
  | number n => exact n.isWord_text

theorem word_append {flow : Bool} {tail : List Char} (htail : Plain.word flow tail = []) :
    ∀ w : List Char, (∀ c ∈ w, isWordChar c = true) → Plain.word flow (w ++ tail) = w := by
  intro w
  induction w with
  | nil => exact fun _ => htail
  | cons c w ih =>
    intro hchars
    have hc := hchars c (List.mem_cons_self ..)
    have hcolon : c ≠ ':' := ne_of_isWordChar hc (by decide)
    have hflow : Plain.endsInFlow c = false := by
      simp [Plain.endsInFlow, ne_of_isWordChar hc (show isWordChar ',' = false by decide),
        ne_of_isWordChar hc (show isWordChar '?' = false by decide),
        ne_of_isWordChar hc (show isWordChar '[' = false by decide),
        ne_of_isWordChar hc (show isWordChar ']' = false by decide),
        ne_of_isWordChar hc (show isWordChar '\x7b' = false by decide),
        ne_of_isWordChar hc (show isWordChar '\x7d' = false by decide)]
    rw [List.cons_append, Plain.word, isBlank_of_isWordChar hc, isBreak_of_isWordChar hc]
    simp only [Bool.or_self, Bool.false_eq_true, if_false, hcolon, beq_iff_eq, hflow, Bool.and_false,
      Bool.and_eq_true, false_and]
    rw [ih fun d hd => hchars d (List.mem_cons_of_mem _ hd)]

theorem IsWord.isWordChar_head {c : Char} {w : List Char} (h : IsWord (c :: w)) :
    isWordChar c = true :=
  h.chars c (List.mem_cons_self ..)

theorem IsWord.tokenStart {w tail : List Char} (h : IsWord w) : TokenStart (w ++ tail) := by
  obtain ⟨c, rest, rfl, _⟩ := h.start
  have hc := h.isWordChar_head
  exact tokenStart_cons (isBlank_of_isWordChar hc) (isBreak_of_isWordChar hc)
    (ne_of_isWordChar hc (by decide))

/-- A word does not look like a marker. -/
theorem IsWord.atDocumentMarker {w tail : List Char} (h : IsWord w) {c : Cursor}
    (hc : c.rest = w ++ tail) : c.atDocumentMarker = false := by
  obtain ⟨x, rest, rfl, hx | ⟨rfl, d, more, rfl, hd⟩⟩ := h.start
  · refine atDocumentMarker_of_head hc ?_ ?_ <;> (rintro rfl; revert hx; decide)
  · -- a marker would have a second dash, where a word has a letter or a digit
    have hdash : d ≠ '-' := by rintro rfl; revert hd; decide
    have hpoint : d ≠ '.' := by rintro rfl; revert hd; decide
    simp only [Cursor.atDocumentMarker, Cursor.atMarker, hc, List.cons_append, Bool.or_eq_false_iff,
      Bool.and_eq_false_iff]
    constructor <;> right <;> split <;> simp_all

theorem IsWord.plainStart {flow : Bool} {c : Char} {w tail : List Char} (h : IsWord (c :: w)) :
    PlainStart flow c (w ++ tail) := by
  have hc := h.isWordChar_head
  refine ⟨isBlank_of_isWordChar hc, isBreak_of_isWordChar hc, ?_⟩
  obtain ⟨x, rest, heq, hx | ⟨rfl, d, more, rfl, hd⟩⟩ := h.start
  · obtain ⟨rfl, rfl⟩ := List.cons.inj heq
    left
    by_contra hindicator
    simp only [isIndicator, Bool.not_eq_false, Bool.or_eq_true, beq_iff_eq] at hindicator
    casesm* _ ∨ _ <;> (subst c; revert hx; decide)
  · obtain ⟨rfl, rfl⟩ := List.cons.inj heq
    have hd' : isWordChar d = true := h.chars d (by simp)
    refine .inr (.inl ⟨rfl, ?_⟩)
    simp [atGap, isBlank_of_isWordChar hd', isBreak_of_isWordChar hd']

/-! ## Texts that are read as what they say

    The reader and the grammar of JSON do not agree on every text, so this is the grammar of
    the texts that are read as what they say. -/

/-- Text between quotes. -/
def quotes (body : List Char) : List Char :=
  '"' :: (body ++ ['"'])

/-- Characters and how they are spelled between quotes. -/
structure Spelled (chars body : List Char) : Prop where
  reads : Quoted.Body .double chars body
  allowed : ∀ x ∈ body, isAllowed x = true

/-- The text of a key, and the gap before its colon.  The colon has to be on the same line and
    within 1024 characters of the start of the key. -/
structure IsKey (chars body gap : List Char) : Prop where
  spelled : Spelled chars body
  line : ∀ x ∈ body, isBreak x = false
  blank : ∀ x ∈ gap, isBlank x = true
  length : (quotes body).length + gap.length ≤ 1024

mutual

/-- The text of a value. -/
inductive Written : List Char → Shape → Prop where
  | word {w : List Char} : IsWord w → Written w (.word w)
  | string {chars body : List Char} : Spelled chars body →
      Written (quotes body) (.string (String.ofList chars))
  | array {text : List Char} {items : List Shape} : WrittenItems true text items →
      Written ('[' :: (text ++ [']'])) (.array items)
  | object {text : List Char} {members : List (String × Shape)} : WrittenMembers true text members →
      Written ('\x7b' :: (text ++ ['\x7d'])) (.object members)

/-- The text of items, with a comma before each of them but the first of all. -/
inductive WrittenItems : Bool → List Char → List Shape → Prop where
  | nil {first : Bool} {gap : List Char} : (∀ x ∈ gap, isWhitespace x = true) →
      WrittenItems first gap []
  | cons {first : Bool} {before text after rest : List Char} {item : Shape} {items : List Shape} :
      (∀ x ∈ before, isWhitespace x = true) → Written text item →
      (∀ x ∈ after, isWhitespace x = true) → WrittenItems false rest items →
      WrittenItems first ((if first then [] else [',']) ++ (before ++ (text ++ (after ++ rest))))
        (item :: items)

/-- The text of members, with a comma before each of them but the first of all. -/
inductive WrittenMembers : Bool → List Char → List (String × Shape) → Prop where
  | nil {first : Bool} {gap : List Char} : (∀ x ∈ gap, isWhitespace x = true) →
      WrittenMembers first gap []
  | cons {first : Bool} {before chars body gap afterColon text after rest : List Char} {value : Shape}
      {members : List (String × Shape)} :
      (∀ x ∈ before, isWhitespace x = true) → IsKey chars body gap →
      (∀ x ∈ afterColon, isWhitespace x = true) → Written text value →
      (∀ x ∈ after, isWhitespace x = true) → WrittenMembers false rest members →
      WrittenMembers first ((if first then [] else [',']) ++ (before ++ (quotes body ++
        (gap ++ (':' :: (afterColon ++ (text ++ (after ++ rest))))))))
        ((String.ofList chars, value) :: members)

end

theorem isWhitespace_iff {c : Char} :
    isWhitespace c = true ↔ isBlank c = true ∨ c = '\n' ∨ c = '\r' := by
  simp [isWhitespace, isBlank, or_assoc]

theorem isAllowed_of_ascii {c : Char} (hlow : 0x20 ≤ c.toNat) (hhigh : c.toNat ≤ 0x7E) :
    isAllowed c = true := by
  simp [isAllowed, hlow, hhigh]

theorem isAllowed_of_isWordChar {c : Char} (h : isWordChar c = true) : isAllowed c = true := by
  have hrange := toNat_of_isWordChar h
  exact isAllowed_of_ascii (by omega) (by omega)

theorem isAllowed_of_isWhitespace {c : Char} (h : isWhitespace c = true) : isAllowed c = true := by
  have hcases : c = ' ' ∨ c = '\t' ∨ c = '\n' ∨ c = '\r' := by
    simpa [isWhitespace, or_assoc] using h
  rcases hcases with rfl | rfl | rfl | rfl <;> rfl

/-- Pieces that each spell a character, and separators that are kept.  What is written as itself
    has to be allowed. -/
theorem spelled_of_pieces {α : Type} {text : α → List Char} {char : α → Char} {pieces : List α}
    (h : ∀ p ∈ pieces, Quoted.Spells (text p) (char p) ∨
      text p = [char p] ∧ isSeparator (char p) = true)
    (hkept : Quoted.keepsSeparators (pieces.flatMap text) = true)
    (hraw : ∀ p ∈ pieces, text p = [char p] → isAllowed (char p) = true) :
    Spelled (pieces.map char) (pieces.flatMap text) where
  reads := Quoted.body_of_kept h hkept
  allowed := by
    intro x hx
    obtain ⟨p, hp, hxp⟩ := List.mem_flatMap.1 hx
    have hself : text p = [char p] → isAllowed x = true := by
      intro hpiece
      rw [hpiece, List.mem_singleton] at hxp
      rw [hxp]
      exact hraw p hp hpiece
    rcases h p hp with (⟨hpiece, -⟩ | ⟨e, hpiece, he⟩) | ⟨hpiece, -⟩
    · exact hself hpiece
    · -- an escape is written with a backslash and graphic characters
      rw [hpiece, List.mem_cons] at hxp
      rcases hxp with rfl | hxp
      · decide
      · obtain ⟨hlow, hhigh⟩ := he.graphic x hxp
        exact isAllowed_of_ascii (by omega) (by omega)
    · exact hself hpiece

theorem IsKey.not_break {chars body gap : List Char} (h : IsKey chars body gap) :
    ∀ x ∈ quotes body, isBreak x = false := by
  rw [quotes, List.forall_mem_cons, List.forall_mem_append]
  exact ⟨by decide, h.line, List.all_iff_forall_prop.1 (by decide)⟩

theorem Spelled.isAllowed_quotes {chars body : List Char} (h : Spelled chars body) :
    ∀ x ∈ quotes body, isAllowed x = true := by
  rw [quotes, List.forall_mem_cons, List.forall_mem_append]
  exact ⟨by decide, h.allowed, List.all_iff_forall_prop.1 (by decide)⟩

mutual

/-- The text of a value has no character that is refused. -/
theorem Written.isAllowed {text : List Char} {v : Shape} (h : Written text v) :
    ∀ x ∈ text, isAllowed x = true := by
  match h with
  | .word hw => exact fun x hx => isAllowed_of_isWordChar (hw.chars x hx)
  | .string hspelled => exact hspelled.isAllowed_quotes
  | .array hitems =>
    rw [List.forall_mem_cons, List.forall_mem_append]
    exact ⟨by decide, hitems.isAllowed, List.all_iff_forall_prop.1 (by decide)⟩
  | .object hmembers =>
    rw [List.forall_mem_cons, List.forall_mem_append]
    exact ⟨by decide, hmembers.isAllowed, List.all_iff_forall_prop.1 (by decide)⟩

theorem WrittenItems.isAllowed {first : Bool} {text : List Char} {items : List Shape}
    (h : WrittenItems first text items) : ∀ x ∈ text, isAllowed x = true := by
  match h with
  | .nil hgap => exact fun x hx => isAllowed_of_isWhitespace (hgap x hx)
  | .cons hbefore hitem hafter hrest =>
    simp only [List.forall_mem_append]
    refine ⟨?_, fun x hx => isAllowed_of_isWhitespace (hbefore x hx), hitem.isAllowed,
      fun x hx => isAllowed_of_isWhitespace (hafter x hx), hrest.isAllowed⟩
    cases first <;> exact List.all_iff_forall_prop.1 (by decide)

theorem WrittenMembers.isAllowed {first : Bool} {text : List Char} {members : List (String × Shape)}
    (h : WrittenMembers first text members) : ∀ x ∈ text, isAllowed x = true := by
  match h with
  | .nil hgap => exact fun x hx => isAllowed_of_isWhitespace (hgap x hx)
  | .cons hbefore hkey hcolon hvalue hafter hrest =>
    simp only [List.forall_mem_append, List.forall_mem_cons]
    refine ⟨?_, fun x hx => isAllowed_of_isWhitespace (hbefore x hx), hkey.spelled.isAllowed_quotes,
      fun x hx => isAllowed_of_isWhitespace (isWhitespace_iff.2 (.inl (hkey.blank x hx))), by decide,
      fun x hx => isAllowed_of_isWhitespace (hcolon x hx), hvalue.isAllowed,
      fun x hx => isAllowed_of_isWhitespace (hafter x hx), hrest.isAllowed⟩
    cases first <;> exact List.all_iff_forall_prop.1 (by decide)

end

/-! ## Whitespace -/

/-- A text without the whitespace at its start. -/
def skipSpace (cs : List Char) : List Char :=
  cs.dropWhile isWhitespace

theorem isWhitespace_eq_false {c : Char} (hblank : isBlank c = false) (hbreak : isBreak c = false) :
    isWhitespace c = false := by
  rw [← Bool.not_eq_true, isWhitespace_iff, hblank]
  rintro (h | rfl | rfl)
  · cases h
  · cases hbreak
  · cases hbreak

theorem split_skipSpace (cs : List Char) :
    ∃ gap, cs = gap ++ skipSpace cs ∧ ∀ x ∈ gap, isWhitespace x = true :=
  ⟨cs.takeWhile isWhitespace, List.takeWhile_append_dropWhile.symm,
    List.all_eq_true.1 (List.all_takeWhile ..)⟩

theorem skipSpace_append {gap : List Char} (h : ∀ x ∈ gap, isWhitespace x = true) (cs : List Char) :
    skipSpace (gap ++ cs) = skipSpace cs :=
  List.dropWhile_append_of_pos h

theorem skipSpace_eq_self {text : List Char} (h : TokenStart text) : skipSpace text = text := by
  cases text with
  | nil => rfl
  | cons x text =>
    obtain ⟨hblank, hbreak⟩ := h.ends x rfl
    rw [skipSpace, List.dropWhile_cons_of_neg]
    rw [isWhitespace_eq_false hblank hbreak]
    decide

/-- No comment stands before the next token. -/
theorem noRemark_of_skipSpace {cs : List Char} (h : TokenStart (skipSpace cs)) : NoRemark cs := by
  induction cs with
  | nil => exact tokenStart_nil.noRemark
  | cons x cs ih =>
    by_cases hx : isWhitespace x = true
    · rw [skipSpace, List.dropWhile_cons_of_pos hx] at h
      rcases isWhitespace_iff.1 hx with hblank | rfl | rfl
      · have htail := ih h
        rwa [NoRemark, List.dropWhile_cons_of_pos hblank]
      · simp [NoRemark, isBlank]
      · simp [NoRemark, isBlank]
    · rw [skipSpace, List.dropWhile_cons_of_neg hx] at h
      exact h.noRemark

/-- Inside brackets all whitespace is passed over. -/
theorem isPassable_of_isWhitespace {gap : List Char} (h : ∀ x ∈ gap, isWhitespace x = true) :
    isPassable true true gap = true := by
  induction gap with
  | nil => rfl
  | cons x gap ih =>
    obtain ⟨hx, hgap⟩ := List.forall_mem_cons.1 h
    have htail := ih hgap
    have hcases : x = ' ' ∨ x = '\t' ∨ x = '\n' ∨ x = '\r' := by
      simpa [isWhitespace, or_assoc] using hx
    rcases hcases with rfl | rfl | rfl | rfl <;> exact htail

/-! ## Where reading goes on -/

/-- Inside brackets the next token starts with `text`, after whitespace. -/
structure At (s : Scanner) (text : List Char) (kinds : List TokenKind) (depth : Nat) : Prop where
  calm : ∃ gap, Calm s (gap ++ text) kinds [-1] (depth + 1) ∧ ∀ x ∈ gap, isWhitespace x = true
  free : s.Free

/-- Reading goes on to a text inside brackets, where a key may start if `fresh` holds. -/
def Arrives (s : Scanner) (text : List Char) (kinds : List TokenKind) (depth : Nat) (fresh : Bool) :
    Prop :=
  ∃ s', Runs s s' ∧ At s' text kinds depth ∧ (fresh = true → s'.keyAllowed = true)

/-- Reading goes on right behind a closing bracket. -/
def Lands (s : Scanner) (text : List Char) (kinds : List TokenKind) (depth : Nat) : Prop :=
  ∃ s', Runs s s' ∧ Calm s' text kinds [-1] depth ∧ s'.Free ∧ s'.keyAllowed = false

/-- What ends a value inside brackets. -/
def Closes (text : List Char) : Prop :=
  ∃ c cs, text = c :: cs ∧ (c = ',' ∨ c = ']' ∨ c = '\x7d')

/-- An opening bracket and its token. -/
inductive Opening : Char → TokenKind → Prop where
  | sequence : Opening '[' .flowSequenceStart
  | mapping : Opening '\x7b' .flowMappingStart

/-- A closing bracket and its token. -/
inductive Closing : Char → TokenKind → Prop where
  | sequence : Closing ']' .flowSequenceEnd
  | mapping : Closing '\x7d' .flowMappingEnd

section

variable {s : Scanner} {text tail : List Char} {kinds : List TokenKind} {depth : Nat}

theorem Closes.tokenStart (h : Closes text) : TokenStart text := by
  obtain ⟨c, cs, rfl, rfl | rfl | rfl⟩ := h <;>
    exact tokenStart_cons (by decide) (by decide) (by decide)

theorem Closing.closes {c : Char} {kind : TokenKind} (hc : Closing c kind) (tail : List Char) :
    Closes (c :: tail) :=
  ⟨c, tail, rfl, by cases hc <;> simp⟩

theorem Opening.tokenStart {c : Char} {kind : TokenKind} (hc : Opening c kind) (tail : List Char) :
    TokenStart (c :: tail) := by
  cases hc <;> exact tokenStart_cons (by decide) (by decide) (by decide)

/-- Brackets are no directive, and no part of a document marker. -/
theorem Opening.ne_sign {c : Char} {kind : TokenKind} (hc : Opening c kind) :
    c ≠ '%' ∧ c ≠ '-' ∧ c ≠ '.' := by
  cases hc <;> decide

theorem Closing.ne_sign {c : Char} {kind : TokenKind} (hc : Closing c kind) :
    c ≠ '%' ∧ c ≠ '-' ∧ c ≠ '.' := by
  cases hc <;> decide

theorem at_skipSpace {s' : Scanner} (h : Calm s' tail kinds [-1] (depth + 1)) (hfree : s'.Free) :
    At s' (skipSpace tail) kinds depth := by
  obtain ⟨gap, hsplit, hgap⟩ := split_skipSpace tail
  exact ⟨⟨gap, by rwa [← hsplit], hgap⟩, hfree⟩

theorem At.before (h : At s text kinds depth) (hstart : TokenStart text) :
    Before s text kinds [-1] (depth + 1) ∧ s.settle.keyAllowed = s.keyAllowed ∧ s.settle.Free := by
  obtain ⟨gap, hcalm, hgap⟩ := h.calm
  have hflow : s.inFlow = true := by simp [hcalm.inFlow]
  have hpasses : s.Passes gap := by
    rw [Passes, hflow]
    exact isPassable_of_isWhitespace hgap
  obtain ⟨hbefore, hsettle⟩ := hcalm.before_gap hpasses hstart (.inl (Nat.succ_pos _))
  refine ⟨hbefore, ?_, hbefore.free h.free⟩
  rw [hsettle, hflow]
  simp

theorem Lands.arrives (h : Lands s tail kinds (depth + 1)) :
    Arrives s (skipSpace tail) kinds depth false := by
  obtain ⟨s', hruns, hcalm, hfree, _⟩ := h
  exact ⟨s', hruns, at_skipSpace hcalm hfree, nofun⟩

theorem Arrives.trans {s₀ : Scanner} {fresh : Bool} (hruns : Runs s₀ s)
    (h : Arrives s text kinds depth fresh) : Arrives s₀ text kinds depth fresh := by
  obtain ⟨s', hruns', hrest⟩ := h
  exact ⟨s', hruns.trans hruns', hrest⟩

/-! ## Scalars -/

/-- A word goes up to whitespace or to what ends a value. -/
theorem IsWord.before_gap {w gap rest : List Char} {x : Char} (h : IsWord w)
    (hgap : ∀ y ∈ gap, isWhitespace y = true) (hx : x = ',' ∨ x = ']' ∨ x = '\x7d') :
    Plain.IsWord true w (gap ++ x :: rest) := by
  -- whatever comes next, whitespace or the sign itself, no word starts there
  have hstop : Plain.word true (gap ++ x :: rest) = [] := by
    cases gap with
    | nil => rcases hx with rfl | rfl | rfl <;> rfl
    | cons y gap =>
      rw [List.cons_append, Plain.word, if_pos]
      rcases isWhitespace_iff.1 (hgap y (List.mem_cons_self ..)) with hy | rfl | rfl
      · rw [hy, Bool.true_or]
      · rfl
      · rfl
  obtain ⟨c, w, rfl, _⟩ := h.start
  refine ⟨by simp, ?_, word_append hstop _ h.chars⟩
  simpa using ne_of_isWordChar h.isWordChar_head (show isWordChar '#' = false by decide)

/-- A word is read together with the whitespace behind it. -/
theorem readContent_word {w gap rest : List Char} {x : Char} (hw : IsWord w)
    (hgap : ∀ y ∈ gap, isWhitespace y = true) (hx : x = ',' ∨ x = ']' ∨ x = '\x7d')
    (h : Calm s (w ++ (gap ++ x :: rest)) kinds [-1] (depth + 1)) (hfree : s.Free) :
    ∃ s', (∀ {c cs}, PlainStart s.inFlow c cs → s.readContent c cs = .ok s') ∧
      Calm s' (x :: rest) (kinds ++ [.scalar (String.ofList w) .plain]) [-1] (depth + 1) ∧
      s'.Free := by
  have hflow : s.inFlow = true := by simp [h.inFlow]
  have hindent : s.keySaved.indent = -1 := (List.cons.inj h.keySaved.stack).1
  have hflow' : s.keySaved.inFlow = true := by simp [h.keySaved.inFlow]
  have hends : Plain.endsInFlow x = true := by
    rcases hx with rfl | rfl | rfl <;> rfl
  obtain ⟨broken, hread⟩ := (hw.before_gap hgap hx).read_space
    (fun y hy => isWhitespace_iff.1 (hgap y hy)) hends h.counted h.rest (hw.atDocumentMarker h.rest)
  refine ⟨{ s.keySaved.push s.cursor.mark (.scalar (String.ofList w) .plain) with
    cursor := (s.cursor.along w).past gap, keyAllowed := broken }, ?_, ?_, ?_⟩
  · intro c cs hstart
    rw [readContent_plainStart hstart, readPlain, saveKey_eq hfree]
    simp only [bind, Except.bind, cursor_keySaved, hindent, hflow', pure, Except.pure,
      show ((-1 : Int) + 1).toNat = 0 from rfl, hread]
    rw [pushTo, cursor_keySaved]
  · have hsaved := h.keySaved
    refine { hsaved with
      counted := (h.counted.along w).past gap
      clean := hsaved.clean.push _ _
      rest := Cursor.rest_past (Cursor.rest_along h.rest)
      kinds := ?_ }
    rw [← h.kinds, ← queue_keySaved s]
    exact TokenQueue.kinds_push _ _
  · exact hfree.keySaved (.inl hflow)

theorem run_word {w : List Char} (h : At s (w ++ tail) kinds depth) (hw : IsWord w)
    (htail : Closes (skipSpace tail)) :
    Arrives s (skipSpace tail) (kinds ++ [.scalar (String.ofList w) .plain]) depth false := by
  obtain ⟨hbefore, -, hfree⟩ := h.before hw.tokenStart
  obtain ⟨gap, hsplit, hgap⟩ := split_skipSpace tail
  have hnext := htail.tokenStart
  obtain ⟨x, rest, hrest, hx⟩ := htail
  rw [hrest] at hsplit hnext
  have hcalm := hbefore.settled
  rw [hsplit] at hcalm
  obtain ⟨s', hcontent, hcalm', hfree'⟩ := readContent_word hw hgap hx hcalm hfree
  obtain ⟨c, cs, rfl, _⟩ := hw.start
  have htoken : s.settle.readToken = .ok s' :=
    readToken_eq hcalm.rest (ne_of_isWordChar hw.isWordChar_head (by decide))
      (hw.atDocumentMarker hcalm.rest) (hcontent hw.plainStart)
      (by rw [hcalm'.rest]; exact hnext.noRemark)
  have hlength : (x :: rest).length < (c :: cs ++ tail).length := by
    rw [hsplit]
    simp
    omega
  refine ⟨s'.release, hbefore.runs htoken hcalm' hlength, ⟨⟨[], ?_, nofun⟩, hfree'.release⟩, nofun⟩
  rw [hrest]
  exact hcalm'.release

theorem tokenStart_quotes (body tail : List Char) : TokenStart (quotes body ++ tail) :=
  tokenStart_cons (by decide) (by decide) (by decide)

/-- The token of a string. -/
theorem readToken_quotes {stack : List Int} {chars body : List Char}
    (h : Before s (quotes body ++ tail) kinds stack depth) (hfree : s.settle.Free)
    (hbody : Quoted.Body .double chars body) (hremark : NoRemark tail) :
    s.settle.readToken =
      .ok (s.settle.afterScalar (.scalar (String.ofList chars) .doubleQuoted) (quotes body) false) := by
  have hcalm : Calm s.settle ('"' :: (body ++ '"' :: tail)) kinds stack depth := by
    have hsettled := h.settled
    simpa [quotes] using hsettled
  exact readToken_quoted hcalm hfree hbody nofun hremark

theorem run_string {chars body : List Char} (h : At s (quotes body ++ tail) kinds depth)
    (hspelled : Spelled chars body) (htail : TokenStart (skipSpace tail)) :
    Arrives s (skipSpace tail) (kinds ++ [.scalar (String.ofList chars) .doubleQuoted]) depth false := by
  obtain ⟨hbefore, -, hfree⟩ := h.before (tokenStart_quotes body _)
  have hflow : s.settle.inFlow = true := by simp [hbefore.settled.inFlow]
  have htoken := readToken_quotes hbefore hfree hspelled.reads (noRemark_of_skipSpace htail)
  have hafter := hbefore.settled.afterScalar (.scalar (String.ofList chars) .doubleQuoted) false
  exact ⟨_, hbefore.runs htoken hafter (by simp [quotes]; omega),
    at_skipSpace hafter.release (hfree.afterScalar (.inl hflow) _ _ _).release, nofun⟩

/-- A key and its colon. -/
theorem run_key {chars body gap : List Char} (h : At s (quotes body ++ (gap ++ ':' :: tail)) kinds depth)
    (hallowed : s.keyAllowed = true) (hkey : IsKey chars body gap)
    (htail : TokenStart (skipSpace tail)) :
    Arrives s (skipSpace tail) (kinds ++ [.key, .scalar (String.ofList chars) .doubleQuoted, .value])
      depth false := by
  have hcolon : TokenStart (':' :: tail) := tokenStart_cons (by decide) (by decide) (by decide)
  obtain ⟨hbefore, hkeys, hfree⟩ := h.before (tokenStart_quotes body _)
  have hspace : ∀ x ∈ gap, isWhitespace x = true :=
    fun x hx => isWhitespace_iff.2 (.inl (hkey.blank x hx))
  have htoken := readToken_quotes hbefore hfree hkey.spelled.reads
    (noRemark_of_skipSpace (by rw [skipSpace_append hspace, skipSpace_eq_self hcolon]; exact hcolon))
  have hindent : s.settle.indent = -1 := (List.cons.inj hbefore.settled.stack).1
  obtain ⟨s', hruns, hcalm, hfree', _, _⟩ := hbefore.key_value gap h.free (hkeys.trans hallowed) htoken
    (by simp [quotes]) hkey.not_break hkey.blank hkey.length (by rw [hindent]; omega)
    (.flow (Nat.succ_pos _)) (.inl (Nat.succ_pos _)) (noRemark_of_skipSpace htail)
  exact ⟨s', hruns, at_skipSpace hcalm hfree', nofun⟩

/-! ## Brackets and commas -/

theorem run_open {c : Char} {kind : TokenKind} (hc : Opening c kind)
    (h : Before s (c :: tail) kinds [-1] depth) (hfree : s.Free) (hdepth : depth < depthLimit)
    (htail : TokenStart (skipSpace tail)) :
    Arrives s (skipSpace tail) (kinds ++ [kind]) depth true := by
  have hbreak : isBreak c = false := by cases hc <;> decide
  have hindent : s.settle.indent = -1 := (List.cons.inj h.settled.stack).1
  have hloose : s.settle.Loose := .inr (.inr (by rw [hindent]; omega))
  obtain ⟨t, hopen, hcalm, hfree', hallowed, _, _⟩ :=
    h.settled.openFlow (h.free hfree) hloose hdepth hbreak kind
  have hcontent : s.settle.readContent c tail = .ok t := by cases hc <;> exact hopen
  obtain ⟨hpercent, hdash, hpoint⟩ := hc.ne_sign
  have htoken : s.settle.readToken = .ok t :=
    readToken_eq h.settled.rest hpercent (atDocumentMarker_of_head h.settled.rest hdash hpoint) hcontent
      (by rw [hcalm.rest]; exact noRemark_of_skipSpace htail)
  exact ⟨t.release, h.runs htoken hcalm (by simp), at_skipSpace hcalm.release hfree'.release,
    fun _ => hallowed⟩

theorem run_close {c : Char} {kind : TokenKind} (hc : Closing c kind)
    (h : At s (c :: tail) kinds depth) (hremark : NoRemark tail) :
    Lands s tail (kinds ++ [kind]) depth := by
  have hbreak : isBreak c = false := by cases hc <;> decide
  obtain ⟨hbefore, _, hfree⟩ := h.before (hc.closes tail).tokenStart
  obtain ⟨t, hclose, hcalm, hfree', hkeys, _, _⟩ := hbefore.settled.closeFlow hfree hbreak kind
  have hcontent : s.settle.readContent c tail = .ok t := by cases hc <;> exact hclose
  obtain ⟨hpercent, hdash, hpoint⟩ := hc.ne_sign
  have htoken : s.settle.readToken = .ok t :=
    readToken_eq hbefore.settled.rest hpercent
      (atDocumentMarker_of_head hbefore.settled.rest hdash hpoint) hcontent
      (by rw [hcalm.rest]; exact hremark)
  exact ⟨t.release, hbefore.runs htoken hcalm (by simp), hcalm.release, hfree'.release, hkeys⟩

theorem run_comma (h : At s (',' :: tail) kinds depth) (htail : TokenStart (skipSpace tail)) :
    Arrives s (skipSpace tail) (kinds ++ [.flowEntry]) depth true := by
  obtain ⟨hbefore, _, hfree⟩ := h.before (tokenStart_cons (by decide) (by decide) (by decide))
  obtain ⟨t, hentry, hcalm, hfree', hallowed⟩ := hbefore.settled.readFlowEntry hfree (by decide)
  have htoken : s.settle.readToken = .ok t :=
    readToken_eq hbefore.settled.rest (by decide)
      (atDocumentMarker_of_head hbefore.settled.rest (by decide) (by decide)) hentry
      (by rw [hcalm.rest]; exact noRemark_of_skipSpace htail)
  exact ⟨t.release, hbefore.runs htoken hcalm (by simp), at_skipSpace hcalm.release hfree'.release,
    fun _ => hallowed⟩

/-! ## Nesting

    Brackets that are nested too deep are refused where the first of them is too many, so
    reading a value arrives behind it or stops inside. -/

/-- Reading stops because brackets are nested too deep.  What was read until then is a part of
    `kinds`. -/
def Overflows (s : Scanner) (kinds : List TokenKind) : Prop :=
  ∃ s' fault, Runs s s' ∧ s'.finished = false ∧ s'.step = .error fault ∧
    fault.problem = "exceeded max depth of 10000" ∧ s'.queue.Clean ∧ s'.queue.kinds <+: kinds

theorem Overflows.mono {kinds' : List TokenKind} (h : Overflows s kinds) (hkinds : kinds <+: kinds') :
    Overflows s kinds' := by
  obtain ⟨s', fault, hruns, hfinished, hstep, hproblem, hclean, hprefix⟩ := h
  exact ⟨s', fault, hruns, hfinished, hstep, hproblem, hclean, hprefix.trans hkinds⟩

theorem Overflows.trans {s₀ : Scanner} (hruns : Runs s₀ s) (h : Overflows s kinds) :
    Overflows s₀ kinds := by
  obtain ⟨s', fault, hruns', hrest⟩ := h
  exact ⟨s', fault, hruns.trans hruns', hrest⟩

/-- Reading goes on to a text if what was read fits into the limit, and stops otherwise. -/
def Goes (s : Scanner) (text : List Char) (kinds : List TokenKind) (depth : Nat) (fits : Prop) :
    Prop :=
  fits ∧ Arrives s text kinds depth false ∨ ¬ fits ∧ Overflows s kinds

theorem Arrives.goes {fresh : Bool} {fits : Prop} (h : Arrives s text kinds depth fresh)
    (hfits : fits) : Goes s text kinds depth fits := by
  obtain ⟨s', hruns, hat, _⟩ := h
  exact .inl ⟨hfits, s', hruns, hat, nofun⟩

theorem Goes.here {fits : Prop} (hfits : fits) (h : At s text kinds depth) :
    Goes s text kinds depth fits :=
  .inl ⟨hfits, s, .refl s, h, nofun⟩

/-- Two parts that are read one after the other. -/
theorem Goes.next {text' : List Char} {more : List TokenKind} {fits fits' both : Prop}
    (h : Goes s text kinds depth fits)
    (hnext : ∀ s', At s' text kinds depth → Goes s' text' (kinds ++ more) depth fits')
    (hboth : both ↔ fits ∧ fits') : Goes s text' (kinds ++ more) depth both := by
  rcases h with ⟨hfits, s', hruns, hat, _⟩ | ⟨hfits, hover⟩
  · rcases hnext s' hat with ⟨hfits', harrives⟩ | ⟨hfits', hover⟩
    · exact .inl ⟨hboth.2 ⟨hfits, hfits'⟩, harrives.trans hruns⟩
    · exact .inr ⟨fun hall => hfits' (hboth.1 hall).2, hover.trans hruns⟩
  · exact .inr ⟨fun hall => hfits (hboth.1 hall).1, hover.mono (List.prefix_append ..)⟩

theorem Goes.after_arrives {fresh : Bool} {text' : List Char} {kinds' : List TokenKind} {fits : Prop}
    (h : Arrives s text kinds depth fresh)
    (hnext : ∀ s', At s' text kinds depth → (fresh = true → s'.keyAllowed = true) →
      Goes s' text' kinds' depth fits) : Goes s text' kinds' depth fits := by
  obtain ⟨s', hruns, hat, hfresh⟩ := h
  rcases hnext s' hat hfresh with ⟨hfits, harrives⟩ | ⟨hfits, hover⟩
  · exact .inl ⟨hfits, harrives.trans hruns⟩
  · exact .inr ⟨hfits, hover.trans hruns⟩

/-- A bracket too many. -/
theorem overflow_open {c : Char} {kind : TokenKind} (hc : Opening c kind)
    (h : Before s (c :: tail) kinds [-1] depth) (hfree : s.Free) (hkinds : s.queue.kinds = kinds)
    (hdepth : depthLimit ≤ depth) : Overflows s kinds := by
  have hlimit : s.settle.keySaved.outerLevels.length ≥ depthLimit := by
    rw [outerLevels_keySaved, h.settled.depth]
    exact hdepth
  have hcontent : s.settle.readContent c tail = .error
      (.lexical s.settle.keySaved.line s.settle.keySaved.line "exceeded max depth of 10000") := by
    have hopen : ∀ kind, s.settle.openFlow kind = .error
        (.lexical s.settle.keySaved.line s.settle.keySaved.line "exceeded max depth of 10000") := by
      intro kind
      simp only [Scanner.openFlow, saveKey_eq (h.free hfree), bind, Except.bind, hlimit, if_true]
      rfl
    cases hc <;> exact hopen _
  obtain ⟨hpercent, hdash, hpoint⟩ := hc.ne_sign
  have htoken := readToken_error h.settled.rest hpercent
    (atDocumentMarker_of_head h.settled.rest hdash hpoint) hcontent
  obtain ⟨gap, kinds', stack', hcalm, hgap⟩ := h.calm
  exact ⟨s, _, .refl s, hcalm.unfinished, h.step_error htoken, rfl, hcalm.clean,
    hkinds ▸ List.prefix_rfl⟩

/-- What stands between brackets, and the brackets. -/
theorem run_brackets {o c : Char} {opening closing : TokenKind} (ho : Opening o opening)
    (hc : Closing c closing) {inner : List Char} {innerKinds : List TokenKind} {fits : Prop}
    (h : Before s (o :: (inner ++ c :: tail)) kinds [-1] depth) (hfree : s.Free)
    (hsofar : s.queue.kinds = kinds)
    (hstart : TokenStart (skipSpace (inner ++ c :: tail))) (hremark : NoRemark tail)
    (hinner : ∀ s', depth < depthLimit →
      At s' (skipSpace (inner ++ c :: tail)) (kinds ++ [opening]) depth → s'.keyAllowed = true →
      Goes s' (c :: tail) (kinds ++ [opening] ++ innerKinds) depth fits) :
    (depth < depthLimit ∧ fits) ∧ Lands s tail (kinds ++ (opening :: (innerKinds ++ [closing]))) depth ∨
      ¬ (depth < depthLimit ∧ fits) ∧ Overflows s (kinds ++ (opening :: (innerKinds ++ [closing]))) := by
  have hkinds : kinds ++ (opening :: (innerKinds ++ [closing])) =
      kinds ++ [opening] ++ innerKinds ++ [closing] := by simp
  by_cases hroom : depth < depthLimit
  · obtain ⟨s₁, hruns₁, hat₁, hallowed⟩ := run_open ho h hfree hroom hstart
    rw [hkinds]
    rcases hinner s₁ hroom hat₁ (hallowed rfl) with ⟨hfits, s₂, hruns₂, hat₂, _⟩ | ⟨hfits, hover⟩
    · obtain ⟨s₃, hruns₃, hrest⟩ := run_close hc hat₂ hremark
      exact .inl ⟨⟨hroom, hfits⟩, s₃, hruns₁.trans (hruns₂.trans hruns₃), hrest⟩
    · -- a bracket further inside is
      exact .inr ⟨fun hall => hfits hall.2,
        (hover.mono (List.prefix_append ..)).trans hruns₁⟩
  · -- the opening bracket itself is the one too many
    exact .inr ⟨fun hall => hroom hall.1,
      (overflow_open ho h hfree hsofar (by omega)).mono (List.prefix_append ..)⟩

/-- The comma before an item or member, unless it is the first. -/
theorem run_separator (first : Bool)
    (h : At s (skipSpace ((if first then [] else [',']) ++ text)) kinds depth)
    (hallowed : first = true → s.keyAllowed = true) (htext : TokenStart (skipSpace text)) :
    Arrives s (skipSpace text) (kinds ++ if first then [] else [.flowEntry]) depth true := by
  cases first with
  | false =>
    have hcomma : TokenStart (',' :: text) := tokenStart_cons (by decide) (by decide) (by decide)
    rw [show (if false = true then [] else [',']) ++ text = ',' :: text from rfl,
      skipSpace_eq_self hcomma] at h
    exact run_comma h htext
  | true =>
    refine ⟨s, .refl s, ?_, fun _ => hallowed rfl⟩
    rw [if_pos rfl, List.append_nil]
    exact h

end

/-! ## Values -/

theorem Written.tokenStart {text : List Char} {v : Shape} (h : Written text v) (tail : List Char) :
    TokenStart (text ++ tail) := by
  cases h with
  | word hw => exact hw.tokenStart
  | string _ => exact tokenStart_quotes _ _
  | array hitems => exact tokenStart_cons (by decide) (by decide) (by decide)
  | object hmembers => exact tokenStart_cons (by decide) (by decide) (by decide)

theorem skipSpace_before {gap text : List Char} (hgap : ∀ x ∈ gap, isWhitespace x = true)
    (htext : TokenStart text) : skipSpace (gap ++ text) = text := by
  rw [skipSpace_append hgap, skipSpace_eq_self htext]

section

variable {c : Char} {kind : TokenKind} {text after tail : List Char}

theorem Closing.closes_after (hc : Closing c kind) (hafter : ∀ x ∈ after, isWhitespace x = true) :
    Closes (skipSpace (after ++ c :: tail)) := by
  rw [skipSpace_before hafter (hc.closes tail).tokenStart]
  exact hc.closes tail

/-- A value ends before the comma of the next item or before the bracket. -/
theorem WrittenItems.closes {items : List Shape} (h : WrittenItems false text items)
    (hc : Closing c kind) (hafter : ∀ x ∈ after, isWhitespace x = true) :
    Closes (skipSpace (after ++ (text ++ c :: tail))) := by
  rw [skipSpace_append hafter]
  cases h with
  | nil hgap => exact hc.closes_after hgap
  | cons => exact ⟨',', _, rfl, .inl rfl⟩

theorem WrittenMembers.closes {members : List (String × Shape)}
    (h : WrittenMembers false text members) (hc : Closing c kind)
    (hafter : ∀ x ∈ after, isWhitespace x = true) :
    Closes (skipSpace (after ++ (text ++ c :: tail))) := by
  rw [skipSpace_append hafter]
  cases h with
  | nil hgap => exact hc.closes_after hgap
  | cons => exact ⟨',', _, rfl, .inl rfl⟩

theorem WrittenItems.tokenStart {items : List Shape} (h : WrittenItems true text items)
    (hc : Closing c kind) : TokenStart (skipSpace (text ++ c :: tail)) := by
  cases h with
  | nil hgap => exact (hc.closes_after hgap).tokenStart
  | cons hbefore hitem _ _ =>
    rw [if_pos rfl, List.nil_append, List.append_assoc, List.append_assoc,
      skipSpace_before hbefore (hitem.tokenStart _)]
    exact hitem.tokenStart _

theorem WrittenMembers.tokenStart {members : List (String × Shape)}
    (h : WrittenMembers true text members) (hc : Closing c kind) :
    TokenStart (skipSpace (text ++ c :: tail)) := by
  cases h with
  | nil hgap => exact (hc.closes_after hgap).tokenStart
  | cons hbefore _ _ _ _ _ =>
    rw [if_pos rfl, List.nil_append, List.append_assoc, List.append_assoc,
      skipSpace_before hbefore (tokenStart_quotes _ _)]
    exact tokenStart_quotes _ _

end

/-- An array or object inside brackets. -/
theorem At.run_brackets {s : Scanner} {kinds innerKinds : List TokenKind} {depth : Nat}
    {inner tail : List Char} {o c : Char} {opening closing : TokenKind} {fits whole : Prop}
    (h : At s (o :: (inner ++ c :: tail)) kinds depth) (ho : Opening o opening)
    (hc : Closing c closing) (hstart : TokenStart (skipSpace (inner ++ c :: tail)))
    (htail : TokenStart (skipSpace tail))
    (hinner : ∀ s', depth + 1 < depthLimit →
      At s' (skipSpace (inner ++ c :: tail)) (kinds ++ [opening]) (depth + 1) →
      s'.keyAllowed = true →
      Goes s' (c :: tail) (kinds ++ [opening] ++ innerKinds) (depth + 1) fits)
    (hwhole : whole ↔ depth + 1 < depthLimit ∧ fits) :
    Goes s (skipSpace tail) (kinds ++ (opening :: (innerKinds ++ [closing]))) depth whole := by
  obtain ⟨gap, hcalm, -⟩ := h.calm
  rcases Json.run_brackets ho hc (h.before (ho.tokenStart _)).1 h.free hcalm.kinds hstart
    (noRemark_of_skipSpace htail) hinner with ⟨hfits, hlands⟩ | ⟨hfits, hover⟩
  · exact hlands.arrives.goes (hwhole.2 hfits)
  · exact .inr ⟨fun hall => hfits (hwhole.1 hall), hover⟩

mutual

/-- Reading a value gives its tokens, unless brackets in it are nested too deep. -/
theorem Written.run {text : List Char} {v : Shape} (hv : Written text v) {s : Scanner}
    {kinds : List TokenKind} {d : Nat} {tail : List Char} (h : At s (text ++ tail) kinds d)
    (hroom : d < depthLimit) (htail : Closes (skipSpace tail)) :
    Goes s (skipSpace tail) (kinds ++ v.kinds) d (d + 1 + v.depth ≤ depthLimit) := by
  match hv with
  | .word hw => exact (run_word h hw htail).goes hroom
  | .string hspelled => exact (run_string h hspelled htail.tokenStart).goes hroom
  | @Written.array inner items hitems =>
    have hat : At s ('[' :: (inner ++ ']' :: tail)) kinds d := by
      simpa using h
    refine hat.run_brackets .sequence .sequence (hitems.tokenStart .sequence) htail.tokenStart
      (fun s' hroom' hat' hallowed => hitems.run .sequence hat' hroom' fun _ => hallowed) ?_
    show d + 1 + (Shape.itemsDepth items + 1) ≤ depthLimit ↔ _
    omega
  | @Written.object inner members hmembers =>
    have hat : At s ('\x7b' :: (inner ++ '\x7d' :: tail)) kinds d := by
      simpa using h
    refine hat.run_brackets .mapping .mapping (hmembers.tokenStart .mapping) htail.tokenStart
      (fun s' hroom' hat' hallowed => hmembers.run .mapping hat' hroom' fun _ => hallowed) ?_
    show d + 1 + (Shape.membersDepth members + 1) ≤ depthLimit ↔ _
    omega

theorem WrittenItems.run {first : Bool} {text : List Char} {items : List Shape}
    (hitems : WrittenItems first text items) {s : Scanner} {kinds : List TokenKind} {d : Nat}
    {tail : List Char} {c : Char} {kind : TokenKind} (hc : Closing c kind)
    (h : At s (skipSpace (text ++ c :: tail)) kinds d) (hroom : d < depthLimit)
    (hallowed : first = true → s.keyAllowed = true) :
    Goes s (c :: tail) (kinds ++ Shape.itemKinds first items) d
      (d + 1 + Shape.itemsDepth items ≤ depthLimit) := by
  match hitems with
  | .nil hgap =>
    rw [skipSpace_before hgap (hc.closes tail).tokenStart] at h
    rw [Shape.itemKinds, List.append_nil]
    exact .here hroom h
  | @WrittenItems.cons _ before text after rest item items hbefore hitem hafter hrest =>
    simp only [List.append_assoc] at h
    have hskip := skipSpace_before hbefore (hitem.tokenStart (after ++ (rest ++ c :: tail)))
    -- the comma, the item and the rest are read one after the other, each with its own tokens
    rw [show kinds ++ Shape.itemKinds first (item :: items) =
      kinds ++ (if first then [] else [.flowEntry]) ++ item.kinds ++ Shape.itemKinds false items by
      simp [Shape.itemKinds]]
    refine Goes.after_arrives
      (run_separator first h hallowed (by rw [hskip]; exact hitem.tokenStart _)) fun s₁ hat₁ _ => ?_
    rw [hskip] at hat₁
    have hgoes := hitem.run hat₁ hroom (hrest.closes hc hafter)
    rw [skipSpace_append hafter] at hgoes
    -- the array fits if its first item and the rest do
    refine hgoes.next (fun s₂ hat₂ => hrest.run hc hat₂ hroom (absurd · Bool.false_ne_true)) ?_
    show d + 1 + max item.depth (Shape.itemsDepth items) ≤ depthLimit ↔ _
    omega

theorem WrittenMembers.run {first : Bool} {text : List Char} {members : List (String × Shape)}
    (hmembers : WrittenMembers first text members) {s : Scanner} {kinds : List TokenKind} {d : Nat}
    {tail : List Char} {c : Char} {kind : TokenKind} (hc : Closing c kind)
    (h : At s (skipSpace (text ++ c :: tail)) kinds d) (hroom : d < depthLimit)
    (hallowed : first = true → s.keyAllowed = true) :
    Goes s (c :: tail) (kinds ++ Shape.memberKinds first members) d
      (d + 1 + Shape.membersDepth members ≤ depthLimit) := by
  match hmembers with
  | .nil hgap =>
    rw [skipSpace_before hgap (hc.closes tail).tokenStart] at h
    rw [Shape.memberKinds, List.append_nil]
    exact .here hroom h
  | @WrittenMembers.cons _ before chars body gap afterColon text after rest value members hbefore hkey
      hcolon hvalue hafter hrest =>
    simp only [List.append_assoc, List.cons_append] at h
    have hskip := skipSpace_before hbefore (tokenStart_quotes body
      (gap ++ ':' :: (afterColon ++ (text ++ (after ++ (rest ++ c :: tail))))))
    have hskip' := skipSpace_before hcolon (hvalue.tokenStart (after ++ (rest ++ c :: tail)))
    -- the comma, the key with its colon, the value and the rest are read one after the other
    rw [show kinds ++ Shape.memberKinds first ((String.ofList chars, value) :: members) =
      kinds ++ (if first then [] else [.flowEntry]) ++
        [.key, .scalar (String.ofList chars) .doubleQuoted, .value] ++ value.kinds ++
          Shape.memberKinds false members by simp [Shape.memberKinds]]
    refine Goes.after_arrives
      (run_separator first h hallowed (by rw [hskip]; exact tokenStart_quotes _ _))
      fun s₁ hat₁ hallowed₁ => ?_
    rw [hskip] at hat₁
    refine Goes.after_arrives
      (run_key hat₁ (hallowed₁ rfl) hkey (by rw [hskip']; exact hvalue.tokenStart _))
      fun s₂ hat₂ _ => ?_
    rw [hskip'] at hat₂
    have hgoes := hvalue.run hat₂ hroom (hrest.closes hc hafter)
    rw [skipSpace_append hafter] at hgoes
    refine hgoes.next (fun s₃ hat₃ => hrest.run hc hat₃ hroom (absurd · Bool.false_ne_true)) ?_
    show d + 1 + max value.depth (Shape.membersDepth members) ≤ depthLimit ↔ _
    omega

end

/-! ## The whole text -/

/-- What reading a text gives: all tokens, or those before a bracket too many. -/
def Scanned (input : Input) (v : Shape) : Prop :=
  v.depth ≤ depthLimit ∧ (∃ tokens, scan input = ⟨tokens, none⟩ ∧ (∀ t ∈ tokens, t.comments = []) ∧
      tokens.map Token.kind = v.kinds ++ [.streamEnd]) ∨
    depthLimit < v.depth ∧ ∃ tokens fault, scan input = ⟨tokens, some fault⟩ ∧
      fault.problem = "exceeded max depth of 10000" ∧ (∀ t ∈ tokens, t.comments = []) ∧
      tokens.map Token.kind <+: v.kinds

/-- The brackets of an array or object, and what stands between them. -/
theorem Written.brackets {text : List Char} {v : Shape} (hv : Written text v)
    (hcollection : 0 < v.depth) :
    ∃ (o c : Char) (opening closing : TokenKind) (inner : List Char) (innerKinds : List TokenKind)
      (depth : Nat), text = o :: (inner ++ [c]) ∧ v.depth = depth + 1 ∧
      v.kinds = opening :: (innerKinds ++ [closing]) ∧ Opening o opening ∧ Closing c closing ∧
      ∀ tail, TokenStart (skipSpace (inner ++ c :: tail)) ∧
        ∀ s kinds d, d < depthLimit → At s (skipSpace (inner ++ c :: tail)) kinds d →
          s.keyAllowed = true →
          Goes s (c :: tail) (kinds ++ innerKinds) d (d + 1 + depth ≤ depthLimit) := by
  cases hv with
  | word hw => cases hcollection
  | string hspelled => cases hcollection
  | array hitems =>
    exact ⟨_, _, _, _, _, _, _, rfl, rfl, rfl, .sequence, .sequence, fun tail =>
      ⟨hitems.tokenStart .sequence, fun s kinds d hroom hat hallowed =>
        hitems.run .sequence hat hroom fun _ => hallowed⟩⟩
  | object hmembers =>
    exact ⟨_, _, _, _, _, _, _, rfl, rfl, rfl, .mapping, .mapping, fun tail =>
      ⟨hmembers.tokenStart .mapping, fun s kinds d hroom hat hallowed =>
        hmembers.run .mapping hat hroom fun _ => hallowed⟩⟩

theorem isWhitespace_of_passable {flow tabs : Bool} {gap : List Char}
    (h : isPassable flow tabs gap = true) : ∀ x ∈ gap, isWhitespace x = true := by
  induction gap generalizing tabs with
  | nil => nofun
  | cons x gap ih =>
    rcases isPassable_cons h with ⟨rfl | ⟨rfl, -⟩, hgap⟩ | ⟨rfl | rfl, hgap⟩ <;>
      exact List.forall_mem_cons.2 ⟨rfl, ih hgap⟩

/-- Where reading starts, before the bracket of an array or object. -/
theorem calm_ofBytes {o : Char} {kind : TokenKind} {gap rest : List Char} (ho : Opening o kind)
    (hgap : isPassable false false gap = true)
    (hallowed : ∀ x ∈ gap ++ o :: rest, Yaml.isAllowed x = true) :
    Calm (atStart (Input.ofBytes (Text.Utf8.encode (String.ofList (gap ++ o :: rest)))))
      (gap ++ o :: rest) [] [-1] 0 := by
  -- a byte order mark would be taken off the text
  have hmark : (gap ++ o :: rest).head? ≠ some '\ufeff' := by
    cases gap with
    | nil => cases ho <;> simp
    | cons x gap =>
      intro heq
      obtain rfl : x = '\ufeff' := by simpa using heq
      cases hgap
  obtain ⟨n, hinput⟩ := Input.ofBytes_encode hallowed hmark
  rw [hinput]
  exact calm_atStart rfl hmark

/-- Behind the last bracket whitespace is passed over to the end of the text. -/
theorem Lands.before_end {s : Scanner} {gap : List Char} {kinds : List TokenKind}
    (h : Lands s gap kinds 0) (hgap : isPassable false true gap = true) :
    ∃ s', Runs s s' ∧ Before s' [] kinds [-1] 0 ∧ s'.Free := by
  obtain ⟨s', hruns, hlast, hfree, hkeys⟩ := h
  have hpasses : s'.Passes gap := by
    rw [Passes, hkeys, Bool.not_false, Bool.or_true, hlast.inFlow]
    exact hgap
  rw [← List.append_nil gap] at hlast
  obtain ⟨hdone, -⟩ := hlast.before_gap hpasses tokenStart_nil (.inr rfl)
  exact ⟨s', hruns, hdone, hfree⟩

/-- Reading the bytes of an array or object. -/
theorem Written.scan {text : List Char} {v : Shape} {before after : List Char} (hv : Written text v)
    (hcollection : 0 < v.depth) (hbefore : isPassable false false before = true)
    (hafter : isPassable false true after = true) :
    Scanned (Input.ofBytes (Text.Utf8.encode (String.ofList (before ++ (text ++ after))))) v := by
  have hallowed : ∀ x ∈ before ++ (text ++ after), Yaml.isAllowed x = true := by
    simp only [List.forall_mem_append]
    exact ⟨fun x hx => isAllowed_of_isWhitespace (isWhitespace_of_passable hbefore x hx), hv.isAllowed,
      fun x hx => isAllowed_of_isWhitespace (isWhitespace_of_passable hafter x hx)⟩
  obtain ⟨o, c, opening, closing, inner, innerKinds, depth, rfl, hdepth, hkinds, ho, hc, hinner⟩ :=
    hv.brackets hcollection
  have htext : before ++ (o :: (inner ++ [c]) ++ after) = before ++ (o :: (inner ++ c :: after)) := by
    simp
  rw [htext] at hallowed ⊢
  have hcalm := calm_ofBytes ho hbefore hallowed
  generalize Input.ofBytes _ = input at hcalm ⊢
  obtain ⟨hfirst, -⟩ := hcalm.before_gap hbefore (ho.tokenStart _) (.inr rfl)
  have hend : skipSpace after = [] := by
    have hskip := skipSpace_before (isWhitespace_of_passable hafter) tokenStart_nil
    rwa [List.append_nil] at hskip
  have hremark : NoRemark after := noRemark_of_skipSpace (by rw [hend]; exact tokenStart_nil)
  obtain ⟨hopen, hbetween⟩ := hinner after
  rcases run_brackets ho hc hfirst (free_atStart input) hcalm.kinds hopen hremark
    (fun s' hroom hat hallowed => hbetween s' _ 0 hroom hat hallowed) with
    ⟨hfits, hlands⟩ | ⟨hfits, s, fault, hruns, hfinished, hstep, hproblem, hclean, hsofar⟩
  · refine .inl ⟨by omega, ?_⟩
    obtain ⟨s, hruns, hdone, hfree⟩ := hlands.before_end hafter
    obtain ⟨tokens, hscan, hbare, htokens⟩ := hruns.scan_eq hdone hfree
    refine ⟨tokens, hscan, hbare, ?_⟩
    rw [htokens, hkinds]
    simp [pops]
  · refine .inr ⟨by omega, ?_⟩
    obtain ⟨tokens, hscan, hbare, htokens⟩ := hruns.scan_error hfinished hstep hclean
    refine ⟨tokens, fault, hscan, hproblem, hbare, htokens.trans ?_⟩
    rwa [hkinds]

end StackIr.Json
