import StackIr.Proofs.Yaml.Gap
import StackIr.Yaml.Presentation
import StackIr.Yaml.Token.Plain

/-! # Plain texts

    A plain text is a line of words.  `Words` says which texts can stand before what follows
    them, and `Stop` where reading stops behind the last word.  The main statements say that
    reading gives the text back, and that a text that may be written plain is a line of
    words. -/

namespace StackIr.Yaml.Plain

/-- A word that reaches up to what follows it. -/
structure IsWord (flow : Bool) (w after : List Char) : Prop where
  nonempty : w ≠ []
  unmarked : w.head? ≠ some '#'
  reaches : word flow (w ++ after) = w

/-- A line of words before `tail`. -/
inductive Words (flow : Bool) (tail : List Char) : List Char → Prop where
  | last {w : List Char} : IsWord flow w tail → Words flow tail w
  | cons {w blanks text : List Char} : IsWord flow w (blanks ++ (text ++ tail)) → blanks ≠ [] →
      (∀ x ∈ blanks, isBlank x = true) → Words flow tail text →
      Words flow tail (w ++ (blanks ++ text))

/-- Where reading stops: behind the last word, before a line that is not indented enough, or
    before a bracket or comma on a later line.  `passed` is what is passed over. -/
inductive Stop (flow : Bool) (least : Nat) : (tail passed : List Char) → (broken : Bool) → Prop where
  | here {tail : List Char} : atGap tail = false → Stop flow least tail [] false
  | line {n : Nat} {rest : List Char} : flow = false → n < least → Gap.EndsAt rest →
      Stop flow least ('\n' :: (List.replicate n ' ' ++ rest)) ('\n' :: List.replicate n ' ') true
  | bracket {n : Nat} {x : Char} {rest : List Char} : flow = true → endsInFlow x = true →
      Stop flow least ('\n' :: (List.replicate n ' ' ++ x :: rest)) ('\n' :: List.replicate n ' ')
        true

/-! ## Words -/

theorem word_no_gap (flow : Bool) (cs : List Char) :
    ∀ x ∈ word flow cs, isBlank x = false ∧ isBreak x = false := by
  induction cs with
  | nil => simp [word]
  | cons c cs ih =>
    intro x hx
    rw [word] at hx
    split at hx
    · cases hx
    · rename_i hgap
      split at hx
      · cases hx
      · split at hx
        · cases hx
        · rcases List.mem_cons.1 hx with rfl | hx
          · simpa using hgap
          · exact ih x hx

theorem IsWord.no_gap {flow : Bool} {w after : List Char} (h : IsWord flow w after) :
    ∀ x ∈ w, isBlank x = false ∧ isBreak x = false := by
  intro x hx
  rw [← h.reaches] at hx
  exact word_no_gap flow _ x hx

theorem IsWord.endsAt {flow : Bool} {w after : List Char} (h : IsWord flow w after)
    (rest : List Char) : Gap.EndsAt (w ++ rest) := by
  have hgap := h.no_gap
  obtain ⟨x, w, rfl⟩ := List.exists_cons_of_ne_nil h.nonempty
  obtain ⟨hblank, hbreak⟩ := hgap x (by simp)
  exact Gap.endsAt_cons hblank hbreak

theorem Words.endsAt {flow : Bool} {tail text : List Char} (h : Words flow tail text)
    (rest : List Char) : Gap.EndsAt (text ++ rest) := by
  cases h with
  | last hw => exact hw.endsAt rest
  | cons hw _ _ _ => rw [List.append_assoc]; exact hw.endsAt _

/-! ## Signs that end a word inside brackets -/

section

variable {x : Char} {rest : List Char}

theorem not_gap_of_endsInFlow (hx : endsInFlow x = true) : isBlank x = false ∧ isBreak x = false := by
  have hcases : x = ',' ∨ x = '?' ∨ x = '[' ∨ x = ']' ∨ x = '\x7b' ∨ x = '\x7d' := by
    simpa [endsInFlow, or_assoc] using hx
  rcases hcases with rfl | rfl | rfl | rfl | rfl | rfl <;> decide

theorem endsAt_of_endsInFlow (hx : endsInFlow x = true) : Gap.EndsAt (x :: rest) :=
  Gap.endsAt_cons (not_gap_of_endsInFlow hx).1 (not_gap_of_endsInFlow hx).2

theorem word_of_endsInFlow (hx : endsInFlow x = true) : word true (x :: rest) = [] := by
  rw [word]
  split
  · rfl
  · split <;> simp [hx]

/-- No word is read there, whatever the fuel. -/
theorem readWords_of_endsInFlow (hx : endsInFlow x = true) (start least fuel : Nat)
    (sofar : List (List Char)) (g : Gap) {c : Cursor} (hc : c.rest = x :: rest) :
    readWords true start least fuel sofar g c = .ok ⟨sofar.reverse.flatten, g.broken, c⟩ := by
  cases fuel with
  | zero => rfl
  | succ fuel => rw [readWords, hc, word_of_endsInFlow hx]; simp

end

/-! ## Reading -/

/-- What reading a word does where no marker stands. -/
theorem readWords_word {flow : Bool} {w after : List Char} (hw : IsWord flow w after)
    (start least fuel : Nat) (sofar : List (List Char)) (g : Gap) {c : Cursor}
    (hc : c.rest = w ++ after) (hmarker : c.atDocumentMarker = false) :
    readWords flow start least (fuel + 1) sofar g c =
      if atGap after = false then
        .ok ⟨(w :: g.fold :: sofar).reverse.flatten, false, c.along w⟩
      else
        Gap.read start (some least) (c.along w).left {} (c.along w) >>= fun r =>
          if !flow && r.2.column < least then
            .ok ⟨(w :: g.fold :: sofar).reverse.flatten, r.1.broken, r.2⟩
          else readWords flow start least fuel (w :: g.fold :: sofar) r.1 r.2 := by
  have hsign : c.isAt '#' = false := by
    have := hw.unmarked
    obtain ⟨x, w, rfl⟩ := List.exists_cons_of_ne_nil hw.nonempty
    simpa [Cursor.isAt, hc] using this
  have hempty : w.isEmpty = false := by simpa using hw.nonempty
  have hskip : c.skip w.length = c.along w :=
    Cursor.skip_eq_along hc fun x hx => (hw.no_gap x hx).2
  have hrest : (c.along w).rest = after := Cursor.rest_along hc
  rw [readWords, hmarker, hsign, hc, hw.reaches]
  simp only [Bool.or_self, Bool.false_eq_true, if_false, hempty, hskip, hrest]
  cases atGap after <;> rfl

/-- The gap of a line break and the indentation behind it. -/
theorem read_indent (start least : Nat) {n : Nat} {rest : List Char} {c : Cursor} (hcount : c.Counted)
    (hc : c.rest = '\n' :: (List.replicate n ' ' ++ rest)) (hend : Gap.EndsAt rest) :
    ∃ g, g.broken = true ∧
      Gap.read start (some least) c.left {} c = .ok (g, c.along ('\n' :: List.replicate n ' ')) := by
  have hfuel : (List.replicate n ' ').length < c.left := by
    rw [hcount, hc]
    simp only [List.length_cons, List.length_append]
    omega
  exact ⟨_, rfl, Gap.read_break start (some least) (List.replicate n ' ') rfl
    (fun y hy => .inl (List.eq_of_mem_replicate hy)) hend c.left hc hfuel⟩

/-- Reading stops behind the last word. -/
theorem IsWord.readWords_eq {flow : Bool} {w tail passed : List Char} {least : Nat} {broken : Bool}
    (hw : IsWord flow w tail) (hstop : Stop flow least tail passed broken) (start fuel : Nat)
    (sofar : List (List Char)) (g : Gap) {c : Cursor} (hcount : c.Counted) (hc : c.rest = w ++ tail)
    (hmarker : c.atDocumentMarker = false) :
    readWords flow start least (fuel + 1) sofar g c =
      .ok ⟨sofar.reverse.flatten ++ (g.fold ++ w), broken, c.along (w ++ passed)⟩ := by
  have hrest : (c.along w).rest = tail := Cursor.rest_along hc
  rw [readWords_word hw start least fuel sofar g hc hmarker]
  cases hstop with
  | here hgap => simp [hgap]
  | @line n rest hflow hn hend =>
    obtain ⟨g', hbroken, hread⟩ := read_indent start least (hcount.along w) hrest hend
    have hcolumn : ((c.along w).along ('\n' :: List.replicate n ' ')).column = n := by
      rw [Cursor.column_along, Cursor.columnAfter_newline]
    have hgap : atGap ('\n' :: (List.replicate n ' ' ++ rest)) = true := rfl
    rw [hgap, if_neg (by decide), hread]
    simp only [bind, Except.bind, hflow, hcolumn, hn]
    simp [hbroken, Cursor.along_append]
  | @bracket n x rest hflow hx =>
    obtain ⟨g', hbroken, hread⟩ :=
      read_indent start least (hcount.along w) hrest (endsAt_of_endsInFlow hx)
    have hgap : atGap ('\n' :: (List.replicate n ' ' ++ x :: rest)) = true := rfl
    have hrest' : ((c.along w).along ('\n' :: List.replicate n ' ')).rest = x :: rest :=
      Cursor.rest_along hrest
    subst hflow
    rw [hgap, if_neg (by decide), hread]
    simp only [bind, Except.bind, Bool.not_true, Bool.false_and, Bool.false_eq_true, if_false]
    rw [readWords_of_endsInFlow hx _ _ _ _ _ hrest']
    simp [hbroken, Cursor.along_append]

/-- Reading a line of words gives it back. -/
theorem Words.readWords_eq {flow : Bool} {tail text passed : List Char} {least : Nat}
    {broken : Bool} (h : Words flow tail text) (hstop : Stop flow least tail passed broken)
    (start : Nat) :
    ∀ (fuel : Nat) (sofar : List (List Char)) (g : Gap) (c : Cursor), c.Counted →
      c.rest = text ++ tail → c.atDocumentMarker = false → least ≤ c.column + 1 →
      text.length ≤ fuel →
        readWords flow start least (fuel + 1) sofar g c =
          .ok ⟨sofar.reverse.flatten ++ (g.fold ++ text), broken, c.along (text ++ passed)⟩ := by
  induction h with
  | last hw =>
    intro fuel sofar g c hcount hc hmarker _ _
    exact hw.readWords_eq hstop start fuel sofar g hcount hc hmarker
  | @cons w blanks text hw hne hblanks htext ih =>
    intro fuel sofar g c hcount hc hmarker hleast hfuel
    have hc' : c.rest = w ++ (blanks ++ (text ++ tail)) := by rw [hc]; simp
    have hrest : (c.along w).rest = blanks ++ (text ++ tail) := Cursor.rest_along hc'
    have hpos : 0 < blanks.length := List.length_pos_iff.2 hne
    have hword : 0 < w.length := List.length_pos_iff.2 hw.nonempty
    have hgap : atGap (blanks ++ (text ++ tail)) = true := by
      obtain ⟨x, blanks, rfl⟩ := List.exists_cons_of_ne_nil hne
      simp [atGap, hblanks x (by simp)]
    have hread := Gap.read_blanks start (some least) hblanks (htext.endsAt tail)
      (c.along w).left [] (c.along w) hrest (by rw [Cursor.left_along hcount hc']; simp)
    -- the next word is on the same line, so it is indented enough
    have hcolumn : ((c.along w).along blanks).column = c.column + w.length + blanks.length := by
      rw [Cursor.column_along, Cursor.column_along,
        Cursor.columnAfter_of_no_break fun x hx => (hw.no_gap x hx).2,
        Cursor.columnAfter_of_no_break fun x hx => isBreak_of_isBlank (hblanks x hx)]
    have hindented : ¬ ((c.along w).along blanks).column < least := by omega
    obtain ⟨fuel, rfl⟩ : ∃ n, fuel = n + 1 := ⟨fuel - 1, by simp at hfuel; omega⟩
    have hnext := ih fuel (w :: g.fold :: sofar) { blanks := blanks } ((c.along w).along blanks)
      ((hcount.along w).along blanks) (Cursor.rest_along hrest)
      (Cursor.atDocumentMarker_of_column (by omega)) (by omega) (by simp at hfuel; omega)
    rw [readWords_word hw start least _ sofar g hc' hmarker, hgap, if_neg (by decide), hread]
    simp only [bind, Except.bind, List.nil_append, hindented, decide_false, Bool.and_false,
      Bool.false_eq_true, if_false]
    rw [hnext]
    simp [Gap.fold, Cursor.along_append]

/-- Reading a plain text gives it back. -/
theorem Words.read_eq {flow : Bool} {tail text passed : List Char} {least : Nat} {broken : Bool}
    (h : Words flow tail text) (hstop : Stop flow least tail passed broken) {c : Cursor}
    (hcount : c.Counted) (hc : c.rest = text ++ tail) (hmarker : c.atDocumentMarker = false)
    (hleast : least ≤ c.column + 1) :
    read flow least c = .ok ⟨text, broken, c.along (text ++ passed)⟩ := by
  rw [read, h.readWords_eq hstop c.line c.left [] {} c hcount hc hmarker hleast
    (by rw [hcount, hc]; simp)]
  rfl

/-- Inside brackets a word is read with the whitespace up to what ends it. -/
theorem IsWord.read_space {w gap rest : List Char} {x : Char} (h : IsWord true w (gap ++ x :: rest))
    (hgap : ∀ y ∈ gap, isBlank y = true ∨ y = '\n' ∨ y = '\r') (hx : endsInFlow x = true)
    {c : Cursor} (hcount : c.Counted) (hc : c.rest = w ++ (gap ++ x :: rest))
    (hmarker : c.atDocumentMarker = false) :
    ∃ broken, read true 0 c = .ok ⟨w, broken, (c.along w).past gap⟩ := by
  have hend : Gap.EndsAt (x :: rest) := endsAt_of_endsInFlow hx
  have hrest : (c.along w).rest = gap ++ x :: rest := Cursor.rest_along hc
  rw [read, readWords_word h c.line 0 c.left [] {} hc hmarker]
  cases gap with
  | nil =>
    obtain ⟨hblank, hbreak⟩ := not_gap_of_endsInFlow hx
    have hstop : atGap ([] ++ x :: rest) = false := by simp [atGap, hblank, hbreak]
    rw [if_pos hstop]
    exact ⟨false, by simp [Gap.fold]⟩
  | cons y gap =>
    have hy : isBlank y = true ∨ isBreak y = true := by
      rcases hgap y (List.mem_cons_self ..) with hy | rfl | rfl
      · exact .inl hy
      · exact .inr rfl
      · exact .inr rfl
    have hstop : ¬ atGap (y :: gap ++ x :: rest) = false := by
      rw [Bool.not_eq_false]
      exact Bool.or_eq_true_iff.2 hy
    obtain ⟨g, hread⟩ := Gap.read_space c.line (some 0) (by simp) hend (c.along w).left
      (y :: gap) {} (c.along w) hgap hrest (by rw [hcount.along w, hrest]; simp)
    rw [if_neg hstop, hread]
    simp only [bind, Except.bind, Bool.not_true, Bool.false_and, Bool.false_eq_true, if_false]
    rw [readWords_of_endsInFlow hx _ _ _ _ _ (Cursor.rest_past hrest)]
    exact ⟨g.broken, by simp [Gap.fold]⟩

/-! ## Texts that may be written plain -/

open Presentation

/-- What a text holds that can be written in single quotes on one line. -/
def Inline (cs : List Char) : Prop :=
  ∀ x ∈ cs, isBreak x = false ∧ x ≠ '\t'

/-- Whether nothing of what follows a plain text is read as a part of it. -/
def Ends (tail : List Char) : Prop :=
  word false tail = []

/-- A text before `tail` that is a line of words behind blanks, if there are any. -/
def BlankRest (tail cs : List Char) : Prop :=
  ∃ blanks text, cs = blanks ++ text ∧ (∀ x ∈ blanks, isBlank x = true) ∧ Words false tail text

/-- A text before `tail` that starts with the rest of a word.  If it goes on, then with blanks
    and a line of words. -/
def WordRest (tail cs : List Char) : Prop :=
  ∃ w more, cs = w ++ more ∧ word false (cs ++ tail) = w ∧
    (more = [] ∨ ∃ blanks text, more = blanks ++ text ∧ blanks ≠ [] ∧
      (∀ x ∈ blanks, isBlank x = true) ∧ Words false tail text)

section

variable {tail cs : List Char} {c : Char}

theorem BlankRest.blank (h : BlankRest tail cs) : BlankRest tail (' ' :: cs) := by
  obtain ⟨blanks, text, rfl, hblanks, htext⟩ := h
  exact ⟨' ' :: blanks, text, rfl, List.forall_mem_cons.2 ⟨rfl, hblanks⟩, htext⟩

/-- A blank ends a word. -/
theorem BlankRest.wordRest (h : BlankRest tail cs) : WordRest tail (' ' :: cs) := by
  obtain ⟨blanks, text, rfl, hblanks, htext⟩ := h
  refine ⟨[], ' ' :: (blanks ++ text), rfl, ?_, .inr ⟨' ' :: blanks, text, rfl, by simp,
    List.forall_mem_cons.2 ⟨rfl, hblanks⟩, htext⟩⟩
  rw [List.cons_append, word]
  simp

/-- Another character goes on with the word, or starts one, unless it is a colon before a gap. -/
theorem WordRest.char (h : WordRest tail cs) (hblank : isBlank c = false) (hbreak : isBreak c = false)
    (hcolon : (c == ':' && atGap (cs ++ tail)) = false) :
    WordRest tail (c :: cs) ∧ (c ≠ '#' → Words false tail (c :: cs)) := by
  obtain ⟨w, more, rfl, hword, hmore⟩ := h
  have hword' : word false (c :: (w ++ more) ++ tail) = c :: w := by
    rw [List.cons_append, word, hblank, hbreak]
    simp only [Bool.or_self, Bool.false_eq_true, if_false, hcolon, Bool.false_and]
    rw [hword]
  refine ⟨⟨c :: w, more, rfl, hword', hmore⟩, fun hsign => ?_⟩
  have hw : IsWord false (c :: w) (more ++ tail) :=
    ⟨by simp, by simpa using hsign, by simpa [List.append_assoc] using hword'⟩
  rcases hmore with rfl | ⟨blanks, text, rfl, hne, hblanks, htext⟩
  · rw [List.append_nil]
    exact .last hw
  · rw [List.append_assoc] at hw
    exact .cons hw hne hblanks htext

/-- A colon before neither a blank nor the end is before no gap. -/
theorem atGap_of_beforeBlank (hinline : Inline cs) (h : (c == ':' && beforeBlank cs) = false)
    (tail : List Char) : (c == ':' && atGap (cs ++ tail)) = false := by
  cases hcolon : c == ':'
  · rfl
  · rw [hcolon, Bool.true_and] at h
    cases cs with
    | nil => cases h
    | cons d ds =>
      have hbreak := (hinline d (by simp)).1
      have hblank : isBlank d = false := h
      simp [atGap, hbreak, hblank]

end

/-- What is left of a text after one of its characters, and after a blank. -/
theorem words_after {tail : List Char} (htail : Ends tail) :
    ∀ (cs : List Char) (previous : Char), Inline cs → endsEarly previous cs = false →
      cs.getLast? ≠ some ' ' →
      WordRest tail cs ∧ (isBlank previous = true → cs ≠ [] → BlankRest tail cs) := by
  intro cs
  induction cs with
  | nil =>
    intro previous _ _ _
    exact ⟨⟨[], [], rfl, htail, .inl rfl⟩, fun _ h => absurd rfl h⟩
  | cons c cs ih =>
    intro previous hinline hearly hlast
    obtain ⟨⟨hbreak, htab⟩, hinline'⟩ := List.forall_mem_cons.1 hinline
    have hlast' : cs.getLast? ≠ some ' ' := by
      intro h
      apply hlast
      rw [List.getLast?_cons, h]
      rfl
    rw [endsEarly, Bool.or_eq_false_iff, Bool.or_eq_false_iff] at hearly
    obtain ⟨⟨hcolon, hsign⟩, hearly'⟩ := hearly
    obtain ⟨hword, hblank⟩ := ih c hinline' hearly' hlast'
    by_cases hc : c = ' '
    · -- the text does not end with a blank, so a line of words follows
      subst hc
      have hne : cs ≠ [] := by
        rintro rfl
        exact hlast rfl
      have hrest := hblank rfl hne
      exact ⟨hrest.wordRest, fun _ _ => hrest.blank⟩
    · have hnotBlank : isBlank c = false := by simp [isBlank, hc, htab]
      obtain ⟨hchar, hwords⟩ :=
        hword.char hnotBlank hbreak (atGap_of_beforeBlank hinline' hcolon tail)
      refine ⟨hchar, fun hprevious _ => ⟨[], c :: cs, rfl, by simp, hwords ?_⟩⟩
      -- a number sign behind a blank would start a comment
      rintro rfl
      simp [hprevious] at hsign

theorem inline_of_singleAllowed {cs : List Char} (h : singleAllowed cs = true)
    (hbreaks : hasBreaks cs = false) : Inline cs := by
  intro x hx
  simp only [singleAllowed, Bool.not_eq_true', Bool.or_eq_false_iff] at h
  simp only [hasBreaks, List.any_eq_false] at hbreaks
  refine ⟨by simpa using hbreaks x hx, ?_⟩
  rintro rfl
  have htab := h.1.2
  simp [hx] at htab

theorem inline_of_plainAllowed {cs : List Char} (h : plainAllowed cs = true) : Inline cs := by
  cases cs with
  | nil => intro x hx; cases hx
  | cons c rest =>
    simp only [plainAllowed, Bool.and_eq_true, Bool.not_eq_true'] at h
    exact inline_of_singleAllowed h.1.1.1.1.1.1 h.1.1.1.1.1.2

/-- A text that may be written plain is a line of words. -/
theorem words_of_plainAllowed {cs tail : List Char} (h : plainAllowed cs = true) (hne : cs ≠ [])
    (htail : Ends tail) : Words false tail cs := by
  have hinline := inline_of_plainAllowed h
  obtain ⟨c, rest, rfl⟩ := List.exists_cons_of_ne_nil hne
  simp only [plainAllowed, Bool.and_eq_true, Bool.not_eq_true', bne_iff_ne] at h
  obtain ⟨⟨⟨⟨_, hspecial⟩, hearly⟩, hspace⟩, hlast⟩ := h
  -- After an imaginary blank the whole text is a line of words.
  have hearly' : endsEarly ' ' (c :: rest) = false := by
    simp only [startsSpecially, Bool.or_eq_false_iff, Bool.and_eq_false_iff] at hspecial
    rw [endsEarly, Bool.or_eq_false_iff, Bool.or_eq_false_iff]
    refine ⟨⟨?_, ?_⟩, hearly⟩
    · rcases hspecial.2 with h | h
      · simp [h.1.2]
      · simp [h]
    · have hsign := hspecial.1.1.1.1.1.1.1.1.1.1.1.1.1.1.1.1
      simp [hsign]
  obtain ⟨blanks, text, hsplit, hblanks, htext⟩ :=
    (words_after htail (c :: rest) ' ' hinline hearly' hlast).2 rfl hne
  cases blanks with
  | nil => rw [hsplit]; exact htext
  | cons b blanks =>
    have hb := hblanks b (by simp)
    obtain ⟨rfl, -⟩ := List.cons.inj hsplit
    have hc : c = ' ' ∨ c = '\t' := by simpa [isBlank] using hb
    rcases hc with rfl | rfl
    · exact absurd rfl hspace
    · exact absurd rfl (hinline '\t' (by simp)).2

end StackIr.Yaml.Plain
