import StackIr.Proofs.Yaml.Gap
import StackIr.Yaml.Token.Quoted

/-! # Texts between quotes

    `Body` relates a text to the ways in which it can stand between quotes.  The main
    statement says that reading gives the text back: a scalar is read word by word and gap by
    gap, and each of them is a piece of the body. -/

namespace StackIr.Yaml.Quoted

/-- The characters of escapes. -/
def Graphic (c : Char) : Prop :=
  0x20 < c.toNat ∧ c.toNat < 0x7F

instance (c : Char) : Decidable (Graphic c) :=
  inferInstanceAs (Decidable (_ ∧ _))

theorem Graphic.not_break {c : Char} (h : Graphic c) : isBreak c = false := by
  obtain ⟨hlow, hhigh⟩ := h
  have hfeed : c ≠ '\n' := by rintro rfl; exact absurd hlow (by decide)
  have hreturn : c ≠ '\r' := by rintro rfl; exact absurd hlow (by decide)
  have hnext : c.toNat ≠ 0x85 := by omega
  have hline : c.toNat ≠ 0x2028 := by omega
  have hparagraph : c.toNat ≠ 0x2029 := by omega
  simp [isBreak, hfeed, hreturn, hnext, hline, hparagraph]

/-- An escape without its backslash, and what it stands for. -/
structure IsEscape (e : List Char) (x : Char) : Prop where
  nonempty : e ≠ []
  graphic : ∀ y ∈ e, Graphic y
  reads : ∀ rest, escape? (e ++ rest) = some (x, e.length + 1)

theorem IsEscape.line {e : List Char} {x : Char} (h : IsEscape e x) : ∀ y ∈ e, isBreak y = false :=
  fun y hy => (h.graphic y hy).not_break

/-- Whether a text that goes on after a line break starts with a marker of a document. -/
def startsMarker : List Char → Bool
  | a :: b :: d :: x :: _ =>
    (a == '-' || a == '.') && b == a && d == a && (isBlank x || isBreak x)
  | _ => false

/-- A text and how it stands between quotes.  Blanks stay within a line.  Breaks are followed by
    indentation and by something else, which is no marker of a document. -/
inductive Body (q : Quote) : (text body : List Char) → Prop where
  | nil : Body q [] []
  | char {c : Char} {text body : List Char} : isBlank c = false → isBreak c = false →
      c ≠ q.char → (q = .double → c ≠ '\\') → Body q text body → Body q (c :: text) (c :: body)
  | quote {text body : List Char} : q = .single → Body q text body →
      Body q ('\'' :: text) ('\'' :: '\'' :: body)
  | escape {e : List Char} {x : Char} {text body : List Char} : q = .double → IsEscape e x →
      Body q text body → Body q (x :: text) ('\\' :: (e ++ body))
  | blank {c : Char} {text body : List Char} : isBlank c = true →
      (∀ x ∈ body.head?, isBreak x = false) → Body q text body → Body q (c :: text) (c :: body)
  | breaks {x : Char} {later : List Char} {text body : List Char} (n : Nat) :
      isSeparator x = true → (∀ y ∈ later, isSeparator y = true) → Gap.EndsAt body →
      (n ≠ 0 ∨ startsMarker body = false) → Body q text body →
      Body q (x :: (later ++ text)) (x :: (later ++ (List.replicate n ' ' ++ body)))

/-- Whether a body has ended or goes on with a gap. -/
def AtGap (body : List Char) : Prop :=
  ∀ x ∈ body.head?, isBlank x = true ∨ isBreak x = true

/-- What follows the closing quote does not make it a part of the text. -/
def Closes (q : Quote) (rest : List Char) : Prop :=
  q = .single → ∀ x ∈ rest.head?, x ≠ '\''

@[simp] theorem isBlank_quote (q : Quote) : isBlank q.char = false := by
  cases q <;> decide

@[simp] theorem isBreak_quote (q : Quote) : isBreak q.char = false := by
  cases q <;> decide

/-- A separator in front of a body is kept, unless it would hide a blank or make a marker. -/
theorem Body.separator {q : Quote} {x : Char} {text body : List Char} (h : Body q text body)
    (hx : isSeparator x = true) (hblank : ∀ y ∈ body.head?, isBlank y = false)
    (hmarker : startsMarker body = false) : Body q (x :: text) (x :: body) := by
  -- alone it makes a gap, and before other separators it joins theirs
  have halone : Gap.EndsAt body → Body q (x :: text) (x :: body) := fun hend =>
    .breaks 0 hx (List.forall_mem_nil _) hend (.inr hmarker) h
  cases h with
  | nil => exact halone Gap.endsAt_nil
  | char hb hbreak _ _ _ => exact halone (Gap.endsAt_cons hb hbreak)
  | quote _ _ => exact halone (Gap.endsAt_cons (by decide) (by decide))
  | escape _ _ _ => exact halone (Gap.endsAt_cons (by decide) (by decide))
  | @blank c _ _ hc _ _ =>
    rw [hblank c rfl] at hc
    cases hc
  | breaks n hy hlater hend hn hbody =>
    exact .breaks n hx (List.forall_mem_cons.2 ⟨hy, hlater⟩) hend hn hbody

/-! ## Words -/

theorem word_char {q : Quote} {c : Char} (hblank : isBlank c = false) (hbreak : isBreak c = false)
    (hquote : c ≠ q.char) (hescape : q = .double → c ≠ '\\') (fuel : Nat) (cs : List Char) :
    word q (fuel + 1) (c :: cs) =
      (c :: (word q fuel cs).1, (word q fuel cs).2.1 + 1, (word q fuel cs).2.2) := by
  have hback : (decide (q = .double) && c == '\\') = false := by
    cases hq : decide (q = .double)
    · rfl
    · simpa using hescape (by simpa using hq)
  rw [word.eq_def]
  dsimp only
  simp [hblank, hbreak, hquote, hback]

theorem word_quotes (fuel : Nat) (cs : List Char) :
    word .single (fuel + 1) ('\'' :: '\'' :: cs) =
      ('\'' :: (word .single fuel cs).1, (word .single fuel cs).2.1 + 2,
        (word .single fuel cs).2.2) := by
  have hblank : isBlank '\'' = false := by decide
  have hbreak : isBreak '\'' = false := by decide
  rw [word.eq_def]
  dsimp only
  simp [hblank, hbreak, Quote.char]

theorem word_escape {e : List Char} {x : Char} (he : IsEscape e x) (fuel : Nat)
    (cs : List Char) :
    word .double (fuel + 1) ('\\' :: (e ++ cs)) =
      (x :: (word .double fuel cs).1, (word .double fuel cs).2.1 + (e.length + 1),
        (word .double fuel cs).2.2) := by
  have hblank : isBlank '\\' = false := by decide
  have hbreak : isBreak '\\' = false := by decide
  have hquote : ('\\' == Quote.double.char) = false := by decide
  have hreads := he.reads cs
  have hline := he.line
  have hne := he.nonempty
  obtain ⟨y, e', rfl⟩ := List.exists_cons_of_ne_nil hne
  have hy : isBreak y = false := hline y (by simp)
  have hdrop : List.drop e'.length (e' ++ cs) = cs := by simp
  rw [word.eq_def]
  dsimp only
  simp only [List.cons_append] at hreads ⊢
  simp [hblank, hbreak, hquote, hy, hreads]

theorem word_close {q : Quote} {rest : List Char} (h : Closes q rest) (fuel : Nat) :
    word q (fuel + 1) (q.char :: rest) = ([], 0, .quote) := by
  rw [word.eq_def]
  dsimp only
  simp only [isBlank_quote, isBreak_quote, Bool.or_self, Bool.false_eq_true, if_false,
    beq_self_eq_true, if_true]
  split
  · rename_i rest'
    exact absurd rfl (h rfl '\'' rfl)
  · rfl

theorem word_gap (q : Quote) {c : Char} (h : isBlank c = true ∨ isBreak c = true) (fuel : Nat)
    (cs : List Char) : word q (fuel + 1) (c :: cs) = ([], 0, .gap) := by
  rw [word.eq_def]
  dsimp only
  rcases h with h | h <;> simp [h]

/-- A word of a body is a piece of it, and what follows is a gap or the closing quote. -/
def SplitsWord (q : Quote) (rest : List Char) (fuel : Nat) (text body : List Char) : Prop :=
  ∃ t₁ t₂ b₁ b₂, text = t₁ ++ t₂ ∧ body = b₁ ++ b₂ ∧ Body q t₂ b₂ ∧ AtGap b₂ ∧
    (∀ x ∈ b₁, isBreak x = false) ∧
    word q fuel (body ++ q.char :: rest) = (t₁, b₁.length, if b₂.isEmpty then .quote else .gap)

/-- A piece of one character lengthens a word. -/
theorem SplitsWord.append {q : Quote} {rest text body : List Char} {x : Char} {fuel : Nat}
    (h : SplitsWord q rest fuel text body) (piece : List Char) (hline : ∀ y ∈ piece, isBreak y = false)
    (hword : ∀ cs, word q (fuel + 1) (piece ++ cs) =
      (x :: (word q fuel cs).1, (word q fuel cs).2.1 + piece.length, (word q fuel cs).2.2)) :
    SplitsWord q rest (fuel + 1) (x :: text) (piece ++ body) := by
  obtain ⟨t₁, t₂, b₁, b₂, rfl, rfl, hb, hgap, hb₁, hrest⟩ := h
  refine ⟨x :: t₁, t₂, piece ++ b₁, b₂, rfl, (List.append_assoc ..).symm, hb, hgap,
    List.forall_mem_append.2 ⟨hline, hb₁⟩, ?_⟩
  rw [List.append_assoc, hword, hrest, List.length_append, Nat.add_comm]

/-- A gap ends a word. -/
theorem splitsWord_gap {q : Quote} {rest text cs : List Char} {x : Char} (hbody : Body q text (x :: cs))
    (hx : isBlank x = true ∨ isBreak x = true) (fuel : Nat) :
    SplitsWord q rest (fuel + 1) text (x :: cs) := by
  refine ⟨[], text, [], x :: cs, rfl, rfl, hbody, ?_, by simp, word_gap q hx fuel _⟩
  intro y hy
  obtain rfl : x = y := by simpa using hy
  exact hx

theorem Body.splitsWord {q : Quote} {text body rest : List Char} (h : Body q text body)
    (hrest : Closes q rest) : ∀ fuel, body.length < fuel → SplitsWord q rest fuel text body := by
  induction h with
  | nil =>
    intro fuel hfuel
    obtain ⟨fuel, rfl⟩ : ∃ n, fuel = n + 1 := ⟨fuel - 1, by omega⟩
    exact ⟨[], [], [], [], rfl, rfl, .nil, by simp [AtGap], by simp, by
      simpa using word_close hrest fuel⟩
  | @char c text body hblank hbreak hquote hescape hbody ih =>
    intro fuel hfuel
    obtain ⟨fuel, rfl⟩ : ∃ n, fuel = n + 1 := ⟨fuel - 1, by omega⟩
    exact (ih fuel (Nat.lt_of_succ_lt_succ hfuel)).append [c] (by simpa using hbreak)
      (word_char hblank hbreak hquote hescape fuel)
  | @quote text body hq hbody ih =>
    subst hq
    intro fuel hfuel
    obtain ⟨fuel, rfl⟩ : ∃ n, fuel = n + 1 := ⟨fuel - 1, by omega⟩
    exact (ih fuel (by simp at hfuel; omega)).append ['\'', '\'']
      (List.all_iff_forall_prop.1 (by decide)) (word_quotes fuel)
  | @escape e x text body hq he hbody ih =>
    subst hq
    intro fuel hfuel
    obtain ⟨fuel, rfl⟩ : ∃ n, fuel = n + 1 := ⟨fuel - 1, by omega⟩
    exact (ih fuel (by simp at hfuel; omega)).append ('\\' :: e)
      (List.forall_mem_cons.2 ⟨by decide, he.line⟩) (word_escape he fuel)
  | @blank c text body hc hnext hbody _ =>
    intro fuel hfuel
    obtain ⟨fuel, rfl⟩ : ∃ n, fuel = n + 1 := ⟨fuel - 1, by omega⟩
    exact splitsWord_gap (.blank hc hnext hbody) (.inl hc) fuel
  | @breaks x later text body n hx hlater hend hn hbody _ =>
    intro fuel hfuel
    obtain ⟨fuel, rfl⟩ : ∃ n, fuel = n + 1 := ⟨fuel - 1, by omega⟩
    have hbreak : isBreak x = true := isBreak_of_isOwnBreak (by simp [isOwnBreak, hx])
    exact splitsWord_gap (.breaks n hx hlater hend hn hbody) (.inr hbreak) fuel

/-! ## Gaps -/

/-- The blanks at the start of a body. -/
theorem Body.split_blanks {q : Quote} {text body : List Char} (h : Body q text body)
    (hline : ∀ x ∈ body.head?, isBreak x = false) :
    ∃ s t b, text = s ++ t ∧ body = s ++ b ∧ (∀ x ∈ s, isBlank x = true) ∧ Gap.EndsAt b ∧
      Body q t b := by
  have hstop : ∀ {c : Char} {t b : List Char}, isBlank c = false → isBreak c = false →
      Body q t (c :: b) → ∃ s t' b', t = s ++ t' ∧ c :: b = s ++ b' ∧
        (∀ x ∈ s, isBlank x = true) ∧ Gap.EndsAt b' ∧ Body q t' b' :=
    fun {c t b} hblank hbreak hb =>
      ⟨[], t, c :: b, rfl, rfl, by simp, Gap.endsAt_cons hblank hbreak, hb⟩
  induction h with
  | nil => exact ⟨[], [], [], rfl, rfl, by simp, Gap.endsAt_nil, .nil⟩
  | char hblank hbreak hquote hescape hbody _ =>
    exact hstop hblank hbreak (.char hblank hbreak hquote hescape hbody)
  | quote hq hbody _ => exact hstop (by decide) (by decide) (.quote hq hbody)
  | escape hq he hbody _ => exact hstop (by decide) (by decide) (.escape hq he hbody)
  | @blank c text body hc hnext hbody ih =>
    obtain ⟨s, t, b, rfl, rfl, hs, hend, hb⟩ := ih hnext
    exact ⟨c :: s, t, b, rfl, rfl, List.forall_mem_cons.2 ⟨hc, hs⟩, hend, hb⟩
  | @breaks x later text body n hx hlater hend hn hbody _ =>
    have hbreak : isBreak x = true := isBreak_of_isOwnBreak (by simp [isOwnBreak, hx])
    simp [hbreak] at hline

/-- A gap of a body is a piece of it and stands for a piece of the text. -/
def SplitsGap (q : Quote) (start fuel : Nat) (c : Cursor) (text body : List Char) : Prop :=
  ∃ g t₁ t₂ b₁ b₂, text = t₁ ++ t₂ ∧ body = b₁ ++ b₂ ∧ b₁ ≠ [] ∧ Body q t₂ b₂ ∧
    ((c.along b₁).column ≠ 0 ∨ startsMarker b₂ = false) ∧ g.fold = t₁ ∧
    Gap.read start none fuel {} c = .ok (g, c.along b₁)

theorem endsAt_append_quote (q : Quote) {body : List Char} (h : Gap.EndsAt body) (rest : List Char) :
    Gap.EndsAt (body ++ q.char :: rest) := by
  cases body with
  | nil => exact Gap.endsAt_cons (isBlank_quote q) (isBreak_quote q)
  | cons x body => exact fun y hy => h y (by simpa using hy)

/-- Blanks stand for themselves. -/
theorem splitsGap_blanks {q : Quote} {text body blanks rest : List Char} (hbody : Body q text body)
    (hend : Gap.EndsAt body) (hne : blanks ≠ []) (hblanks : ∀ x ∈ blanks, isBlank x = true)
    (start : Nat) {fuel : Nat} {c : Cursor} (hc : c.rest = blanks ++ (body ++ q.char :: rest))
    (hfuel : blanks.length ≤ fuel) : SplitsGap q start fuel c (blanks ++ text) (blanks ++ body) := by
  have hread := Gap.read_blanks start none hblanks (endsAt_append_quote q hend rest) fuel [] c hc hfuel
  refine ⟨{ blanks := blanks }, blanks, text, blanks, body, rfl, rfl, hne, hbody, .inl ?_, rfl, hread⟩
  have hpos := List.length_pos_iff.2 hne
  rw [Cursor.column_along,
    Cursor.columnAfter_of_no_break fun y hy => isBreak_of_isBlank (hblanks y hy)]
  omega

theorem filter_separators {later : List Char} (hlater : ∀ y ∈ later, isSeparator y = true) (n : Nat) :
    (later ++ List.replicate n ' ').filter (· != ' ') = later := by
  rw [List.filter_append, List.filter_eq_self.2, List.filter_eq_nil_iff.2, List.append_nil]
  · intro y hy
    simp [List.eq_of_mem_replicate hy]
  · intro y hy
    rw [bne_iff_ne]
    rintro rfl
    exact absurd (hlater ' ' hy) (by decide)

/-- Separators stand for themselves, and the indentation behind them for nothing. -/
theorem splitsGap_breaks {q : Quote} {x : Char} {later text body rest : List Char} {n : Nat}
    (hx : isSeparator x = true) (hlater : ∀ y ∈ later, isSeparator y = true)
    (hend : Gap.EndsAt body) (hn : n ≠ 0 ∨ startsMarker body = false) (hbody : Body q text body)
    (start : Nat) {fuel : Nat} {c : Cursor}
    (hc : c.rest = x :: (later ++ (List.replicate n ' ' ++ body)) ++ q.char :: rest)
    (hfuel : (x :: (later ++ (List.replicate n ' ' ++ body))).length ≤ fuel) :
    SplitsGap q start fuel c (x :: (later ++ text))
      (x :: (later ++ (List.replicate n ' ' ++ body))) := by
  have hown : isOwnBreak x = true := by simp [isOwnBreak, hx]
  have hbetween : ∀ y ∈ later ++ List.replicate n ' ', y = ' ' ∨ isOwnBreak y = true := by
    intro y hy
    rcases List.mem_append.1 hy with hy | hy
    · exact .inr (by simp [isOwnBreak, hlater y hy])
    · exact .inl (List.eq_of_mem_replicate hy)
  have hread := Gap.read_break start none _ hown hbetween (endsAt_append_quote q hend rest) fuel
    (c := c) (by rw [hc]; simp) (by simp at hfuel ⊢; omega)
  have hfeed : [x] ≠ ['\n'] := by
    rintro h
    obtain rfl : x = '\n' := by simpa using h
    exact absurd hx (by decide)
  refine ⟨_, x :: later, text, x :: (later ++ List.replicate n ' '), body, by simp, by simp,
    by simp, hbody, ?_, ?_, hread⟩
  · rcases hn with hn | hmarker
    · left
      rw [Cursor.column_along, ← List.cons_append, Cursor.columnAfter_append,
        Cursor.columnAfter_of_no_break Cursor.not_break_of_mem_spaces, List.length_replicate]
      omega
    · exact .inr hmarker
  · simp [Gap.fold, hfeed, filter_separators hlater]

theorem not_atGap_cons {x : Char} {body : List Char} (hblank : isBlank x = false)
    (hbreak : isBreak x = false) : ¬ AtGap (x :: body) := by
  intro hat
  rcases hat x rfl with h | h
  · rw [hblank] at h
    cases h
  · rw [hbreak] at h
    cases h

theorem Body.splitsGap {q : Quote} {text body rest : List Char} (h : Body q text body)
    (hne : body ≠ []) (hgap : AtGap body) (start fuel : Nat) {c : Cursor}
    (hc : c.rest = body ++ q.char :: rest) (hfuel : body.length ≤ fuel) :
    SplitsGap q start fuel c text body := by
  cases h with
  | nil => exact absurd rfl hne
  | char hblank hbreak _ _ _ => exact absurd hgap (not_atGap_cons hblank hbreak)
  | quote _ _ => exact absurd hgap (not_atGap_cons (by decide) (by decide))
  | escape _ _ _ => exact absurd hgap (not_atGap_cons (by decide) (by decide))
  | @blank x text body hx hnext hbody =>
    obtain ⟨s, t, b, rfl, rfl, hs, hend, hb⟩ := hbody.split_blanks hnext
    exact splitsGap_blanks hb hend (List.cons_ne_nil x s) (List.forall_mem_cons.2 ⟨hx, hs⟩) start
      (by simpa using hc) (by simp at hfuel ⊢; omega)
  | breaks n hx hlater hend hn hbody => exact splitsGap_breaks hx hlater hend hn hbody start hc hfuel

/-! ## Scalars -/

/-- A marker inside quotes is a part of the body, as the closing quote is neither a part of it nor
    a gap behind it. -/
theorem atMarker_body {q : Quote} {body rest : List Char} {c : Cursor}
    (hc : c.rest = body ++ q.char :: rest) (hbody : startsMarker body = false) {x : Char}
    (hx : x = '-' ∨ x = '.') : c.atMarker x = false := by
  have hquote : (q.char == x) = false := by
    rcases hx with rfl | rfl <;> cases q <;> decide
  rw [Cursor.atMarker, hc, Bool.and_eq_false_iff]
  right
  -- the quote is among the first three characters, the fourth, or further on
  rcases body with _ | ⟨a, _ | ⟨b, _ | ⟨d, _ | ⟨y, body⟩⟩⟩⟩
  · rcases rest with _ | ⟨_, _ | ⟨_, _⟩⟩ <;> simp [hquote]
  · rcases rest with _ | ⟨_, _⟩ <;> simp [hquote]
  · simp [hquote]
  · simp [atGap]
  · have hsign : x = a → (a == '-' || a == '.') = true := by
      rintro rfl
      rcases hx with rfl | rfl <;> decide
    simp only [List.cons_append, atGap]
    by_cases ha : a = x
    · rw [startsMarker, hsign ha.symm, Bool.true_and, ha] at hbody
      simpa [ha] using hbody
    · simp [ha]

/-- No marker stands inside quotes that are written here. -/
theorem atDocumentMarker_body {q : Quote} {body rest : List Char} {c : Cursor}
    (hc : c.rest = body ++ q.char :: rest)
    (hcolumn : c.column ≠ 0 ∨ startsMarker body = false) : c.atDocumentMarker = false := by
  rcases hcolumn with h | hbody
  · exact Cursor.atDocumentMarker_of_column h
  · rw [Cursor.atDocumentMarker, atMarker_body hc hbody (.inl rfl),
      atMarker_body hc hbody (.inr rfl)]
    rfl

/-- Reading words and gaps to the closing quote gives the text of a body. -/
theorem Body.readWords_eq {q : Quote} {rest : List Char} (hrest : Closes q rest) (start : Nat) :
    ∀ (n : Nat) {text body : List Char}, body.length ≤ n → Body q text body →
      ∀ (fuel : Nat) (sofar : List (List Char)) (c : Cursor), c.Counted →
        c.rest = body ++ q.char :: rest → body.length < fuel →
        (c.column ≠ 0 ∨ startsMarker body = false) →
          readWords q start fuel sofar c =
            .ok (sofar.reverse.flatten ++ text, c.along (body ++ [q.char])) := by
  -- Every gap is at least one character, so the body gets shorter.
  intro n
  induction n with
  | zero =>
    intro text body hn h fuel sofar c hcount hc hfuel hcolumn
    obtain rfl : body = [] := List.length_eq_zero_iff.1 (by omega)
    obtain ⟨fuel, rfl⟩ : ∃ n, fuel = n + 1 := ⟨fuel - 1, by omega⟩
    obtain rfl : text = [] := by cases h; rfl
    have hleft : ∃ m, c.left = m + 1 := ⟨rest.length, by rw [hcount, hc]; simp⟩
    obtain ⟨m, hm⟩ := hleft
    have hskip : c.skip 1 = c.along [q.char] :=
      Cursor.skip_one_eq_along hc (isBreak_quote q)
    rw [readWords, atDocumentMarker_body hc hcolumn, hc, hm, List.nil_append, word_close hrest]
    simp [hskip]
  | succ n ih =>
    intro text body hn h fuel sofar c hcount hc hfuel hcolumn
    obtain ⟨fuel, rfl⟩ : ∃ n, fuel = n + 1 := ⟨fuel - 1, by omega⟩
    have hleft : body.length < c.left := by rw [hcount, hc]; simp
    obtain ⟨t₁, t₂, b₁, b₂, rfl, rfl, hb, hgap, hline, hword⟩ := h.splitsWord hrest c.left hleft
    have hnonempty : ((b₁ ++ b₂ ++ q.char :: rest).isEmpty) = false := by simp
    have hc' : c.rest = b₁ ++ (b₂ ++ q.char :: rest) := by rw [hc, List.append_assoc]
    have hskip : c.skip b₁.length = c.along b₁ := Cursor.skip_eq_along hc' hline
    have hrest₁ : (c.along b₁).rest = b₂ ++ q.char :: rest := Cursor.rest_along hc'
    rw [readWords, atDocumentMarker_body hc hcolumn, hc, hword]
    simp only [Bool.false_eq_true, if_false, hnonempty, hskip]
    by_cases hempty : b₂ = []
    · subst hempty
      obtain rfl : t₂ = [] := by cases hb; rfl
      have hlast : (c.along b₁).skip 1 = c.along (b₁ ++ [q.char]) := by
        rw [Cursor.along_append]
        exact Cursor.skip_one_eq_along hrest₁ (isBreak_quote q)
      simp [hlast]
    · have hisEmpty : b₂.isEmpty = false := by simpa using hempty
      have hcount₁ := hcount.along b₁
      have hfuel₁ : b₂.length ≤ (c.along b₁).left := by rw [hcount₁, hrest₁]; simp
      obtain ⟨g, t₃, t₄, b₃, b₄, rfl, rfl, hne, hb₄, hcolumn₄, hfold, hread⟩ :=
        hb.splitsGap hempty hgap start _ hrest₁ hfuel₁
      have hpos : 0 < b₃.length := List.length_pos_iff.2 hne
      have hrest₃ : ((c.along b₁).along b₃).rest = b₄ ++ q.char :: rest :=
        Cursor.rest_along (by rw [hrest₁, List.append_assoc])
      have hnext := ih (by simp at hn; omega) hb₄ fuel (g.fold :: t₁ :: sofar)
        ((c.along b₁).along b₃) (hcount₁.along b₃) hrest₃ (by simp at hfuel; omega) hcolumn₄
      simp only [hisEmpty, Bool.false_eq_true, if_false, hread]
      refine hnext.trans ?_
      simp [hfold, Cursor.along_append]

/-- Reading a scalar between quotes gives the text of its body. -/
theorem Body.read_eq {q : Quote} {text body rest : List Char} (h : Body q text body)
    (hrest : Closes q rest) {c : Cursor} (hcount : c.Counted)
    (hc : c.rest = q.char :: (body ++ q.char :: rest)) :
    read q c = .ok (text, c.along (q.char :: (body ++ [q.char]))) := by
  have hskip : c.skip 1 = c.along [q.char] := Cursor.skip_one_eq_along hc (isBreak_quote q)
  have hrest₁ : (c.along [q.char]).rest = body ++ q.char :: rest :=
    Cursor.rest_along_one hc
  have hcolumn : (c.along [q.char]).column ≠ 0 := by
    rw [Cursor.column_along, Cursor.columnAfter_of_no_break (by simp)]
    simp
  rw [read, hskip, h.readWords_eq hrest c.line body.length Nat.le.refl (c.left + 1) []
    _ (hcount.along _) hrest₁ (by rw [hcount, hc]; simp; omega) (.inl hcolumn)]
  rfl

end StackIr.Yaml.Quoted
