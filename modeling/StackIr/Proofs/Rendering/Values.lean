import StackIr.Proofs.Rendering.Scalars

/-! # Reading scalars and keys in block style

    A value stands behind a key or a dash, and what follows it starts a line in the column of
    a block around it, which decides how many blocks end there.  `AtValue` says what is known
    where a value starts, `Next` where an entry or item starts, and `Leads` that reading goes
    on from the one to the other.  Scalars of all styles lead to what follows them, and keys
    lead to their values. -/

namespace StackIr.Json

open Yaml Yaml.Scanner

/-! ## Between values -/

/-- What follows a value: a token in a column of a later line. -/
structure Tail where
  column : Nat
  text : List Char
  start : TokenStart text

def Tail.whole (tail : Tail) : List Char :=
  List.replicate tail.column ' ' ++ tail.text

/-- The next token starts a line, in a column. -/
structure Next (s : Scanner) (text : List Char) (kinds : List TokenKind) (stack : List Int)
    (column : Nat) : Prop where
  before : Before s text kinds stack 0
  free : s.Free
  column : s.settle.column = column
  allowed : s.settle.keyAllowed = true
  /-- A token that could be a key is on a line before. -/
  stale : ∀ k ∈ s.settle.level.key, k.mark.line < s.settle.line

/-- A value starts in a column to the right of its block, behind a token that is no key. -/
structure AtValue (s : Scanner) (text : List Char) (kinds : List TokenKind) (parent : Nat)
    (outer : List Int) (column : Nat) : Prop where
  before : Before s text kinds (parent :: outer) 0
  deeper : parent < column
  column : s.settle.column = column
  key : s.level.key = none

/-- Reading goes on to the next token, before which some blocks end. -/
def Leads (s : Scanner) (tail : Tail) (kinds : List TokenKind) (stack : List Int) : Prop :=
  ∃ s', Runs s s' ∧ Next s' tail.text (kinds ++ List.replicate (pops tail.column stack) .blockEnd)
    (stack.drop (pops tail.column stack)) tail.column

section

variable {s : Scanner} {kinds : List TokenKind} {stack outer : List Int} {parent column : Nat}
  {text cs : List Char} {tail : Tail}

theorem AtValue.free (h : AtValue s text kinds parent outer column) : s.Free := by
  obtain ⟨_, _, _, hcalm, _⟩ := h.before.calm
  intro l hl k hk
  have houter : s.outerLevels = [] := List.length_eq_zero_iff.1 hcalm.depth
  obtain rfl : l = s.level := by simpa [houter] using hl
  rw [h.key] at hk
  cases hk

theorem AtValue.loose (h : AtValue s text kinds parent outer column) : s.settle.Loose := by
  have hindent : s.settle.indent = parent := (List.cons.inj h.before.settled.stack).1
  have hdeeper := h.deeper
  refine .inr (.inr ?_)
  rw [hindent, h.column]
  omega

/-- If the value is remembered as a possible key, then with its start. -/
theorem AtValue.mark (h : AtValue s text kinds parent outer column) :
    ∀ k ∈ s.settle.keySaved.level.key, k.mark = s.settle.cursor.mark :=
  mark_of_keySaved (by rw [h.before.level, h.key])

/-- A block may start where a value starts. -/
theorem AtValue.next (h : AtValue s text kinds parent outer column)
    (hallowed : s.settle.keyAllowed = true) : Next s text kinds (parent :: outer) column := by
  refine ⟨h.before, h.free, h.column, hallowed, ?_⟩
  intro k hk
  rw [h.before.level, h.key] at hk
  cases hk

/-- Where the next token starts after a gap. -/
theorem next_of_calm {gap next : List Char} {m : Nat} (h : Calm s (gap ++ next) kinds stack 0)
    (hgap : IsGap gap) (hstart : TokenStart next) (hcolumn : Cursor.columnAfter s.column gap = m)
    (hallowed : (s.keyAllowed || gap.contains '\n') = true) (hfree : s.Free)
    (hstale : ∀ k ∈ s.level.key, k.mark.line < (s.cursor.along gap).line) :
    Next s next (kinds ++ List.replicate (pops m stack) .blockEnd) (stack.drop (pops m stack)) m := by
  obtain ⟨hbefore, hkeys, hcursor, hcolumn'⟩ := h.before_block hgap hstart hcolumn rfl
  refine ⟨hbefore, hfree, hcolumn', hkeys.trans hallowed, ?_⟩
  intro k hk
  rw [hbefore.level] at hk
  rw [Scanner.line, hcursor]
  exact hstale k hk

theorem Leads.of_runs {s' : Scanner} (hruns : Runs s s') (h : Leads s' tail kinds stack) :
    Leads s tail kinds stack := by
  obtain ⟨t, hruns', hnext⟩ := h
  exact ⟨t, hruns.trans hruns', hnext⟩

/-- No block ends before a token in the column of the innermost one. -/
theorem Leads.next {i : Int} (h : Leads s tail kinds (i :: outer)) (hcolumn : i ≤ tail.column) :
    ∃ s', Runs s s' ∧ Next s' tail.text kinds (i :: outer) tail.column := by
  obtain ⟨s', hruns, hnext⟩ := h
  rw [pops_eq_zero hcolumn, List.replicate_zero, List.append_nil, List.drop_zero] at hnext
  exact ⟨s', hruns, hnext⟩

/-- A token that takes the line break and the indentation behind it. -/
theorem leads_of_start {s₁ : Scanner} (hruns : Runs s s₁) (h : Calm s₁ tail.text kinds stack 0)
    (hfree : s₁.Free) (hcolumn : s₁.column = tail.column) (hallowed : s₁.keyAllowed = true)
    (hstale : ∀ k ∈ s₁.level.key, k.mark.line < s₁.cursor.line) : Leads s tail kinds stack := by
  have h' : Calm s₁ ([] ++ tail.text) kinds stack 0 := h
  exact ⟨s₁, hruns, next_of_calm h' isGap_nil tail.start hcolumn (by simp [hallowed]) hfree hstale⟩

/-- A token before a line break. -/
theorem leads_of_line {s₁ : Scanner} {tok : List Char} (hruns : Runs s s₁)
    (h : Calm s₁ ('\n' :: tail.whole) kinds stack 0) (hfree : s₁.Free)
    (hcursor : s₁.cursor = s.settle.cursor.along tok)
    (hmark : ∀ k ∈ s₁.level.key, k.mark = s.settle.cursor.mark) : Leads s tail kinds stack := by
  have h' : Calm s₁ (('\n' :: List.replicate tail.column ' ') ++ tail.text) kinds stack 0 := h
  refine ⟨s₁, hruns, next_of_calm h' (isGap_line _) tail.start (Cursor.columnAfter_newline _ _)
    (by simp) hfree ?_⟩
  intro k hk
  rw [hmark k hk, hcursor, ← Cursor.along_append]
  exact Cursor.line_lt_along _ _ _

/-! ## Scalars -/

/-- A scalar between quotes. -/
theorem run_quoted {q : Quoted.Quote} {body : List Char}
    (h : AtValue s (q.char :: (body ++ q.char :: '\n' :: tail.whole)) kinds parent outer column)
    (hbody : Quoted.Body q cs body) :
    Leads s tail (kinds ++ [.scalar (String.ofList cs) (quotedStyle q)]) (parent :: outer) := by
  have hsettled := h.before.settled
  have hfree := h.before.free h.free
  have htoken := readToken_quoted hsettled hfree hbody
    (by intro _ x hx; simp at hx; simp [← hx]) (noRemark_newline _)
  have hcalm : Calm s.settle ((q.char :: (body ++ [q.char])) ++ '\n' :: tail.whole) kinds
      (parent :: outer) 0 := by simpa using hsettled
  have hafter := hcalm.afterScalar (.scalar (String.ofList cs) (quotedStyle q)) false
  exact leads_of_line (h.before.runs htoken hafter (by simp; omega)) hafter.release
    (hfree.afterScalar h.loose _ _ _).release rfl h.mark

/-- A text that may be written plain starts like a plain scalar. -/
theorem plainStart_of_plainAllowed {c : Char} {rest : List Char}
    (h : Presentation.plainAllowed (c :: cs) = true) : PlainStart false c (cs ++ rest) := by
  have hinline := Plain.inline_of_plainAllowed h
  simp only [Presentation.plainAllowed, Bool.and_eq_true, Bool.not_eq_true', bne_iff_ne] at h
  obtain ⟨⟨⟨⟨_, hspecial⟩, _⟩, hspace⟩, _⟩ := h
  obtain ⟨hbreak, htab⟩ := hinline c (by simp)
  refine ⟨by simp [isBlank, hspace, htab], hbreak, ?_⟩
  simp only [Presentation.startsSpecially, Bool.or_eq_false_iff, Bool.and_eq_false_iff] at hspecial
  obtain ⟨hsigns, hbefore⟩ := hspecial
  by_cases hindicator : isIndicator c = false
  · exact .inl hindicator
  · -- a dash, a question mark or a colon, which does not stand before a blank
    have hc : c = '-' ∨ c = '?' ∨ c = ':' := by
      simp only [isIndicator, hsigns, Bool.or_false, Bool.not_eq_false, Bool.or_eq_true,
        beq_iff_eq] at hindicator
      rcases hindicator with (hc | hc) | hc
      · exact .inl hc
      · exact .inr (.inl hc)
      · exact .inr (.inr hc)
    have hgap : atGap (cs ++ rest) = false := by
      cases cs with
      | nil => rcases hc with rfl | rfl | rfl <;> simp [Presentation.beforeBlank] at hbefore
      | cons d cs =>
        have hblank : isBlank d = false := by
          rcases hc with rfl | rfl | rfl <;> simpa [Presentation.beforeBlank] using hbefore
        simp [atGap, hblank, (hinline d (by simp)).1]
    rcases hc with rfl | hc
    · exact .inr (.inl ⟨rfl, hgap⟩)
    · exact .inr (.inr ⟨rfl, hc, hgap⟩)

theorem ne_directive_of_plainAllowed {c : Char} (h : Presentation.plainAllowed (c :: cs) = true) :
    c ≠ '%' := by
  rintro rfl
  simp [Presentation.plainAllowed, Presentation.startsSpecially] at h

/-- The token of a plain scalar and of the gap behind it. -/
theorem readToken_plain {passed rest : List Char} {broken : Bool}
    (h : Calm s (cs ++ passed ++ rest) kinds stack 0) (hfree : s.Free) (hne : cs ≠ [])
    (hplain : Presentation.plainAllowed cs = true) (hends : Plain.Ends (passed ++ rest))
    (hstop : Plain.Stop false (s.indent + 1).toNat (passed ++ rest) passed broken)
    (hmarker : s.cursor.atDocumentMarker = false) (hcolumn : s.indent ≤ s.column)
    (hremark : NoRemark rest) :
    s.readToken =
      .ok (s.afterScalar (.scalar (String.ofList cs) .plain) (cs ++ passed) broken) := by
  have hflow : s.inFlow = false := by simp [h.inFlow]
  have hwords : Plain.Words s.inFlow (passed ++ rest) cs := by
    rw [hflow]
    exact Plain.words_of_plainAllowed hplain hne hends
  have hafter := h.afterScalar (.scalar (String.ofList cs) .plain) broken
  rw [List.append_assoc] at h
  obtain ⟨c, cs, rfl⟩ := List.exists_cons_of_ne_nil hne
  have hstart : PlainStart s.inFlow c (cs ++ (passed ++ rest)) := by
    rw [hflow]
    exact plainStart_of_plainAllowed hplain
  exact readToken_eq h.rest (ne_directive_of_plainAllowed hplain) hmarker
    (readContent_plain h hfree hstart hwords (by rw [hflow]; exact hstop) hmarker hcolumn)
    (by rw [hafter.rest]; exact hremark)

/-- A plain scalar, which takes the line break behind it and the indentation. -/
theorem run_plain (h : AtValue s (cs ++ '\n' :: tail.whole) kinds parent outer column)
    (htail : tail.column ≤ parent) (hne : cs ≠ []) (hplain : Presentation.plainAllowed cs = true) :
    Leads s tail (kinds ++ [.scalar (String.ofList cs) .plain]) (parent :: outer) := by
  have hsettled := h.before.settled
  have hfree := h.before.free h.free
  have hdeeper := h.deeper
  have hindent : s.settle.indent = parent := (List.cons.inj hsettled.stack).1
  have hcolumn : s.settle.cursor.column = column := h.column
  have hmarker : s.settle.cursor.atDocumentMarker = false :=
    Cursor.atDocumentMarker_of_column (by omega)
  have hcalm : Calm s.settle ((cs ++ '\n' :: List.replicate tail.column ' ') ++ tail.text) kinds
      (parent :: outer) 0 := by simpa [Tail.whole] using hsettled
  have htoken := readToken_plain hcalm hfree hne hplain rfl
    (.line rfl (by omega) tail.start.ends) hmarker (by rw [hindent, h.column]; omega)
    tail.start.noRemark
  have hafter := hcalm.afterScalar (.scalar (String.ofList cs) .plain) true
  refine leads_of_start (h.before.runs htoken hafter (by simp [Tail.whole]; omega)) hafter.release
    (hfree.afterScalar h.loose _ _ _).release ?_ rfl ?_
  · show (s.settle.cursor.along _).column = tail.column
    rw [Cursor.column_along, Cursor.columnAfter_append, Cursor.columnAfter_newline]
  · intro k hk
    rw [h.mark k hk]
    exact Cursor.line_lt_along _ _ _

/-- A literal block, which takes all its lines and the indentation behind them. -/
theorem run_literal {core breaks body : List Char} {ending : Char} {leading : Bool}
    {chomping : Block.Chomping}
    (h : AtValue s (Block.headerText leading chomping ++ (List.replicate (parent + 2) ' ' ++
      (body ++ tail.whole))) kinds parent outer column)
    (htail : tail.column ≤ parent) (hlines : Block.Lines (parent + 2) core ending breaks body)
    (hleading : leading = false → ∀ x ∈ body.head?, isBlank x = false) :
    Leads s tail (kinds ++ [.scalar (String.ofList (core ++ chomping.kept ending breaks)) .literal])
      (parent :: outer) := by
  have hsettled := h.before.settled
  have hflow : s.settle.inFlow = false := by simp [hsettled.inFlow]
  obtain ⟨t, hread, hcalm, hfree, hallowed, hkey, hcursor⟩ := hsettled.readBlockScalar
    (h.before.free h.free) hlines hleading (by omega) tail.start.ends
  obtain ⟨rest, hrest, hcontent⟩ : ∃ rest, s.settle.cursor.rest = '|' :: rest ∧
      s.settle.readContent '|' rest = .ok t := by
    refine ⟨_, hsettled.rest, ?_⟩
    rw [← hread]
    simp [readContent, hflow]
  have htoken := readToken_eq hrest (by decide) (atDocumentMarker_of_head hrest (by decide) (by decide))
    hcontent (by rw [hcalm.rest]; exact tail.start.noRemark)
  refine leads_of_start (h.before.runs htoken hcalm (by simp [Block.headerText, Tail.whole]; omega))
    hcalm.release hfree.release ?_ hallowed ?_
  · show t.cursor.column = tail.column
    rw [hcursor, Cursor.column_along, ← List.append_assoc, ← List.append_assoc, List.append_assoc,
      Cursor.columnAfter_append, hlines.columnAfter_eq]
  · intro k hk
    rw [show t.release.level.key = none from hkey] at hk
    cases hk

/-- The text of a string in any of its styles. -/
theorem run_text {str : String} {style : ScalarStyle}
    (h : AtValue s (scalarLine (parent + 2) style str.toList ++ tail.whole) kinds parent outer column)
    (htail : tail.column ≤ parent) (hlegible : legibleText str = true)
    (hstyle : HasStyle str.toList false style) :
    Leads s tail (kinds ++ [.scalar str style]) (parent :: outer) := by
  obtain ⟨cs, hcs⟩ : ∃ cs, cs = str.toList := ⟨_, rfl⟩
  obtain rfl : String.ofList cs = str := by rw [hcs, String.ofList_toList]
  rw [← hcs] at h hstyle
  cases hstyle with
  | plain hne hplain =>
    have h' : AtValue s (cs ++ '\n' :: tail.whole) kinds parent outer column := by
      simpa [scalarLine, scalarText, lineEnd] using h
    exact run_plain h' htail hne hplain
  | singleQuoted hsingle hnewline _ =>
    have hbody : Quoted.Body .single cs (folded (parent + 2) quoteChar false cs) :=
      body_single (by omega) _ _ (Nat.le_refl _) (single_of_allowed hsingle hnewline)
    have h' : AtValue s ('\'' :: (folded (parent + 2) quoteChar false cs ++ '\'' :: '\n' :: tail.whole))
        kinds parent outer column := by
      simpa [scalarLine, scalarText, lineEnd] using h
    exact run_quoted h' hbody
  | doubleQuoted =>
    have h' : AtValue s ('"' :: (Presentation.doubleQuoted cs ++ '"' :: '\n' :: tail.whole)) kinds
        parent outer column := by
      simpa [scalarLine, scalarText, lineEnd] using h
    exact run_quoted h' (Quoted.body_doubleQuoted _)
  | literal _ hnewline hblock =>
    rw [hcs] at h hnewline hblock
    obtain ⟨leading, chomping, core, ending, breaks, body, hline, hlines, htext, hleading⟩ :=
      literal_line hlegible hnewline hblock (parent + 2)
    rw [hline, List.append_assoc, List.append_assoc] at h
    rw [hcs, ← htext]
    exact run_literal h htail hlines hleading

/-- An empty array or object. -/
theorem run_empty {c c' : Char} {kind kind' : TokenKind} (hc : Opening c kind) (hc' : Closing c' kind')
    (h : AtValue s (c :: c' :: '\n' :: tail.whole) kinds parent outer column) :
    Leads s tail (kinds ++ [kind, kind']) (parent :: outer) := by
  have hsettled := h.before.settled
  have hbreak : isBreak c = false := by cases hc <;> decide
  have hbreak' : isBreak c' = false := by cases hc' <;> decide
  have hstart : TokenStart (c' :: '\n' :: tail.whole) := (hc'.closes _).tokenStart
  -- the opening bracket
  obtain ⟨t, hopen, hcalm, hfree, _, hlevels, hcursor⟩ :=
    hsettled.openFlow (h.before.free h.free) h.loose (by decide) hbreak kind
  have hcontent : s.settle.readContent c (c' :: '\n' :: tail.whole) = .ok t := by
    cases hc <;> exact hopen
  have htoken := readToken_eq hsettled.rest hc.ne_sign.1
    (atDocumentMarker_of_head hsettled.rest hc.ne_sign.2.1 hc.ne_sign.2.2) hcontent
    (by rw [hcalm.rest]; exact hstart.noRemark)
  have hruns := h.before.runs htoken hcalm (by simp)
  -- the closing bracket, which keeps the place of the opening one as that of a possible key
  have hbefore := hcalm.release.before_self hstart (.inl (Nat.succ_pos _))
  have hself := hcalm.release.settle_eq_self hstart (.inl (Nat.succ_pos _))
  obtain ⟨u, hclose, hcalm', hfree', _, hcursor', hmark⟩ :=
    hcalm.release.closeFlow hfree.release hbreak' kind'
  have hcontent' : t.release.readContent c' ('\n' :: tail.whole) = .ok u := by
    cases hc' <;> exact hclose
  have htoken' := readToken_eq hcalm.release.rest hc'.ne_sign.1
    (atDocumentMarker_of_head hcalm.release.rest hc'.ne_sign.2.1 hc'.ne_sign.2.2) hcontent'
    (by rw [hcalm'.rest]; exact noRemark_newline _)
  rw [← hself] at htoken'
  have hruns' := hruns.trans (hbefore.runs htoken' hcalm' (by simp))
  have hcursors : u.release.cursor = s.settle.cursor.along [c, c'] := by
    show u.cursor = _
    rw [hcursor', show t.release.cursor = t.cursor from rfl, hcursor, ← Cursor.along_append]
    rfl
  rw [show kinds ++ [kind, kind'] = kinds ++ [kind] ++ [kind'] by simp]
  refine leads_of_line hruns' hcalm'.release hfree'.release hcursors ?_
  intro k hk
  obtain ⟨k', hk', hsame⟩ := hmark _ (by rw [show t.release.outerLevels = _ from hlevels]; rfl) k hk
  exact hsame.trans (h.mark k' hk')

/-! ## Keys -/

/-- A plain text before a colon is no marker. -/
theorem atDocumentMarker_of_plainAllowed {cursor : Cursor} {rest : List Char}
    (hplain : Presentation.plainAllowed cs = true) (hne : cs ≠ [])
    (hrest : cursor.rest = cs ++ ':' :: rest) : cursor.atDocumentMarker = false := by
  have hmarker : Presentation.startsLikeMarker cs = false := by
    obtain ⟨c, cs, rfl⟩ := List.exists_cons_of_ne_nil hne
    simp only [Presentation.plainAllowed, Bool.and_eq_true, Bool.not_eq_true'] at hplain
    exact hplain.1.1.1.1.2
  rw [Cursor.atDocumentMarker, Cursor.atMarker, Cursor.atMarker, hrest]
  rcases cs with _ | ⟨x, _ | ⟨y, _ | ⟨z, cs⟩⟩⟩
  · exact absurd rfl hne
  · cases rest <;> simp
  · simp
  · simp only [Presentation.startsLikeMarker, List.isPrefixOf] at hmarker
    simp only [List.cons_append]
    grind

/-- The token of a key on one line. -/
theorem readToken_key {key : String} {style : ScalarStyle} {rest : List Char} {n : Nat}
    (h : Before s (scalarText n style key.toList ++ ':' :: rest) kinds stack 0) (hfree : s.Free)
    (hn : 0 < n) (hstyle : HasStyle key.toList true style) (hgap : atGap rest = true)
    (hcolumn : s.settle.indent ≤ s.settle.column) :
    s.settle.readToken =
      .ok (s.settle.afterScalar (.scalar key style) (scalarText n style key.toList) false) := by
  have hsettled := h.settled
  have hremark : NoRemark (':' :: rest) :=
    (tokenStart_cons (by decide) (by decide) (by decide)).noRemark
  have hquoted : ∀ {q : Quoted.Quote} {body : List Char}, Quoted.Body q key.toList body →
      scalarText n style key.toList = q.char :: (body ++ [q.char]) → style = quotedStyle q →
      s.settle.readToken =
        .ok (s.settle.afterScalar (.scalar key style) (scalarText n style key.toList) false) := by
    intro q body hbody htext hquote
    have hcalm : Calm s.settle (q.char :: (body ++ q.char :: ':' :: rest)) kinds stack 0 := by
      rw [htext] at hsettled
      simpa using hsettled
    have htoken := readToken_quoted hcalm (h.free hfree) hbody
      (by intro _ x hx; simp at hx; simp [← hx]) hremark
    rwa [← htext, ← hquote, String.ofList_toList] at htoken
  cases hstyle with
  | plain hne hplain =>
    have hcalm : Calm s.settle (key.toList ++ [] ++ ':' :: rest) kinds stack 0 := by
      rw [List.append_nil]
      exact hsettled
    have htoken := readToken_plain hcalm (h.free hfree) hne hplain
      (by simp [Plain.Ends, Plain.word, hgap]) (.here rfl)
      (atDocumentMarker_of_plainAllowed hplain hne hsettled.rest) hcolumn hremark
    rwa [String.ofList_toList, List.append_nil] at htoken
  | singleQuoted hsingle hnewline _ =>
    exact hquoted (body_single hn _ _ (Nat.le_refl _) (single_of_allowed hsingle hnewline)) rfl rfl
  | doubleQuoted => exact hquoted (Quoted.body_doubleQuoted _) rfl rfl
  | literal hsimple => cases hsimple

/-- The text of a scalar starts a token. -/
theorem HasStyle.tokenStart {simpleKey : Bool} {style : ScalarStyle} {n : Nat} {rest : List Char}
    (h : HasStyle cs simpleKey style) : TokenStart (scalarText n style cs ++ rest) := by
  cases h with
  | plain hne hplain =>
    obtain ⟨c, cs, rfl⟩ := List.exists_cons_of_ne_nil hne
    obtain ⟨hblank, hbreak, _⟩ : PlainStart false c (cs ++ rest) := plainStart_of_plainAllowed hplain
    refine tokenStart_cons hblank hbreak ?_
    rintro rfl
    simp [Presentation.plainAllowed, Presentation.startsSpecially] at hplain
  | singleQuoted _ _ _ => exact tokenStart_cons (by decide) (by decide) (by decide)
  | doubleQuoted => exact tokenStart_cons (by decide) (by decide) (by decide)
  | literal _ _ _ => exact tokenStart_cons (by decide) (by decide) (by decide)

/-! ## Signs -/

variable {rest : List Int} {opened : List TokenKind} {level : Nat}

theorem atDocumentMarker_of_space {c : Char} {cursor : Cursor} (h : cursor.rest = c :: ' ' :: text) :
    cursor.atDocumentMarker = false := by
  rw [Cursor.atDocumentMarker, Cursor.atMarker, Cursor.atMarker, h]
  cases text <;> simp

/-- A sign at the start of a line and the space behind it. -/
theorem run_sign {c : Char} {added : List TokenKind} {t : Scanner}
    (h : Next s (c :: ' ' :: text) kinds stack (2 * level)) (hstart : TokenStart text)
    (hc : isBreak c = false) (hdirective : c ≠ '%')
    (hread : s.settle.readContent c (' ' :: text) = .ok t)
    (hcalm : Calm t (' ' :: text) (kinds ++ added) ((2 * level : Nat) :: rest) 0)
    (hallowed : t.keyAllowed = true) (hkey : t.level.key = none)
    (hcursor : t.cursor = s.settle.cursor.along [c]) :
    ∃ s', Runs s s' ∧ AtValue s' text (kinds ++ added) (2 * level) rest (2 * (level + 1)) ∧
      s'.settle.keyAllowed = true := by
  have hsettled := h.before.settled
  have htoken := readToken_eq hsettled.rest hdirective (atDocumentMarker_of_space hsettled.rest) hread
    (by rw [hcalm.rest]; exact noRemark_space hstart.noRemark)
  have hcolumn : t.release.column = 2 * level + 1 := by
    show t.cursor.column = _
    rw [hcursor, Cursor.column_along, Cursor.columnAfter_of_no_break (by simpa using hc)]
    rw [show s.settle.cursor.column = 2 * level from h.column]
    rfl
  have hspace : Calm t.release ([' '] ++ text) (kinds ++ added) ((2 * level : Nat) :: rest) 0 :=
    hcalm.release
  have hpops : pops (2 * (level + 1) : Nat) (((2 * level : Nat) : Int) :: rest) = 0 :=
    pops_eq_zero (by omega)
  obtain ⟨hbefore, hkeys, _, hcolumn'⟩ := hspace.before_block (isGap_spaces 1) hstart
    (by rw [hcolumn]; rfl) hpops
  rw [List.replicate_zero, List.append_nil, List.drop_zero] at hbefore
  refine ⟨t.release, h.before.runs htoken hcalm (by simp), ⟨hbefore, by omega, hcolumn', hkey⟩, ?_⟩
  rw [hkeys, show t.release.keyAllowed = true from hallowed]
  rfl

theorem run_dash (h : Next s ('-' :: ' ' :: text) kinds stack (2 * level)) (hstart : TokenStart text)
    (hopens : Opens (2 * level) .blockSequenceStart stack 0 opened ((2 * level : Nat) :: rest)) :
    ∃ s', Runs s s' ∧
      AtValue s' text (kinds ++ (opened ++ [.blockEntry])) (2 * level) rest (2 * (level + 1)) ∧
      s'.settle.keyAllowed = true := by
  obtain ⟨t, hread, hcalm, _, hallowed, hkey, hcursor⟩ := h.before.settled.readBlockEntry
    (h.before.free h.free) h.allowed (by rw [h.column]; exact hopens)
  exact run_sign h hstart (by decide) (by decide) hread hcalm hallowed hkey hcursor

/-- A block opens or goes on in its own column. -/
theorem indent_le_of_opens {kind : TokenKind} {m : Nat} (h : Calm s text kinds stack 0)
    (hopens : Opens m kind stack 0 opened ((m : Int) :: rest)) : s.indent ≤ m := by
  have hstack := h.stack
  cases hopens with
  | flow hdepth => exact absurd hdepth (Nat.lt_irrefl 0)
  | same _ => exact le_of_eq (List.cons.inj hstack).1
  | new hcolumn _ =>
    rw [(List.cons.inj hstack).1]
    omega

/-- A key on one line, its colon, and the gap before its value. -/
theorem run_simpleKey {key : String} {style : ScalarStyle} {n : Nat} {opens : Bool}
    (h : Next s (scalarText n style key.toList ++
      ':' :: ((if opens then '\n' :: indentation (level + 1) else [' ']) ++ text)) kinds stack
      (2 * level))
    (hn : 0 < n) (hstyle : HasStyle key.toList true style) (hsize : key.utf8ByteSize ≤ 128)
    (hstart : TokenStart text)
    (hopens : Opens (2 * level) .blockMappingStart stack 0 opened ((2 * level : Nat) :: rest)) :
    ∃ s' column, Runs s s' ∧
      AtValue s' text (kinds ++ (opened ++ [.key, .scalar key style, .value])) (2 * level) rest column ∧
      (opens = true → column = 2 * (level + 1) ∧ s'.settle.keyAllowed = true) := by
  have hkey := isKeyText_scalarText hstyle hsize n
  have hindent := indent_le_of_opens h.before.settled hopens
  have hcolumn : s.settle.indent ≤ s.settle.column := by rw [h.column]; exact hindent
  have hgap : IsGap (if opens then '\n' :: indentation (level + 1) else [' ']) := by
    cases opens
    · exact isGap_spaces 1
    · exact isGap_line _
  have htoken := readToken_key h.before h.free hn hstyle (by cases opens <;> rfl) hcolumn
  obtain ⟨t, hruns, hcalm, _, hnone, hcursor⟩ := h.before.key_value [] h.free h.allowed htoken
    hkey.nonempty hkey.line nofun hkey.length hcolumn (by rw [h.column]; exact hopens)
    (.inr (by cases opens <;> rfl)) (by
      cases opens
      · exact noRemark_space hstart.noRemark
      · exact noRemark_newline _)
  have hcolumn' : 2 * level < t.column := by
    show _ < t.cursor.column
    have hline : ∀ x ∈ scalarText n style key.toList ++ [':'], isBreak x = false :=
      List.forall_mem_append.2 ⟨hkey.line, List.all_iff_forall_prop.1 (by decide)⟩
    rw [hcursor, List.nil_append, Cursor.column_along, Cursor.columnAfter_of_no_break hline,
      show s.settle.cursor.column = 2 * level from h.column]
    simp
  have hdeeper : 2 * level < Cursor.columnAfter t.column
      (if opens then '\n' :: indentation (level + 1) else [' ']) := by
    cases opens
    · exact Nat.lt_succ_of_lt hcolumn'
    · rw [if_pos rfl, indentation, Cursor.columnAfter_newline]
      omega
  obtain ⟨hbefore, hkeys, _, hcolumn''⟩ := hcalm.before_block hgap hstart rfl
    (pops_eq_zero (by omega))
  rw [List.replicate_zero, List.append_nil, List.drop_zero] at hbefore
  refine ⟨t, _, hruns, ⟨hbefore, hdeeper, hcolumn'', hnone⟩, ?_⟩
  rintro rfl
  refine ⟨Cursor.columnAfter_newline _ _, ?_⟩
  rw [hkeys]
  simp

/-- A key on lines of its own, between a question mark and a colon. -/
theorem run_complexKey {key : String} {style : ScalarStyle}
    (h : Next s ('?' :: ' ' :: (scalarLine (2 * (level + 1)) style key.toList ++
      (indentation level ++ ':' :: ' ' :: text))) kinds stack (2 * level))
    (hlegible : legibleText key = true) (hstyle : HasStyle key.toList false style)
    (hstart : TokenStart text)
    (hopens : Opens (2 * level) .blockMappingStart stack 0 opened ((2 * level : Nat) :: rest)) :
    ∃ s', Runs s s' ∧
      AtValue s' text (kinds ++ (opened ++ [.key, .scalar key style, .value])) (2 * level) rest
        (2 * (level + 1)) ∧
      s'.settle.keyAllowed = true := by
  obtain ⟨t, hread, hcalm, _, hallowed, hkey, hcursor⟩ := h.before.settled.readKey
    (h.before.free h.free) h.allowed (by rw [h.column]; exact hopens)
  have hscalar : TokenStart (scalarLine (2 * (level + 1)) style key.toList ++
      (indentation level ++ ':' :: ' ' :: text)) := by
    rw [scalarLine, List.append_assoc]
    exact hstyle.tokenStart
  obtain ⟨s₁, hruns₁, hvalue, _⟩ := run_sign h hscalar (by decide) (by decide)
    (by rw [← hread]; simp [readContent, atGap, isBlank]) hcalm hallowed hkey hcursor
  -- the key leads to the colon, in the same column as the question mark.
  have hcolon : TokenStart (':' :: ' ' :: text) := tokenStart_cons (by decide) (by decide) (by decide)
  have hleads : Leads s₁ ⟨2 * level, ':' :: ' ' :: text, hcolon⟩ _ _ :=
    run_text hvalue (Nat.le_refl _) hlegible hstyle
  obtain ⟨s₂, hruns₂, hnext⟩ := hleads.next (Int.le_refl _)
  have hstale : ∀ k ∈ s₂.settle.level.key, s₂.settle.inReach k = false := by
    intro k hk
    have hline := hnext.stale k hk
    simp [inReach]
    omega
  have hsame : Opens s₂.settle.column .blockMappingStart (((2 * level : Nat) : Int) :: rest) 0 []
      (((2 * level : Nat) : Int) :: rest) := by
    rw [hnext.column]
    exact .same (Int.le_refl _)
  obtain ⟨u, hread', hcalm', _, hallowed', hkey', hcursor'⟩ := hnext.before.settled.readValue_line
    (hnext.before.free hnext.free) hnext.allowed hstale hsame
  obtain ⟨s₃, hruns₃, hvalue', hallowed₃⟩ := run_sign hnext hstart (by decide) (by decide)
    (by rw [← hread']; simp [readContent, atGap, isBlank]) hcalm' hallowed' hkey' hcursor'
  refine ⟨s₃, hruns₁.trans (hruns₂.trans hruns₃), ?_, hallowed₃⟩
  simpa using hvalue'

end

end StackIr.Json
