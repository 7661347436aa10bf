import StackIr.Proofs.Yaml.Cursor
import StackIr.Proofs.Yaml.Gap
import StackIr.Proofs.Yaml.Queue
import StackIr.Yaml.Token.Scanner

/-! # Steps of reading

    A step passes over a gap, closes the blocks that end there and reads a token.  `Calm` says
    what is known of a scanner between two steps while no comment is read: the text that is
    left, the tokens so far, the columns of the open blocks and the depth of brackets.  Each
    kind of token has a lemma that says what reading it does to these, and `Runs` puts steps
    together. -/

namespace StackIr.Yaml.Scanner

/-! ## What is known between steps -/

/-- A scanner that has found nothing wrong and no comment. -/
structure Calm (s : Scanner) (rest : List Char) (kinds : List TokenKind) (stack : List Int)
    (depth : Nat) : Prop where
  fault : s.fault = none
  marked : s.marked = false
  unfinished : s.finished = false
  counted : s.cursor.Counted
  clean : s.queue.Clean
  rest : s.cursor.rest = rest
  kinds : s.queue.kinds = kinds
  stack : s.indent :: s.outerIndents = stack
  depth : s.outerLevels.length = depth

/-- No token that was read has to be a key. -/
def Free (s : Scanner) : Prop :=
  ∀ l ∈ s.level :: s.outerLevels, ∀ k ∈ l.key, k.required = false

/-- The next token does not have to be a key. -/
def Loose (s : Scanner) : Prop :=
  s.inFlow = true ∨ s.keyAllowed = false ∨ s.indent ≠ s.column

/-- What a token starts with: no gap and no comment. -/
structure TokenStart (text : List Char) : Prop where
  ends : Gap.EndsAt text
  unmarked : text.head? ≠ some '#'

/-- Spaces and line breaks. -/
def IsGap (gap : List Char) : Prop :=
  ∀ x ∈ gap, x = ' ' ∨ x = '\n'

theorem isGap_nil : IsGap [] := by
  simp [IsGap]

theorem isGap_spaces (n : Nat) : IsGap (List.replicate n ' ') :=
  fun _ hx => .inl (List.eq_of_mem_replicate hx)

theorem isGap_line (n : Nat) : IsGap ('\n' :: List.replicate n ' ') := by
  intro x hx
  rcases List.mem_cons.1 hx with rfl | hx
  · exact .inr rfl
  · exact isGap_spaces n x hx

theorem tokenStart_nil : TokenStart [] :=
  ⟨Gap.endsAt_nil, by simp⟩

theorem tokenStart_cons {x : Char} {text : List Char} (hblank : isBlank x = false)
    (hbreak : isBreak x = false) (hsign : x ≠ '#') : TokenStart (x :: text) :=
  ⟨Gap.endsAt_cons hblank hbreak, by simpa using hsign⟩

variable {s : Scanner} {rest gap text : List Char} {kinds : List TokenKind} {stack : List Int}
  {depth : Nat}

theorem Calm.inFlow (h : Calm s rest kinds stack depth) : s.inFlow = decide (0 < depth) := by
  rw [← h.depth, Scanner.inFlow]
  cases s.outerLevels <;> simp

/-! ## Gaps -/

/-- Whether whitespace is passed over.  Tabs are only if `tabs` holds, and on later lines only
    if `flow` does. -/
def isPassable (flow : Bool) : (tabs : Bool) → List Char → Bool
  | _, [] => true
  | tabs, x :: cs =>
    if x == ' ' then isPassable flow tabs cs
    else if x == '\t' then tabs && isPassable flow tabs cs
    else (x == '\n' || x == '\r') && isPassable flow flow cs

/-- Whitespace that is passed over here. -/
def Passes (s : Scanner) (gap : List Char) : Prop :=
  isPassable s.inFlow (s.inFlow || !s.keyAllowed) gap = true

theorem isPassable_cons {flow tabs : Bool} {x : Char} {gap : List Char}
    (h : isPassable flow tabs (x :: gap) = true) :
    ((x = ' ' ∨ (x = '\t' ∧ tabs = true)) ∧ isPassable flow tabs gap = true) ∨
      ((x = '\n' ∨ x = '\r') ∧ isPassable flow flow gap = true) := by
  rw [isPassable] at h
  split_ifs at h with hspace htab
  · exact .inl ⟨.inl (by simpa using hspace), h⟩
  · obtain ⟨htabs, h⟩ := Bool.and_eq_true_iff.1 h
    exact .inl ⟨.inr ⟨by simpa using htab, htabs⟩, h⟩
  · obtain ⟨hbreak, h⟩ := Bool.and_eq_true_iff.1 h
    exact .inr ⟨by simpa using hbreak, h⟩

theorem isPassable_of_suffix {flow : Bool} {later gap : List Char} (h : later <:+ gap)
    (hgap : isPassable flow flow gap = true) : isPassable flow flow later = true := by
  induction gap with
  | nil => rwa [List.suffix_nil.1 h]
  | cons x gap ih =>
    rcases List.suffix_cons_iff.1 h with rfl | h
    · exact hgap
    · apply ih h
      rcases isPassable_cons hgap with ⟨_, hgap⟩ | ⟨_, hgap⟩ <;> exact hgap

/-- After a break a key may start, and tabs are passed over only inside brackets. -/
theorem passes_nextLine {flow : Bool} (allowed : Bool) {gap : List Char}
    (h : isPassable flow flow gap = true) :
    isPassable flow (flow || !(allowed || !flow)) gap = true := by
  cases flow <;> simpa using h

theorem isPassable_of_isGap {flow : Bool} (tabs : Bool) {gap : List Char} (h : IsGap gap) :
    isPassable flow tabs gap = true := by
  induction gap generalizing tabs with
  | nil => rfl
  | cons x gap ih =>
    obtain ⟨hx, hgap⟩ := List.forall_mem_cons.1 h
    rcases hx with rfl | rfl
    · exact ih tabs hgap
    · exact ih flow hgap

theorem isPassable_of_isBlank {flow : Bool} {blanks : List Char}
    (h : ∀ x ∈ blanks, isBlank x = true) : isPassable flow true blanks = true := by
  induction blanks with
  | nil => rfl
  | cons x blanks ih =>
    obtain ⟨hx, hblanks⟩ := List.forall_mem_cons.1 h
    have hx' : x = ' ' ∨ x = '\t' := by simpa [isBlank] using hx
    rcases hx' with rfl | rfl <;> exact ih hblanks

theorem IsGap.passes {gap : List Char} (h : IsGap gap) (s : Scanner) : s.Passes gap :=
  isPassable_of_isGap _ h

theorem IsGap.past_eq {gap : List Char} (h : IsGap gap) (c : Cursor) : c.past gap = c.along gap := by
  apply Cursor.past_eq_along
  intro hmem
  rcases h _ hmem with heq | heq <;> exact absurd heq (by decide)

theorem IsGap.any_isBreak {gap : List Char} (h : IsGap gap) :
    gap.any isBreak = gap.contains '\n' := by
  induction gap with
  | nil => rfl
  | cons x gap ih =>
    obtain ⟨hx, hgap⟩ := List.forall_mem_cons.1 h
    rw [List.any_cons, List.contains_cons, ih hgap]
    rcases hx with rfl | rfl <;> rfl

/-- The first line of whitespace, and a break before what follows it. -/
theorem split_passable {flow tabs : Bool} {gap : List Char} (h : isPassable flow tabs gap = true) :
    ∃ blanks after, gap = blanks ++ after ∧ (∀ x ∈ blanks, x = ' ' ∨ (x = '\t' ∧ tabs = true)) ∧
      (after = [] ∨ ∃ b later, after = b :: later ∧ (b = '\n' ∨ b = '\r') ∧
        isPassable flow flow later = true) := by
  induction gap with
  | nil => exact ⟨[], [], rfl, by simp, .inl rfl⟩
  | cons x gap ih =>
    rcases isPassable_cons h with ⟨hx, hgap⟩ | ⟨hx, hgap⟩
    · obtain ⟨blanks, after, rfl, hblanks, hafter⟩ := ih hgap
      exact ⟨x :: blanks, after, rfl, List.forall_mem_cons.2 ⟨hx, hblanks⟩, hafter⟩
    · exact ⟨[], x :: gap, rfl, by simp, .inr ⟨x, gap, rfl, hx, hgap⟩⟩

/-- One round of passing over whitespace: blanks, and the break behind them. -/
theorem toNextToken_succ {s : Scanner} {blanks after : List Char} (hmarked : s.marked = false)
    (hrest : s.cursor.rest = blanks ++ after)
    (hblanks : ∀ x ∈ blanks, x = ' ' ∨ (x = '\t' ∧ (s.inFlow || !s.keyAllowed) = true))
    (hend : ∀ x ∈ after.head?, isBlank x = false) (hsign : after.head? ≠ some '#') (mark : Mark)
    (fuel : Nat) :
    s.toNextToken mark (fuel + 1) =
      if after.head?.any isBreak then
        toNextToken mark fuel
          { s with
            cursor := (s.cursor.along blanks).skipBreak
            keyAllowed := s.keyAllowed || !s.inFlow }
      else { s with cursor := s.cursor.along blanks } := by
  have hline : ∀ x ∈ blanks, isBreak x = false := by
    intro x hx
    rcases hblanks x hx with rfl | ⟨rfl, _⟩ <;> rfl
  have hskip : (s.cursor.skipWhile fun x => x == ' ' || ((s.inFlow || !s.keyAllowed) && x == '\t')) =
      s.cursor.along blanks := by
    refine Cursor.skipWhile_eq_along hrest ?_ ?_ hline
    · intro x hx
      rcases hblanks x hx with rfl | ⟨rfl, htabs⟩
      · rfl
      · rw [htabs]
        rfl
    · intro x hx
      have hx' := hend x hx
      simp only [isBlank, Bool.or_eq_false_iff] at hx'
      simp [hx'.1, hx'.2]
  have hnext : (s.cursor.along blanks).rest = after := Cursor.rest_along hrest
  have hcomment : (s.cursor.along blanks).isAt '#' = false := by
    simpa [Cursor.isAt, hnext] using hsign
  rw [toNextToken]
  simp only [hmarked, Bool.false_and, Bool.false_eq_true, if_false, hskip, hcomment, Cursor.peek?,
    hnext]
  rfl

/-- Passing over whitespace without comments. -/
theorem toNextToken_eq (mark : Mark) :
    ∀ (fuel : Nat) (s : Scanner) (gap text : List Char), s.marked = false →
      s.cursor.rest = gap ++ text → s.Passes gap → TokenStart text → gap.length < fuel →
        s.toNextToken mark fuel =
          { s with
            cursor := s.cursor.past gap
            keyAllowed := s.keyAllowed || (gap.any isBreak && !s.inFlow) } := by
  intro fuel
  induction fuel with
  | zero => intro s gap text _ _ _ _ hfuel; omega
  | succ fuel ih =>
    intro s gap text hmarked hrest hgap hstart hfuel
    obtain ⟨blanks, after, rfl, hblanks, hafter⟩ := split_passable hgap
    rw [List.append_assoc] at hrest
    have hblank : ∀ x ∈ blanks, isBlank x = true := by
      intro x hx
      rcases hblanks x hx with rfl | ⟨rfl, _⟩ <;> rfl
    have hreturn : '\r' ∉ blanks := fun hmem => absurd (hblank '\r' hmem) (by decide)
    have hany : blanks.any isBreak = false := by
      simpa using fun x hx => isBreak_of_isBlank (hblank x hx)
    rw [Cursor.past_append hreturn, List.any_append, hany, Bool.false_or]
    rcases hafter with rfl | ⟨b, later, rfl, hb, hlater⟩
    · -- the token starts on this line
      have hbreak : text.head?.any isBreak = false := by
        cases htext : text.head? with
        | none => rfl
        | some x => simpa using (hstart.ends x htext).2
      rw [toNextToken_succ hmarked hrest hblanks (fun x hx => (hstart.ends x hx).1) hstart.unmarked,
        List.nil_append, hbreak]
      simp
    · -- on the next line a key may start, unless brackets are open
      have hisBreak : isBreak b = true := by
        rcases hb with rfl | rfl <;> rfl
      have hsigns : isBlank b = false ∧ b ≠ '#' := by
        rcases hb with rfl | rfl <;> decide
      have htext : text.head? ≠ some '\n' := by
        intro hhead
        exact absurd (hstart.ends '\n' hhead).2 (by decide)
      obtain ⟨later', hsuffix, hrest', hover⟩ :=
        Cursor.past_break (Cursor.rest_along hrest) hb htext
      have htail := ih
        { s with
          cursor := (s.cursor.along blanks).skipBreak
          keyAllowed := s.keyAllowed || !s.inFlow }
        later' text hmarked hrest'
        (passes_nextLine s.keyAllowed (isPassable_of_suffix hsuffix hlater)) hstart
        (by have := hsuffix.length_le; simp at hfuel; omega)
      rw [toNextToken_succ hmarked hrest hblanks (by simpa using hsigns.1) (by simpa using hsigns.2),
        List.cons_append, List.head?_cons, Option.any_some, if_pos hisBreak, htail, hover]
      simp only [Scanner.inFlow, List.any_cons, hisBreak, Bool.true_or, Bool.true_and]
      congr 1
      cases s.keyAllowed <;> cases s.outerLevels.isEmpty <;> simp

/-! ## Closing blocks -/

/-- The number of blocks that end before a column. -/
def pops (column : Int) : List Int → Nat
  | i :: outer :: rest => if column < i then pops column (outer :: rest) + 1 else 0
  | _ => 0

theorem unroll_eq (column : Int) :
    ∀ (outer : List Int) (mark : Mark) (s : Scanner), s.outerIndents = outer → s.queue.Clean →
      ∃ q i rest, q.Clean ∧
        q.kinds = s.queue.kinds ++ List.replicate (pops column (s.indent :: outer)) .blockEnd ∧
        (s.indent :: outer).drop (pops column (s.indent :: outer)) = i :: rest ∧
        unroll column outer mark s = { s with queue := q, indent := i, outerIndents := rest } := by
  intro outer
  induction outer with
  | nil =>
    intro mark s hs hq
    exact ⟨s.queue, s.indent, [], hq, by simp [pops], by simp [pops], by
      rw [unroll, ← hs]⟩
  | cons i outer ih =>
    intro mark s hs hq
    -- the innermost block ends, and the ones around it are asked in turn
    by_cases hcolumn : column < s.indent
    · have hmark : blockEnd s.indent s.queue.comments.reverse mark.index mark = mark := by
        rw [hq.comments]
        rfl
      obtain ⟨q, j, rest, hclean, hkinds, hdrop, hunroll⟩ := ih mark
        { s.push mark .blockEnd with indent := i, outerIndents := outer } rfl (hq.push mark .blockEnd)
      refine ⟨q, j, rest, hclean, ?_, ?_, ?_⟩
      · rw [hkinds, pops, if_pos hcolumn, List.replicate_succ]
        simp [push]
      · rw [pops, if_pos hcolumn]
        exact hdrop
      · rw [unroll, if_pos hcolumn, hmark, hunroll]
        rfl
    · refine ⟨s.queue, s.indent, i :: outer, hq, ?_, ?_, ?_⟩
      · simp [pops, hcolumn]
      · simp [pops, hcolumn]
      · rw [unroll, if_neg hcolumn, ← hs]

/-- What closing blocks does, outside brackets. -/
theorem Calm.closeBlocks (h : Calm s rest kinds stack 0) (column : Int) (mark : Mark) :
    Calm (s.closeBlocks column mark) rest
        (kinds ++ List.replicate (pops column stack) .blockEnd) (stack.drop (pops column stack)) 0 ∧
      ∃ q i r, s.closeBlocks column mark = { s with queue := q, indent := i, outerIndents := r } := by
  have hflow : s.inFlow = false := by simp [h.inFlow]
  obtain ⟨q, i, r, hclean, hkinds, hdrop, hunroll⟩ := unroll_eq column s.outerIndents
    { mark with index := mark.index - 1 } s rfl h.clean
  have heq : s.closeBlocks column mark = { s with queue := q, indent := i, outerIndents := r } := by
    rw [Scanner.closeBlocks, hflow]
    exact hunroll
  rw [h.stack] at hkinds hdrop
  rw [h.kinds] at hkinds
  refine ⟨?_, q, i, r, heq⟩
  rw [heq]
  exact { h with clean := hclean, kinds := hkinds, stack := hdrop.symm }

theorem Calm.closeBlocks_eq_self (h : Calm s rest kinds stack depth) {column : Int}
    (hpops : 0 < depth ∨ pops column stack = 0) (mark : Mark) : s.closeBlocks column mark = s := by
  rw [Scanner.closeBlocks]
  rcases hpops with hdepth | hpops
  · rw [if_pos (by simp [h.inFlow, hdepth])]
  · split
    · rfl
    · rw [← h.stack] at hpops
      cases houter : s.outerIndents with
      | nil => rw [unroll]
      | cons i outer =>
        have hcolumn : ¬ column < s.indent := by
          intro hlt
          rw [houter, pops, if_pos hlt] at hpops
          omega
        rw [unroll, if_neg hcolumn]

/-! ## Before a token -/

/-- The scanner where the next token starts. -/
def settle (s : Scanner) : Scanner :=
  let t := s.toNextToken s.cursor.mark (s.cursor.left + 1)
  t.closeBlocks t.column s.cursor.mark

/-- The next token starts with `text`, after a gap. -/
structure Before (s : Scanner) (text : List Char) (kinds : List TokenKind) (stack : List Int)
    (depth : Nat) : Prop where
  calm : ∃ gap kinds' stack', Calm s (gap ++ text) kinds' stack' depth ∧ s.Passes gap
  start : TokenStart text
  settled : Calm s.settle text kinds stack depth
  level : s.settle.level = s.level
  outerLevels : s.settle.outerLevels = s.outerLevels

theorem Before.free (h : Before s text kinds stack depth) (hfree : s.Free) : s.settle.Free := by
  rw [Free, h.level, h.outerLevels]
  exact hfree

/-- Passing over whitespace where a token follows. -/
theorem Calm.toNextToken (h : Calm s (gap ++ text) kinds stack depth)
    (hgap : s.Passes gap) (hstart : TokenStart text) :
    s.toNextToken s.cursor.mark (s.cursor.left + 1) =
        { s with
          cursor := s.cursor.past gap
          keyAllowed := s.keyAllowed || (gap.any isBreak && !s.inFlow) } ∧
      Calm (s.toNextToken s.cursor.mark (s.cursor.left + 1)) text kinds stack depth := by
  have hnext := toNextToken_eq s.cursor.mark (s.cursor.left + 1) s gap text h.marked h.rest hgap hstart
    (by rw [h.counted, h.rest]; simp only [List.length_append]; omega)
  refine ⟨hnext, ?_⟩
  rw [hnext]
  exact { h with counted := h.counted.past gap, rest := Cursor.rest_past h.rest }

/-- Passing over whitespace where no block ends. -/
theorem Calm.before_gap (h : Calm s (gap ++ text) kinds stack depth)
    (hgap : s.Passes gap) (hstart : TokenStart text)
    (hpops : 0 < depth ∨ pops (s.cursor.past gap).column stack = 0) :
    Before s text kinds stack depth ∧
      s.settle =
        { s with
          cursor := s.cursor.past gap
          keyAllowed := s.keyAllowed || (gap.any isBreak && !s.inFlow) } := by
  obtain ⟨hnext, hcalm⟩ := h.toNextToken hgap hstart
  have hsettle : s.settle = s.toNextToken s.cursor.mark (s.cursor.left + 1) := by
    refine hcalm.closeBlocks_eq_self (hpops.imp_right ?_) _
    intro hpops
    rw [hnext]
    exact hpops
  refine ⟨⟨⟨gap, kinds, stack, h, hgap⟩, hstart, ?_, ?_, ?_⟩, hsettle.trans hnext⟩
  · rw [hsettle]
    exact hcalm
  · rw [hsettle, hnext]
  · rw [hsettle, hnext]

/-- Passing over a gap outside brackets.  Blocks that end there are closed, and after a line
    break a key may start. -/
theorem Calm.before_block (h : Calm s (gap ++ text) kinds stack 0) (hgap : IsGap gap)
    (hstart : TokenStart text) {column p : Nat}
    (hcolumn : Cursor.columnAfter s.column gap = column) (hp : pops column stack = p) :
    Before s text (kinds ++ List.replicate p .blockEnd) (stack.drop p) 0 ∧
      s.settle.keyAllowed = (s.keyAllowed || gap.contains '\n') ∧
      s.settle.cursor = s.cursor.along gap ∧ s.settle.column = column := by
  have hflow : s.inFlow = false := by simp [h.inFlow]
  obtain ⟨hnext, hcalm⟩ := h.toNextToken (hgap.passes s) hstart
  rw [hgap.past_eq, hgap.any_isBreak] at hnext
  have hcolumn' : (s.toNextToken s.cursor.mark (s.cursor.left + 1)).column = column := by
    rw [hnext]
    exact (Cursor.column_along _ _).trans hcolumn
  obtain ⟨hclosed, q, i, r, heq⟩ := hcalm.closeBlocks
    (s.toNextToken s.cursor.mark (s.cursor.left + 1)).column s.cursor.mark
  have hsettle : s.settle = (s.toNextToken s.cursor.mark (s.cursor.left + 1)).closeBlocks
      (s.toNextToken s.cursor.mark (s.cursor.left + 1)).column s.cursor.mark := rfl
  rw [← hsettle, hcolumn', hp] at hclosed
  rw [← hsettle, hnext] at heq
  refine ⟨⟨⟨gap, kinds, stack, h, hgap.passes s⟩, hstart, hclosed, by rw [heq], by rw [heq]⟩, ?_,
    by rw [heq], ?_⟩
  · rw [heq]
    simp [hflow]
  · rw [heq]
    exact (Cursor.column_along _ _).trans hcolumn

/-- Where the next token starts at once and no block ends, nothing changes. -/
theorem Calm.settle_eq_self (h : Calm s text kinds stack depth) (hstart : TokenStart text)
    (hpops : 0 < depth ∨ pops s.column stack = 0) : s.settle = s := by
  have hempty : Calm s ([] ++ text) kinds stack depth := h
  rw [(hempty.before_gap (isGap_nil.passes s) hstart hpops).2]
  simp

theorem Calm.before_self (h : Calm s text kinds stack depth) (hstart : TokenStart text)
    (hpops : 0 < depth ∨ pops s.column stack = 0) : Before s text kinds stack depth := by
  have hempty : Calm s ([] ++ text) kinds stack depth := h
  exact (hempty.before_gap (isGap_nil.passes s) hstart hpops).1

/-- No block ends where the innermost one goes on. -/
theorem pops_eq_zero {column i : Int} {outer : List Int} (h : i ≤ column) :
    pops column (i :: outer) = 0 := by
  cases outer with
  | nil => rfl
  | cons j outer => rw [pops, if_neg (by omega)]

/-! ## Runs -/

/-- Several steps, in each of which tokens are handed out. -/
inductive Runs : Scanner → Scanner → Prop where
  | refl (s : Scanner) : Runs s s
  | step {s s' t : Scanner} : s.finished = false → s.step = .ok s' →
      s'.cursor.left < s.cursor.left → Runs s'.release t → Runs s t

theorem Runs.trans {s t u : Scanner} (h : Runs s t) (h' : Runs t u) : Runs s u := by
  induction h with
  | refl _ => exact h'
  | step hfinished hstep hleft _ ih => exact .step hfinished hstep hleft (ih h')

/-- Every step leaves less of the text, so a run does not depend on the fuel. -/
theorem Runs.run_eq {s t : Scanner} (h : Runs s t) :
    ∀ fuel, s.cursor.left < fuel → ∃ fuel', t.cursor.left < fuel' ∧ run fuel s = run fuel' t := by
  induction h with
  | refl s => exact fun fuel hfuel => ⟨fuel, hfuel, rfl⟩
  | @step s s' t hfinished hstep hleft _ ih =>
    intro fuel hfuel
    obtain ⟨fuel, rfl⟩ : ∃ n, fuel = n + 1 := ⟨fuel - 1, by omega⟩
    obtain ⟨fuel', hfuel', heq⟩ := ih fuel (show s'.cursor.left < fuel by omega)
    refine ⟨fuel', hfuel', ?_⟩
    rw [run, hfinished, hstep]
    exact heq

/-- A step reads the token after the gap. -/
theorem Before.step_settle (h : Before s text kinds stack depth) :
    s.step = s.settle.readToken >>= fun s' => s'.demand 1 >>= fun _ => pure s' := by
  obtain ⟨gap, kinds', stack', hcalm, hgap⟩ := h.calm
  obtain ⟨-, hnext⟩ := hcalm.toNextToken hgap h.start
  have hdemand : (s.toNextToken s.cursor.mark (s.cursor.left + 1)).demand 4 = .ok () := by
    rw [demand, hnext.fault]
  -- the byte order mark was looked for once and not found
  have hmarked : ∀ {t : Scanner} {b : Bool}, t.marked = false →
      ({ t with marked := t.marked && b } : Scanner) = t := by
    intro t b ht
    cases t
    simp_all
  have hsettle : s.settle = (s.toNextToken s.cursor.mark (s.cursor.left + 1)).closeBlocks
      (s.toNextToken s.cursor.mark (s.cursor.left + 1)).column s.cursor.mark := rfl
  rw [hsettle]
  simp only [step, hmarked hnext.marked, hdemand, bind, Except.bind]

theorem Before.step_eq {s' : Scanner} (h : Before s text kinds stack depth)
    (hread : s.settle.readToken = .ok s') (hfault : s'.fault = none) : s.step = .ok s' := by
  have hdemand : s'.demand 1 = .ok () := by
    rw [demand, hfault]
  rw [h.step_settle, hread]
  simp only [bind, Except.bind, hdemand, pure, Except.pure]

theorem Before.step_error {fault : Fault} (h : Before s text kinds stack depth)
    (hread : s.settle.readToken = .error fault) : s.step = .error fault := by
  rw [h.step_settle, hread]
  rfl

end StackIr.Yaml.Scanner
