import StackIr.Proofs.Yaml.Steps
import StackIr.Proofs.Yaml.Literal
import StackIr.Proofs.Yaml.Plain
import StackIr.Proofs.Yaml.Quoted

/-! # Reading tokens

    What reading each kind of token does to a scanner.  A token that may be a key is
    remembered, and the colon behind it puts the `key` token in its place. -/

namespace StackIr.Yaml.Scanner

variable {s t : Scanner} {rest : List Char} {kinds : List TokenKind} {stack : List Int} {depth : Nat}

/-! ## Handing out tokens -/

theorem Calm.release (h : Calm s rest kinds stack depth) : Calm s.release rest kinds stack depth :=
  { h with
    clean := h.clean.release _
    kinds := (h.clean.kinds_release _).trans h.kinds }

theorem Free.release (h : s.Free) : s.release.Free :=
  h

/-- A possible key in reach is kept back. -/
theorem released_release_le {k : PossibleKey} (hclean : s.queue.Clean) (hkey : s.level.key = some k)
    (hwaits : k.waits = true) (hreleased : s.queue.released ≤ k.number)
    (hreach : s.inReach k = true) : s.release.queue.released ≤ k.number := by
  -- the bound only goes down over the levels, and the first one brings it to the key
  have hfold : ∀ (f : Nat → KeyLevel → Nat), (∀ n l, f n l ≤ n) →
      ∀ (ls : List KeyLevel) (n : Nat), ls.foldl f n ≤ n := by
    intro f hf ls
    induction ls with
    | nil => intro n; exact Nat.le_refl n
    | cons l ls ih => intro n; exact Nat.le_trans (ih (f n l)) (hf n l)
  rw [Scanner.release]
  refine hclean.released_release_le ?_ hreleased
  refine Nat.le_trans (hfold _ ?_ _ _) ?_
  · intro n l
    split
    · split <;> omega
    · exact Nat.le_refl n
  · dsimp only
    rw [hkey]
    simp only [hwaits, hreleased, hreach, decide_true, Bool.and_self, if_true]
    omega

/-- Reading the next token is a run of one step. -/
theorem Before.runs {text rest' : List Char} {kinds' : List TokenKind} {stack' : List Int}
    {depth' : Nat} (h : Before s text kinds stack depth) (hread : s.settle.readToken = .ok t)
    (ht : Calm t rest' kinds' stack' depth') (hlength : rest'.length < text.length) :
    Runs s t.release := by
  obtain ⟨gap, _, _, hcalm, _⟩ := h.calm
  refine .step hcalm.unfinished (h.step_eq hread ht.fault) ?_ (.refl _)
  rw [ht.counted, ht.rest, hcalm.counted, hcalm.rest, List.length_append]
  omega

/-! ## Comments and markers -/

/-- No comment stands on the same line behind a token. -/
def NoRemark (cs : List Char) : Prop :=
  (cs.dropWhile isBlank).head? ≠ some '#'

theorem TokenStart.noRemark {text : List Char} (h : TokenStart text) : NoRemark text := by
  cases text with
  | nil => simp [NoRemark]
  | cons x text =>
    have hblank := (h.ends x rfl).1
    simpa [NoRemark, hblank] using h.unmarked

theorem noRemark_space {cs : List Char} (h : NoRemark cs) : NoRemark (' ' :: cs) :=
  h

theorem noRemark_newline (cs : List Char) : NoRemark ('\n' :: cs) := by
  simp [NoRemark, isBlank]

theorem takeLineComment_eq (h : NoRemark s.cursor.rest) (since : Nat) :
    s.takeLineComment since = s := by
  have hdrop : s.cursor.rest.drop (s.cursor.rest.takeWhile isBlank).length =
      s.cursor.rest.dropWhile isBlank := by
    have hsplit := List.takeWhile_append_dropWhile (p := isBlank) (l := s.cursor.rest)
    have hlength : (s.cursor.rest.takeWhile isBlank ++ s.cursor.rest.dropWhile isBlank).drop
        (s.cursor.rest.takeWhile isBlank).length = s.cursor.rest.dropWhile isBlank := List.drop_left
    rwa [hsplit] at hlength
  have hsign : (s.cursor.skip (s.cursor.rest.takeWhile isBlank).length).isAt '#' = false := by
    have hhead : (s.cursor.rest.dropWhile isBlank).head? ≠ some '#' := h
    simpa [Cursor.isAt, Cursor.skip, hdrop] using hhead
  rw [takeLineComment]
  simp [Cursor.takeComment, hsign]

/-- A token that is no directive and no marker is a token of the content. -/
theorem readToken_content {c : Char} (hrest : t.cursor.rest = c :: rest) (hdirective : c ≠ '%')
    (hmarker : t.cursor.atDocumentMarker = false) :
    t.readToken = t.readContent c rest >>= fun s =>
      if s.queue.last?.any (·.kind = .blockEntry) then pure s
      else pure (s.takeLineComment (t.commented c)) := by
  simp only [Cursor.atDocumentMarker, Bool.or_eq_false_iff] at hmarker
  rw [readToken, hrest]
  simp only [hdirective, beq_iff_eq, Bool.and_eq_true, and_false, if_false, hmarker.1, hmarker.2,
    Bool.false_eq_true]

theorem readToken_eq {c : Char} (hrest : t.cursor.rest = c :: rest) (hdirective : c ≠ '%')
    (hmarker : t.cursor.atDocumentMarker = false) (hread : t.readContent c rest = .ok s)
    (hremark : NoRemark s.cursor.rest) : t.readToken = .ok s := by
  rw [readToken_content hrest hdirective hmarker, hread]
  simp only [bind, Except.bind, pure, Except.pure]
  rw [takeLineComment_eq hremark, ite_self]

theorem readToken_error {c : Char} {fault : Fault} (hrest : t.cursor.rest = c :: rest)
    (hdirective : c ≠ '%') (hmarker : t.cursor.atDocumentMarker = false)
    (hread : t.readContent c rest = .error fault) : t.readToken = .error fault := by
  rw [readToken_content hrest hdirective hmarker, hread]
  rfl

theorem atDocumentMarker_of_head {c : Char} {cursor : Cursor} (hrest : cursor.rest = c :: rest)
    (hdash : c ≠ '-') (hpoint : c ≠ '.') : cursor.atDocumentMarker = false := by
  simp only [Cursor.atDocumentMarker, Cursor.atMarker, hrest, Bool.or_eq_false_iff,
    Bool.and_eq_false_iff]
  constructor <;> right <;> split <;> simp_all

/-! ## Possible keys -/

theorem dropKey_eq (h : t.Free) : t.dropKey = .ok t.forgetKey := by
  rw [dropKey]
  split
  · rename_i k hk
    rw [h t.level (by simp) k hk, if_neg (by decide)]
  · rename_i hk
    rw [forgetKey, ← hk]

/-- The scanner after it has remembered that the next token may be a key. -/
def keySaved (t : Scanner) : Scanner :=
  if t.keyAllowed then
    { t with
      level :=
        { key := some ⟨!t.inFlow && t.indent == t.column, t.queue.count, t.cursor.mark, true⟩
          last := t.queue.count } }
  else t

theorem saveKey_eq (h : t.Free) : t.saveKey = .ok t.keySaved := by
  rw [saveKey, keySaved]
  split
  · rw [dropKey_eq h]
    rfl
  · rfl

theorem Calm.keySaved (h : Calm t rest kinds stack depth) : Calm t.keySaved rest kinds stack depth := by
  rw [Scanner.keySaved]
  split
  · exact { h with }
  · exact h

@[simp] theorem cursor_keySaved (t : Scanner) : t.keySaved.cursor = t.cursor := by
  rw [Scanner.keySaved]
  split <;> rfl

@[simp] theorem outerLevels_keySaved (t : Scanner) : t.keySaved.outerLevels = t.outerLevels := by
  rw [Scanner.keySaved]
  split <;> rfl

@[simp] theorem indent_keySaved (t : Scanner) : t.keySaved.indent = t.indent := by
  rw [Scanner.keySaved]
  split <;> rfl

@[simp] theorem queue_keySaved (t : Scanner) : t.keySaved.queue = t.queue := by
  rw [Scanner.keySaved]
  split <;> rfl

theorem Free.keySaved (h : t.Free) (hloose : t.Loose) : t.keySaved.Free := by
  rw [Scanner.keySaved]
  split
  · rename_i hallowed
    intro l hl k hk
    rcases List.mem_cons.1 hl with rfl | hl
    · obtain rfl := Option.some.inj hk
      rcases hloose with hflow | hkey | hindent
      · simp [hflow]
      · rw [hkey] at hallowed
        cases hallowed
      · simp [hindent]
    · exact h l (by simp [hl]) k hk
  · exact h

/-- The key that is remembered starts here. -/
theorem mark_of_keySaved (h : t.level.key = none) :
    ∀ k ∈ t.keySaved.level.key, k.mark = t.cursor.mark := by
  intro k hk
  rw [Scanner.keySaved] at hk
  split at hk
  · obtain rfl := Option.some.inj hk
    rfl
  · rw [h] at hk
    cases hk

theorem Free.forgetKey (h : t.Free) : t.forgetKey.Free := by
  intro l hl k hk
  rcases List.mem_cons.1 hl with rfl | hl
  · cases hk
  · exact h l (List.mem_cons_of_mem _ hl) k hk

theorem Calm.forgetKey (h : Calm t rest kinds stack depth) : Calm t.forgetKey rest kinds stack depth :=
  { h with }

/-! ## Brackets and commas -/

theorem Calm.pushChar {c : Char} (h : Calm t (c :: rest) kinds stack depth)
    (hc : isBreak c = false) (kind : TokenKind) :
    Calm (t.pushChar kind) rest (kinds ++ [kind]) stack depth ∧
      (t.pushChar kind).cursor = t.cursor.along [c] := by
  have hskip : t.cursor.skip 1 = t.cursor.along [c] := Cursor.skip_one_eq_along h.rest hc
  have hcursor : (t.pushChar kind).cursor = t.cursor.along [c] := hskip
  refine ⟨{ h with counted := ?_, clean := h.clean.push _ _, rest := ?_, kinds := ?_ }, hcursor⟩
  · rw [hcursor]
    exact h.counted.along [c]
  · rw [hcursor]
    exact Cursor.rest_along_one h.rest
  · rw [← h.kinds]
    exact TokenQueue.kinds_push _ _

theorem Calm.openFlow {c : Char} (h : Calm t (c :: rest) kinds stack depth) (hfree : t.Free)
    (hloose : t.Loose) (hdepth : depth < depthLimit) (hc : isBreak c = false) (kind : TokenKind) :
    ∃ s, t.openFlow kind = .ok s ∧ Calm s rest (kinds ++ [kind]) stack (depth + 1) ∧ s.Free ∧
      s.keyAllowed = true ∧ s.outerLevels = t.keySaved.level :: t.keySaved.outerLevels ∧
      s.cursor = t.cursor.along [c] := by
  obtain ⟨hpush, hcursor⟩ := h.keySaved.pushChar hc kind
  rw [cursor_keySaved] at hcursor
  have hlimit : ¬ t.keySaved.outerLevels.length ≥ depthLimit := by
    rw [outerLevels_keySaved, h.depth]
    omega
  refine ⟨{ t.keySaved.pushChar kind with
    level := { last := t.keySaved.queue.count }
    outerLevels := t.keySaved.level :: t.keySaved.outerLevels
    keyAllowed := true }, ?_, ?_, ?_, rfl, rfl, hcursor⟩
  · simp only [Scanner.openFlow, saveKey_eq hfree, bind, Except.bind, hlimit, if_false, pure,
      Except.pure]
  · exact { hpush with depth := by simp [h.depth] }
  · intro l hl k hk
    rcases List.mem_cons.1 hl with rfl | hl
    · cases hk
    · exact (hfree.keySaved hloose) l hl k hk

theorem Calm.closeFlow {c : Char} (h : Calm t (c :: rest) kinds stack (depth + 1)) (hfree : t.Free)
    (hc : isBreak c = false) (kind : TokenKind) :
    ∃ s, t.closeFlow kind = .ok s ∧ Calm s rest (kinds ++ [kind]) stack depth ∧ s.Free ∧
      s.keyAllowed = false ∧ s.cursor = t.cursor.along [c] ∧
      ∀ outer ∈ t.outerLevels.head?, ∀ k ∈ s.level.key, ∃ k' ∈ outer.key, k.mark = k'.mark := by
  obtain ⟨outer, levels, hlevels⟩ : ∃ outer levels, t.outerLevels = outer :: levels :=
    List.exists_cons_of_length_eq_add_one h.depth
  have hlength : levels.length = depth := by
    have := h.depth
    rw [hlevels] at this
    simpa using this
  obtain ⟨hpush, hcursor⟩ := h.forgetKey.pushChar hc kind
  refine ⟨{ t.forgetKey.pushChar kind with
    level := outer.letGo t.level.last
    outerLevels := levels
    keyAllowed := false }, ?_, ?_, ?_, rfl, hcursor, ?_⟩
  · have hlevels' : t.forgetKey.outerLevels = outer :: levels := hlevels
    simp only [Scanner.closeFlow, dropKey_eq hfree, bind, Except.bind, hlevels', pure, Except.pure]
    rfl
  · exact { hpush with depth := hlength }
  · intro l hl k hk
    rcases List.mem_cons.1 hl with rfl | hl
    · obtain ⟨k', hk', rfl⟩ := Option.map_eq_some_iff.1 hk
      exact hfree outer (by simp [hlevels]) k' hk'
    · exact hfree l (by simp [hlevels, show l ∈ levels from hl]) k hk
  · intro l hl k hk
    obtain rfl : outer = l := by simpa [hlevels] using hl
    obtain ⟨k', hk', rfl⟩ := Option.map_eq_some_iff.1 hk
    exact ⟨k', hk', rfl⟩

theorem Calm.readFlowEntry {c : Char} (h : Calm t (c :: rest) kinds stack depth) (hfree : t.Free)
    (hc : isBreak c = false) :
    ∃ s, t.readFlowEntry = .ok s ∧ Calm s rest (kinds ++ [.flowEntry]) stack depth ∧ s.Free ∧
      s.keyAllowed = true := by
  obtain ⟨hpush, _⟩ := h.forgetKey.pushChar hc .flowEntry
  refine ⟨{ t.forgetKey.pushChar .flowEntry with keyAllowed := true }, ?_, ?_, hfree.forgetKey, rfl⟩
  · simp only [Scanner.readFlowEntry, dropKey_eq hfree, bind, Except.bind, pure, Except.pure]
  · exact { hpush with }

/-! ## Scalars -/

/-- The scanner after a scalar that passes over some characters and may be a key. -/
def afterScalar (t : Scanner) (kind : TokenKind) (passed : List Char) (allowed : Bool) : Scanner :=
  { t.keySaved.push t.cursor.mark kind with
    cursor := t.cursor.along passed
    keyAllowed := allowed }

theorem Calm.afterScalar {passed : List Char} (h : Calm t (passed ++ rest) kinds stack depth)
    (kind : TokenKind) (allowed : Bool) :
    Calm (t.afterScalar kind passed allowed) rest (kinds ++ [kind]) stack depth := by
  have hsaved := h.keySaved
  refine { hsaved with
    counted := h.counted.along passed
    clean := hsaved.clean.push _ _
    rest := Cursor.rest_along h.rest
    kinds := ?_ }
  rw [← h.kinds, ← queue_keySaved t]
  exact TokenQueue.kinds_push _ _

theorem Free.afterScalar (h : t.Free) (hloose : t.Loose) (kind : TokenKind) (passed : List Char)
    (allowed : Bool) : (t.afterScalar kind passed allowed).Free :=
  h.keySaved hloose

/-- The style of a scalar between quotes. -/
def quotedStyle : Quoted.Quote → ScalarStyle
  | .single => .singleQuoted
  | .double => .doubleQuoted

/-- A scalar between quotes. -/
theorem readContent_quoted {q : Quoted.Quote} {text body : List Char}
    (h : Calm t (q.char :: (body ++ q.char :: rest)) kinds stack depth) (hfree : t.Free)
    (hbody : Quoted.Body q text body) (hcloses : Quoted.Closes q rest) :
    t.readContent q.char (body ++ q.char :: rest) =
      .ok (t.afterScalar (.scalar (String.ofList text) (quotedStyle q))
        (q.char :: (body ++ [q.char])) false) := by
  have hread := hbody.read_eq hcloses h.counted h.rest
  have hcontent : t.readContent q.char (body ++ q.char :: rest) =
      t.readWithKey (readQuoted q (quotedStyle q)) := by
    cases q <;> rfl
  rw [hcontent, readWithKey, saveKey_eq hfree]
  simp only [bind, Except.bind, readQuoted, cursor_keySaved, hread, pure, Except.pure]
  rw [Scanner.afterScalar, pushTo, cursor_keySaved]

/-- The token of a scalar between quotes. -/
theorem readToken_quoted {q : Quoted.Quote} {text body : List Char}
    (h : Calm t (q.char :: (body ++ q.char :: rest)) kinds stack depth) (hfree : t.Free)
    (hbody : Quoted.Body q text body) (hcloses : Quoted.Closes q rest) (hremark : NoRemark rest) :
    t.readToken = .ok (t.afterScalar (.scalar (String.ofList text) (quotedStyle q))
      (q.char :: (body ++ [q.char])) false) := by
  have hsigns : q.char ≠ '%' ∧ q.char ≠ '-' ∧ q.char ≠ '.' := by cases q <;> decide
  have hcalm : Calm t ((q.char :: (body ++ [q.char])) ++ rest) kinds stack depth := by simpa using h
  have hafter := hcalm.afterScalar (.scalar (String.ofList text) (quotedStyle q)) false
  exact readToken_eq h.rest hsigns.1 (atDocumentMarker_of_head h.rest hsigns.2.1 hsigns.2.2)
    (readContent_quoted h hfree hbody hcloses) (by rw [hafter.rest]; exact hremark)

/-- Whether a plain scalar starts with a character before others. -/
def PlainStart (flow : Bool) (c : Char) (rest : List Char) : Prop :=
  isBlank c = false ∧ isBreak c = false ∧
    (isIndicator c = false ∨ (c = '-' ∧ atGap rest = false) ∨
      (flow = false ∧ (c = '?' ∨ c = ':') ∧ atGap rest = false))

theorem readContent_plainStart {c : Char} (h : PlainStart t.inFlow c rest) :
    t.readContent c rest = t.readPlain := by
  obtain ⟨hblank, hbreak, hstart⟩ := h
  rcases hstart with hnone | ⟨rfl, hgap⟩ | ⟨hflow, hc, hgap⟩
  · have hstarts : startsPlain t.inFlow (c :: rest) = true := by
      simp [startsPlain, hblank, hbreak, hnone]
    simp only [isIndicator, Bool.or_eq_false_iff] at hnone
    simp only [readContent, hnone, hstarts]
    rfl
  · have hstarts : startsPlain t.inFlow ('-' :: rest) = true := by
      cases rest with
      | nil => cases hgap
      | cons d rest =>
        simp only [atGap, Bool.or_eq_false_iff] at hgap
        simp [startsPlain, hgap.1]
    simp [readContent, hgap, hstarts]
  · have hstarts : startsPlain false (c :: rest) = true := by
      rcases hc with rfl | rfl <;> simp [startsPlain, hgap]
    rcases hc with rfl | rfl <;> simp [readContent, hflow, hgap, hstarts]

/-- A plain scalar. -/
theorem readContent_plain {c : Char} {text tail passed : List Char} {broken : Bool}
    (h : Calm t (text ++ tail) kinds stack depth) (hfree : t.Free)
    (hplain : PlainStart t.inFlow c rest)
    (hwords : Plain.Words t.inFlow tail text)
    (hstop : Plain.Stop t.inFlow (t.indent + 1).toNat tail passed broken)
    (hmarker : t.cursor.atDocumentMarker = false) (hcolumn : t.indent ≤ t.column) :
    t.readContent c rest =
      .ok (t.afterScalar (.scalar (String.ofList text) .plain) (text ++ passed) broken) := by
  have hflow : t.keySaved.inFlow = t.inFlow := by
    rw [Scanner.inFlow, outerLevels_keySaved, ← Scanner.inFlow]
  have hread := hwords.read_eq hstop h.counted h.rest hmarker (by
    have : t.column = t.cursor.column := rfl
    omega)
  rw [readContent_plainStart hplain, readPlain, saveKey_eq hfree]
  simp only [bind, Except.bind, cursor_keySaved, indent_keySaved, hflow, hread, pure, Except.pure]
  rw [Scanner.afterScalar, pushTo, cursor_keySaved]

/-! ## Opening blocks -/

/-- The tokens and the columns of blocks after a token that may open a block at a column. -/
inductive Opens (column : Nat) (kind : TokenKind) :
    (stack : List Int) → (depth : Nat) → (opened : List TokenKind) → (stack' : List Int) → Prop where
  | flow {stack : List Int} {depth : Nat} : 0 < depth → Opens column kind stack depth [] stack
  | same {i : Int} {outer : List Int} : (column : Int) ≤ i →
      Opens column kind (i :: outer) 0 [] (i :: outer)
  | new {i : Int} {outer : List Int} : i < (column : Int) → outer.length < depthLimit →
      Opens column kind (i :: outer) 0 [kind] (column :: i :: outer)

theorem Calm.openBlock {before after opened : List TokenKind} {stack' : List Int}
    {kind : TokenKind} (h : Calm t rest (before ++ after) stack depth) (mark : Mark)
    (hreleased : t.queue.released ≤ before.length)
    (hopens : Opens mark.column kind stack depth opened stack') :
    ∃ q i r, t.openBlock before.length mark kind =
        .ok { t with queue := q, indent := i, outerIndents := r } ∧
      Calm { t with queue := q, indent := i, outerIndents := r } rest (before ++ (opened ++ after))
        stack' depth := by
  have hstack := h.stack
  have hflow := h.inFlow
  have hkept : Calm t rest (before ++ ([] ++ after)) stack depth := h
  cases hopens with
  | flow hdepth =>
    refine ⟨t.queue, t.indent, t.outerIndents, ?_, hkept⟩
    simp [Scanner.openBlock, hflow, hdepth]
  | same hcolumn =>
    obtain ⟨rfl, rfl⟩ := List.cons.inj hstack
    refine ⟨t.queue, t.indent, t.outerIndents, ?_, hkept⟩
    simp [Scanner.openBlock, hcolumn]
  | new hcolumn hlimit =>
    obtain ⟨rfl, rfl⟩ := List.cons.inj hstack
    have hfalse : t.inFlow = false := by simp [hflow]
    refine ⟨t.queue.pushAt before.length { mark := mark, kind := kind }, mark.column,
      t.indent :: t.outerIndents, ?_, ?_⟩
    · have hnot : ¬ (mark.column : Int) ≤ t.indent := by omega
      have hlimit' : ¬ t.outerIndents.length ≥ depthLimit := by omega
      simp only [Scanner.openBlock, hfalse, hnot, decide_false, Bool.or_self, Bool.false_eq_true,
        if_false, hlimit']
      rfl
    · exact { h with
        clean := h.clean.pushAt hreleased _ _
        kinds := h.clean.kinds_pushAt h.kinds hreleased _
        stack := rfl }

/-- A block that opens here. -/
theorem Calm.openBlockHere {opened : List TokenKind} {stack' : List Int} {kind : TokenKind}
    (h : Calm t rest kinds stack depth) (hopens : Opens t.column kind stack depth opened stack') :
    ∃ q i r, t.openBlockHere kind = .ok { t with queue := q, indent := i, outerIndents := r } ∧
      Calm { t with queue := q, indent := i, outerIndents := r } rest (kinds ++ opened) stack'
        depth := by
  have hkinds : kinds.length = t.queue.count := by rw [← h.kinds, h.clean.length_kinds]
  have h' : Calm t rest (kinds ++ []) stack depth := by rwa [List.append_nil]
  obtain ⟨q, i, r, hopen, hcalm⟩ := h'.openBlock t.cursor.mark
    (by rw [hkinds]; exact h.clean.released_le) hopens
  rw [hkinds] at hopen
  rw [List.append_nil] at hcalm
  exact ⟨q, i, r, hopen, hcalm⟩

/-! ## Keys and values -/

/-- A colon behind a key puts the `key` token in front of the key. -/
theorem Calm.readValue_key {before opened : List TokenKind} {kind : TokenKind} {stack' : List Int}
    {k : PossibleKey} (h : Calm t (':' :: rest) (before ++ [kind]) stack depth)
    (hkey : t.level.key = some k) (hreach : t.inReach k = true)
    (hnumber : k.number = before.length) (hreleased : t.queue.released ≤ before.length)
    (hfree : ∀ l ∈ t.outerLevels, ∀ k ∈ l.key, k.required = false)
    (hopens : Opens k.mark.column .blockMappingStart stack depth opened stack') :
    ∃ s, t.readValue = .ok s ∧
      Calm s rest (before ++ (opened ++ [.key, kind, .value])) stack' depth ∧ s.Free ∧
      s.keyAllowed = false ∧ s.level.key = none ∧ s.cursor = t.cursor.along [':'] := by
  -- the key token goes in front of the scalar, and the block, if one opens, in front of both
  have hkinds : (t.queue.pushAt before.length { mark := k.mark, kind := .key }).kinds =
      before ++ [.key, kind] := h.clean.kinds_pushAt h.kinds hreleased _
  have hpushed : Calm { t with queue := t.queue.pushAt before.length { mark := k.mark, kind := .key } }
      (':' :: rest) (before ++ [.key, kind]) stack depth :=
    { h with clean := h.clean.pushAt hreleased _ _, kinds := hkinds }
  have hreleased' : (t.queue.pushAt before.length { mark := k.mark, kind := .key }).released ≤
      before.length := by
    rw [TokenQueue.pushAt, if_neg (by omega)]
    exact hreleased
  obtain ⟨q, i, r, hopen, hcalm⟩ := hpushed.openBlock k.mark hreleased' hopens
  obtain ⟨hvalue, hcursor⟩ := hcalm.forgetKey.pushChar (by decide) .value
  refine ⟨{ (Scanner.forgetKey { t with queue := q, indent := i, outerIndents := r }).pushChar .value with
    keyAllowed := false }, ?_, ?_, ?_, rfl, rfl, hcursor⟩
  · simp only [readValue, keyInReach, hkey, hreach, if_true, bind, Except.bind, hnumber, pushAt,
      hopen, pure, Except.pure]
  · refine { hvalue with kinds := hvalue.kinds.trans ?_ }
    simp
  · intro l hl k' hk'
    rcases List.mem_cons.1 hl with rfl | hl
    · cases hk'
    · exact hfree l hl k' hk'

/-- A token stays in reach as a key for 1024 characters of its line. -/
theorem inReach_of_along {k : PossibleKey} {start : Cursor} {passed : List Char}
    (hmark : k.mark = start.mark) (ht : t.cursor = start.along passed)
    (hline : ∀ x ∈ passed, isBreak x = false) (hshort : passed.length ≤ 1024) :
    t.inReach k = true := by
  have hzero : passed.countP isBreak = 0 :=
    List.countP_eq_zero.2 fun x hx => by simp [hline x hx]
  rw [inReach, hmark, line, ht, Cursor.line_along, hzero, Nat.add_zero, Cursor.index_along]
  simp [Cursor.line, hshort]

/-- The last token, which follows `before`, is kept back as it may be a key. -/
structure Pending (s : Scanner) (before : List TokenKind) (start : Cursor) (k : PossibleKey) : Prop where
  key : s.level.key = some k
  number : k.number = before.length
  mark : k.mark = start.mark
  released : s.queue.released ≤ before.length

/-- A scalar on one line, where a key may start. -/
theorem Before.run_scalar {tok : List Char} {kind : TokenKind}
    (h : Before s (tok ++ rest) kinds stack depth) (hallowed : s.settle.keyAllowed = true)
    (hread : s.settle.readToken = .ok (s.settle.afterScalar kind tok false)) (hne : tok ≠ [])
    (hline : ∀ x ∈ tok, isBreak x = false) (hshort : tok.length ≤ 1024) :
    Runs s (s.settle.afterScalar kind tok false).release ∧
      ∃ k, Pending (s.settle.afterScalar kind tok false).release kinds s.settle.cursor k := by
  have hscalar := h.settled.afterScalar kind false
  have hpos : 0 < tok.length := List.length_pos_iff.2 hne
  have hcount : s.settle.queue.count = kinds.length := by
    rw [← h.settled.kinds, h.settled.clean.length_kinds]
  -- the possible key is the scalar itself
  obtain ⟨k, hk, hnumber, hmark, hwaits⟩ : ∃ k,
      (s.settle.afterScalar kind tok false).level.key = some k ∧ k.number = s.settle.queue.count ∧
        k.mark = s.settle.cursor.mark ∧ k.waits = true := by
    refine ⟨⟨!s.settle.inFlow && s.settle.indent == s.settle.column, s.settle.queue.count,
      s.settle.cursor.mark, true⟩, ?_, rfl, rfl, rfl⟩
    simp only [Scanner.afterScalar, keySaved, hallowed, if_true]
    rfl
  have hreleased : (s.settle.afterScalar kind tok false).queue.released ≤ k.number := by
    rw [hnumber, ← queue_keySaved s.settle]
    exact h.settled.keySaved.clean.released_le
  have hreach : (s.settle.afterScalar kind tok false).inReach k = true :=
    inReach_of_along hmark rfl hline hshort
  have hnumber' : k.number = kinds.length := hnumber.trans hcount
  refine ⟨h.runs hread hscalar (by simp; omega), k, hk, hnumber', hmark, ?_⟩
  rw [← hnumber']
  exact released_release_le hscalar.clean hk hwaits hreleased hreach

/-- Blanks before a colon are passed over, and no block ends there. -/
theorem Calm.before_colon {blanks : List Char} (h : Calm s (blanks ++ ':' :: rest) kinds stack depth)
    (hblanks : ∀ x ∈ blanks, isBlank x = true) (hkeys : s.keyAllowed = false)
    (hcolumn : s.indent ≤ s.column) :
    Before s (':' :: rest) kinds stack depth ∧ s.settle.cursor = s.cursor.along blanks ∧
      s.settle.queue = s.queue := by
  have hstart : TokenStart (':' :: rest) := tokenStart_cons (by decide) (by decide) (by decide)
  have hpasses : s.Passes blanks := by
    rw [Passes, hkeys, Bool.not_false, Bool.or_true]
    exact isPassable_of_isBlank hblanks
  have hover : s.cursor.past blanks = s.cursor.along blanks := Cursor.past_blanks hblanks _
  have hpops : pops (s.cursor.past blanks).column stack = 0 := by
    rw [hover, Cursor.column_along,
      Cursor.columnAfter_of_no_break fun x hx => isBreak_of_isBlank (hblanks x hx), ← h.stack]
    refine pops_eq_zero ?_
    have : s.column = s.cursor.column := rfl
    omega
  obtain ⟨hbefore, hsettle⟩ := h.before_gap hpasses hstart (.inr hpops)
  refine ⟨hbefore, ?_, by rw [hsettle]⟩
  rw [hsettle]
  exact hover

/-- A scalar on one line and the colon behind it, with or without blanks between them. -/
theorem Before.key_value {tok : List Char} {kind : TokenKind} {opened : List TokenKind}
    {stack' : List Int} (blanks : List Char)
    (h : Before s (tok ++ (blanks ++ ':' :: rest)) kinds stack depth) (hfree : s.Free)
    (hallowed : s.settle.keyAllowed = true)
    (hread : s.settle.readToken = .ok (s.settle.afterScalar kind tok false)) (hne : tok ≠ [])
    (hline : ∀ x ∈ tok, isBreak x = false) (hblanks : ∀ x ∈ blanks, isBlank x = true)
    (hlength : tok.length + blanks.length ≤ 1024) (hcolumn : s.settle.indent ≤ s.settle.column)
    (hopens : Opens s.settle.column .blockMappingStart stack depth opened stack')
    (hgap : 0 < depth ∨ atGap rest = true) (hremark : NoRemark rest) :
    ∃ s', Runs s s' ∧ Calm s' rest (kinds ++ (opened ++ [.key, kind, .value])) stack' depth ∧
      s'.Free ∧ s'.level.key = none ∧
      s'.cursor = s.settle.cursor.along (tok ++ (blanks ++ [':'])) := by
  obtain ⟨hruns, k, hpending⟩ := h.run_scalar hallowed hread hne hline (by omega)
  have hscalar := (h.settled.afterScalar kind false).release
  have hcursor₁ : (s.settle.afterScalar kind tok false).release.cursor = s.settle.cursor.along tok := rfl
  have hlevels₁ : (s.settle.afterScalar kind tok false).release.outerLevels = s.outerLevels :=
    (outerLevels_keySaved _).trans h.outerLevels
  have hcolumn₁ : (s.settle.afterScalar kind tok false).release.indent ≤
      (s.settle.afterScalar kind tok false).release.column := by
    have hindent : (s.settle.afterScalar kind tok false).release.indent = s.settle.indent :=
      indent_keySaved _
    rw [hindent, column, hcursor₁, Cursor.column_along, Cursor.columnAfter_of_no_break hline]
    have : s.settle.column = s.settle.cursor.column := rfl
    omega
  obtain ⟨hbefore, hcursor, hqueue⟩ := hscalar.before_colon hblanks rfl hcolumn₁
  generalize (s.settle.afterScalar kind tok false).release = s₁ at *
  rw [hcursor₁, ← Cursor.along_append] at hcursor
  -- the colon is on the line of the scalar and near enough
  have hpassed : ∀ x ∈ tok ++ blanks, isBreak x = false :=
    List.forall_mem_append.2 ⟨hline, fun x hx => isBreak_of_isBlank (hblanks x hx)⟩
  have hreach : s₁.settle.inReach k = true :=
    inReach_of_along hpending.mark hcursor hpassed (by rw [List.length_append]; exact hlength)
  have houter : ∀ l ∈ s₁.settle.outerLevels, ∀ k ∈ l.key, k.required = false := by
    intro l hl k hk
    rw [hbefore.outerLevels, hlevels₁] at hl
    exact hfree l (by simp [hl]) k hk
  obtain ⟨s₂, hvalue, hcalm₂, hfree₂, _, hkey₂, hcursor₂⟩ := hbefore.settled.readValue_key
    (by rw [hbefore.level]; exact hpending.key) hreach hpending.number
    (by rw [hqueue]; exact hpending.released) houter (by rw [hpending.mark]; exact hopens)
  have hcontent : s₁.settle.readContent ':' rest = .ok s₂ := by
    rw [← hvalue]
    have hflow := hbefore.settled.inFlow
    rcases hgap with hdepth | hgap
    · simp [readContent, hflow, hdepth]
    · simp [readContent, hgap]
  have htoken : s₁.settle.readToken = .ok s₂ :=
    readToken_eq hbefore.settled.rest (by decide)
      (atDocumentMarker_of_head hbefore.settled.rest (by decide) (by decide)) hcontent
      (by rw [hcalm₂.rest]; exact hremark)
  refine ⟨s₂.release, hruns.trans (hbefore.runs htoken hcalm₂ (by simp)), hcalm₂.release,
    hfree₂.release, hkey₂, ?_⟩
  rw [← List.append_assoc, Cursor.along_append, ← hcursor]
  exact hcursor₂

/-! ## Block entries -/

/-- A sign that may open a block and after which a key may start. -/
theorem Calm.openAndPush {c : Char} {opened : List TokenKind} {stack' : List Int}
    {blockKind : TokenKind} (h : Calm t (c :: rest) kinds stack depth) (hfree : t.Free)
    (hc : isBreak c = false) (hopens : Opens t.column blockKind stack depth opened stack')
    (kind : TokenKind) (allowed : Bool) :
    ∃ t', t.openBlockHere blockKind = .ok t' ∧ t'.inFlow = t.inFlow ∧
      t'.dropKey = .ok t'.forgetKey ∧
      Calm { t'.forgetKey.pushChar kind with keyAllowed := allowed } rest
        (kinds ++ (opened ++ [kind])) stack' depth ∧
      Free { t'.forgetKey.pushChar kind with keyAllowed := allowed } ∧
      (t'.forgetKey.pushChar kind).cursor = t.cursor.along [c] := by
  obtain ⟨q, i, r, hopen, hcalm⟩ := h.openBlockHere hopens
  have hfree' : Free { t with queue := q, indent := i, outerIndents := r } := hfree
  obtain ⟨hpush, hcursor⟩ := hcalm.forgetKey.pushChar hc kind
  rw [List.append_assoc] at hpush
  exact ⟨_, hopen, rfl, dropKey_eq hfree',
    { hpush with }, hfree'.forgetKey, hcursor⟩

theorem Calm.readBlockEntry {opened : List TokenKind} {stack' : List Int}
    (h : Calm t ('-' :: rest) kinds stack 0) (hfree : t.Free) (hallowed : t.keyAllowed = true)
    (hopens : Opens t.column .blockSequenceStart stack 0 opened stack') :
    ∃ s, t.readBlockEntry = .ok s ∧ Calm s rest (kinds ++ (opened ++ [.blockEntry])) stack' 0 ∧
      s.Free ∧ s.keyAllowed = true ∧ s.level.key = none ∧ s.cursor = t.cursor.along ['-'] := by
  obtain ⟨t', hopen, _, hdrop, hcalm, hfree', hcursor⟩ :=
    h.openAndPush hfree (by decide) hopens .blockEntry true
  refine ⟨_, ?_, hcalm, hfree', rfl, rfl, hcursor⟩
  simp only [Scanner.readBlockEntry, hallowed, Bool.not_true, Bool.and_false, Bool.false_eq_true,
    if_false, bind, Except.bind, hopen, hdrop, pure, Except.pure]

theorem Calm.readKey {opened : List TokenKind} {stack' : List Int}
    (h : Calm t ('?' :: rest) kinds stack 0) (hfree : t.Free) (hallowed : t.keyAllowed = true)
    (hopens : Opens t.column .blockMappingStart stack 0 opened stack') :
    ∃ s, t.readKey = .ok s ∧ Calm s rest (kinds ++ (opened ++ [.key])) stack' 0 ∧
      s.Free ∧ s.keyAllowed = true ∧ s.level.key = none ∧ s.cursor = t.cursor.along ['?'] := by
  obtain ⟨t', hopen, hflow, hdrop, hcalm, hfree', hcursor⟩ :=
    h.openAndPush hfree (by decide) hopens .key true
  have hallowed' : (!t'.inFlow) = true := by simp [hflow, h.inFlow]
  refine ⟨_, ?_, hcalm, hfree', rfl, rfl, hcursor⟩
  simp only [Scanner.readKey, hallowed, Bool.not_true, Bool.and_false, Bool.false_eq_true,
    if_false, bind, Except.bind, hopen, hdrop, pure, Except.pure]
  rw [show t'.forgetKey.inFlow = t'.inFlow from rfl, hallowed']

/-- A colon at the start of a line, behind a key on lines of its own. -/
theorem Calm.readValue_line {opened : List TokenKind} {stack' : List Int}
    (h : Calm t (':' :: rest) kinds stack 0) (hfree : t.Free) (hallowed : t.keyAllowed = true)
    (hkey : ∀ k ∈ t.level.key, t.inReach k = false)
    (hopens : Opens t.column .blockMappingStart stack 0 opened stack') :
    ∃ s, t.readValue = .ok s ∧ Calm s rest (kinds ++ (opened ++ [.value])) stack' 0 ∧
      s.Free ∧ s.keyAllowed = true ∧ s.level.key = none ∧ s.cursor = t.cursor.along [':'] := by
  obtain ⟨t', hopen, hflow, _, hcalm, hfree', hcursor⟩ :=
    h.openAndPush hfree (by decide) hopens .value true
  have hallowed' : (!t'.inFlow) = true := by simp [hflow, h.inFlow]
  have hnone : t.keyInReach = .ok none := by
    rw [keyInReach]
    split
    · rfl
    · rename_i k hk
      rw [hkey k hk, hfree t.level (by simp) k hk]
      rfl
  refine ⟨_, ?_, hcalm, hfree', rfl, rfl, hcursor⟩
  simp only [readValue, hnone, hallowed, Bool.not_true, Bool.and_false, Bool.false_eq_true,
    if_false, bind, Except.bind, hopen, pure, Except.pure]
  rw [hallowed']

/-- A literal block two columns further than the block around it. -/
theorem Calm.readBlockScalar {parent m : Nat} {outer : List Int} {core breaks body rest : List Char}
    {ending : Char} {leading : Bool} {chomping : Block.Chomping}
    (h : Calm t (Block.headerText leading chomping ++ (List.replicate (parent + 2) ' ' ++
      (body ++ (List.replicate m ' ' ++ rest)))) kinds ((parent : Int) :: outer) 0)
    (hfree : t.Free) (hlines : Block.Lines (parent + 2) core ending breaks body)
    (hleading : leading = false → ∀ x ∈ body.head?, isBlank x = false) (hm : m < parent + 2)
    (hrest : Gap.EndsAt rest) :
    ∃ s, t.readBlockScalar true = .ok s ∧
      Calm s rest (kinds ++ [.scalar (String.ofList (core ++ chomping.kept ending breaks)) .literal])
        ((parent : Int) :: outer) 0 ∧ s.Free ∧ s.keyAllowed = true ∧ s.level.key = none ∧
      s.cursor = t.cursor.along (Block.headerText leading chomping ++
        (List.replicate (parent + 2) ' ' ++ (body ++ List.replicate m ' '))) := by
  have hindent : t.indent = parent := (List.cons.inj h.stack).1
  obtain ⟨header, hcomment, hread⟩ := hlines.read_eq leading chomping hleading hm hrest h.counted
    h.rest
  rw [← hindent, show t.indent = t.forgetKey.indent from rfl,
    show t.cursor = t.forgetKey.cursor from rfl] at hread
  refine ⟨{ t.forgetKey.push t.cursor.mark
      (.scalar (String.ofList (core ++ chomping.kept ending breaks)) .literal) with
    cursor := t.cursor.along (Block.headerText leading chomping ++
      (List.replicate (parent + 2) ' ' ++ (body ++ List.replicate m ' ')))
    keyAllowed := true }, ?_, ?_, hfree.forgetKey, rfl, rfl, rfl⟩
  · simp only [Scanner.readBlockScalar, dropKey_eq hfree, bind, Except.bind, hread, hcomment,
      pure, Except.pure]
    rfl
  · refine { h with
      counted := h.counted.along _
      clean := h.clean.push _ _
      rest := ?_
      kinds := ?_ }
    · exact Cursor.rest_along (by rw [h.rest]; simp)
    · rw [← h.kinds]
      exact TokenQueue.kinds_push _ _

/-! ## The end -/

/-- At the end all blocks are closed. -/
theorem Calm.readEnd (h : Calm t [] kinds stack 0) (hfree : t.Free) :
    ∃ u, t.readToken = .ok u ∧ u.finished = true ∧ u.fault = none ∧ u.queue.Clean ∧
      u.queue.kinds = kinds ++ (List.replicate (pops (-1) stack) .blockEnd ++ [.streamEnd]) := by
  -- the last line is ended if it is not yet
  obtain ⟨cursor, hline, hcounted, hrest⟩ : ∃ cursor,
      (if t.column = 0 then t else { t with cursor := t.cursor.nextLine 0 }) =
        { t with cursor := cursor } ∧ cursor.Counted ∧ cursor.rest = [] := by
    split
    · exact ⟨t.cursor, rfl, h.counted, h.rest⟩
    · refine ⟨t.cursor.nextLine 0, rfl, h.counted.nextLine 0, ?_⟩
      simp [Cursor.nextLine, h.rest]
  have hcalm : Calm { t with cursor := cursor } [] kinds stack 0 :=
    { h with counted := hcounted, rest := hrest }
  obtain ⟨hclosed, q, i, r, heq⟩ := hcalm.closeBlocks (-1) cursor.mark
  have hfree' : Free (Scanner.closeBlocks { t with cursor := cursor } (-1) cursor.mark) := by
    rw [heq]
    exact hfree
  generalize hu : Scanner.closeBlocks { t with cursor := cursor } (-1) cursor.mark = u
    at hclosed hfree'
  refine ⟨{ u.forgetKey.push u.cursor.mark .streamEnd with keyAllowed := false, finished := true },
    ?_, rfl, hclosed.fault, hclosed.clean.push _ _, ?_⟩
  · rw [readToken, h.rest]
    simp only [Scanner.readEnd, hline, bind, Except.bind, hu, dropKey_eq hfree', pure, Except.pure]
    rfl
  · refine (TokenQueue.kinds_push _ _).trans ?_
    rw [← List.append_assoc]
    exact congrArg (· ++ [TokenKind.streamEnd]) hclosed.kinds

/-- A scanner that has finished hands out all tokens, with whatever fuel. -/
theorem run_of_finished {u : Scanner} (hfinished : u.finished = true) (hclean : u.queue.Clean)
    (fuel : Nat) : run fuel u.release = ⟨u.queue.tokens, none⟩ := by
  have hall : u.release.queue.all = u.queue.tokens := by
    rw [Scanner.release, (hclean.release _).all_eq, hclean.tokens_release]
  cases fuel with
  | zero => rw [run, hall]
  | succ fuel => rw [run, if_pos (show u.release.finished = true from hfinished), hall]

/-- At the end of the text all tokens are handed out. -/
theorem Before.run_end (h : Before s [] kinds stack 0) (hfree : s.Free) {fuel : Nat}
    (hfuel : 0 < fuel) :
    ∃ tokens, run fuel s = ⟨tokens, none⟩ ∧ (∀ t ∈ tokens, t.comments = []) ∧
      tokens.map Token.kind =
        kinds ++ (List.replicate (pops (-1) stack) .blockEnd ++ [.streamEnd]) := by
  obtain ⟨fuel, rfl⟩ : ∃ n, fuel = n + 1 := ⟨fuel - 1, by omega⟩
  obtain ⟨gap, _, _, hstart, _⟩ := h.calm
  obtain ⟨u, hread, hfinished, hfault, hclean, hkinds⟩ := h.settled.readEnd (h.free hfree)
  refine ⟨u.queue.tokens, ?_, ?_, hkinds⟩
  · rw [run, hstart.unfinished, h.step_eq hread hfault]
    exact run_of_finished hfinished hclean fuel
  · intro x hx
    rw [TokenQueue.tokens, List.mem_append, List.mem_reverse, List.mem_reverse] at hx
    exact hclean.bare x (List.mem_append.2 hx)

/-! ## The whole text -/

/-- The scanner at the start of a text. -/
def atStart (input : Input) : Scanner :=
  { cursor := .ofList input.characters
    fault := input.fault
    marked := input.characters.head? == some '\ufeff'
    firstPiece := input.firstPiece }

theorem calm_atStart {input : Input} (hfault : input.fault = none)
    (hmark : input.characters.head? ≠ some '\ufeff') :
    Calm (atStart input) input.characters [] [-1] 0 :=
  ⟨hfault, by simpa [atStart] using hmark, rfl, rfl, TokenQueue.clean_empty, rfl, rfl, rfl, rfl⟩

theorem free_atStart (input : Input) : (atStart input).Free := by
  intro l hl k hk
  obtain rfl : l = {} := by simpa [atStart] using hl
  cases hk

/-- A run from the start to the end of a text gives its tokens. -/
theorem Runs.scan_eq {input : Input} (hruns : Runs (atStart input) s) (h : Before s [] kinds stack 0)
    (hfree : s.Free) :
    ∃ tokens, scan input = ⟨tokens, none⟩ ∧ (∀ t ∈ tokens, t.comments = []) ∧
      tokens.map Token.kind =
        kinds ++ (List.replicate (pops (-1) stack) .blockEnd ++ [.streamEnd]) := by
  obtain ⟨fuel, hfuel, hrun⟩ := hruns.run_eq (input.characters.length + 1) (Nat.lt_succ_self _)
  have hpos : 0 < fuel := by omega
  obtain ⟨tokens, heq, hbare, hkinds⟩ := h.run_end hfree hpos
  exact ⟨tokens, hrun.trans heq, hbare, hkinds⟩

/-- Where a step fails, the tokens that were handed out are left. -/
theorem Runs.scan_error {input : Input} {fault : Fault} (hruns : Runs (atStart input) s)
    (hfinished : s.finished = false) (hstep : s.step = .error fault) (hclean : s.queue.Clean) :
    ∃ tokens, scan input = ⟨tokens, some fault⟩ ∧ (∀ t ∈ tokens, t.comments = []) ∧
      tokens.map Token.kind <+: s.queue.kinds := by
  obtain ⟨fuel, hfuel, hrun⟩ := hruns.run_eq (input.characters.length + 1) (Nat.lt_succ_self _)
  obtain ⟨fuel, rfl⟩ : ∃ n, fuel = n + 1 := ⟨fuel - 1, by omega⟩
  refine ⟨s.queue.out.reverse, hrun.trans ?_, ?_, ?_⟩
  · rw [run, hfinished, hstep]
    rfl
  · intro t ht
    exact hclean.bare t (List.mem_append_left _ (List.mem_reverse.1 ht))
  · exact (List.prefix_append ..).map _

end StackIr.Yaml.Scanner
