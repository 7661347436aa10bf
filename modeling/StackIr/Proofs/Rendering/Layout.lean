import StackIr.Proofs.Rendering.Nodes

/-! # The text of a document in block style

    `blockText` is the text of a document whose entries stand in a column, with the line break
    at its end.  The main statement says that writing a node that says a document gives this
    text.  The printer writes a line break only when something follows, so `Wrote` says of a
    page that a text was written up to its last line break. -/

namespace StackIr.Json

open Yaml Yaml.Printer

/-! ## Scalars -/

/-- A text whose lines after the first start in a column.  `put` is how a character is
    written, and `broken` tells whether a line starts here. -/
def folded (column : Nat) (put : Char → List Char) : (broken : Bool) → List Char → List Char
  | _, [] => []
  | broken, c :: cs =>
    if isBreak c then c :: folded column put true cs
    else
      (if broken then List.replicate column ' ' else []) ++ (put c ++ folded column put false cs)

/-- A character between single quotes. -/
def quoteChar (c : Char) : List Char :=
  if c == '\'' then ['\'', '\''] else [c]

/-- The text of a scalar whose lines after the first start in a column. -/
def scalarText (column : Nat) (style : ScalarStyle) (cs : List Char) : List Char :=
  match style with
  | .singleQuoted => '\'' :: (folded column quoteChar false cs ++ ['\''])
  | .doubleQuoted => '"' :: (Presentation.doubleQuoted cs ++ ['"'])
  | .literal =>
    '|' :: (literalHints 2 cs ++
      '\n' :: (List.replicate column ' ' ++ folded column (fun c => [c]) false cs))
  | _ => cs

/-- The line break behind a scalar, which a literal block may have in itself. -/
def lineEnd (style : ScalarStyle) (cs : List Char) : List Char :=
  if style = .literal ∧ cs.getLast?.any isBreak = true then [] else ['\n']

/-- The text of a scalar with its line break. -/
def scalarLine (column : Nat) (style : ScalarStyle) (cs : List Char) : List Char :=
  scalarText column style cs ++ lineEnd style cs

/-! ## Documents -/

/-- Whether a value starts a block of its own. -/
def opensBlock : Json → Bool
  | .array (_ :: _) => true
  | .object (_ :: _) => true
  | _ => false

/-- The column of a level. -/
def indentation (level : Nat) : List Char :=
  List.replicate (2 * level) ' '

/-- A key and what stands between it and its value.  `opens` tells whether the value is a
    block. -/
def keyText (level : Nat) (key : String) (opens : Bool) : List Char :=
  if isSimpleKey key then
    scalarText (2 * (level + 1)) (textStyle key true) key.toList ++
      ':' :: (if opens then '\n' :: indentation (level + 1) else [' '])
  else
    '?' :: ' ' :: (scalarLine (2 * (level + 1)) (textStyle key false) key.toList ++
      (indentation level ++ [':', ' ']))

mutual

/-- The text of a document that stands in the column of a level. -/
def blockText (level : Nat) : Json → List Char
  | .null => "null\n".toList
  | .bool b => if b then "true\n".toList else "false\n".toList
  | .int i => intText i ++ ['\n']
  | .float x => (Decimal.Layout.json.render x).toList ++ ['\n']
  | .string s => scalarLine (2 * level) (textStyle s false) s.toList
  | .array [] => ['[', ']', '\n']
  | .array (item :: items) =>
    '-' :: ' ' :: (blockText (level + 1) item ++ itemsText level items)
  | .object [] => ['\x7b', '\x7d', '\n']
  | .object ((key, value) :: members) =>
    keyText level key (opensBlock value) ++ (blockText (level + 1) value ++ membersText level members)

/-- The text of items, each on a line of its own. -/
def itemsText (level : Nat) : List Json → List Char
  | [] => []
  | item :: items =>
    indentation level ++ '-' :: ' ' :: (blockText (level + 1) item ++ itemsText level items)

/-- The text of members, each on a line of its own. -/
def membersText (level : Nat) : List (String × Json) → List Char
  | [] => []
  | (key, value) :: members =>
    indentation level ++ (keyText level key (opensBlock value) ++
      (blockText (level + 1) value ++ membersText level members))

end

/-- A value that is no string, array or object is a word. -/
theorem isWord_blockText {j : Json} (level : Nat) (hdepth : depth j = 0)
    (hfinite : j.unsupported? = none) :
    (∃ w, blockText level j = w ++ ['\n'] ∧ IsWord w ∧
        blockKinds j = [.scalar (String.ofList w) .plain]) ∨ ∃ str, j = .string str := by
  cases j with
  | null => exact .inl ⟨"null".toList, rfl, isWord_null, rfl⟩
  | bool b =>
    refine .inl ⟨_, ?_, isWord_bool b, ?_⟩
    · cases b <;> rfl
    · cases b <;> rfl
  | int i => exact .inl ⟨_, rfl, isWord_intText i, rfl⟩
  | float x =>
    have hx : x.isFinite = true := by
      by_contra hx
      simp [unsupported?, hx] at hfinite
    exact .inl ⟨_, rfl, isWord_render hx, by simp [blockKinds]⟩
  | string str => exact .inr ⟨str, rfl⟩
  | array items => simp [depth] at hdepth
  | object members => simp [depth] at hdepth

/-! ## Pages without comments -/

/-- A page with some text and no comments. -/
def sheet (text : List Char) (column : Nat) (blank fresh : Bool) : Page :=
  { written := text.reverse, column := column, blank := blank, fresh := fresh }

section

variable {text : List Char} {column : Nat} {blank fresh : Bool}

@[simp] theorem put_sheet (cs : List Char) :
    (sheet text column blank fresh).put cs = sheet (text ++ cs) (column + cs.length) blank fresh := by
  simp [Page.put, sheet]

@[simp] theorem breakLine_sheet :
    (sheet text column blank fresh).breakLine = sheet (text ++ ['\n']) 0 blank true := by
  simp [Page.breakLine, sheet]

theorem putBreak_sheet (c : Char) :
    (sheet text column blank fresh).putBreak c = sheet (text ++ [c]) 0 blank true := by
  rw [Page.putBreak]
  split
  · rename_i hc
    rw [breakLine_sheet, beq_iff_eq.1 hc]
  · simp [sheet]

/-- The blank before what needs one. -/
def gapBefore (blank : Bool) : List Char :=
  if blank then [] else [' ']

theorem indicator_sheet (cs : List Char) (isBlank isIndentation : Bool) :
    (sheet text column blank fresh).indicator cs true isBlank isIndentation =
      sheet (text ++ (gapBefore blank ++ cs)) (column + (gapBefore blank ++ cs).length) isBlank
        (fresh && isIndentation) := by
  cases blank <;> simp [Page.indicator, gapBefore, sheet, Page.put, Nat.add_assoc]
  omega

theorem close_sheet (cs : List Char) (isBlank isIndentation : Bool) :
    (sheet text column blank fresh).indicator cs false isBlank isIndentation =
      sheet (text ++ cs) (column + cs.length) isBlank (fresh && isIndentation) := by
  simp [Page.indicator, sheet, Page.put]

theorem not_footColumn (n : Nat) : ¬ (sheet text column blank fresh).footColumn = some n := by
  simp [sheet]

/-- Going to a column on the line that was begun. -/
theorem indentTo_fresh {n : Nat} (h : column < n ∨ column = n ∧ blank = true) :
    (sheet text column blank true).indentTo n =
      sheet (text ++ List.replicate (n - column) ' ') n true true := by
  have hline : ¬ (!(sheet text column blank true).fresh ||
      decide ((sheet text column blank true).column > n) ||
      ((sheet text column blank true).column == n && !(sheet text column blank true).blank)) = true := by
    rcases h with h | ⟨rfl, rfl⟩
    · have hne : column ≠ n := by omega
      simp [sheet, hne]
      omega
    · simp [sheet]
  have hcolumn : column + (n - column) = n := by omega
  rw [Page.indentTo]
  rw [if_neg hline, if_neg (not_footColumn n), put_sheet]
  simp [sheet, hcolumn]

/-- Going to a column on a new line. -/
theorem indentTo_stale (n : Nat) :
    (sheet text column blank false).indentTo n =
      sheet (text ++ '\n' :: List.replicate n ' ') n true true := by
  rw [Page.indentTo]
  rw [if_pos (show (!(sheet text column blank false).fresh || _ || _) = true by rfl), breakLine_sheet,
    if_neg (not_footColumn n), put_sheet]
  simp [sheet]

end

/-- A text was written up to its last line break: the break is still to be written, or it was
    the end of a literal block. -/
inductive Wrote : Page → List Char → Prop where
  | stale {text : List Char} (column : Nat) (blank : Bool) :
      Wrote (sheet text column blank false) (text ++ ['\n'])
  | fresh {text : List Char} : Wrote (sheet text 0 true true) text

theorem Wrote.indentTo {p : Page} {text : List Char} (h : Wrote p text) (n : Nat) :
    p.indentTo n = sheet (text ++ List.replicate n ' ') n true true := by
  cases h with
  | stale column blank => rw [indentTo_stale, List.append_assoc]; rfl
  | fresh =>
    rw [indentTo_fresh (by simp; omega), Nat.sub_zero]

/-! ## Writing scalars -/

/-- Writes a character of a text whose lines start in a column. -/
def writeChar (n : Nat) (put : Char → List Char) (state : Page × Bool) (c : Char) : Page × Bool :=
  if isBreak c then (state.1.putBreak c, true)
  else
    ({ (if state.2 then state.1.indentTo n else state.1).put (put c) with fresh := false }, false)

/-- Whether a line starts behind a text, given whether one starts before it. -/
def breaksAfter (broken : Bool) (cs : List Char) : Bool :=
  (cs.getLast?.map isBreak).getD broken

theorem breaksAfter_cons (broken : Bool) (c : Char) (cs : List Char) :
    breaksAfter broken (c :: cs) = breaksAfter (isBreak c) cs := by
  rw [breaksAfter, breaksAfter, List.getLast?_cons]
  cases cs.getLast? <;> rfl

theorem getLast?_any_isBreak (cs : List Char) : cs.getLast?.any isBreak = breaksAfter false cs := by
  rw [breaksAfter]
  cases cs.getLast? <;> rfl

/-- Writing a character of a line, after the indentation if the line starts here. -/
theorem writeChar_sheet {n : Nat} (hn : 0 < n) (put : Char → List Char) {c : Char}
    (hc : isBreak c = false) {text : List Char} {column : Nat} {blank broken : Bool}
    (hbroken : broken = true → column = 0) :
    ∃ column' blank', writeChar n put (sheet text column blank broken, broken) c =
        (sheet (text ++ ((if broken then List.replicate n ' ' else []) ++ put c)) column' blank' false,
          false) ∧ (blank = true → blank' = true) := by
  cases broken with
  | false =>
    refine ⟨column + (put c).length, blank, ?_, id⟩
    simp [writeChar, hc]
    rfl
  | true =>
    obtain rfl := hbroken rfl
    refine ⟨n + (put c).length, true, ?_, fun _ => rfl⟩
    simp [writeChar, hc, indentTo_fresh (.inl hn)]
    rfl

/-- Writing characters one by one gives `folded`.  A line is fresh after a break. -/
theorem foldl_writeChar {n : Nat} (hn : 0 < n) (put : Char → List Char) (cs : List Char) :
    ∀ (text : List Char) (column : Nat) (blank broken : Bool), (broken = true → column = 0) →
      ∃ column' blank', cs.foldl (writeChar n put) (sheet text column blank broken, broken) =
          (sheet (text ++ folded n put broken cs) column' blank' (breaksAfter broken cs),
            breaksAfter broken cs) ∧
        (breaksAfter broken cs = true → column' = 0) ∧ (blank = true → blank' = true) := by
  induction cs with
  | nil =>
    intro text column blank broken hbroken
    exact ⟨column, blank, by simp [folded, breaksAfter], hbroken, id⟩
  | cons c cs ih =>
    intro text column blank broken hbroken
    rw [breaksAfter_cons, List.foldl_cons, folded]
    cases hc : isBreak c with
    | false =>
      obtain ⟨column₁, blank₁, hstep, hblank₁⟩ := writeChar_sheet hn put hc hbroken
      obtain ⟨column', blank', hfold, hcolumn', hblank'⟩ := ih
        (text ++ ((if broken then List.replicate n ' ' else []) ++ put c)) column₁ blank₁ false
        (fun h => nomatch h)
      refine ⟨column', blank', ?_, hcolumn', fun h => hblank' (hblank₁ h)⟩
      rw [hstep, hfold]
      simp
    | true =>
      have hstep : writeChar n put (sheet text column blank broken, broken) c =
          (sheet (text ++ [c]) 0 blank true, true) := by
        simp [writeChar, hc, putBreak_sheet]
      obtain ⟨column', blank', hfold, hcolumn', hblank'⟩ := ih (text ++ [c]) 0 blank true (fun _ => rfl)
      refine ⟨column', blank', ?_, hcolumn', hblank'⟩
      rw [hstep, hfold]
      simp

section

variable {text : List Char} {column : Nat} {blank fresh : Bool}

/-- Writing a text in single quotes. -/
theorem writeSingle_sheet {n : Nat} (hn : 0 < n) (cs : List Char) :
    ∃ column', writeSingle n cs (sheet text column blank fresh) =
      sheet (text ++ (gapBefore blank ++ scalarText n .singleQuoted cs)) column' false false := by
  obtain ⟨column', blank', hfold, _⟩ := foldl_writeChar hn quoteChar cs
    (text ++ (gapBefore blank ++ ['\''])) (column + (gapBefore blank ++ ['\'']).length) false false
    (fun h => nomatch h)
  refine ⟨column' + 1, ?_⟩
  have hwrite : writeSingle n cs (sheet text column blank fresh) =
      (cs.foldl (writeChar n quoteChar)
        ((sheet text column blank fresh).indicator ['\''] true false false, false)).1.indicator ['\'']
          false false false := rfl
  rw [hwrite, indicator_sheet, Bool.and_false, hfold, close_sheet, Bool.and_false]
  simp [scalarText]

theorem lineEnd_of_ne {style : ScalarStyle} (h : style ≠ .literal) (cs : List Char) :
    lineEnd style cs = ['\n'] := by
  simp [lineEnd, h]

/-- Writing a text that is no literal block. -/
theorem writeText_inline {n : Nat} (hn : 0 < n) {style : ScalarStyle} {cs : List Char}
    (hstyle : style ≠ .literal) (hempty : cs = [] → style ≠ .plain ∧ style ≠ .folded) :
    ∃ column', writeText 2 n style cs (sheet text column blank fresh) =
      sheet (text ++ (gapBefore blank ++ scalarText n style cs)) column' false false := by
  have hplain : cs ≠ [] → ∃ column', (if cs.isEmpty then
        { sheet text column blank fresh with fresh := false }
      else
        { ((if blank then sheet text column blank fresh else
            (sheet text column blank fresh).put [' ']).put cs) with blank := false, fresh := false }) =
      sheet (text ++ (gapBefore blank ++ cs)) column' false false := by
    intro hne
    have hcs : cs.isEmpty = false := by simpa using hne
    rw [hcs, if_neg (by decide)]
    cases blank
    · exact ⟨column + 1 + cs.length, by simp [gapBefore]; rfl⟩
    · exact ⟨column + cs.length, by simp [gapBefore]; rfl⟩
  cases style with
  | singleQuoted => exact writeSingle_sheet hn cs
  | doubleQuoted =>
    refine ⟨column + (gapBefore blank ++ ['"']).length + (Presentation.doubleQuoted cs).length + 1, ?_⟩
    rw [writeText, indicator_sheet, put_sheet, close_sheet, Bool.and_false]
    simp [scalarText]
  | literal => exact absurd rfl hstyle
  | plain => exact hplain fun h => (hempty h).1 rfl
  | folded => exact hplain fun h => (hempty h).2 rfl

/-- Writing a literal block.  Its first line starts on the line behind the header. -/
theorem writeText_literal {n : Nat} (hn : 0 < n) {c : Char} {cs : List Char}
    (hc : isBreak c = false) :
    Wrote (writeText 2 n .literal (c :: cs) (sheet text column blank fresh))
      (text ++ (gapBefore blank ++ scalarLine n .literal (c :: cs))) := by
  obtain ⟨column₁, hheader⟩ : ∃ column₁, ((sheet text column blank fresh).indicator ['|'] true false
      false).put (literalHints 2 (c :: cs)) =
        sheet (text ++ (gapBefore blank ++ '|' :: literalHints 2 (c :: cs))) column₁ false false := by
    refine ⟨column + (gapBefore blank ++ ['|']).length + (literalHints 2 (c :: cs)).length, ?_⟩
    rw [indicator_sheet, put_sheet, Bool.and_false]
    simp
  have hwrite : writeText 2 n .literal (c :: cs) (sheet text column blank fresh) =
      ((c :: cs).foldl (writeChar n fun c => [c])
        ({ (((sheet text column blank fresh).indicator ['|'] true false false).put
          (literalHints 2 (c :: cs))).writeLine n with blank := true }, true)).1 := rfl
  have hfirst : writeChar n (fun c => [c])
      (sheet (text ++ (gapBefore blank ++ '|' :: literalHints 2 (c :: cs))) column₁ true false, true) c =
      (sheet (text ++ (gapBefore blank ++ '|' :: (literalHints 2 (c :: cs) ++
        '\n' :: (List.replicate n ' ' ++ [c])))) (n + 1) true false, false) := by
    simp only [writeChar, hc, Bool.false_eq_true, if_false, if_true, indentTo_stale, put_sheet]
    simp [sheet]
  obtain ⟨column', blank', hfold, hcolumn', hblank'⟩ := foldl_writeChar hn (fun c => [c]) cs
    (text ++ (gapBefore blank ++ '|' :: (literalHints 2 (c :: cs) ++
      '\n' :: (List.replicate n ' ' ++ [c])))) (n + 1) true false (fun h => nomatch h)
  have hblank : blank' = true := hblank' rfl
  have htext : text ++ (gapBefore blank ++ '|' :: (literalHints 2 (c :: cs) ++
      '\n' :: (List.replicate n ' ' ++ [c]))) ++ folded n (fun c => [c]) false cs =
      text ++ (gapBefore blank ++ scalarText n .literal (c :: cs)) := by
    simp [scalarText, folded, hc]
  have hlast : (c :: cs).getLast?.any isBreak = breaksAfter false cs := by
    rw [getLast?_any_isBreak, breaksAfter_cons, hc]
  rw [hwrite, hheader, List.foldl_cons,
    show writeChar n (fun c => [c]) ({ (sheet (text ++ (gapBefore blank ++ '|' ::
      literalHints 2 (c :: cs))) column₁ false false).writeLine n with blank := true }, true) c = _ from
      hfirst, hfold, htext, hblank, scalarLine, lineEnd, hlast]
  -- a break at the end of the text ends the last line, and without one it is still to be ended
  cases hend : breaksAfter false cs
  · have hsplit : text ++ (gapBefore blank ++ (scalarText n .literal (c :: cs) ++ ['\n'])) =
        text ++ (gapBefore blank ++ scalarText n .literal (c :: cs)) ++ ['\n'] := by simp
    rw [if_neg (by simp), hsplit]
    exact .stale column' true
  · rw [if_pos ⟨rfl, rfl⟩, List.append_nil, hcolumn' hend]
    exact .fresh

end

/-! ## Styles -/

/-- The styles that texts have, and what is known of the texts. -/
inductive HasStyle (cs : List Char) (simpleKey : Bool) : ScalarStyle → Prop where
  | plain : cs ≠ [] → Presentation.plainAllowed cs = true → HasStyle cs simpleKey .plain
  | singleQuoted : Presentation.singleAllowed cs = true → cs.contains '\n' = false →
      (simpleKey = true → Presentation.hasBreaks cs = false) → HasStyle cs simpleKey .singleQuoted
  | doubleQuoted : HasStyle cs simpleKey .doubleQuoted
  | literal : simpleKey = false → cs.contains '\n' = true → Presentation.blockAllowed cs = true →
      HasStyle cs simpleKey .literal

theorem hasStyle_textStyle (s : String) (simpleKey : Bool) :
    HasStyle s.toList simpleKey (textStyle s simpleKey) := by
  have hempty : s.toList = [] → Meaning.implicitTag s ≠ "!!str" := by
    intro h
    obtain rfl : s = "" := by simpa using h
    decide
  unfold textStyle Presentation.style
  dsimp only
  split
  · exact .doubleQuoted
  · rename_i hbreaks
    have hbreaks' : simpleKey = true → Presentation.hasBreaks s.toList = false := by
      intro hsimple
      simpa [hsimple] using hbreaks
    split
    · rename_i hnewline
      split
      · rename_i hblock
        simp only [Bool.and_eq_true, Bool.not_eq_true'] at hblock
        exact .literal hblock.2 hnewline hblock.1
      · exact .doubleQuoted
    · rename_i hnewline
      split
      · exact .doubleQuoted
      · rename_i hforced
        split
        · split
          · exact .singleQuoted (by assumption) (by simpa using hnewline) hbreaks'
          · exact .doubleQuoted
        · rename_i hplain
          simp only [Bool.or_eq_true, Bool.not_eq_true', not_or, Bool.not_eq_false] at hplain
          exact .plain (fun h => hforced (by simpa using hempty h)) hplain.1

/-- A legible literal block starts with a character that is no break and no tab. -/
theorem head_of_literal {s : String} (hlegible : legibleText s = true)
    (hnewline : s.toList.contains '\n' = true) (hblock : Presentation.blockAllowed s.toList = true) :
    ∃ c cs, s.toList = c :: cs ∧ isBreak c = false ∧ c ≠ '\t' := by
  simp only [legibleText, startsBadly, hnewline, hblock, Bool.true_and, Bool.and_eq_true,
    Bool.not_eq_true'] at hlegible
  cases hs : s.toList with
  | nil => simp [Presentation.blockAllowed, hs] at hblock
  | cons c cs =>
    have hstart := hlegible.2
    simp only [hs, List.head?_cons, Option.any_some, Bool.or_eq_false_iff, beq_eq_false_iff_ne] at hstart
    exact ⟨c, cs, rfl, hstart.1, hstart.2⟩

theorem hasPair_eq_false {p q : Char → Bool} {cs : List Char} (h : ∀ c ∈ cs, p c = false) :
    Presentation.hasPair p q cs = false := by
  induction cs with
  | nil => rfl
  | cons a cs ih =>
    cases cs with
    | nil => rfl
    | cons b cs =>
      rw [Presentation.hasPair, h a (List.mem_cons_self ..),
        ih fun c hc => h c (List.mem_cons_of_mem _ hc)]
      rfl

theorem endsEarly_eq_false {cs : List Char} (h : ∀ c ∈ cs, c ≠ ':' ∧ c ≠ '#') :
    ∀ previous, Presentation.endsEarly previous cs = false := by
  induction cs with
  | nil => exact fun _ => rfl
  | cons c cs ih =>
    intro previous
    obtain ⟨hcolon, hsign⟩ := h c (List.mem_cons_self ..)
    rw [Presentation.endsEarly, ih fun d hd => h d (List.mem_cons_of_mem _ hd)]
    simp [hcolon, hsign]

theorem isPrintable_of_isWordChar {c : Char} (h : isWordChar c = true) :
    Presentation.isPrintable c = true := by
  have hrange := toNat_of_isWordChar h
  have hascii : 0x20 ≤ c.toNat ∧ c.toNat ≤ 0x7E := by omega
  simp [Presentation.isPrintable, hascii]

theorem IsWord.singleAllowed {w : List Char} (h : IsWord w) :
    Presentation.singleAllowed w = true := by
  have htab : w.contains '\t' = false := by
    simp only [List.contains_eq_mem, decide_eq_false_iff_not]
    exact fun ht => ne_of_isWordChar (h.chars _ ht) (show isWordChar '\t' = false by decide) rfl
  have hspecial : Presentation.hasSpecial w = false := by
    simp only [Presentation.hasSpecial, List.any_eq_false]
    intro c hc
    simp [isPrintable_of_isWordChar (h.chars c hc)]
  have hspaces : ∀ c ∈ w, Presentation.isSpace c = false := by
    intro c hc
    have hspace : c ≠ ' ' := ne_of_isWordChar (h.chars c hc) (by decide)
    simpa [Presentation.isSpace] using hspace
  rw [Presentation.singleAllowed,
    hasPair_eq_false fun c hc => isBreak_of_isWordChar (h.chars c hc), hasPair_eq_false hspaces, htab,
    hspecial]
  rfl

theorem IsWord.not_startsLikeMarker {w : List Char} (h : IsWord w) :
    Presentation.startsLikeMarker w = false := by
  obtain ⟨c, rest, rfl, hc | ⟨rfl, d, more, rfl, hd⟩⟩ := h.start
  · have hdash : '-' ≠ c := by rintro rfl; revert hc; decide
    have hpoint : '.' ≠ c := by rintro rfl; revert hc; decide
    simp [Presentation.startsLikeMarker, List.isPrefixOf, hdash, hpoint]
  · have hdash : '-' ≠ d := by rintro rfl; revert hd; decide
    simp [Presentation.startsLikeMarker, List.isPrefixOf, hdash]

theorem IsWord.not_startsSpecially {w : List Char} (h : IsWord w) :
    Presentation.startsSpecially w = false := by
  obtain ⟨c, rest, rfl, hc⟩ := h.start
  by_contra hstart
  simp only [Presentation.startsSpecially, Bool.not_eq_false, Bool.or_eq_true, Bool.and_eq_true,
    beq_iff_eq] at hstart
  rcases hc with hc | ⟨rfl, d, more, rfl, hd⟩
  · casesm* _ ∨ _, _ ∧ _ <;> (subst c; revert hc; decide)
  · have hblank : isBlank d = false := isBlank_of_isWordChar (h.chars d (by simp))
    simp [Presentation.beforeBlank, hblank] at hstart

/-- Words are written plain. -/
theorem IsWord.plainAllowed {w : List Char} (h : IsWord w) : Presentation.plainAllowed w = true := by
  have hspaces : ∀ c ∈ w, c ≠ ' ' := fun c hc => ne_of_isWordChar (h.chars c hc) (by decide)
  have hlines : Presentation.hasBreaks w = false := by
    simp only [Presentation.hasBreaks, List.any_eq_false]
    intro c hc
    simp [isBreak_of_isWordChar (h.chars c hc)]
  have hsingle := h.singleAllowed
  have hmarker := h.not_startsLikeMarker
  have hspecially := h.not_startsSpecially
  obtain ⟨c, rest, rfl, -⟩ := h.start
  have hearly : Presentation.endsEarly c rest = false := by
    refine endsEarly_eq_false (fun d hd => ?_) c
    have hd' := h.chars d (List.mem_cons_of_mem _ hd)
    exact ⟨ne_of_isWordChar hd' (by decide), ne_of_isWordChar hd' (by decide)⟩
  have hlast : (c :: rest).getLast? ≠ some ' ' := by
    intro hlast
    exact hspaces ' ' (List.mem_of_getLast? hlast) rfl
  have hfirst := hspaces c (List.mem_cons_self ..)
  simp only [Presentation.plainAllowed, hsingle, hlines, hmarker, hspecially, hearly, Bool.not_false,
    Bool.and_self, Bool.true_and, Bool.and_eq_true, bne_iff_ne]
  exact ⟨hfirst, hlast⟩

/-! ## Writing nodes -/

theorem inner_level (level top : Nat) (b : Bool) :
    (⟨some (2 * level), b⟩ : Place).inner 2 top = 2 * (level + 1) := by
  cases b
  · simp only [Place.inner, Bool.false_eq_true, if_false]
    omega
  · rfl

theorem scalarTag_string (s : String) :
    Presentation.scalarTag "!!str" s =
      if Meaning.implicitTag s = "!!str" then .implied else .byQuotes := by
  rw [Presentation.scalarTag]
  split_ifs <;> simp_all

theorem writeScalar_string {place : Place} {n line : Nat} {simpleKey : Bool} {p : Page} (s : String)
    (hinner : place.inner 2 2 = n) :
    writeScalar 2 place simpleKey ⟨line, none, "!!str", {}⟩ s p =
      writeText 2 n (textStyle s simpleKey) s.toList p := by
  have hforced : decide (Presentation.scalarTag "!!str" s = .byQuotes) =
      decide (Meaning.implicitTag s ≠ "!!str") := by
    rw [scalarTag_string]
    split_ifs with h <;> simp [h]
  have htag : writeTag (Presentation.scalarTag "!!str" s) p = p := by
    rw [scalarTag_string]
    split_ifs <;> rfl
  rw [writeScalar]
  dsimp only
  rw [hforced, hinner]
  exact congrArg _ htag

theorem writeScalar_word {place : Place} {n line : Nat} {p : Page} {s : String}
    (hinner : place.inner 2 2 = n) (hword : IsWord s.toList) :
    writeScalar 2 place false ⟨line, none, Meaning.implicitTag s, {}⟩ s p =
      writeText 2 n .plain s.toList p := by
  have htag : Presentation.scalarTag (Meaning.implicitTag s) s = .implied := by
    simp [Presentation.scalarTag]
  have hstyle : Presentation.style s.toList false false = .plain := by
    have hnewline : '\n' ∉ s.toList :=
      fun h => ne_of_isWordChar (hword.chars _ h) (show isWordChar '\n' = false by decide) rfl
    simp [Presentation.style, hnewline, hword.plainAllowed]
  rw [writeScalar]
  dsimp only
  rw [htag, hinner]
  exact congrArg (fun style => writeText 2 n style s.toList p) hstyle

/-- Writes a node where no comments are. -/
def writeNode (place : Place) (node : Node) (p : Page) : Page :=
  writeContent 2 place node (writeStart 2 place false node p)

theorem Wrote.of_append (line : List Char) {p : Page} {text lead : List Char}
    (h : ∃ column blank, p = sheet (text ++ (lead ++ line)) column blank false) :
    Wrote p (text ++ (lead ++ (line ++ ['\n']))) := by
  obtain ⟨column, blank, rfl⟩ := h
  have hsplit : text ++ (lead ++ (line ++ ['\n'])) = text ++ (lead ++ line) ++ ['\n'] := by simp
  rw [hsplit]
  exact .stale column blank

section

variable {text : List Char} {column : Nat} {blank fresh : Bool} {level line : Nat} {b : Bool}

theorem wrote_word {s : String} {w : List Char} (hs : s.toList = w) (hword : IsWord w) :
    Wrote (writeNode ⟨some (2 * level), b⟩ (.scalar ⟨line, none, Meaning.implicitTag s, {}⟩ s)
      (sheet text column false fresh)) (text ++ ' ' :: (w ++ ['\n'])) := by
  subst hs
  have hne : s.toList = [] → ScalarStyle.plain ≠ .plain ∧ ScalarStyle.plain ≠ .folded := by
    intro h
    obtain ⟨c, rest, heq, _⟩ := hword.start
    rw [h] at heq
    cases heq
  have hwrite : ∃ column', writeText 2 (2 * (level + 1)) .plain s.toList
      (sheet text column false fresh) = sheet (text ++ ([' '] ++ s.toList)) column' false false :=
    writeText_inline (by omega) (by decide) hne
  obtain ⟨column', hwrite⟩ := hwrite
  exact Wrote.of_append _ ⟨column', false, (writeScalar_word (inner_level level 2 b) hword).trans hwrite⟩

theorem wrote_text {s : String} (hlegible : legibleText s = true) {style : ScalarStyle}
    (hstyle : HasStyle s.toList false style) :
    Wrote (writeText 2 (2 * (level + 1)) style s.toList (sheet text column blank fresh))
      (text ++ (gapBefore blank ++ scalarLine (2 * (level + 1)) style s.toList)) := by
  have hinline : style ≠ .literal → (s.toList = [] → style ≠ .plain ∧ style ≠ .folded) →
      Wrote (writeText 2 (2 * (level + 1)) style s.toList (sheet text column blank fresh))
        (text ++ (gapBefore blank ++ scalarLine (2 * (level + 1)) style s.toList)) := by
    intro hliteral hempty
    have hwrite : ∃ column', writeText 2 (2 * (level + 1)) style s.toList
        (sheet text column blank fresh) =
          sheet (text ++ (gapBefore blank ++ scalarText (2 * (level + 1)) style s.toList)) column' false
            false := writeText_inline (by omega) hliteral hempty
    obtain ⟨column', hwrite⟩ := hwrite
    rw [scalarLine, lineEnd_of_ne hliteral]
    exact Wrote.of_append _ ⟨column', false, hwrite⟩
  cases hstyle with
  | plain hne _ => exact hinline (by decide) fun h => absurd h hne
  | singleQuoted _ _ _ => exact hinline (by decide) fun _ => by decide
  | doubleQuoted => exact hinline (by decide) fun _ => by decide
  | literal _ hnewline hblock =>
    obtain ⟨c, cs, heq, hc, _⟩ := head_of_literal hlegible hnewline hblock
    rw [heq]
    exact writeText_literal (by omega) hc

theorem wrote_scalar {node : Node} {j : Json} (hmeans : Says node j) (hdepth : depth j = 0)
    (hlegible : legible j = true) (hfinite : j.unsupported? = none) :
    Wrote (writeNode ⟨some (2 * level), b⟩ node (sheet text column false fresh))
      (text ++ ' ' :: blockText (level + 1) j) := by
  cases hmeans with
  | null => exact wrote_word rfl isWord_null
  | @bool _ b' =>
    cases b'
    · exact wrote_word rfl (isWord_bool false)
    · exact wrote_word rfl (isWord_bool true)
  | int => exact wrote_word String.toList_ofList (isWord_intText _)
  | float =>
    rename_i x
    have hx : x.isFinite = true := by simpa [unsupported?] using hfinite
    exact wrote_word rfl (isWord_render hx)
  | @string line s =>
    have hwrite : writeNode ⟨some (2 * level), b⟩ (.scalar ⟨line, none, "!!str", {}⟩ s)
        (sheet text column false fresh) =
          writeText 2 (2 * (level + 1)) (textStyle s false) s.toList (sheet text column false fresh) :=
      writeScalar_string s (inner_level level 2 b)
    rw [hwrite]
    exact wrote_text hlegible (hasStyle_textStyle s false)
  | array _ => simp [depth] at hdepth
  | object _ => simp [depth] at hdepth

end

/-! ## Pages on which no comment waits -/

/-- A page without comments. -/
def Quiet (p : Page) : Prop :=
  ∃ text column blank fresh, p = sheet text column blank fresh

theorem quiet_sheet (text : List Char) (column : Nat) (blank fresh : Bool) :
    Quiet (sheet text column blank fresh) :=
  ⟨text, column, blank, fresh, rfl⟩

theorem Wrote.quiet {p : Page} {text : List Char} (h : Wrote p text) : Quiet p := by
  cases h with
  | stale column blank => exact quiet_sheet _ _ _ _
  | fresh => exact quiet_sheet _ _ _ _

section

variable {p : Page} {node : Node} {j : Json}

theorem Quiet.writeHead (h : Quiet p) (n : Nat) : p.writeHead n = p := by
  obtain ⟨_, _, _, _, rfl⟩ := h
  rfl

theorem Quiet.writeLine (h : Quiet p) (n : Nat) : p.writeLine n = p := by
  obtain ⟨_, _, _, _, rfl⟩ := h
  rfl

theorem Quiet.writeFoot (h : Quiet p) (n : Nat) : p.writeFoot n = p := by
  obtain ⟨_, _, _, _, rfl⟩ := h
  rfl

theorem Quiet.noteStart (h : Quiet p) (hmeans : Says node j) : noteStart [] node p = p := by
  obtain ⟨_, _, _, _, rfl⟩ := h
  cases hmeans <;> rfl

theorem Quiet.noteEnd (h : Quiet p) (line : Nat) (tag : String) :
    noteEnd ⟨line, none, tag, {}⟩ [] p = p := by
  obtain ⟨_, _, _, _, rfl⟩ := h
  rfl

theorem Quiet.keepBehindKey (h : Quiet p) : keepBehindKey p = p := by
  obtain ⟨_, _, _, _, rfl⟩ := h
  rfl

theorem Quiet.writeBehindKey (h : Quiet p) (n : Nat) (value : Node) :
    writeBehindKey n value p = p := by
  obtain ⟨_, _, _, _, rfl⟩ := h
  rfl

end

section

variable {text : List Char} {column : Nat} {blank fresh : Bool} {level : Nat} {b : Bool} {node : Node}
  {j : Json}

/-- What is written before the content of a node. -/
theorem quiet_writeStart (hmeans : Says node j) (hlegible : legible j = true)
    (hfinite : j.unsupported? = none) :
    Quiet (writeStart 2 ⟨some (2 * level), b⟩ false node (sheet text column false fresh)) := by
  by_cases hdepth : depth j = 0
  · have hquiet : Quiet (writeNode ⟨some (2 * level), b⟩ node (sheet text column false fresh)) :=
      (wrote_scalar hmeans hdepth hlegible hfinite).quiet
    cases hmeans with
    | array _ => simp [depth] at hdepth
    | object _ => simp [depth] at hdepth
    | _ => exact hquiet
  · cases hmeans with
    | array _ => exact quiet_sheet _ _ _ _
    | object _ => exact quiet_sheet _ _ _ _
    | _ => exact absurd rfl hdepth

/-- An item after its dash. -/
theorem writeItems_cons {p : Page} {nodes : List Node} (hp : Quiet p)
    (hindent : p.indentTo (2 * level) = sheet text (2 * level) true true) (hmeans : Says node j)
    (hlegible : legible j = true) (hfinite : j.unsupported? = none) :
    writeItems 2 (2 * level) (node :: nodes) p =
      writeItems 2 (2 * level) nodes
        (writeNode ⟨some (2 * level), true⟩ node (sheet (text ++ ['-']) (2 * level + 1) false true)) := by
  have hdash : (sheet text (2 * level) true true).indicator ['-'] true false true =
      sheet (text ++ ['-']) (2 * level + 1) false true := indicator_sheet ['-'] false true
  have hstart : Quiet (writeStart 2 ⟨some (2 * level), true⟩ false node
      (sheet (text ++ ['-']) (2 * level + 1) false true)) := quiet_writeStart hmeans hlegible hfinite
  rw [writeItems, hp.noteStart hmeans, hp.writeHead, hindent, hdash, hstart.writeLine, hstart.writeFoot]
  rfl

/-- The gap between what stands before a value and the value. -/
def lead (level : Nat) (opens fresh : Bool) : List Char :=
  if opens && !fresh then '\n' :: indentation (level + 1) else [' ']

/-- The block of a value starts in the next column, on the same line or on a new one. -/
theorem indentTo_lead (hfresh : fresh = true → column = 2 * level + 1) :
    (sheet text column false fresh).indentTo (2 * (level + 1)) =
      sheet (text ++ lead level true fresh) (2 * (level + 1)) true true := by
  cases fresh
  · exact indentTo_stale _
  · obtain rfl := hfresh rfl
    rw [indentTo_fresh (.inl (by omega))]
    have hone : 2 * (level + 1) - (2 * level + 1) = 1 := by omega
    rw [hone]
    rfl

theorem writeContent_scalar (place : Place) (h : Header) (s : String) (p : Page) :
    writeContent 2 place (.scalar h s) p = p := by
  simp [writeContent]

theorem isSimpleKey_eq (line : Nat) (name : String) :
    Printer.isSimpleKey (.scalar ⟨line, none, "!!str", {}⟩ name) = isSimpleKey name := by
  have hsize : propertiesSize none (Presentation.scalarTag "!!str" name) = 0 := by
    rw [scalarTag_string]
    split_ifs <;> rfl
  simp [Printer.isSimpleKey, isSimpleKey, hsize]

/-- What follows the colon does not depend on how the key was written. -/
theorem writeContent_behindKey (hmeans : Says node j) (hlegible : legible j = true)
    (hfinite : j.unsupported? = none) :
    writeContent 2 ⟨some (2 * level), false⟩ node
        (((writeStart 2 ⟨some (2 * level), false⟩ false node
          (writeBehindKey (2 * level) node (sheet text column false fresh))).writeLine
            (2 * level)).writeFoot (2 * level)) =
      writeNode ⟨some (2 * level), false⟩ node (sheet text column false fresh) := by
  have hstart : Quiet (writeStart 2 ⟨some (2 * level), false⟩ false node
      (sheet text column false fresh)) := quiet_writeStart hmeans hlegible hfinite
  rw [(quiet_sheet _ _ _ _).writeBehindKey, hstart.writeLine, hstart.writeFoot]
  rfl

theorem HasStyle.ne_literal {cs : List Char} {style : ScalarStyle} (h : HasStyle cs true style) :
    style ≠ .literal := by
  rintro rfl
  cases h with
  | literal hsimple _ _ => cases hsimple

theorem HasStyle.of_nil {simpleKey : Bool} {style : ScalarStyle} (h : HasStyle [] simpleKey style) :
    style ≠ .plain ∧ style ≠ .folded := by
  cases h with
  | plain hne _ => exact absurd rfl hne
  | _ => decide

section

variable {p : Page} {name : String} {line line' : Nat} {tag : String} {entries : List (Node × Node)}

/-- A key that stands behind a question mark and has lines of its own. -/
theorem writeEntries_longKey (hp : Quiet p)
    (hindent : p.indentTo (2 * level) = sheet text (2 * level) true true)
    (hname : legibleText name = true) (hlong : isSimpleKey name = false) (hmeans : Says node j)
    (hlegible : legible j = true) (hfinite : j.unsupported? = none) :
    writeEntries 2 (2 * level) ⟨line, none, tag, {}⟩ []
        ((.scalar ⟨line', none, "!!str", {}⟩ name, node) :: entries) p =
      writeEntries 2 (2 * level) ⟨line, none, tag, {}⟩ [] entries
        (writeNode ⟨some (2 * level), false⟩ node
          (sheet (text ++ '?' :: ' ' :: (scalarLine (2 * (level + 1)) (textStyle name false) name.toList ++
            (indentation level ++ [':']))) (2 * level + 1) false true)) := by
  have hkey : Node.withFoot [] (.scalar ⟨line', none, "!!str", {}⟩ name) =
      .scalar ⟨line', none, "!!str", {}⟩ name := rfl
  have hmark : (sheet text (2 * level) true true).indicator ['?'] true false true =
      sheet (text ++ ['?']) (2 * level + 1) false true := indicator_sheet ['?'] false true
  have hwrite : writeStart 2 ⟨some (2 * level), false⟩ false (.scalar ⟨line', none, "!!str", {}⟩ name)
      (sheet (text ++ ['?']) (2 * level + 1) false true) =
        writeText 2 (2 * (level + 1)) (textStyle name false) name.toList
          (sheet (text ++ ['?']) (2 * level + 1) false true) :=
    writeScalar_string name (inner_level level 2 false)
  have hwrote : Wrote (writeText 2 (2 * (level + 1)) (textStyle name false) name.toList
      (sheet (text ++ ['?']) (2 * level + 1) false true))
      (text ++ ['?'] ++ (' ' :: scalarLine (2 * (level + 1)) (textStyle name false) name.toList)) :=
    wrote_text hname (hasStyle_textStyle name false)
  -- the colon stands on a line of its own, in the column of the question mark
  have hcolon : (sheet (text ++ ['?'] ++ (' ' :: scalarLine (2 * (level + 1)) (textStyle name false)
      name.toList) ++ List.replicate (2 * level) ' ') (2 * level) true true).indicator [':'] true false
        true =
      sheet (text ++ '?' :: ' ' :: (scalarLine (2 * (level + 1)) (textStyle name false) name.toList ++
        (indentation level ++ [':']))) (2 * level + 1) false true := by
    rw [indicator_sheet]
    simp [gapBefore, indentation]
  rw [writeEntries, hkey, hp.noteStart .string, hp.writeHead, hindent,
    (quiet_sheet text (2 * level) true true).keepBehindKey, isSimpleKey_eq, hlong]
  simp only [Bool.false_eq_true, if_false]
  rw [hmark, hwrite, writeContent_scalar, hwrote.quiet.noteStart hmeans, hwrote.indentTo, hcolon,
    writeContent_behindKey hmeans hlegible hfinite]
  rfl

/-- A key on the line of its colon. -/
theorem writeEntries_simpleKey (hp : Quiet p)
    (hindent : p.indentTo (2 * level) = sheet text (2 * level) true true)
    (hsimple : isSimpleKey name = true) (hmeans : Says node j) (hlegible : legible j = true)
    (hfinite : j.unsupported? = none) :
    ∃ column, writeEntries 2 (2 * level) ⟨line, none, tag, {}⟩ []
        ((.scalar ⟨line', none, "!!str", {}⟩ name, node) :: entries) p =
      writeEntries 2 (2 * level) ⟨line, none, tag, {}⟩ [] entries
        (writeNode ⟨some (2 * level), false⟩ node
          (sheet (text ++ (scalarText (2 * (level + 1)) (textStyle name true) name.toList ++ [':'])) column
            false false)) := by
  have hkey : Node.withFoot [] (.scalar ⟨line', none, "!!str", {}⟩ name) =
      .scalar ⟨line', none, "!!str", {}⟩ name := rfl
  have hstyle := hasStyle_textStyle name true
  have hempty : name.toList = [] → textStyle name true ≠ .plain ∧ textStyle name true ≠ .folded := by
    intro h
    rw [h] at hstyle
    exact hstyle.of_nil
  have hwrite : writeStart 2 ⟨some (2 * level), false⟩ true (.scalar ⟨line', none, "!!str", {}⟩ name)
      (sheet text (2 * level) true true) =
        writeText 2 (2 * (level + 1)) (textStyle name true) name.toList
          (sheet text (2 * level) true true) :=
    writeScalar_string name (inner_level level 2 false)
  have hinline : ∃ column, writeText 2 (2 * (level + 1)) (textStyle name true) name.toList
      (sheet text (2 * level) true true) =
        sheet (text ++ ([] ++ scalarText (2 * (level + 1)) (textStyle name true) name.toList)) column
          false false := writeText_inline (by omega) hstyle.ne_literal hempty
  obtain ⟨column, hinline⟩ := hinline
  refine ⟨column + 1, ?_⟩
  rw [writeEntries, hkey, hp.noteStart .string, hp.writeHead, hindent,
    (quiet_sheet text (2 * level) true true).keepBehindKey, isSimpleKey_eq, hsimple]
  simp only [if_true, isAlias, Bool.false_eq_true, if_false]
  rw [hwrite, hinline, writeContent_scalar, (quiet_sheet _ _ _ _).noteStart hmeans, close_sheet,
    List.nil_append, List.append_assoc, Bool.false_and,
    show [':'].length = 1 from rfl, writeContent_behindKey hmeans hlegible hfinite]
  rfl

/-- A key and its colon, before the value. -/
theorem writeEntries_cons (hp : Quiet p)
    (hindent : p.indentTo (2 * level) = sheet text (2 * level) true true)
    (hname : legibleText name = true) (hmeans : Says node j) (hlegible : legible j = true)
    (hfinite : j.unsupported? = none) :
    ∃ column fresh key, (fresh = true → column = 2 * level + 1) ∧
      (∀ opens, key ++ lead level opens fresh = keyText level name opens) ∧
      writeEntries 2 (2 * level) ⟨line, none, tag, {}⟩ []
          ((.scalar ⟨line', none, "!!str", {}⟩ name, node) :: entries) p =
        writeEntries 2 (2 * level) ⟨line, none, tag, {}⟩ [] entries
          (writeNode ⟨some (2 * level), false⟩ node (sheet (text ++ key) column false fresh)) := by
  cases hsimple : isSimpleKey name with
  | false =>
    refine ⟨_, true, _, fun _ => rfl, ?_,
      writeEntries_longKey hp hindent hname hsimple hmeans hlegible hfinite⟩
    intro opens
    simp [lead, keyText, hsimple]
  | true =>
    obtain ⟨column, hwrite⟩ := writeEntries_simpleKey hp hindent hsimple hmeans hlegible hfinite
    refine ⟨column, false, _, (fun h => nomatch h), ?_, hwrite⟩
    intro opens
    simp [lead, keyText, hsimple]

end

end

theorem writeStart_sequence (place : Place) (line : Nat) (nodes : List Node) (p : Page) :
    writeStart 2 place false (.sequence ⟨line, none, "!!seq", {}⟩ nodes) p = p := by
  simp [writeStart, Presentation.collectionTag, writeTag, writeAnchor?]

theorem writeStart_mapping (place : Place) (line : Nat) (entries : List (Node × Node)) (p : Page) :
    writeStart 2 place false (.mapping ⟨line, none, "!!map", {}⟩ entries) p = p := by
  simp [writeStart, Presentation.collectionTag, writeTag, writeAnchor?]

section

variable {text : List Char} {column line : Nat} {fresh : Bool}

theorem wrote_noItems (place : Place) :
    Wrote (writeNode place (.sequence ⟨line, none, "!!seq", {}⟩ []) (sheet text column false fresh))
      (text ++ ([' '] ++ ['[', ']', '\n'])) := by
  refine Wrote.of_append ['[', ']'] ⟨column + 3, false, ?_⟩
  rw [writeNode, writeStart_sequence, writeContent, writeNoItems,
    (quiet_sheet _ _ _ _).noteEnd, indicator_sheet, close_sheet, (quiet_sheet _ _ _ _).writeLine,
    (quiet_sheet _ _ _ _).writeFoot]
  simp [gapBefore]

theorem wrote_noEntries (place : Place) :
    Wrote (writeNode place (.mapping ⟨line, none, "!!map", {}⟩ []) (sheet text column false fresh))
      (text ++ ([' '] ++ ['\x7b', '\x7d', '\n'])) := by
  refine Wrote.of_append ['\x7b', '\x7d'] ⟨column + 3, false, ?_⟩
  rw [writeNode, writeStart_mapping, writeContent, writeNoEntries,
    (quiet_sheet _ _ _ _).noteEnd, indicator_sheet, (quiet_sheet _ _ _ _).writeHead, close_sheet,
    (quiet_sheet _ _ _ _).writeLine, (quiet_sheet _ _ _ _).writeFoot]
  simp [gapBefore]

end

theorem itemsText_cons (level : Nat) (item : Json) (items : List Json) :
    itemsText level (item :: items) = indentation level ++ blockText level (.array (item :: items)) := by
  simp [itemsText, blockText]

theorem membersText_cons (level : Nat) (name : String) (value : Json)
    (members : List (String × Json)) :
    membersText level ((name, value) :: members) =
      indentation level ++ blockText level (.object ((name, value) :: members)) := by
  simp [membersText, blockText]

mutual

/-- Writing a value behind a key or a dash. -/
theorem wrote_value (j : Json) {node : Node} (hmeans : Says node j) (text : List Char)
    (level column : Nat) (b fresh : Bool) (hfresh : fresh = true → column = 2 * level + 1)
    (hlegible : legible j = true) (hfinite : j.unsupported? = none) :
    Wrote (writeNode ⟨some (2 * level), b⟩ node (sheet text column false fresh))
      (text ++ (lead level (opensBlock j) fresh ++ blockText (level + 1) j)) := by
  have hscalar : depth j = 0 → opensBlock j = false →
      Wrote (writeNode ⟨some (2 * level), b⟩ node (sheet text column false fresh))
        (text ++ (lead level (opensBlock j) fresh ++ blockText (level + 1) j)) := by
    intro hdepth hopens
    rw [hopens]
    exact wrote_scalar hmeans hdepth hlegible hfinite
  have hquiet := quiet_sheet text column false fresh
  have hindent : (sheet text column false fresh).indentTo (2 * (level + 1)) = _ := indentTo_lead hfresh
  cases j with
  | null => exact hscalar rfl rfl
  | bool b => exact hscalar rfl rfl
  | int i => exact hscalar rfl rfl
  | float x => exact hscalar rfl rfl
  | string s => exact hscalar rfl rfl
  | array items =>
    cases hmeans with
    | @array line nodes _ hitems =>
      cases items with
      | nil =>
        cases hitems
        exact wrote_noItems _
      | cons item items =>
        have hwrote := wrote_items (item :: items) hitems _ (level + 1) hquiet hindent (by simp) hlegible
          hfinite
        rw [List.append_assoc] at hwrote
        cases hitems with
        | cons hitem hitems =>
          rw [writeNode, writeStart_sequence, writeContent, inner_level, hwrote.quiet.noteEnd]
          exact hwrote
  | object members =>
    cases hmeans with
    | @object line entries _ hmembers =>
      rcases members with _ | ⟨⟨name, value⟩, members⟩
      · cases hmembers
        exact wrote_noEntries _
      · have hwrote := wrote_members ((name, value) :: members) hmembers _ (level + 1) line "!!map"
          hquiet hindent (by simp) hlegible hfinite
        rw [List.append_assoc] at hwrote
        cases hmembers with
        | cons hkey hvalue hmembers =>
          rw [writeNode, writeStart_mapping, writeContent, inner_level]
          exact hwrote

/-- Writing the items of a list, the first of them where the page is. -/
theorem wrote_items (items : List Json) {nodes : List Node} (hmeans : SaysItems nodes items) {p : Page}
    (text : List Char) (level : Nat) (hp : Quiet p)
    (hindent : p.indentTo (2 * level) = sheet text (2 * level) true true) (hne : items ≠ [])
    (hlegible : legibleItems items = true) (hfinite : unsupportedItem? items = none) :
    Wrote (writeItems 2 (2 * level) nodes p) (text ++ blockText level (.array items)) := by
  cases items with
  | nil => exact absurd rfl hne
  | cons item items =>
    cases hmeans with
    | cons hitem hitems =>
      simp only [legibleItems, Bool.and_eq_true] at hlegible
      simp only [unsupportedItem?, Option.or_eq_none_iff] at hfinite
      rw [writeItems_cons hp hindent hitem hlegible.1 hfinite.1]
      have hvalue := wrote_value item hitem (text ++ ['-']) level (2 * level + 1) true true
        (fun _ => rfl) hlegible.1 hfinite.1
      have htext : text ++ ['-'] ++ (lead level (opensBlock item) true ++ blockText (level + 1) item) =
          text ++ '-' :: ' ' :: blockText (level + 1) item := by simp [lead]
      rw [htext] at hvalue
      cases items with
      | nil =>
        cases hitems
        simpa [writeItems, blockText, itemsText] using hvalue
      | cons item' items =>
        have hmore := wrote_items (item' :: items) hitems _ level hvalue.quiet (hvalue.indentTo _)
          (by simp) hlegible.2 hfinite.2
        rw [blockText, itemsText_cons]
        simpa [indentation] using hmore

/-- Writing the entries of a mapping, the first of them where the page is. -/
theorem wrote_members (members : List (String × Json)) {entries : List (Node × Node)}
    (hmeans : SaysMembers entries members) {p : Page} (text : List Char) (level line : Nat)
    (tag : String) (hp : Quiet p)
    (hindent : p.indentTo (2 * level) = sheet text (2 * level) true true) (hne : members ≠ [])
    (hlegible : legibleMembers members = true) (hfinite : unsupportedMember? members = none) :
    Wrote (writeEntries 2 (2 * level) ⟨line, none, tag, {}⟩ [] entries p)
      (text ++ blockText level (.object members)) := by
  rcases members with _ | ⟨⟨name, value⟩, members⟩
  · exact absurd rfl hne
  · cases hmeans with
    | @cons _ node _ _ entries _ hkey hvalue hmembers =>
      simp only [legibleMembers, legibleKey, Bool.and_eq_true] at hlegible
      simp only [unsupportedMember?, Option.or_eq_none_iff] at hfinite
      cases hkey with
      | @string line' =>
        obtain ⟨column, fresh, key, hfresh, hkey, hwrite⟩ := writeEntries_cons hp hindent
          hlegible.1.1.1 hvalue hlegible.1.2 hfinite.1
        rw [hwrite]
        have hwrote := wrote_value value hvalue (text ++ key) level column false fresh hfresh
          hlegible.1.2 hfinite.1
        have htext : text ++ key ++ (lead level (opensBlock value) fresh ++ blockText (level + 1) value) =
            text ++ (keyText level name (opensBlock value) ++ blockText (level + 1) value) := by
          rw [← hkey]
          simp
        rw [htext] at hwrote
        rcases members with _ | ⟨⟨name', value'⟩, members⟩
        · cases hmembers
          rw [writeEntries, hwrote.quiet.noteEnd, hwrote.quiet.writeHead]
          simpa [blockText, membersText] using hwrote
        · have hmore := wrote_members ((name', value') :: members) hmembers _ level line tag
            hwrote.quiet (hwrote.indentTo _) (by simp) hlegible.2 hfinite.2
          rw [blockText, membersText_cons]
          simpa [indentation] using hmore

end

/-- At the end of a document without comments below it only the last line is ended. -/
theorem Wrote.toString_end {p : Page} {text : List Char} (h : Wrote p text) :
    (({ (({ p.note { foot := [] } [] with footColumn := some 0 } : Page).writeFoot 0) with
      footColumn := none } : Page).indentTo 0).toString = String.ofList text := by
  have hsame : ({ (({ p.note { foot := [] } [] with footColumn := some 0 } : Page).writeFoot 0) with
      footColumn := none } : Page) = p := by
    obtain ⟨_, _, _, _, rfl⟩ := h.quiet
    rfl
  rw [hsame, h.indentTo]
  simp [Page.toString, sheet]

/-- Writing the root of a document, an array or object with something in it. -/
theorem wrote_root {root : Node} {j : Json} (h : Says root j) (hopens : opensBlock j = true)
    (hlegible : legible j = true) (hfinite : j.unsupported? = none) :
    Wrote (writeContent 2 ⟨none, false⟩ root {}) (blockText 0 j) := by
  have hpage : Quiet ({} : Page) := quiet_sheet [] 0 true true
  have hindent : ({} : Page).indentTo (2 * 0) = sheet [] (2 * 0) true true := rfl
  cases h with
  | @array line nodes items hitems =>
    cases hitems with
    | nil => cases hopens
    | @cons node item nodes items hitem hitems =>
      have hwrote := wrote_items (item :: items) (.cons hitem hitems) [] 0 hpage hindent (by simp)
        hlegible hfinite
      rw [writeContent]
      exact (hwrote.quiet.noteEnd line "!!seq").symm ▸ hwrote
  | @object line entries members hmembers =>
    cases hmembers with
    | nil => cases hopens
    | @cons key value name item entries members hkey hvalue hmembers =>
      rw [writeContent]
      exact wrote_members ((name, item) :: members) (.cons hkey hvalue hmembers) [] 0 line "!!map"
        hpage hindent (by simp) hlegible hfinite
  | _ => cases hopens

/-- Writing a document that says an array or object with something in it. -/
theorem render_says {d : Document} {j : Json} (h : SaysDocument d j) (hopens : opensBlock j = true)
    (hlegible : legible j = true) (hfinite : j.unsupported? = none) :
    d.render 2 = String.ofList (blockText 0 j) := by
  obtain ⟨root, scope, head, foot⟩ := d
  obtain ⟨hroot, rfl, rfl⟩ := h
  have hpage : Quiet ({} : Page) := quiet_sheet [] 0 true true
  -- nothing is written before the content of the root
  have hstart : ((writeStart 2 ⟨none, false⟩ false root ((noteStart [] root {}).writeHead 0)).writeLine
      0).writeFoot 0 = {} := by
    rw [hpage.noteStart hroot, hpage.writeHead]
    cases hroot with
    | array _ => rw [writeStart_sequence]; rfl
    | object _ => rw [writeStart_mapping]; rfl
    | _ => cases hopens
  have hrender : Document.render 2 ⟨root, scope, [], []⟩ =
      (({ (({ (writeContent 2 ⟨none, false⟩ root
        (((writeStart 2 ⟨none, false⟩ false root ((noteStart [] root {}).writeHead 0)).writeLine
          0).writeFoot 0)).note { foot := [] } [] with footColumn := some 0 } : Page).writeFoot 0) with
            footColumn := none } : Page).indentTo 0).toString := rfl
  rw [hrender, hstart]
  exact (wrote_root hroot hopens hlegible hfinite).toString_end

end StackIr.Json
