import StackIr.Proofs.Yaml.Gap
import StackIr.Yaml.Token.Block

/-! # Literal blocks

    `Lines` relates the lines of a text to how they stand in a literal block: every line but
    an empty one is indented.  The main statement says that reading a literal block gives the
    lines back, and of the breaks at their end what the header asks for. -/

namespace StackIr.Yaml.Block

/-- The lines of a text from behind the indentation of the first: what comes before the breaks
    at the end, the first of these breaks, the others, and how all of it is written. -/
inductive Lines (n : Nat) : (core : List Char) → (ending : Char) → (breaks body : List Char) → Prop where
  | last {line : List Char} {ending : Char} {breaks : List Char} : line ≠ [] →
      (∀ x ∈ line, isBreak x = false) → isOwnBreak ending = true →
      (∀ x ∈ breaks, isOwnBreak x = true) → Lines n line ending breaks (line ++ ending :: breaks)
  | cons {line : List Char} {b : Char} {empty core : List Char} {ending : Char}
      {breaks body : List Char} : line ≠ [] → (∀ x ∈ line, isBreak x = false) →
      isOwnBreak b = true → (∀ x ∈ empty, isOwnBreak x = true) → Lines n core ending breaks body →
      Lines n (line ++ b :: (empty ++ core)) ending breaks
        (line ++ b :: (empty ++ (List.replicate n ' ' ++ body)))

/-- What may stand behind the indentation of a line when `k` of `n` columns are there: text
    that does not go on with a gap, or any character of a line that is indented enough. -/
def After (n k : Nat) (rest : List Char) : Prop :=
  Gap.EndsAt rest ∧ k < n ∨ k = n ∧ ∃ x xs, rest = x :: xs ∧ isBreak x = false

theorem Lines.after {n : Nat} {core breaks body : List Char} {ending : Char}
    (h : Lines n core ending breaks body) (rest : List Char) : After n n (body ++ rest) := by
  have hline : ∀ {line more : List Char}, line ≠ [] → (∀ x ∈ line, isBreak x = false) →
      After n n (line ++ more) := by
    intro line more hne hline
    obtain ⟨x, xs, rfl⟩ := List.exists_cons_of_ne_nil hne
    exact .inr ⟨rfl, x, xs ++ more, rfl, hline x (by simp)⟩
  cases h with
  | last hne hl _ _ => rw [List.append_assoc]; exact hline hne hl
  | cons hne hl _ _ _ => rw [List.append_assoc]; exact hline hne hl

theorem After.not_break {n k : Nat} {rest : List Char} (h : After n k rest) :
    ∀ x ∈ rest.head?, isBreak x = false := by
  rcases h with ⟨hend, -⟩ | ⟨-, x, xs, rfl, hx⟩
  · exact fun x hx => (hend x hx).2
  · intro y hy
    obtain rfl : x = y := by simpa using hy
    exact hx

/-- Indentation is passed over up to the column of the block. -/
theorem After.min_spaces {n k : Nat} {rest : List Char} (h : After n k rest) :
    min ((List.replicate k ' ' ++ rest).takeWhile (· == ' ')).length n = k := by
  rcases h with ⟨hend, hk⟩ | ⟨rfl, _⟩
  · have hspace : ∀ x ∈ rest.head?, (x == ' ') = false := by
      intro x hx
      have hblank := (hend x hx).1
      simp only [isBlank, Bool.or_eq_false_iff] at hblank
      exact hblank.1
    rw [takeWhile_append_eq (by simp) hspace, List.length_replicate]
    omega
  · rw [List.takeWhile_append_of_pos (by simp)]
    simp

theorem column_spaces {c : Cursor} (h : c.column = 0) (k : Nat) :
    (c.along (List.replicate k ' ')).column = k := by
  rw [Cursor.column_along, Cursor.columnAfter_spaces, h, Nat.zero_add]

/-! ## Empty lines and indentation -/

theorem skip_spaces {c : Cursor} {k : Nat} {rest : List Char}
    (hc : c.rest = List.replicate k ' ' ++ rest) : c.skip k = c.along (List.replicate k ' ') := by
  have hskip := Cursor.skip_eq_along hc Cursor.not_break_of_mem_spaces
  rwa [List.length_replicate] at hskip

/-- The indentation of a line that is not empty. -/
theorem readBreaks_indent (start : Nat) {n k : Nat} {rest : List Char} (hrest : After n k rest)
    (fuel : Nat) (breaks : List Char) (furthest : Nat) {c : Cursor}
    (hc : c.rest = List.replicate k ' ' ++ rest) (hcolumn : c.column = 0) :
    readBreaks start (some n) (fuel + 1) breaks furthest c =
      .ok (breaks, max furthest k, c.along (List.replicate k ' ')) := by
  have hrest' : (c.along (List.replicate k ' ')).rest = rest := Cursor.rest_along hc
  have htab : ((some n).all (k < ·) && (c.along (List.replicate k ' ')).isAt '\t') = false := by
    rcases hrest with ⟨hend, _⟩ | ⟨rfl, _⟩
    · have : rest.head? ≠ some '\t' := fun h => absurd (hend '\t' (by simp [h])).1 (by decide)
      simp [Cursor.isAt, hrest', this]
    · simp
  have hstop : (rest.isEmpty || !atLineEnd rest) = true := by
    cases hr : rest with
    | nil => rfl
    | cons x xs =>
      have hx := hrest.not_break x (by simp [hr])
      simp [atLineEnd, hx]
  rw [readBreaks]
  simp only [hcolumn, Nat.sub_zero, hc, hrest.min_spaces, skip_spaces hc, hrest', htab,
    column_spaces hcolumn, hstop, Bool.false_eq_true, if_false, if_true]

/-- An empty line. -/
theorem readBreaks_break (start n fuel : Nat) (breaks : List Char) (furthest : Nat) {c : Cursor}
    {x : Char} {cs : List Char} (hx : isOwnBreak x = true) (hc : c.rest = x :: cs)
    (hcolumn : c.column = 0) :
    readBreaks start (some n) (fuel + 1) breaks furthest c =
      readBreaks start (some n) fuel (breaks ++ [x]) (max furthest 0) (c.along [x]) := by
  have hbreak := isBreak_of_isOwnBreak hx
  have hblank : (x == ' ') = false ∧ (x == '\t') = false := by
    simpa [isBlank] using isBlank_of_isBreak hbreak
  have htake : ((x :: cs).takeWhile (· == ' ')).length = 0 := by
    simp [hblank.1]
  have htab : c.isAt '\t' = false := by
    simpa [Cursor.isAt, hc] using hblank.2
  rw [readBreaks]
  simp only [hc, htake, Nat.zero_min, Cursor.skip_zero, hcolumn, htab, Bool.and_false,
    Bool.false_eq_true, if_false, List.isEmpty_cons, atLineEnd, hbreak, Bool.not_true,
    Bool.or_self, Cursor.takeBreak_eq hc hx]

/-- Empty lines are passed over, and the indentation of the line after them. -/
theorem readBreaks_eq (start : Nat) {n k : Nat} {rest : List Char} (hrest : After n k rest)
    {empty : List Char} (hempty : ∀ x ∈ empty, isOwnBreak x = true) :
    ∀ (fuel : Nat) (breaks : List Char) (furthest : Nat) (c : Cursor), empty.length < fuel →
      c.rest = empty ++ (List.replicate k ' ' ++ rest) → c.column = 0 →
        ∃ seen, readBreaks start (some n) fuel breaks furthest c =
          .ok (breaks ++ empty, seen, c.along (empty ++ List.replicate k ' ')) := by
  induction empty with
  | nil =>
    intro fuel breaks furthest c hfuel hc hcolumn
    obtain ⟨fuel, rfl⟩ : ∃ m, fuel = m + 1 := ⟨fuel - 1, by omega⟩
    refine ⟨max furthest k, ?_⟩
    rw [readBreaks_indent start hrest fuel breaks furthest hc hcolumn, List.append_nil,
      List.nil_append]
  | cons x empty ih =>
    intro fuel breaks furthest c hfuel hc hcolumn
    obtain ⟨fuel, rfl⟩ : ∃ m, fuel = m + 1 := ⟨fuel - 1, by omega⟩
    obtain ⟨hx, hempty'⟩ := List.forall_mem_cons.1 hempty
    rw [List.cons_append] at hc
    have hcolumn' : (c.along [x]).column = 0 := by
      rw [Cursor.column_along]
      simp [Cursor.columnAfter, isBreak_of_isOwnBreak hx]
    obtain ⟨seen, hnext⟩ := ih hempty' fuel (breaks ++ [x]) (max furthest 0) (c.along [x])
      (by simp at hfuel; omega) (Cursor.rest_along_one hc) hcolumn'
    refine ⟨seen, ?_⟩
    rw [readBreaks_break start n fuel breaks furthest hx hc hcolumn, hnext]
    simp [Cursor.along_cons]

/-! ## Lines -/

/-- One line, its break and the empty lines after it are read in one round. -/
theorem readLines_line (start : Nat) {n k : Nat} {line : List Char} {b : Char}
    {empty more : List Char} (hline : ∀ x ∈ line, isBreak x = false)
    (hb : isOwnBreak b = true) (hempty : ∀ x ∈ empty, isOwnBreak x = true)
    (hmore : After n k more) (fuel : Nat) (sofar : List (List Char)) (blank : Bool)
    (e bs : List Char) {c : Cursor} (hcount : c.Counted)
    (hc : c.rest = line ++ b :: (empty ++ (List.replicate k ' ' ++ more))) (hcolumn : c.column = n) :
    ∃ blank', readLines true start n (fuel + 1) sofar blank e bs c =
      readLines true start n fuel (line :: bs :: e :: sofar) blank' [b] empty
        (c.along (line ++ b :: (empty ++ List.replicate k ' '))) := by
  have hbreak := isBreak_of_isOwnBreak hb
  have hnonempty : c.rest.isEmpty = false := by
    rw [hc]
    simp
  have htake : c.rest.takeWhile (!isBreak ·) = line := by
    rw [hc, takeWhile_append_eq (fun x hx => by simp [hline x hx]) (by simp [hbreak])]
  have hskip : c.skip line.length = c.along line := Cursor.skip_eq_along hc hline
  have hrest₁ : (c.along line).rest = b :: (empty ++ (List.replicate k ' ' ++ more)) :=
    Cursor.rest_along hc
  have hrest₂ : ((c.along line).along [b]).rest = empty ++ (List.replicate k ' ' ++ more) :=
    Cursor.rest_along_one hrest₁
  have hcolumn₂ : ((c.along line).along [b]).column = 0 := by
    rw [Cursor.column_along]
    simp [Cursor.columnAfter, hbreak]
  have hfuel : empty.length < ((c.along line).along [b]).left + 1 := by
    rw [show ((c.along line).along [b]).left = _ from (hcount.along line).along [b], hrest₂]
    simp only [List.length_append]
    omega
  obtain ⟨seen, hread⟩ := readBreaks_eq start hmore hempty _ [] 0 _ hfuel hrest₂ hcolumn₂
  refine ⟨c.peek?.any isBlank, ?_⟩
  rw [readLines]
  simp only [hcolumn, hnonempty, ne_eq, not_true_eq_false, decide_false, Bool.false_or,
    Bool.false_eq_true, if_false, Bool.not_true, Bool.false_and, htake, hskip,
    Cursor.takeBreak_eq hrest₁ hb, hread]
  simp only [bind, Except.bind, List.nil_append, Cursor.along_append, Cursor.along_cons,
    Cursor.along_nil]

theorem column_line (c : Cursor) (line : List Char) {b : Char} {empty : List Char}
    (hb : isOwnBreak b = true) (hempty : ∀ x ∈ empty, isOwnBreak x = true) (k : Nat) :
    (c.along (line ++ b :: (empty ++ List.replicate k ' '))).column = k := by
  rw [Cursor.column_along, Cursor.columnAfter_append]
  exact Cursor.columnAfter_indent _ (isBreak_of_isOwnBreak hb)
    (fun x hx => isBreak_of_isOwnBreak (hempty x hx)) k

/-- Behind its lines the indentation is the column. -/
theorem Lines.columnAfter_eq {n : Nat} {core breaks body : List Char} {ending : Char}
    (h : Lines n core ending breaks body) (m : Nat) :
    ∀ column, Cursor.columnAfter column (body ++ List.replicate m ' ') = m := by
  induction h with
  | last _ _ hending hbreaks =>
    intro column
    rw [List.append_assoc, Cursor.columnAfter_append]
    exact Cursor.columnAfter_indent _ (isBreak_of_isOwnBreak hending)
      (fun x hx => isBreak_of_isOwnBreak (hbreaks x hx)) m
  | @cons line b empty core ending breaks body _ _ _ _ _ ih =>
    intro column
    have happend : line ++ b :: (empty ++ (List.replicate n ' ' ++ body)) ++ List.replicate m ' ' =
        (line ++ b :: (empty ++ List.replicate n ' ')) ++ (body ++ List.replicate m ' ') := by simp
    rw [happend, Cursor.columnAfter_append]
    exact ih _

/-- Reading lines gives them back, up to the breaks at their end. -/
theorem Lines.readLines_eq {n m : Nat} {core breaks body rest : List Char} {ending : Char}
    (h : Lines n core ending breaks body) (hm : m < n) (hrest : Gap.EndsAt rest) (start : Nat) :
    ∀ (fuel : Nat) (sofar : List (List Char)) (blank : Bool) (e bs : List Char) (c : Cursor),
      c.Counted → c.rest = body ++ (List.replicate m ' ' ++ rest) → c.column = n →
      body.length < fuel →
        ∃ parts, readLines true start n fuel sofar blank e bs c =
          .ok (parts, [ending], breaks, c.along (body ++ List.replicate m ' ')) ∧
          parts.reverse.flatten = sofar.reverse.flatten ++ (e ++ (bs ++ core)) := by
  induction h with
  | @last line ending breaks hne hline hb hbreaks =>
    intro fuel sofar blank e bs c hcount hc hcolumn hfuel
    obtain ⟨fuel, rfl⟩ : ∃ m, fuel = m + 1 := ⟨fuel - 1, by omega⟩
    have hc' : c.rest = line ++ ending :: (breaks ++ (List.replicate m ' ' ++ rest)) := by
      rw [hc]; simp
    obtain ⟨blank', hstep⟩ := readLines_line start hline hb hbreaks (.inl ⟨hrest, hm⟩) fuel
      sofar blank e bs hcount hc' hcolumn
    -- The next line is not indented enough.
    have hcolumn' := column_line c line hb hbreaks m
    have hdone : readLines true start n fuel (line :: bs :: e :: sofar) blank' [ending]
        breaks (c.along (line ++ ending :: (breaks ++ List.replicate m ' '))) =
        .ok (line :: bs :: e :: sofar, [ending], breaks,
          c.along (line ++ ending :: (breaks ++ List.replicate m ' '))) := by
      cases fuel with
      | zero => rfl
      | succ fuel =>
        have hne' : m ≠ n := by omega
        rw [readLines]
        simp [hcolumn', hne']
    refine ⟨line :: bs :: e :: sofar, ?_, by simp⟩
    rw [hstep, hdone]
    simp
  | @cons line b empty core ending breaks body hne hline hb hempty hlines ih =>
    intro fuel sofar blank e bs c hcount hc hcolumn hfuel
    obtain ⟨fuel, rfl⟩ : ∃ m, fuel = m + 1 := ⟨fuel - 1, by omega⟩
    have hc' : c.rest = line ++ b :: (empty ++ (List.replicate n ' ' ++
        (body ++ (List.replicate m ' ' ++ rest)))) := by
      rw [hc]; simp
    obtain ⟨blank', hstep⟩ := readLines_line start hline hb hempty (hlines.after _) fuel
      sofar blank e bs hcount hc' hcolumn
    have hrest' : (c.along (line ++ b :: (empty ++ List.replicate n ' '))).rest =
        body ++ (List.replicate m ' ' ++ rest) :=
      Cursor.rest_along (by rw [hc']; simp)
    obtain ⟨parts, hparts, hflat⟩ := ih fuel (line :: bs :: e :: sofar) blank' [b] empty _
      (hcount.along _) hrest' (column_line c line hb hempty n) (by simp at hfuel; omega)
    refine ⟨parts, ?_, ?_⟩
    · rw [hstep, hparts]
      simp [Cursor.along_append, Cursor.along_cons]
    · rw [hflat]
      simp

/-! ## Headers -/

/-- The sign in a header that asks for a chomping. -/
def Chomping.sign : Chomping → List Char
  | .clip => []
  | .strip => ['-']
  | .keep => ['+']

/-- The digit in a header, where the first line starts with a blank. -/
def digitHint (leading : Bool) : List Char :=
  if leading then ['2'] else []

/-- The header of a literal block with its line break. -/
def headerText (leading : Bool) (chomping : Chomping) : List Char :=
  '|' :: (digitHint leading ++ (chomping.sign ++ ['\n']))

theorem readIncrement_none (start : Nat) {c : Cursor} {x : Char} {rest : List Char}
    (hc : c.rest = x :: rest) (hx : x.isDigit = false) :
    readIncrement start c = .ok (none, c) := by
  have hzero : x ≠ '0' := by
    rintro rfl
    exact absurd hx (by decide)
  simp [readIncrement, Cursor.peek?, hc, hx, hzero]

theorem readIncrement_two (start : Nat) {c : Cursor} {rest : List Char} (hc : c.rest = '2' :: rest) :
    readIncrement start c = .ok (some 2, c.along ['2']) := by
  have hskip : c.skip 1 = c.along ['2'] := Cursor.skip_one_eq_along hc (by decide)
  simp [readIncrement, Cursor.peek?, hc, hskip]

/-- Behind the signs the line ends. -/
theorem readHeader_end {c : Cursor} {rest : List Char} (hc : c.rest = '\n' :: rest) :
    (c.skipWhile isBlank).takeComment = (none, c) ∧ c.skipBreak = c.along ['\n'] := by
  have hwhile : c.skipWhile isBlank = c := by
    simp [Cursor.skipWhile, hc, isBlank]
  have hcomment : c.takeComment = (none, c) := by
    simp [Cursor.takeComment, Cursor.isAt, hc]
  refine ⟨by rw [hwhile, hcomment], ?_⟩
  rw [Cursor.skipBreak, Cursor.takeBreak_eq hc rfl]

/-- A header has no sign for the usual chomping, and one sign for each of the others. -/
theorem Chomping.sign_cases (chomping : Chomping) :
    chomping = .clip ∨ ∃ x, chomping.sign = [x] ∧ chomping? (some x) = some chomping ∧
      isBreak x = false := by
  cases chomping with
  | clip => exact .inl rfl
  | strip => exact .inr ⟨'-', rfl, rfl, by decide⟩
  | keep => exact .inr ⟨'+', rfl, rfl, by decide⟩

theorem readHeader_eq (leading : Bool) (chomping : Chomping) {c : Cursor} {rest : List Char}
    (hc : c.rest = headerText leading chomping ++ rest) :
    readHeader c = .ok (⟨chomping, if leading then some 2 else none, none⟩,
      c.along (headerText leading chomping)) := by
  have hsign : ∀ {c' : Cursor} {x : Char} {more : List Char}, c'.rest = x :: more →
      isBreak x = false → c'.skip 1 = c'.along [x] ∧ (c'.along [x]).rest = more :=
    fun h hx => ⟨Cursor.skip_one_eq_along h hx, Cursor.rest_along_one h⟩
  cases leading with
  | false =>
    rcases chomping.sign_cases with rfl | ⟨x, hx, hchomping, hbreak⟩
    · have hc' : c.rest = '|' :: '\n' :: rest := hc
      obtain ⟨h₁, r₁⟩ := hsign hc' (by decide)
      obtain ⟨hcomment, hskip⟩ := readHeader_end r₁
      simp only [readHeader, h₁, Cursor.peek?, r₁, List.head?_cons, chomping?,
        readIncrement_none _ r₁ (by decide), bind, Except.bind, pure, Except.pure, hcomment, hskip,
        atLineEnd, isBreak_newline, if_true]
      rfl
    · have htext : headerText false chomping = ['|', x, '\n'] := by rw [headerText, hx]; rfl
      have hc' : c.rest = '|' :: x :: '\n' :: rest := by rw [hc, htext]; rfl
      obtain ⟨h₁, r₁⟩ := hsign hc' (by decide)
      obtain ⟨h₂, r₂⟩ := hsign r₁ hbreak
      obtain ⟨hcomment, hskip⟩ := readHeader_end r₂
      rw [htext]
      simp only [readHeader, h₁, Cursor.peek?, r₁, List.head?_cons, hchomping, h₂,
        readIncrement_none _ r₂ (by decide), bind, Except.bind, pure, Except.pure, hcomment, r₂,
        hskip, atLineEnd, isBreak_newline, if_true]
      rfl
  | true =>
    rcases chomping.sign_cases with rfl | ⟨x, hx, hchomping, hbreak⟩
    · have hc' : c.rest = '|' :: '2' :: '\n' :: rest := hc
      obtain ⟨h₁, r₁⟩ := hsign hc' (by decide)
      obtain ⟨h₂, r₂⟩ := hsign r₁ (by decide)
      obtain ⟨hcomment, hskip⟩ := readHeader_end r₂
      simp only [readHeader, h₁, Cursor.peek?, r₁, List.head?_cons, chomping?,
        readIncrement_two _ r₁, bind, Except.bind, pure, Except.pure, hcomment, r₂, hskip, atLineEnd,
        isBreak_newline, if_true]
      rfl
    · have htext : headerText true chomping = ['|', '2', x, '\n'] := by rw [headerText, hx]; rfl
      have hc' : c.rest = '|' :: '2' :: x :: '\n' :: rest := by rw [hc, htext]; rfl
      obtain ⟨h₁, r₁⟩ := hsign hc' (by decide)
      obtain ⟨h₂, r₂⟩ := hsign r₁ (by decide)
      obtain ⟨h₃, r₃⟩ := hsign r₂ hbreak
      obtain ⟨hcomment, hskip⟩ := readHeader_end r₃
      have hdigit : chomping? (some '2') = none := rfl
      rw [htext]
      simp only [readHeader, h₁, Cursor.peek?, r₁, List.head?_cons, hdigit, readIncrement_two _ r₁,
        bind, Except.bind, pure, Except.pure, hcomment, r₂, hchomping, h₃, r₃, hskip, atLineEnd,
        isBreak_newline, if_true]
      rfl

/-! ## Blocks -/

/-- The first line tells the indentation where the header does not. -/
theorem readBreaks_first (start : Nat) {n : Nat} {x : Char} {rest : List Char}
    (hblank : isBlank x = false) (hbreak : isBreak x = false) (fuel : Nat) {c : Cursor}
    (hc : c.rest = List.replicate n ' ' ++ x :: rest) (hcolumn : c.column = 0) :
    readBreaks start none (fuel + 1) [] 0 c = .ok ([], n, c.along (List.replicate n ' ')) := by
  have hspace : (x == ' ') = false ∧ (x == '\t') = false := by
    simpa [isBlank] using hblank
  have htake : ((List.replicate n ' ' ++ x :: rest).takeWhile (· == ' ')).length = n := by
    rw [takeWhile_append_eq (by simp) (by simpa using hspace.1), List.length_replicate]
  have hrest : (c.along (List.replicate n ' ')).rest = x :: rest := Cursor.rest_along hc
  rw [readBreaks]
  simp only [hc, htake, skip_spaces hc, column_spaces hcolumn, Cursor.isAt, hrest]
  simp [hspace.2, atLineEnd, hbreak]

/-- What a chomping keeps of the breaks at the end. -/
def Chomping.kept (chomping : Chomping) (ending : Char) (breaks : List Char) : List Char :=
  match chomping with
  | .strip => []
  | .clip => [ending]
  | .keep => ending :: breaks

/-- The indentation is that of the first line, whether the header gives it or not. -/
theorem Lines.readBreaks_first {parent : Nat} {core breaks body rest : List Char} {ending : Char}
    (h : Lines (parent + 2) core ending breaks body) (leading : Bool)
    (hleading : leading = false → ∀ x ∈ body.head?, isBlank x = false) (start fuel : Nat) {c : Cursor}
    (hc : c.rest = List.replicate (parent + 2) ' ' ++ (body ++ rest)) (hcolumn : c.column = 0) :
    ∃ seen,
      readBreaks start
          ((if leading then some 2 else none : Option Nat).map fun n => (max (parent : Int) 0).toNat + n)
          (fuel + 1) [] 0 c =
        .ok ([], seen, c.along (List.replicate (parent + 2) ' ')) ∧
      ((if leading then some 2 else none : Option Nat).map fun n =>
          (max (parent : Int) 0).toNat + n).getD
        (max seen (max ((parent : Int) + 1).toNat 1)) = parent + 2 := by
  have hparent : (max (parent : Int) 0).toNat = parent := by omega
  cases leading with
  | true =>
    refine ⟨max 0 (parent + 2), ?_, by simp⟩
    have hread := readBreaks_indent start (h.after rest) fuel [] 0 hc hcolumn
    simpa [hparent] using hread
  | false =>
    obtain ⟨x, xs, hbody, hbreak⟩ : ∃ x xs, body = x :: xs ∧ isBreak x = false := by
      rcases h.after [] with ⟨_, hlt⟩ | ⟨_, x, xs, hx, hbreak⟩
      · omega
      · exact ⟨x, xs, by simpa using hx, hbreak⟩
    have hblank : isBlank x = false := hleading rfl x (by simp [hbody])
    rw [hbody, List.cons_append] at hc
    exact ⟨parent + 2, Block.readBreaks_first start hblank hbreak fuel hc hcolumn, by simp⟩

@[simp] theorem column_header (c : Cursor) (leading : Bool) (chomping : Chomping) :
    (c.along (headerText leading chomping)).column = 0 := by
  have hsplit : headerText leading chomping =
      '|' :: (digitHint leading ++ chomping.sign) ++ ['\n'] := by
    simp [headerText]
  rw [Cursor.column_along, hsplit, Cursor.columnAfter_append]
  rfl

/-- Reading a literal block gives its lines and the breaks that are kept.  It stands two
    columns further than the block around it. -/
theorem Lines.read_eq {parent m : Nat} {core breaks body rest : List Char} {ending : Char}
    (h : Lines (parent + 2) core ending breaks body) (leading : Bool) (chomping : Chomping)
    (hleading : leading = false → ∀ x ∈ body.head?, isBlank x = false) (hm : m < parent + 2)
    (hrest : Gap.EndsAt rest) {c : Cursor} (hcount : c.Counted)
    (hc : c.rest = headerText leading chomping ++ (List.replicate (parent + 2) ' ' ++
      (body ++ (List.replicate m ' ' ++ rest)))) :
    ∃ header, header.comment = none ∧ read true parent c = .ok (header,
      core ++ chomping.kept ending breaks,
      c.along (headerText leading chomping ++ (List.replicate (parent + 2) ' ' ++
        (body ++ List.replicate m ' ')))) := by
  have hcolumn₁ := column_header c leading chomping
  have hrest₁ : (c.along (headerText leading chomping)).rest = List.replicate (parent + 2) ' ' ++
      (body ++ (List.replicate m ' ' ++ rest)) := Cursor.rest_along hc
  have hrest₂ : ((c.along (headerText leading chomping)).along
      (List.replicate (parent + 2) ' ')).rest = body ++ (List.replicate m ' ' ++ rest) :=
    Cursor.rest_along hrest₁
  have hcount₂ := (hcount.along (headerText leading chomping)).along (List.replicate (parent + 2) ' ')
  obtain ⟨seen, hbreaks, hseen⟩ :=
    h.readBreaks_first leading hleading c.line (c.along (headerText leading chomping)).left hrest₁ hcolumn₁
  obtain ⟨parts, hlines, hparts⟩ := h.readLines_eq hm hrest c.line
    (((c.along (headerText leading chomping)).along (List.replicate (parent + 2) ' ')).left + 1)
    [] false [] [] _ hcount₂ hrest₂ (column_spaces hcolumn₁ (parent + 2))
    (by rw [show _ = _ from hcount₂, hrest₂]; simp only [List.length_append]; omega)
  refine ⟨⟨chomping, if leading then some 2 else none, none⟩, rfl, ?_⟩
  simp only [read, readHeader_eq leading chomping hc, bind, Except.bind, hbreaks, hseen, hlines,
    pure, Except.pure]
  cases chomping <;> simp [Chomping.kept, hparts, Cursor.along_append]

end StackIr.Yaml.Block
