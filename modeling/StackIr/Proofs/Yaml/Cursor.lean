import StackIr.Yaml.Cursor
import Mathlib.Data.Bool.AllAny
import Mathlib.Data.List.Basic

/-! # Moving over a text

    Every reader of tokens passes over some characters.  `Cursor.along` passes over them one
    by one, and what a reader leaves behind is stated with it: the text, the place and the
    count that are left after the characters that were read. -/

namespace StackIr

/-- The longest start of a text in a class, where the class does not go on behind it. -/
theorem takeWhile_append_eq {α : Type} {p : α → Bool} {xs ys : List α} (hall : ∀ x ∈ xs, p x = true)
    (hend : ∀ y ∈ ys.head?, p y = false) : (xs ++ ys).takeWhile p = xs := by
  rw [List.takeWhile_append_of_pos hall]
  cases ys with
  | nil => simp
  | cons y ys => simp [hend y rfl]

namespace Yaml

/-! ## Classes of characters -/

theorem isBreak_of_isBlank {c : Char} (h : isBlank c = true) : isBreak c = false := by
  have hc : c = ' ' ∨ c = '\t' := by simpa [isBlank] using h
  rcases hc with rfl | rfl <;> decide

theorem isBlank_of_isBreak {c : Char} (h : isBreak c = true) : isBlank c = false := by
  cases hc : isBlank c
  · rfl
  · rw [isBreak_of_isBlank hc] at h
    cases h

@[simp] theorem isBlank_space : isBlank ' ' = true := rfl

@[simp] theorem isBreak_newline : isBreak '\n' = true := rfl

/-- The line and the paragraph separator, which a scalar keeps in every style. -/
def isSeparator (c : Char) : Bool :=
  c.toNat == 0x2028 || c.toNat == 0x2029

/-- A break that stands for itself: any but the ones that are read as a line feed. -/
def isOwnBreak (c : Char) : Bool :=
  c == '\n' || isSeparator c

theorem isBreak_of_isOwnBreak {c : Char} (h : isOwnBreak c = true) : isBreak c = true := by
  simp only [isOwnBreak, isSeparator, Bool.or_eq_true] at h
  simp only [isBreak, Bool.or_eq_true]
  tauto

namespace Cursor

/-! ## Cursors that count what is left -/

/-- The count of a cursor is the length of its text. -/
def Counted (c : Cursor) : Prop :=
  c.left = c.rest.length

theorem Counted.skip {c : Cursor} (h : c.Counted) (n : Nat) : (c.skip n).Counted := by
  simp only [Counted, Cursor.skip, List.length_drop]
  rw [h]

theorem Counted.nextLine {c : Cursor} (h : c.Counted) (n : Nat) : (c.nextLine n).Counted := by
  simp only [Counted, Cursor.nextLine, List.length_drop]
  rw [h]

/-! ## Skipping -/

@[simp] theorem skip_zero (c : Cursor) : c.skip 0 = c := by
  simp [skip]

/-- Skipping twice is skipping once. -/
theorem skip_skip (c : Cursor) (m n : Nat) : (c.skip m).skip n = c.skip (m + n) := by
  have hblank : ((c.rest.take (m + n)).all isBlank) =
      ((c.rest.take m).all isBlank && ((c.rest.drop m).take n).all isBlank) := by
    rw [List.take_add, List.all_append]
  simp only [skip, List.drop_drop, hblank, Nat.add_assoc, Nat.sub_sub]
  cases (c.rest.take m).all isBlank <;> simp

/-! ## Passing over characters -/

/-- Passes over one character. -/
def pass (c : Cursor) (x : Char) : Cursor :=
  if isBreak x then c.nextLine 1 else c.skip 1

/-- Passes over some characters. -/
def along (c : Cursor) (cs : List Char) : Cursor :=
  cs.foldl pass c

@[simp] theorem along_nil (c : Cursor) : c.along [] = c :=
  rfl

theorem along_cons (c : Cursor) (x : Char) (cs : List Char) :
    c.along (x :: cs) = (c.pass x).along cs :=
  rfl

theorem along_append (c : Cursor) (cs ds : List Char) :
    c.along (cs ++ ds) = (c.along cs).along ds := by
  simp [along, List.foldl_append]

@[simp] theorem rest_pass (c : Cursor) (x : Char) : (c.pass x).rest = c.rest.drop 1 := by
  unfold pass
  split <;> rfl

theorem rest_along_drop (cs : List Char) (c : Cursor) :
    (c.along cs).rest = c.rest.drop cs.length := by
  induction cs generalizing c with
  | nil => simp
  | cons x cs ih => rw [along_cons, ih]; simp

/-- What is left after the characters at the start. -/
theorem rest_along {c : Cursor} {cs ds : List Char} (h : c.rest = cs ++ ds) :
    (c.along cs).rest = ds := by
  rw [rest_along_drop, h]
  simp

theorem rest_along_one {c : Cursor} {x : Char} {ds : List Char} (h : c.rest = x :: ds) :
    (c.along [x]).rest = ds := by
  have h' : c.rest = [x] ++ ds := h
  exact rest_along h'

theorem Counted.along {c : Cursor} (h : c.Counted) (cs : List Char) : (c.along cs).Counted := by
  induction cs generalizing c with
  | nil => exact h
  | cons x cs ih =>
    refine ih ?_
    unfold pass
    split
    · exact h.nextLine 1
    · exact h.skip 1

theorem left_along {c : Cursor} {cs ds : List Char} (hc : c.Counted) (h : c.rest = cs ++ ds) :
    (c.along cs).left = ds.length := by
  rw [show (c.along cs).left = (c.along cs).rest.length from hc.along cs, rest_along h]

@[simp] theorem index_along (c : Cursor) (cs : List Char) :
    (c.along cs).mark.index = c.mark.index + cs.length := by
  induction cs generalizing c with
  | nil => rfl
  | cons x cs ih =>
    rw [along_cons, ih]
    have hpass : (c.pass x).mark.index = c.mark.index + 1 := by
      unfold pass
      split <;> rfl
    rw [hpass, List.length_cons]
    omega

@[simp] theorem line_along (c : Cursor) (cs : List Char) :
    (c.along cs).line = c.line + cs.countP isBreak := by
  induction cs generalizing c with
  | nil => rfl
  | cons x cs ih =>
    rw [along_cons, ih, List.countP_cons]
    cases hx : isBreak x
    · have hpass : (c.pass x).line = c.line := by simp [pass, hx, line, skip]
      simp [hpass]
    · have hpass : (c.pass x).line = c.line + 1 := by simp [pass, hx, line, nextLine]
      simp [hpass]; omega

/-- A line break leads to a later line. -/
theorem line_lt_along (c : Cursor) (cs ds : List Char) :
    c.line < (c.along (cs ++ '\n' :: ds)).line := by
  rw [line_along, List.countP_append, List.countP_cons_of_pos isBreak_newline]
  omega

/-- The column after some characters. -/
def columnAfter (column : Nat) (cs : List Char) : Nat :=
  cs.foldl (fun n x => if isBreak x then 0 else n + 1) column

theorem columnAfter_cons (column : Nat) (x : Char) (cs : List Char) :
    columnAfter column (x :: cs) = columnAfter (if isBreak x then 0 else column + 1) cs :=
  rfl

@[simp] theorem column_along (c : Cursor) (cs : List Char) :
    (c.along cs).column = columnAfter c.column cs := by
  induction cs generalizing c with
  | nil => rfl
  | cons x cs ih =>
    rw [along_cons, ih, columnAfter_cons]
    congr 1
    unfold pass
    split <;> simp [column, nextLine, skip]

theorem columnAfter_append (column : Nat) (cs ds : List Char) :
    columnAfter column (cs ++ ds) = columnAfter (columnAfter column cs) ds := by
  simp [columnAfter, List.foldl_append]

/-- Within a line the column counts characters. -/
theorem columnAfter_of_no_break {cs : List Char} (h : ∀ x ∈ cs, isBreak x = false)
    (column : Nat) : columnAfter column cs = column + cs.length := by
  induction cs generalizing column with
  | nil => rfl
  | cons x cs ih =>
    have hx : isBreak x = false := h x (by simp)
    rw [columnAfter_cons, hx, ih fun y hy => h y (by simp [hy])]
    simp only [Bool.false_eq_true, if_false, List.length_cons]
    omega

theorem not_break_of_mem_spaces {n : Nat} : ∀ x ∈ List.replicate n ' ', isBreak x = false := by
  intro x hx
  rw [List.eq_of_mem_replicate hx]
  decide

@[simp] theorem columnAfter_spaces (column n : Nat) :
    columnAfter column (List.replicate n ' ') = column + n := by
  rw [columnAfter_of_no_break not_break_of_mem_spaces, List.length_replicate]

/-- The indentation after a break is the column. -/
theorem columnAfter_indent (column : Nat) {b : Char} {empty : List Char} (hb : isBreak b = true)
    (hempty : ∀ x ∈ empty, isBreak x = true) (n : Nat) :
    columnAfter column (b :: (empty ++ List.replicate n ' ')) = n := by
  have hzero : columnAfter 0 empty = 0 := by
    induction empty with
    | nil => rfl
    | cons x empty ih =>
      rw [columnAfter_cons, hempty x (by simp), if_pos rfl]
      exact ih fun y hy => hempty y (by simp [hy])
  rw [columnAfter_cons, hb, if_pos rfl, columnAfter_append, hzero, columnAfter_spaces,
    Nat.zero_add]

@[simp] theorem columnAfter_newline (column n : Nat) :
    columnAfter column ('\n' :: List.replicate n ' ') = n := by
  have hnone : ∀ x ∈ ([] : List Char), isBreak x = true := by simp
  exact columnAfter_indent column isBreak_newline hnone n

/-- Skipping the start of a line is passing over its characters. -/
theorem skip_eq_along {cs ds : List Char} {c : Cursor} (h : c.rest = cs ++ ds)
    (hline : ∀ x ∈ cs, isBreak x = false) : c.skip cs.length = c.along cs := by
  induction cs generalizing c with
  | nil => simp
  | cons x cs ih =>
    have hx : isBreak x = false := hline x (by simp)
    have hpass : c.pass x = c.skip 1 := by simp [pass, hx]
    have hrest : (c.skip 1).rest = cs ++ ds := by simp [skip, h]
    rw [along_cons, hpass, ← ih hrest fun y hy => hline y (by simp [hy]), skip_skip,
      List.length_cons, Nat.add_comm]

/-- Skipping one character that is no break. -/
theorem skip_one_eq_along {c : Cursor} {x : Char} {ds : List Char} (h : c.rest = x :: ds)
    (hx : isBreak x = false) : c.skip 1 = c.along [x] := by
  have h' : c.rest = [x] ++ ds := h
  exact skip_eq_along h' (by simpa using hx)

/-- Skipping while a property holds passes over the characters that have it. -/
theorem skipWhile_eq_along {p : Char → Bool} {cs ds : List Char} {c : Cursor}
    (h : c.rest = cs ++ ds) (hall : ∀ x ∈ cs, p x = true) (hend : ∀ x ∈ ds.head?, p x = false)
    (hline : ∀ x ∈ cs, isBreak x = false) : c.skipWhile p = c.along cs := by
  rw [skipWhile, h, takeWhile_append_eq hall hend]
  exact skip_eq_along h hline

/-- A break that stands for itself is passed over as itself. -/
theorem takeBreak_eq {c : Cursor} {x : Char} {ds : List Char} (h : c.rest = x :: ds)
    (hx : isOwnBreak x = true) : c.takeBreak = ([x], c.along [x]) := by
  have hpass : c.along [x] = c.nextLine 1 := by
    simp [along, pass, isBreak_of_isOwnBreak hx]
  have hcr : x ≠ '\r' := by
    rintro rfl
    revert hx
    decide
  rw [takeBreak, h, hpass]
  split
  · rename_i heq
    exact absurd (List.cons.inj heq).1 hcr
  · rename_i heq
    obtain ⟨rfl, rfl⟩ := List.cons.inj heq
    split
    · rfl
    · -- Of the breaks that stand for themselves only the line feed is left.
      rename_i hsep
      have hfeed : x = '\n' := by
        simp only [isOwnBreak, isSeparator, Bool.or_eq_true] at hx hsep
        simpa using hx.resolve_right hsep
      subst hfeed
      rfl
  · rename_i heq
    cases heq

/-! ## Passing over whitespace -/

/-- Passes over whitespace.  A carriage return before a line feed is one break with it. -/
def past (c : Cursor) : List Char → Cursor
  | '\r' :: '\n' :: cs => (c.nextLine 2).past cs
  | x :: cs => (c.pass x).past cs
  | [] => c

@[simp] theorem past_nil (c : Cursor) : c.past [] = c := by
  rw [past]

theorem past_cons {x : Char} {cs : List Char} (c : Cursor)
    (h : x = '\r' → cs.head? ≠ some '\n') : c.past (x :: cs) = (c.pass x).past cs := by
  rw [past]
  intro rest hx hcs
  exact h hx (by rw [hcs]; rfl)

theorem rest_past_drop (cs : List Char) (c : Cursor) : (c.past cs).rest = c.rest.drop cs.length := by
  fun_induction past c cs with
  | case1 c cs ih =>
    rw [ih, show (c.nextLine 2).rest = c.rest.drop 2 from rfl, List.drop_drop, Nat.add_comm]
    rfl
  | case2 c x cs _ ih =>
    rw [ih, rest_pass, List.drop_drop, Nat.add_comm]
    rfl
  | case3 c => simp

theorem rest_past {c : Cursor} {cs ds : List Char} (h : c.rest = cs ++ ds) : (c.past cs).rest = ds := by
  rw [rest_past_drop, h]
  simp

theorem Counted.past {c : Cursor} (h : c.Counted) (cs : List Char) : (c.past cs).Counted := by
  fun_induction Cursor.past c cs with
  | case1 c cs ih => exact ih (h.nextLine 2)
  | case2 c x cs _ ih => exact ih (h.along [x])
  | case3 c => exact h

/-- Without carriage returns whitespace is passed over character by character. -/
theorem past_append {cs : List Char} (h : '\r' ∉ cs) (ds : List Char) (c : Cursor) :
    c.past (cs ++ ds) = (c.along cs).past ds := by
  induction cs generalizing c with
  | nil => rfl
  | cons x cs ih =>
    rw [List.mem_cons, not_or] at h
    rw [List.cons_append, past_cons c fun hx => absurd hx.symm h.1, along_cons, ih h.2]

theorem past_eq_along {cs : List Char} (h : '\r' ∉ cs) (c : Cursor) : c.past cs = c.along cs := by
  have happend := past_append h [] c
  rwa [List.append_nil, past_nil] at happend

theorem past_blanks {blanks : List Char} (h : ∀ x ∈ blanks, isBlank x = true) (c : Cursor) :
    c.past blanks = c.along blanks :=
  past_eq_along (fun hmem => absurd (h '\r' hmem) (by decide)) c

/-- Passing over a break is the start of passing over the whitespace that starts with it. -/
theorem past_break {c : Cursor} {b : Char} {gap text : List Char} (h : c.rest = b :: (gap ++ text))
    (hb : b = '\n' ∨ b = '\r') (htext : text.head? ≠ some '\n') :
    ∃ later, later <:+ gap ∧ c.skipBreak.rest = later ++ text ∧
      c.past (b :: gap) = c.skipBreak.past later := by
  -- a carriage return takes the line feed behind it along
  by_cases hpair : b = '\r' ∧ gap.head? = some '\n'
  · obtain ⟨rfl, hgap⟩ := hpair
    obtain ⟨later, rfl⟩ : ∃ later, gap = '\n' :: later := by
      cases gap with
      | nil => cases hgap
      | cons x later => exact ⟨later, by rw [Option.some.inj hgap]⟩
    have hskip : c.skipBreak = c.nextLine 2 := by
      simp [skipBreak, takeBreak, h]
    refine ⟨later, List.suffix_cons .., ?_, ?_⟩
    · rw [hskip]
      simp [nextLine, h]
    · rw [hskip, past]
  · have hpass : c.pass b = c.nextLine 1 := by
      rcases hb with rfl | rfl <;> rfl
    have hskip : c.skipBreak = c.nextLine 1 := by
      have hone : ∀ rest, c.rest ≠ '\r' :: '\n' :: rest := by
        intro rest hrest
        rw [h] at hrest
        obtain ⟨hb', hafter⟩ := List.cons.inj hrest
        cases gap with
        | nil => exact htext (by rw [show text = _ from hafter]; rfl)
        | cons x gap => exact hpair ⟨hb', by rw [(List.cons.inj hafter).1]; rfl⟩
      rw [skipBreak, takeBreak]
      split
      · rename_i rest hrest
        exact absurd hrest (hone rest)
      · rename_i x rest _ hrest
        obtain ⟨rfl, -⟩ := List.cons.inj (h.symm.trans hrest)
        rcases hb with rfl | rfl <;> rfl
      · rename_i hrest
        rw [h] at hrest
        cases hrest
    refine ⟨gap, List.suffix_rfl, ?_, ?_⟩
    · rw [hskip]
      simp [nextLine, h]
    · rw [hskip, past_cons c fun hb' hgap => hpair ⟨hb', hgap⟩, hpass]

/-- A marker stands only at the start of a line. -/
theorem atDocumentMarker_of_column {c : Cursor} (h : c.column ≠ 0) :
    c.atDocumentMarker = false := by
  have hcolumn : (c.mark.column == 0) = false := by simpa [column] using h
  simp [atDocumentMarker, atMarker, hcolumn]

end Cursor

end Yaml

end StackIr
