import StackIr.Proofs.Yaml.Cursor
import StackIr.Yaml.Token.Gap

/-! # What gaps stand for

    A gap within a line stands for its blanks.  A gap that starts with a break is passed over
    with the indentation after it, and keeps its breaks. -/

namespace StackIr.Yaml.Gap

/-- Whether a text does not go on with a gap. -/
def EndsAt (cs : List Char) : Prop :=
  ∀ x ∈ cs.head?, isBlank x = false ∧ isBreak x = false

theorem endsAt_nil : EndsAt [] := by
  simp [EndsAt]

theorem endsAt_cons {x : Char} {cs : List Char} (hblank : isBlank x = false)
    (hbreak : isBreak x = false) : EndsAt (x :: cs) := by
  intro y hy
  obtain rfl : x = y := by simpa using hy
  exact ⟨hblank, hbreak⟩

/-- Reading stops where no gap goes on. -/
theorem read_of_endsAt (start : Nat) (least : Option Nat) (fuel : Nat) (g : Gap) {c : Cursor}
    (h : EndsAt c.rest) : read start least fuel g c = .ok (g, c) := by
  cases fuel with
  | zero => rfl
  | succ fuel =>
    rw [read]
    split
    · rfl
    · rename_i x cs hrest
      obtain ⟨hblank, hbreak⟩ := h x (by simp [hrest])
      simp [hblank, hbreak]

/-- The blanks of a line are kept. -/
theorem read_blanks (start : Nat) (least : Option Nat) {blanks rest : List Char}
    (hblanks : ∀ x ∈ blanks, isBlank x = true) (hrest : EndsAt rest) :
    ∀ (fuel : Nat) (before : List Char) (c : Cursor), c.rest = blanks ++ rest →
      blanks.length ≤ fuel →
        read start least fuel { blanks := before } c =
          .ok ({ blanks := before ++ blanks }, c.along blanks) := by
  induction blanks with
  | nil =>
    intro fuel before c hc _
    rw [List.nil_append] at hc
    rw [read_of_endsAt start least fuel _ (hc ▸ hrest)]
    simp
  | cons x blanks ih =>
    intro fuel before c hc hfuel
    obtain ⟨fuel, rfl⟩ : ∃ n, fuel = n + 1 := ⟨fuel - 1, by simp at hfuel; omega⟩
    have hx : isBlank x = true := hblanks x (by simp)
    have hskip : c.skip 1 = c.along [x] := Cursor.skip_one_eq_along hc (isBreak_of_isBlank hx)
    have hnext : (c.along [x]).rest = blanks ++ rest := Cursor.rest_along_one hc
    have htail := ih (fun y hy => hblanks y (by simp [hy])) fuel (before ++ [x]) (c.along [x])
      hnext (by simp at hfuel; omega)
    rw [read, hc]
    simp only [List.cons_append, hx, if_true, Bool.false_eq_true, if_false, hskip]
    rw [htail, List.append_assoc, List.singleton_append, Cursor.along_cons, Cursor.along_cons,
      Cursor.along_nil]

/-- After a break, indentation is passed over and further breaks are kept. -/
theorem read_broken (start : Nat) (least : Option Nat) (first : List Char)
    {between rest : List Char} (hbetween : ∀ x ∈ between, x = ' ' ∨ isOwnBreak x = true)
    (hrest : EndsAt rest) :
    ∀ (fuel : Nat) (later : List Char) (c : Cursor), c.rest = between ++ rest →
      between.length ≤ fuel →
        read start least fuel { broken := true, firstBreak := first, laterBreaks := later } c =
          .ok ({ broken := true, firstBreak := first,
                 laterBreaks := later ++ between.filter (· != ' ') }, c.along between) := by
  induction between with
  | nil =>
    intro fuel later c hc _
    rw [List.nil_append] at hc
    rw [read_of_endsAt start least fuel _ (hc ▸ hrest)]
    simp
  | cons x between ih =>
    intro fuel later c hc hfuel
    obtain ⟨fuel, rfl⟩ : ∃ n, fuel = n + 1 := ⟨fuel - 1, by simp at hfuel; omega⟩
    have hnext : (c.along [x]).rest = between ++ rest := Cursor.rest_along_one hc
    have hfuel' : between.length ≤ fuel := by simp at hfuel; omega
    have hbetween' : ∀ y ∈ between, y = ' ' ∨ isOwnBreak y = true :=
      fun y hy => hbetween y (by simp [hy])
    rw [read, hc]
    -- indentation is dropped, a further break is kept
    rcases hbetween x (by simp) with rfl | hx
    · have hskip : c.skip 1 = c.along [' '] := Cursor.skip_one_eq_along hc (by decide)
      have htab : (' ' == '\t') = false := by decide
      simp only [List.cons_append, isBlank_space, if_true, htab, Bool.false_and,
        Bool.false_eq_true, if_false, hskip]
      rw [ih hbetween' fuel later _ hnext hfuel']
      simp [Cursor.along_cons]
    · have hbreak := isBreak_of_isOwnBreak hx
      have hblank := isBlank_of_isBreak hbreak
      have hspace : (x != ' ') = true := by
        rw [bne_iff_ne]
        rintro rfl
        exact absurd hbreak (by decide)
      simp only [List.cons_append, hblank, Bool.false_eq_true, if_false, hbreak, if_true,
        Cursor.takeBreak_eq hc hx]
      rw [ih hbetween' fuel (later ++ [x]) _ hnext hfuel']
      simp [Cursor.along_cons, hspace]

/-- A gap that starts with a break. -/
theorem read_break (start : Nat) (least : Option Nat) {x : Char} (between : List Char) {rest : List Char}
    (hx : isOwnBreak x = true) (hbetween : ∀ y ∈ between, y = ' ' ∨ isOwnBreak y = true)
    (hrest : EndsAt rest) (fuel : Nat) {c : Cursor} (hc : c.rest = x :: (between ++ rest))
    (hfuel : between.length < fuel) :
    read start least fuel {} c =
      .ok ({ broken := true, firstBreak := [x], laterBreaks := between.filter (· != ' ') },
        c.along (x :: between)) := by
  obtain ⟨fuel, rfl⟩ : ∃ n, fuel = n + 1 := ⟨fuel - 1, by omega⟩
  have hbreak := isBreak_of_isOwnBreak hx
  have hblank := isBlank_of_isBreak hbreak
  have hnext : (c.along [x]).rest = between ++ rest := Cursor.rest_along_one hc
  rw [read, hc]
  simp only [hblank, Bool.false_eq_true, if_false, hbreak, if_true, Cursor.takeBreak_eq hc hx]
  rw [read_broken start least [x] hbetween hrest fuel [] _ hnext (by omega)]
  simp [Cursor.along_cons]

/-- Whitespace is passed over as a whole where no line has to be indented. -/
theorem read_space (start : Nat) (least : Option Nat) (hleast : ∀ n ∈ least, n = 0)
    {rest : List Char} (hrest : EndsAt rest) :
    ∀ (fuel : Nat) (gap : List Char) (g : Gap) (c : Cursor),
      (∀ x ∈ gap, isBlank x = true ∨ x = '\n' ∨ x = '\r') → c.rest = gap ++ rest →
      gap.length ≤ fuel → ∃ g', read start least fuel g c = .ok (g', c.past gap) := by
  intro fuel
  induction fuel with
  | zero =>
    intro gap g c _ _ hfuel
    obtain rfl : gap = [] := List.length_eq_zero_iff.1 (by omega)
    exact ⟨g, by rw [Cursor.past_nil]; rfl⟩
  | succ fuel ih =>
    intro gap g c hgap hc hfuel
    cases gap with
    | nil =>
      rw [List.nil_append] at hc
      exact ⟨g, by rw [Cursor.past_nil]; exact read_of_endsAt start least _ g (hc ▸ hrest)⟩
    | cons x gap =>
      obtain ⟨hx, hgap'⟩ := List.forall_mem_cons.1 hgap
      rw [List.length_cons] at hfuel
      rcases hx with hblank | hbreak
      · have hbreak := isBreak_of_isBlank hblank
        have hover : c.past (x :: gap) = (c.skip 1).past gap := by
          rw [Cursor.past_cons, Cursor.pass, hbreak]
          · rfl
          · rintro rfl
            cases hblank
        have hnext : (c.skip 1).rest = gap ++ rest := by simp [Cursor.skip, hc]
        have hindented : (least.any (c.column < ·)) = false := by
          cases least with
          | none => rfl
          | some n => simp [hleast n rfl]
        rw [hover, read, hc]
        simp only [List.cons_append, hblank, if_true, hindented, Bool.and_false, Bool.false_eq_true,
          if_false]
        -- before the first break blanks are kept, and after it they are not
        split
        · exact ih gap _ _ hgap' hnext (by omega)
        · exact ih gap _ _ hgap' hnext (by omega)
      · have hisBreak : isBreak x = true := by
          rcases hbreak with rfl | rfl <;> rfl
        have htext : rest.head? ≠ some '\n' := fun h => absurd (hrest '\n' h).2 (by decide)
        obtain ⟨later, hsuffix, hnext, hover⟩ := Cursor.past_break hc hbreak htext
        have hlength := hsuffix.length_le
        have hlater : ∀ y ∈ later, isBlank y = true ∨ y = '\n' ∨ y = '\r' :=
          fun y hy => hgap' y (hsuffix.subset hy)
        rw [hover, read, hc]
        simp only [List.cons_append, isBlank_of_isBreak hisBreak, Bool.false_eq_true, if_false,
          hisBreak, if_true]
        split
        · exact ih later _ _ hlater hnext (by omega)
        · exact ih later _ _ hlater hnext (by omega)

end StackIr.Yaml.Gap
