import StackIr.Proofs.Rendering.Layout

/-! # Texts of scalars

    The text of a scalar in each style is one that the reader gives back: between quotes it
    is a `Quoted.Body`, and as a literal block it is made of `Block.Lines`.  The induction is
    over the lines of a text. -/

namespace StackIr.Json

open Yaml

/-! ## Lines -/

section

variable {n : Nat} {put : Char → List Char}

theorem folded_line {line : List Char} (h : ∀ x ∈ line, isBreak x = false) (rest : List Char) :
    folded n put false (line ++ rest) = line.flatMap put ++ folded n put false rest := by
  induction line with
  | nil => rfl
  | cons c line ih =>
    rw [List.cons_append, folded, h c (List.mem_cons_self ..),
      ih fun x hx => h x (List.mem_cons_of_mem _ hx)]
    simp

theorem folded_breaks {breaks : List Char} (h : ∀ x ∈ breaks, isBreak x = true) (rest : List Char) :
    folded n put true (breaks ++ rest) = breaks ++ folded n put true rest := by
  induction breaks with
  | nil => rfl
  | cons c breaks ih =>
    rw [List.cons_append, folded, h c (List.mem_cons_self ..), if_pos rfl,
      ih fun x hx => h x (List.mem_cons_of_mem _ hx)]
    rfl

theorem folded_break {b : Char} {breaks : List Char} (hb : isBreak b = true)
    (h : ∀ x ∈ breaks, isBreak x = true) (broken : Bool) (rest : List Char) :
    folded n put broken (b :: (breaks ++ rest)) = b :: (breaks ++ folded n put true rest) := by
  rw [folded, hb, if_pos rfl, folded_breaks h]

theorem folded_indent {c : Char} (hc : isBreak c = false) (cs : List Char) :
    folded n put true (c :: cs) = List.replicate n ' ' ++ folded n put false (c :: cs) := by
  simp [folded, hc]

end

/-- The breaks at the start of a text. -/
theorem split_breaks (cs : List Char) :
    ∃ breaks rest, cs = breaks ++ rest ∧ (∀ x ∈ breaks, isBreak x = true) ∧
      ∀ x ∈ rest.head?, isBreak x = false := by
  refine ⟨cs.takeWhile isBreak, cs.dropWhile isBreak, List.takeWhile_append_dropWhile.symm,
    List.all_eq_true.1 List.all_takeWhile, ?_⟩
  intro x hx
  have hhead := List.head?_dropWhile_not isBreak cs
  rw [Option.mem_def.1 hx] at hhead
  exact hhead

/-- The first line of a text. -/
theorem split_line (cs : List Char) :
    ∃ line rest, cs = line ++ rest ∧ (∀ x ∈ line, isBreak x = false) ∧
      (rest = [] ∨ ∃ b more, rest = b :: more ∧ isBreak b = true) := by
  have hline : ∀ x ∈ cs.takeWhile (!isBreak ·), (!isBreak x) = true :=
    List.all_eq_true.1 List.all_takeWhile
  refine ⟨cs.takeWhile (!isBreak ·), cs.dropWhile (!isBreak ·), List.takeWhile_append_dropWhile.symm,
    by simpa using hline, ?_⟩
  have hhead := List.head?_dropWhile_not (!isBreak ·) cs
  cases hrest : cs.dropWhile (!isBreak ·) with
  | nil => exact .inl rfl
  | cons b more =>
    rw [hrest] at hhead
    exact .inr ⟨b, more, rfl, by simpa using hhead⟩

/-- A break that is written as it is. -/
theorem isOwnBreak_of_isPrintable {c : Char} (h : Presentation.isPrintable c = true)
    (hbreak : isBreak c = true) : isOwnBreak c = true := by
  simp only [isBreak, Bool.or_eq_true, beq_iff_eq] at hbreak
  rcases hbreak with (((rfl | rfl) | hc) | hc) | hc
  · rfl
  · exact absurd h (by decide)
  · simp [Presentation.isPrintable, hc] at h
  · simp [isOwnBreak, isSeparator, hc]
  · simp [isOwnBreak, isSeparator, hc]

/-! ## Single quotes -/

open Presentation in
/-- What a text holds that is written in single quotes. -/
structure Single (cs : List Char) : Prop where
  afterBreak : hasPair isBreak isSpace cs = false
  beforeBreak : hasPair isSpace isBreak cs = false
  tab : ∀ c ∈ cs, c ≠ '\t'
  separator : ∀ c ∈ cs, isBreak c = true → isSeparator c = true

open Presentation in
theorem single_of_allowed {cs : List Char} (h : singleAllowed cs = true)
    (hnewline : cs.contains '\n' = false) : Single cs := by
  simp only [singleAllowed, Bool.not_eq_true', Bool.or_eq_false_iff] at h
  obtain ⟨⟨⟨hafter, hbefore⟩, htab⟩, hspecial⟩ := h
  have htab' : ∀ c ∈ cs, c ≠ '\t' := by
    rintro c hc rfl
    simp [hc] at htab
  refine ⟨hafter, hbefore, htab', ?_⟩
  intro c hc hbreak
  have hprintable : isPrintable c = true := by
    simp only [hasSpecial, List.any_eq_false] at hspecial
    simpa [htab' c hc] using hspecial c hc
  have hown := isOwnBreak_of_isPrintable hprintable hbreak
  have hne : c ≠ '\n' := by
    rintro rfl
    simp [hc] at hnewline
  simpa [isOwnBreak, hne] using hown

open Presentation in
theorem hasPair_tail {p q : Char → Bool} {a : Char} {cs : List Char}
    (h : hasPair p q (a :: cs) = false) : hasPair p q cs = false := by
  cases cs with
  | nil => rfl
  | cons b cs =>
    rw [hasPair, Bool.or_eq_false_iff] at h
    exact h.2

open Presentation in
theorem not_pair {p q : Char → Bool} {a b : Char} {cs : List Char}
    (h : hasPair p q (a :: b :: cs) = false) (ha : p a = true) : q b = false := by
  rw [hasPair, Bool.or_eq_false_iff, ha, Bool.true_and] at h
  exact h.1

theorem not_pair_breaks {q : Char → Bool} {b d : Char} {breaks cs : List Char}
    (h : Presentation.hasPair isBreak q (b :: (breaks ++ d :: cs)) = false) (hb : isBreak b = true)
    (hbreaks : ∀ x ∈ breaks, isBreak x = true) : q d = false := by
  induction breaks generalizing b with
  | nil => exact not_pair h hb
  | cons c breaks ih =>
    exact ih (hasPair_tail h) (hbreaks c (List.mem_cons_self ..))
      fun x hx => hbreaks x (List.mem_cons_of_mem _ hx)

theorem Single.tail {a : Char} {cs : List Char} (h : Single (a :: cs)) : Single cs :=
  ⟨hasPair_tail h.afterBreak, hasPair_tail h.beforeBreak, fun c hc => h.tab c (List.mem_cons_of_mem _ hc),
    fun c hc => h.separator c (List.mem_cons_of_mem _ hc)⟩

theorem Single.drop {cs ds : List Char} (h : Single (cs ++ ds)) : Single ds := by
  induction cs with
  | nil => exact h
  | cons c cs ih => exact ih h.tail

@[simp] theorem head_quoteChar (c : Char) : (quoteChar c).head? = some c := by
  rw [quoteChar]
  split
  · rename_i h
    rw [beq_iff_eq.1 h]
    rfl
  · rfl

theorem head_folded {n : Nat} {c : Char} (hc : isBreak c = false) (cs : List Char) :
    (folded n quoteChar false (c :: cs)).head? = some c := by
  rw [folded, hc]
  simp

theorem Single.not_blank {c : Char} {cs : List Char} (h : Single cs) (hc : c ∈ cs) (hspace : c ≠ ' ') :
    isBlank c = false := by
  simp [isBlank, hspace, h.tab c hc]

section

variable {n : Nat}

/-- A character of a line before the rest of a text. -/
theorem Single.body_char {c : Char} {cs : List Char} (h : Single (c :: cs)) (hc : isBreak c = false)
    (hbody : Quoted.Body .single cs (folded n quoteChar false cs)) :
    Quoted.Body .single (c :: cs) (folded n quoteChar false (c :: cs)) := by
  have hfolded : folded n quoteChar false (c :: cs) = quoteChar c ++ folded n quoteChar false cs := by
    simp [folded, hc]
  rw [hfolded]
  by_cases hspace : c = ' '
  · -- blanks stay within a line
    subst hspace
    have hput : quoteChar ' ' ++ folded n quoteChar false cs = ' ' :: folded n quoteChar false cs := rfl
    rw [hput]
    refine .blank rfl ?_ hbody
    intro x hx
    cases cs with
    | nil => cases hx
    | cons d cs =>
      have hd : isBreak d = false := not_pair h.beforeBreak rfl
      rw [head_folded hd] at hx
      cases hx
      exact hd
  · by_cases hquote : c = '\''
    · subst hquote
      exact .quote rfl hbody
    · have hput : quoteChar c = [c] := by simp [quoteChar, hquote]
      rw [hput]
      exact .char (h.not_blank (List.mem_cons_self ..) hspace) hc hquote (fun hq => by cases hq) hbody

/-- Breaks before the rest of a text.  The next line is indented. -/
theorem Single.body_breaks {b : Char} {breaks rest : List Char} (h : Single (b :: (breaks ++ rest)))
    (hn : 0 < n) (hb : isBreak b = true) (hbreaks : ∀ x ∈ breaks, isBreak x = true)
    (hrest : ∀ x ∈ rest.head?, isBreak x = false)
    (hbody : Quoted.Body .single rest (folded n quoteChar false rest)) :
    Quoted.Body .single (b :: (breaks ++ rest)) (folded n quoteChar false (b :: (breaks ++ rest))) := by
  have hseparator := h.separator b (List.mem_cons_self ..) hb
  have hseparators : ∀ y ∈ breaks, isSeparator y = true := fun y hy =>
    h.separator y (by simp [hy]) (hbreaks y hy)
  rw [folded_break hb hbreaks]
  cases rest with
  | nil => exact .breaks 0 hseparator hseparators Gap.endsAt_nil (.inr rfl) .nil
  | cons d rest =>
    have hd : isBreak d = false := hrest d rfl
    rw [folded_indent hd]
    refine .breaks n hseparator hseparators ?_ (.inl (by omega)) hbody
    -- a line does not start with a space, which would be lost
    have hspace : d ≠ ' ' := by
      simpa [Presentation.isSpace] using not_pair_breaks h.afterBreak hb hbreaks
    intro x hx
    rw [head_folded hd] at hx
    cases hx
    exact ⟨h.not_blank (by simp) hspace, hd⟩

end

/-- A text in single quotes. -/
theorem body_single {n : Nat} (hn : 0 < n) :
    ∀ (k : Nat) (cs : List Char), cs.length ≤ k → Single cs →
      Quoted.Body .single cs (folded n quoteChar false cs) := by
  -- breaks are taken together, so the induction is on the length and not on the text
  intro k
  induction k with
  | zero =>
    intro cs hk _
    obtain rfl : cs = [] := List.length_eq_zero_iff.1 (by omega)
    exact .nil
  | succ k ih =>
    intro cs hk h
    cases cs with
    | nil => exact .nil
    | cons c cs =>
      have hk' : cs.length ≤ k := by simpa using hk
      cases hc : isBreak c with
      | false => exact h.body_char hc (ih cs hk' h.tail)
      | true =>
        obtain ⟨breaks, rest, rfl, hbreaks, hrest⟩ := split_breaks cs
        rw [List.length_append] at hk'
        exact h.body_breaks hn hc hbreaks hrest (ih rest (by omega) h.tail.drop)

/-! ## Literal blocks -/

/-- A text whose first and last characters are no breaks is made of lines. -/
theorem lines_folded {n : Nat} {ending : Char} {breaks : List Char} (hending : isOwnBreak ending = true)
    (hbreaks : ∀ x ∈ breaks, isOwnBreak x = true) :
    ∀ (k : Nat) (core : List Char), core.length ≤ k → core ≠ [] →
      (∀ x ∈ core, isBreak x = true → isOwnBreak x = true) →
      (∀ x ∈ core.head?, isBreak x = false) → (∀ x ∈ core.getLast?, isBreak x = false) →
        Block.Lines n core ending breaks (folded n (fun c => [c]) false core ++ ending :: breaks) := by
  intro k
  induction k with
  | zero =>
    intro core hk hne
    exact absurd (List.length_eq_zero_iff.1 (by omega)) hne
  | succ k ih =>
    intro core hk hne hown hhead hlast
    -- a line and the breaks behind it, which are followed by another line
    obtain ⟨line, rest, rfl, hline, hrest⟩ := split_line core
    have hline' : line ≠ [] := by
      rintro rfl
      rcases hrest with rfl | ⟨b, more, rfl, hb⟩
      · exact hne rfl
      · rw [hhead b rfl] at hb
        cases hb
    have hflat : line.flatMap (fun c => [c]) = line := by simp
    rw [folded_line hline, hflat]
    rcases hrest with rfl | ⟨b, more, rfl, hb⟩
    · rw [folded, List.append_nil]
      exact .last hline' hline hending hbreaks
    · obtain ⟨empty, core, rfl, hempty, hcore⟩ := split_breaks more
      have hne' : core ≠ [] := by
        rintro rfl
        obtain ⟨y, hy⟩ : ∃ y, (b :: empty).getLast? = some y := ⟨_, List.getLast?_cons⟩
        have hbreak : isBreak y = true := by
          rcases List.mem_cons.1 (List.mem_of_getLast? hy) with rfl | hmem
          · exact hb
          · exact hempty y hmem
        rw [List.append_nil, List.getLast?_append_of_ne_nil _ (by simp)] at hlast
        rw [hlast y hy] at hbreak
        cases hbreak
      obtain ⟨d, core, rfl⟩ := List.exists_cons_of_ne_nil hne'
      have hlast' : (line ++ b :: (empty ++ d :: core)).getLast? = (d :: core).getLast? := by
        rw [show line ++ b :: (empty ++ d :: core) = (line ++ b :: empty) ++ d :: core by simp,
          List.getLast?_append_of_ne_nil _ hne']
      rw [hlast'] at hlast
      have hlines := ih (d :: core) (by simp at hk ⊢; omega) hne'
        (fun x hx => hown x (List.mem_append_right _ (List.mem_cons_of_mem _
          (List.mem_append_right _ hx)))) hcore hlast
      rw [folded_break hb hempty, folded_indent (hcore d rfl)]
      have htext : line ++ b :: (empty ++ (List.replicate n ' ' ++
          folded n (fun c => [c]) false (d :: core))) ++ ending :: breaks =
          line ++ b :: (empty ++ (List.replicate n ' ' ++
            (folded n (fun c => [c]) false (d :: core) ++ ending :: breaks))) := by simp
      rw [htext]
      exact .cons hline' hline (hown b (by simp) hb)
        (fun x hx => hown x (by simp [hx]) (hempty x hx)) hlines

theorem folded_append_breaks {n : Nat} {put : Char → List Char} {breaks : List Char}
    (h : ∀ x ∈ breaks, isBreak x = true) (core : List Char) :
    ∀ broken, folded n put broken (core ++ breaks) = folded n put broken core ++ breaks := by
  induction core with
  | nil =>
    intro broken
    cases breaks with
    | nil => rfl
    | cons b breaks =>
      have hbreaks : ∀ x ∈ breaks, isBreak x = true := fun x hx => h x (List.mem_cons_of_mem _ hx)
      have hfold : folded n put broken (b :: (breaks ++ [])) = b :: (breaks ++ folded n put true []) :=
        folded_break (h b (List.mem_cons_self ..)) hbreaks broken []
      simpa [folded] using hfold
  | cons c core ih =>
    intro broken
    rw [List.cons_append, folded, folded]
    split
    · rw [ih]
      rfl
    · rw [ih]
      simp

/-- The breaks at the end of a text. -/
theorem split_ending (cs : List Char) :
    ∃ core breaks, cs = core ++ breaks ∧ (∀ x ∈ breaks, isBreak x = true) ∧
      ∀ x ∈ core.getLast?, isBreak x = false := by
  obtain ⟨breaks, core, hsplit, hbreaks, hcore⟩ := split_breaks cs.reverse
  refine ⟨core.reverse, breaks.reverse, ?_, ?_, ?_⟩
  · rw [← List.reverse_append, ← hsplit, List.reverse_reverse]
  · simpa using hbreaks
  · rwa [List.getLast?_reverse]

/-- What happens to the breaks at the end of a literal block. -/
def chompingOf : List Char → Block.Chomping
  | [] => .strip
  | [_] => .clip
  | _ => .keep

theorem literalHints_eq {c : Char} {cs core breaks : List Char} (hc : isBreak c = false)
    (hcs : c :: cs = core ++ breaks) (hbreaks : ∀ x ∈ breaks, isBreak x = true)
    (hcore : ∀ x ∈ core.getLast?, isBreak x = false) (hne : core ≠ []) :
    Printer.literalHints 2 (c :: cs) = Block.digitHint (c == ' ') ++ (chompingOf breaks).sign := by
  have hdigit : (if (c :: cs).head?.any fun c => c == ' ' || isBreak c then Nat.toDigits 10 2 else []) =
      Block.digitHint (c == ' ') := by
    simp only [List.head?_cons, Option.any_some, hc, Bool.or_false]
    rfl
  rw [Printer.literalHints, hdigit]
  congr 1
  obtain ⟨d, hd⟩ : ∃ d, core.getLast? = some d := by
    cases h : core.getLast? with
    | none => exact absurd (List.getLast?_eq_none_iff.1 h) hne
    | some d => exact ⟨d, rfl⟩
  obtain ⟨core, rfl⟩ : ∃ core', core = core' ++ [d] := List.getLast?_eq_some_iff.1 hd
  have hd' : isBreak d = false := hcore d hd
  rw [hcs]
  rcases breaks with _ | ⟨e, _ | ⟨e', breaks⟩⟩
  · simp [hd', chompingOf, Block.Chomping.sign]
  · have he := hbreaks e (by simp)
    simp [he, hd', chompingOf, Block.Chomping.sign]
  · obtain ⟨x, y, zs, hreverse⟩ : ∃ x y zs, (e :: e' :: breaks).reverse = x :: y :: zs := by
      have hlength : (e :: e' :: breaks).reverse.length = breaks.length + 2 := by simp
      generalize (e :: e' :: breaks).reverse = reversed at hlength
      rcases reversed with _ | ⟨x, _ | ⟨y, zs⟩⟩
      · simp at hlength
      · simp at hlength
      · exact ⟨x, y, zs, rfl⟩
    have hmem : ∀ z ∈ x :: y :: zs, isBreak z = true := by
      intro z hz
      rw [← hreverse, List.mem_reverse] at hz
      exact hbreaks z hz
    have hx := hmem x (by simp)
    have hy := hmem y (by simp)
    rw [List.reverse_append, hreverse]
    simp [hx, hy, chompingOf, Block.Chomping.sign]

theorem isOwnBreak_of_blockAllowed {cs : List Char} (h : Presentation.blockAllowed cs = true) :
    ∀ x ∈ cs, isBreak x = true → isOwnBreak x = true := by
  intro x hx hbreak
  simp only [Presentation.blockAllowed, Bool.and_eq_true, Bool.not_eq_true', Presentation.hasSpecial,
    List.any_eq_false] at h
  have hspecial := h.2 x hx
  have hne : x ≠ '\t' := by
    rintro rfl
    exact absurd hbreak (by decide)
  exact isOwnBreak_of_isPrintable (by simpa [hne] using hspecial) hbreak

/-- A text that starts with no break, up to the breaks at its end. -/
theorem split_core {c : Char} (hc : isBreak c = false) (cs : List Char) :
    ∃ core breaks, c :: cs = c :: core ++ breaks ∧ (∀ x ∈ breaks, isBreak x = true) ∧
      ∀ x ∈ (c :: core).getLast?, isBreak x = false := by
  obtain ⟨core, breaks, hsplit, hbreaks, hlast⟩ := split_ending (c :: cs)
  cases core with
  | nil =>
    have hbreak := hbreaks c (by rw [← List.nil_append breaks, ← hsplit]; exact List.mem_cons_self ..)
    rw [hc] at hbreak
    cases hbreak
  | cons d core =>
    obtain rfl : c = d := (List.cons.inj hsplit).1
    exact ⟨core, breaks, hsplit, hbreaks, hlast⟩

theorem lineEnd_core {cs : List Char} (h : ∀ x ∈ cs.getLast?, isBreak x = false) :
    lineEnd .literal cs = ['\n'] := by
  rw [lineEnd, if_neg]
  rintro ⟨-, hbreak⟩
  obtain ⟨x, hx, hbreak⟩ := (Option.any_eq_true _ _).1 hbreak
  rw [h x hx] at hbreak
  cases hbreak

theorem lineEnd_breaks {core breaks : List Char} (hne : breaks ≠ [])
    (h : ∀ x ∈ breaks, isBreak x = true) : lineEnd .literal (core ++ breaks) = [] := by
  rw [lineEnd, if_pos]
  refine ⟨rfl, ?_⟩
  rw [List.getLast?_append_of_ne_nil _ hne, List.getLast?_eq_some_getLast hne]
  exact h _ (List.getLast_mem hne)

/-- The text of a literal block is a header and lines. -/
theorem literal_line {str : String} (hlegible : legibleText str = true)
    (hnewline : str.toList.contains '\n' = true)
    (hblock : Presentation.blockAllowed str.toList = true) (n : Nat) :
    ∃ leading chomping core ending breaks body,
      scalarLine n .literal str.toList =
        Block.headerText leading chomping ++ (List.replicate n ' ' ++ body) ∧
      Block.Lines n core ending breaks body ∧ core ++ chomping.kept ending breaks = str.toList ∧
      (leading = false → ∀ x ∈ body.head?, isBlank x = false) := by
  obtain ⟨c, cs, heq, hc, htab⟩ := head_of_literal hlegible hnewline hblock
  have hown := isOwnBreak_of_blockAllowed hblock
  rw [heq] at hown ⊢
  obtain ⟨core, trailing, hsplit, htrailing, hlast⟩ := split_core hc cs
  have hlines : ∀ {ending : Char} {breaks : List Char}, isOwnBreak ending = true →
      (∀ x ∈ breaks, isOwnBreak x = true) → Block.Lines n (c :: core) ending breaks
        (folded n (fun c => [c]) false (c :: core) ++ ending :: breaks) := fun hending hbreaks =>
    lines_folded hending hbreaks _ (c :: core) (Nat.le_refl _) (List.cons_ne_nil _ _)
      (fun x hx => hown x (by rw [hsplit]; exact List.mem_append_left _ hx))
      (by simpa using hc) hlast
  have hblank : ∀ {rest : List Char}, (c == ' ') = false →
      ∀ x ∈ (folded n (fun c => [c]) false (c :: core) ++ rest).head?, isBlank x = false := by
    intro rest hspace x hx
    obtain rfl : c = x := by simpa [folded, hc] using hx
    simpa [isBlank, htab] using hspace
  have hheader : '|' :: (Printer.literalHints 2 (c :: cs) ++ ['\n']) =
      Block.headerText (c == ' ') (chompingOf trailing) := by
    rw [literalHints_eq hc hsplit htrailing hlast (List.cons_ne_nil _ _)]
    simp [Block.headerText]
  have hline : scalarLine n .literal (c :: cs) = Block.headerText (c == ' ') (chompingOf trailing) ++
      (List.replicate n ' ' ++ (folded n (fun c => [c]) false (c :: cs) ++ lineEnd .literal (c :: cs))) := by
    rw [← hheader]
    simp [scalarLine, scalarText]
  -- the break that ends the last line is the printer's, or the first of those at the end of the text
  cases trailing with
  | nil =>
    rw [List.append_nil] at hsplit
    rw [hsplit, lineEnd_core hlast] at hline
    refine ⟨c == ' ', .strip, c :: core, '\n', [], _, ?_, hlines rfl (by simp), ?_, hblank⟩
    · rw [hsplit, hline]
      rfl
    · simp [Block.Chomping.kept, hsplit]
  | cons e breaks =>
    have hown' : ∀ x ∈ e :: breaks, isOwnBreak x = true := fun x hx =>
      hown x (by rw [hsplit]; exact List.mem_append_right _ hx) (htrailing x hx)
    rw [hsplit, lineEnd_breaks (List.cons_ne_nil _ _) htrailing, List.append_nil,
      folded_append_breaks htrailing] at hline
    refine ⟨c == ' ', chompingOf (e :: breaks), c :: core, e, breaks, _, ?_,
      hlines (hown' e (by simp)) fun x hx => hown' x (by simp [hx]), ?_, hblank⟩
    · rw [hsplit]
      exact hline
    · rw [hsplit]
      cases breaks <;> rfl

/-! ## Keys on one line -/

theorem folded_eq_flatMap {n : Nat} {put : Char → List Char} {cs : List Char}
    (h : ∀ c ∈ cs, isBreak c = false) : folded n put false cs = cs.flatMap put := by
  have hline : folded n put false (cs ++ []) = cs.flatMap put ++ folded n put false [] :=
    folded_line h []
  simpa [folded] using hline

/-- An escape is at most four times as long as the bytes of its character. -/
theorem length_escape_le (c : Char) : (Presentation.escape c).length ≤ 4 * c.utf8Size := by
  have hpos : 1 ≤ c.utf8Size := Char.utf8Size_pos c
  have hval : c.val.toNat = c.toNat := rfl
  have htwo : 0xFF < c.toNat → 2 ≤ c.utf8Size := by
    intro h
    simp only [Char.utf8Size, UInt32.le_iff_toNat_le, hval, UInt32.toNat_ofNatLT]
    split_ifs <;> omega
  have hfour : 0xFFFF < c.toNat → 4 ≤ c.utf8Size := by
    intro h
    simp only [Char.utf8Size, UInt32.le_iff_toNat_le, hval, UInt32.toNat_ofNatLT]
    split_ifs <;> omega
  have hmax : c.toNat < 16 ^ 8 := by
    have hvalid : c.toNat.isValidChar := c.valid
    rcases hvalid with h | h <;> omega
  unfold Presentation.escape
  split
  case h_16 n _ _ _ _ _ _ _ _ _ _ _ _ _ _ _ =>
    split_ifs with hbyte hunit
    · rw [List.length_cons, List.length_cons, length_upperHex (by decide) (Nat.lt_succ_of_le hbyte)]
      exact Nat.mul_le_mul_left 4 hpos
    · have := htwo (Nat.lt_of_not_le hbyte)
      rw [List.length_cons, List.length_cons, length_upperHex (by decide) (Nat.lt_succ_of_le hunit)]
      exact Nat.le_trans (by decide) (Nat.mul_le_mul_left 4 this)
    · have := hfour (Nat.lt_of_not_le hunit)
      rw [List.length_cons, List.length_cons, length_upperHex (by decide) hmax]
      exact Nat.le_trans (by decide) (Nat.mul_le_mul_left 4 this)
  all_goals exact Nat.le_trans (by decide) (Nat.mul_le_mul_left 4 hpos)

theorem length_flatMap_le {f : Char → List Char} (h : ∀ c, (f c).length ≤ 4 * c.utf8Size)
    (cs : List Char) : (cs.flatMap f).length ≤ 4 * (String.ofList cs).utf8ByteSize := by
  induction cs with
  | nil => simp
  | cons c cs ih =>
    have hsize : (String.ofList (c :: cs)).utf8ByteSize =
        c.utf8Size + (String.ofList cs).utf8ByteSize := by
      rw [← List.singleton_append, String.ofList_append, String.utf8ByteSize_append]
      congr 1
      exact String.utf8ByteSize_singleton
    have hc := h c
    rw [List.flatMap_cons, List.length_append, hsize]
    omega

/-- How a key on one line is written: character by character, between two marks or none. -/
theorem scalarText_key {cs : List Char} {style : ScalarStyle} (h : HasStyle cs true style) (n : Nat) :
    ∃ mark put, scalarText n style cs = mark ++ (cs.flatMap put ++ mark) ∧
      scalarText n style cs ≠ [] ∧ mark.length ≤ 1 ∧ (∀ x ∈ mark, isBreak x = false) ∧
      ∀ c, (put c).length ≤ 4 * c.utf8Size ∧ (c ∈ cs → ∀ x ∈ put c, isBreak x = false) := by
  have hpos : ∀ c : Char, 1 ≤ c.utf8Size := Char.utf8Size_pos
  cases h with
  | plain hne hplain =>
    refine ⟨[], fun c => [c], by simp [scalarText], hne, by simp, by simp, fun c => ⟨?_, ?_⟩⟩
    · have := hpos c
      simp only [List.length_singleton]
      omega
    · intro hc x hx
      obtain rfl := List.mem_singleton.1 hx
      exact (Plain.inline_of_plainAllowed hplain x hc).1
  | singleQuoted hsingle _ hbreaks =>
    have hbreaks' : ∀ c ∈ cs, isBreak c = false := by
      have hnone := hbreaks rfl
      simpa [Presentation.hasBreaks] using hnone
    refine ⟨['\''], quoteChar, by simp [scalarText, folded_eq_flatMap hbreaks'], by simp [scalarText],
      by simp, List.all_iff_forall_prop.1 (by decide), fun c => ⟨?_, ?_⟩⟩
    · have := hpos c
      unfold quoteChar
      split <;> simp <;> omega
    · intro hc x hx
      unfold quoteChar at hx
      split at hx
      · have : x = '\'' := by simpa using hx
        subst this
        decide
      · rw [List.mem_singleton.1 hx]
        exact hbreaks' c hc
  | doubleQuoted =>
    refine ⟨['"'], _, by rw [scalarText, Presentation.doubleQuoted]; rfl, by simp [scalarText],
      by simp, List.all_iff_forall_prop.1 (by decide),
      fun c => ⟨?_, fun _ => (Quoted.spells_put _ c).not_break⟩⟩
    have := hpos c
    split
    · exact length_escape_le c
    · simp only [List.length_singleton]
      omega
  | literal hsimple => cases hsimple

/-- A text that can stand before a colon. -/
structure IsKeyText (tok : List Char) : Prop where
  nonempty : tok ≠ []
  line : ∀ x ∈ tok, isBreak x = false
  length : tok.length ≤ 1024

theorem isKeyText_scalarText {key : String} {style : ScalarStyle} (h : HasStyle key.toList true style)
    (hsize : key.utf8ByteSize ≤ 128) (n : Nat) : IsKeyText (scalarText n style key.toList) := by
  obtain ⟨mark, put, htext, hne, hmark, hmarkLine, hput⟩ := scalarText_key h n
  have hlength := length_flatMap_le (fun c => (hput c).1) key.toList
  rw [String.ofList_toList] at hlength
  refine ⟨hne, ?_, ?_⟩
  · intro x hx
    rw [htext, List.mem_append, List.mem_append] at hx
    rcases hx with hx | hx | hx
    · exact hmarkLine x hx
    · obtain ⟨c, hc, hx⟩ := List.mem_flatMap.1 hx
      exact (hput c).2 hc x hx
    · exact hmarkLine x hx
  · rw [htext, List.length_append, List.length_append]
    omega

end StackIr.Json
