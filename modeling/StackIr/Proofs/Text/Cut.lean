import StackIr.Text.Cut

/-! # Texts cut at a separator

    A text is cut at the leftmost place where the separator stands.  For a separator of one
    character this means that what is before it does not have the character. -/

namespace StackIr.Text

theorem cutChars_cons (c d : Char) (rest : List Char) :
    cutChars [c] (d :: rest) =
      if c = d then some ([], rest)
      else (cutChars [c] rest).map fun (before, after) => (d :: before, after) := by
  rw [cutChars]
  by_cases h : c = d
  · simp [h]
  · simp [h]

@[simp] theorem cutChars_eq_none_iff {c : Char} {s : List Char} :
    cutChars [c] s = none ↔ c ∉ s := by
  induction s with
  | nil => simp [cutChars]
  | cons d rest ih =>
    rw [cutChars_cons, List.mem_cons, not_or]
    by_cases h : c = d
    · simp [h]
    · simp [h, ih]

theorem cutChars_eq_some_iff {c : Char} {s before after : List Char} :
    cutChars [c] s = some (before, after) ↔ s = before ++ c :: after ∧ c ∉ before := by
  induction s generalizing before with
  | nil => simp [cutChars]
  | cons d rest ih =>
    rw [cutChars_cons]
    by_cases h : c = d
    · -- the separator is found at once, so nothing stands before it
      subst h
      cases before with
      | nil => simp [eq_comm]
      | cons b before => simp +contextual
    · cases before with
      | nil => simp [h, Ne.symm h]
      | cons b before =>
        simp only [if_neg h, Option.map_eq_some_iff, Prod.exists, Prod.mk.injEq, List.cons.injEq,
          List.cons_append, List.mem_cons, not_or]
        constructor
        · rintro ⟨before', after', hcut, ⟨rfl, rfl⟩, rfl⟩
          obtain ⟨hrest, hbefore⟩ := ih.1 hcut
          exact ⟨⟨rfl, hrest⟩, h, hbefore⟩
        · intro ⟨⟨hd, hrest⟩, _, hbefore⟩
          exact ⟨before, after, ih.2 ⟨hrest, hbefore⟩, ⟨hd, rfl⟩, rfl⟩

/-! ## Strings -/

variable {c : Char} {sep s : String}

theorem cut?_eq_none_iff (hsep : sep.toList = [c]) : cut? sep s = none ↔ c ∉ s.toList := by
  rw [cut?, Option.map_eq_none_iff, hsep, cutChars_eq_none_iff]

theorem cut?_eq_some_iff (hsep : sep.toList = [c]) {before after : String} :
    cut? sep s = some (before, after) ↔ s = before ++ sep ++ after ∧ c ∉ before.toList := by
  rw [cut?, hsep, Option.map_eq_some_iff]
  constructor
  · rintro ⟨⟨b, a⟩, hcut, heq⟩
    cases heq
    obtain ⟨hs, hb⟩ := cutChars_eq_some_iff.1 hcut
    refine ⟨?_, by simpa using hb⟩
    apply String.toList_inj.1
    simp [hs, hsep]
  · intro ⟨hs, hbefore⟩
    refine ⟨(before.toList, after.toList), cutChars_eq_some_iff.2 ⟨?_, hbefore⟩, by simp⟩
    rw [hs]
    simp [hsep]

/-- Where something is left after the separator, the text was cut. -/
theorem cut_eq_iff (hsep : sep.toList = [c]) {before after : String} (hafter : after ≠ "") :
    cut sep s = (before, after) ↔ s = before ++ sep ++ after ∧ c ∉ before.toList := by
  rw [← cut?_eq_some_iff hsep, cut]
  cases cut? sep s with
  | none => simp [Ne.symm hafter]
  | some sides => simp

/-! ## Any separator -/

/-- `before` and `after` are the two sides of the leftmost `sep` in `s`. -/
structure Leftmost (sep s before after : String) : Prop where
  eq : s = before ++ sep ++ after
  least : ∀ b a, s = b ++ sep ++ a → before.length ≤ b.length

theorem exists_cutChars_of_eq {sep s b a : List Char} (h : s = b ++ sep ++ a) :
    ∃ before after, cutChars sep s = some (before, after) ∧ before.length ≤ b.length := by
  induction s generalizing b with
  | nil =>
    obtain ⟨rfl, rfl, rfl⟩ : b = [] ∧ sep = [] ∧ a = [] := by simpa using h.symm
    exact ⟨[], [], rfl, Nat.le_refl 0⟩
  | cons c rest ih =>
    rw [cutChars]
    split
    · exact ⟨[], _, rfl, Nat.zero_le _⟩
    · rename_i hprefix
      cases b with
      | nil =>
        -- a separator at the start would have been found there
        refine absurd (List.isPrefixOf_iff_prefix.2 ?_) hprefix
        exact ⟨a, h.symm⟩
      | cons d b =>
        obtain ⟨rfl, hrest⟩ := List.cons.inj h
        obtain ⟨before, after, hcut, hle⟩ := ih hrest
        exact ⟨c :: before, after, by rw [hcut]; rfl, Nat.succ_le_succ hle⟩

theorem eq_of_cutChars {sep s before after : List Char} (h : cutChars sep s = some (before, after)) :
    s = before ++ sep ++ after := by
  induction s generalizing before with
  | nil =>
    rw [cutChars] at h
    split at h
    · rename_i hempty
      cases h
      simpa using hempty
    · cases h
  | cons c rest ih =>
    rw [cutChars] at h
    split at h
    · rename_i hprefix
      cases h
      obtain ⟨tail, htail⟩ := List.isPrefixOf_iff_prefix.1 hprefix
      rw [← htail, List.drop_left, List.nil_append]
    · obtain ⟨⟨b, a⟩, hcut, heq⟩ := Option.map_eq_some_iff.1 h
      cases heq
      rw [List.cons_append, List.cons_append, ih hcut]

theorem exists_cut?_of_eq {sep s b a : String} (h : s = b ++ sep ++ a) :
    ∃ before after, cut? sep s = some (before, after) ∧ before.length ≤ b.length := by
  have hchars : s.toList = b.toList ++ sep.toList ++ a.toList := by simp [h]
  obtain ⟨before, after, hcut, hle⟩ := exists_cutChars_of_eq hchars
  refine ⟨.ofList before, .ofList after, ?_, ?_⟩
  · rw [cut?, hcut, Option.map_some]
  · rwa [String.length_ofList, ← String.length_toList]

theorem eq_of_cut? {sep s before after : String} (h : cut? sep s = some (before, after)) :
    s = before ++ sep ++ after := by
  obtain ⟨⟨b, a⟩, hcut, heq⟩ := Option.map_eq_some_iff.1 h
  cases heq
  apply String.toList_inj.1
  simpa using eq_of_cutChars hcut

/-- A text is cut at the leftmost place where the separator stands. -/
theorem cut?_eq_some_iff_leftmost {sep s before after : String} :
    cut? sep s = some (before, after) ↔ Leftmost sep s before after := by
  constructor
  · intro h
    refine ⟨eq_of_cut? h, fun b a heq => ?_⟩
    obtain ⟨before', after', hcut, hle⟩ := exists_cut?_of_eq heq
    rw [h] at hcut
    cases hcut
    exact hle
  · intro h
    obtain ⟨before', after', hcut, hle⟩ := exists_cut?_of_eq h.eq
    have hlength : before'.length = before.length :=
      Nat.le_antisymm hle (h.least _ _ (eq_of_cut? hcut))
    -- two ways to divide the text, with first parts of one length
    have hsame : before'.toList ++ (sep ++ after').toList =
        before.toList ++ (sep ++ after).toList := by
      rw [← String.toList_append, ← String.toList_append, ← String.append_assoc,
        ← String.append_assoc, ← eq_of_cut? hcut, ← h.eq]
    obtain ⟨hbefore, hafter⟩ := List.append_inj hsame hlength
    rw [String.toList_append, String.toList_append] at hafter
    have hafter' := String.toList_inj.1 (List.append_cancel_left hafter)
    rw [hcut, String.toList_inj.1 hbefore, hafter']

/-- A text without the separator is not cut. -/
theorem cut?_eq_none_iff_absent {sep s : String} :
    cut? sep s = none ↔ ¬ ∃ before after, s = before ++ sep ++ after := by
  constructor
  · rintro h ⟨before, after, heq⟩
    obtain ⟨b, a, hcut, -⟩ := exists_cut?_of_eq heq
    rw [h] at hcut
    cases hcut
  · intro h
    cases hcut : cut? sep s with
    | none => rfl
    | some sides => exact absurd ⟨sides.1, sides.2, eq_of_cut? hcut⟩ h

/-- Both sides of a cut: those of the leftmost separator, or all of a text without one and
    nothing. -/
theorem cut_eq_iff_leftmost {sep s before after : String} :
    cut sep s = (before, after) ↔ Leftmost sep s before after ∨
      (s = before ∧ after = "" ∧ ¬ ∃ b a, s = b ++ sep ++ a) := by
  rw [cut, ← cut?_eq_some_iff_leftmost, ← cut?_eq_none_iff_absent]
  cases cut? sep s with
  | none => simp [eq_comm]
  | some sides => simp

namespace Leftmost

variable {sep s before after : String}

/-- A text has one leftmost separator. -/
theorem unique {before' after' : String} (h : Leftmost sep s before after)
    (h' : Leftmost sep s before' after') : before = before' ∧ after = after' := by
  have hcut := cut?_eq_some_iff_leftmost.2 h
  rw [cut?_eq_some_iff_leftmost.2 h'] at hcut
  cases hcut
  exact ⟨rfl, rfl⟩

/-- No separator stands before the leftmost one. -/
theorem absent (h : Leftmost sep s before after) (hsep : 0 < sep.length) :
    ¬ ∃ b a, before = b ++ sep ++ a := by
  intro ⟨b, a, hbefore⟩
  have hle : before.length ≤ b.length := by
    apply h.least b (a ++ sep ++ after)
    rw [h.eq, hbefore]
    simp only [String.append_assoc]
  have hlength : before.length = b.length + sep.length + a.length := by
    rw [hbefore, String.length_append, String.length_append]
  omega

/-- Whether a separator is the leftmost one does not depend on what follows it. -/
theorem replace_after (h : Leftmost sep s before after) (after' : String) :
    Leftmost sep (before ++ sep ++ after') before after' := by
  refine ⟨rfl, ?_⟩
  intro b a heq
  apply Nat.le_of_not_lt
  intro hlt
  -- a separator further left ends before the given one does, so it stands in `s` too
  have hleft : (b ++ sep).toList <+: (before ++ sep ++ after').toList := by
    rw [heq, String.toList_append (s := b ++ sep)]
    exact List.prefix_append _ _
  have hgiven : (before ++ sep).toList <+: (before ++ sep ++ after').toList := by
    rw [String.toList_append (s := before ++ sep)]
    exact List.prefix_append _ _
  have hprefix : (b ++ sep).toList <+: (before ++ sep).toList := by
    apply List.prefix_of_prefix_length_le hleft hgiven
    simp only [String.length_toList, String.length_append]
    omega
  obtain ⟨middle, hmiddle⟩ := hprefix
  have hs : s = b ++ sep ++ (String.ofList middle ++ after) := by
    rw [h.eq]
    apply String.toList_inj.1
    rw [String.toList_append, ← hmiddle]
    simp
  exact Nat.not_le_of_lt hlt (h.least b _ hs)

end Leftmost

/-! ## Starts -/

@[simp] theorem startsWith_iff {start : String} :
    startsWith s start = true ↔ start.toList <+: s.toList :=
  List.isPrefixOf_iff_prefix

end StackIr.Text
