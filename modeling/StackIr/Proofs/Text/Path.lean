import StackIr.Text.Path

/-! # Elements of paths

    A path is cleaned by following its elements and writing down what is left of them.  The
    elements of the clean path are those that are left (`elements_clean`): parents first, if it
    is relative, and then names (`Straight`). -/

namespace StackIr.Text

/-! ## Parts between slashes -/

theorem splitChars_ne_nil (p : Char → Bool) (cs : List Char) : splitChars p cs ≠ [] := by
  cases cs with
  | nil => exact List.cons_ne_nil _ _
  | cons c rest =>
    rw [splitChars]
    split
    · exact List.cons_ne_nil _ _
    · split <;> exact List.cons_ne_nil _ _

/-- A list that is divided by hand has the parts of both sides. -/
theorem splitChars_append {p : Char → Bool} {c : Char} (hc : p c = true) (before after : List Char) :
    splitChars p (before ++ c :: after) = splitChars p before ++ splitChars p after := by
  induction before with
  | nil => simp [splitChars, hc]
  | cons d before ih =>
    rw [List.cons_append, splitChars, splitChars, ih]
    by_cases hd : p d = true
    · simp [hd]
    · cases hbefore : splitChars p before with
      | nil => exact absurd hbefore (splitChars_ne_nil p before)
      | cons part parts => simp [hd]

theorem splitChars_of_forall {p : Char → Bool} {cs : List Char} (h : ∀ c ∈ cs, p c = false) :
    splitChars p cs = [cs] := by
  induction cs with
  | nil => rfl
  | cons c rest ih =>
    have hc : p c = false := h c (List.mem_cons_self ..)
    have hrest := ih fun d hd => h d (List.mem_cons_of_mem _ hd)
    simp [splitChars, hc, hrest]

theorem forall_of_mem_splitChars {p : Char → Bool} {cs part : List Char}
    (h : part ∈ splitChars p cs) : ∀ c ∈ part, p c = false := by
  induction cs generalizing part with
  | nil =>
    rw [splitChars, List.mem_singleton] at h
    simp [h]
  | cons c rest ih =>
    rw [splitChars] at h
    split at h
    · rcases List.mem_cons.1 h with rfl | h
      · simp
      · exact ih h
    · rename_i hc
      split at h
      · -- there is always a first part
        rename_i hnil
        exact absurd hnil (splitChars_ne_nil p rest)
      · rename_i first parts hparts
        rw [hparts] at ih
        rcases List.mem_cons.1 h with rfl | h
        · intro d hd
          rcases List.mem_cons.1 hd with rfl | hd
          · exact Bool.eq_false_iff.2 hc
          · exact ih (List.mem_cons_self ..) d hd
        · exact ih (List.mem_cons_of_mem _ h)

namespace Path

variable {path e : String} {es sofar : List String} {absolute : Bool}

/-! ## Elements -/

/-- What can stand between slashes. -/
structure IsElement (e : String) : Prop where
  ne_empty : e ≠ ""
  no_slash : '/' ∉ e.toList

/-- An element that is neither the place itself nor its parent. -/
structure IsName (e : String) : Prop extends IsElement e where
  ne_self : e ≠ "."
  ne_parent : e ≠ ".."

theorem IsElement.ne_slash (h : IsElement e) : e ≠ "/" := by
  rintro rfl
  exact h.no_slash (by decide)

theorem isElement_of_mem_elements (h : e ∈ elements path) : IsElement e := by
  obtain ⟨hsplit, hne⟩ := List.mem_filter.1 h
  obtain ⟨part, hpart, rfl⟩ := List.mem_map.1 hsplit
  refine ⟨by simpa using hne, ?_⟩
  intro hslash
  rw [String.toList_ofList] at hslash
  have hfalse := forall_of_mem_splitChars hpart '/' hslash
  simp at hfalse

theorem elements_append (before after : String) :
    elements (before ++ "/" ++ after) = elements before ++ elements after := by
  have hchars : (before ++ "/" ++ after).toList = before.toList ++ '/' :: after.toList := by simp
  rw [elements, splitOn, hchars, splitChars_append (by simp), List.map_append, List.filter_append]
  rfl

theorem IsElement.elements_eq (h : IsElement e) : elements e = [e] := by
  have hparts : splitChars (· == '/') e.toList = [e.toList] := by
    apply splitChars_of_forall
    intro c hc
    apply beq_eq_false_iff_ne.2
    rintro rfl
    exact h.no_slash hc
  rw [elements, splitOn, hparts]
  simp [h.ne_empty]

theorem elements_intercalate (h : ∀ e ∈ es, IsElement e) :
    elements (String.intercalate "/" es) = es := by
  induction es with
  | nil => rfl
  | cons e rest ih =>
    have he : IsElement e := h e (List.mem_cons_self ..)
    have hrest := ih fun d hd => h d (List.mem_cons_of_mem _ hd)
    cases rest with
    | nil => rw [String.intercalate_singleton, he.elements_eq]
    | cons d rest =>
      rw [String.intercalate_cons_cons, elements_append, he.elements_eq, hrest,
        List.singleton_append]

/-! ## Paths from the root -/

theorem isAbsolute_append (hne : path ≠ "") (after : String) :
    isAbsolute (path ++ after) = isAbsolute path := by
  have hchars : path.toList ≠ [] := by simpa using hne
  cases hpath : path.toList with
  | nil => exact absurd hpath hchars
  | cons c rest => simp [isAbsolute, startsWith, hpath, List.isPrefixOf]

theorem IsElement.isAbsolute_eq (h : IsElement e) : isAbsolute e = false := by
  cases he : e.toList with
  | nil => simp [isAbsolute, startsWith, he]
  | cons c rest =>
    have hc : '/' ≠ c := by
      rintro rfl
      exact h.no_slash (he ▸ List.mem_cons_self ..)
    simp [isAbsolute, startsWith, he, List.isPrefixOf, hc]

/-- A path that is written from elements is relative. -/
theorem isAbsolute_intercalate (h : ∀ e ∈ es, IsElement e) :
    isAbsolute (String.intercalate "/" es) = false := by
  cases es with
  | nil => rfl
  | cons e rest =>
    have he : IsElement e := h e (List.mem_cons_self ..)
    cases rest with
    | nil => rw [String.intercalate_singleton, he.isAbsolute_eq]
    | cons d rest =>
      rw [String.intercalate_cons_cons, String.append_assoc, isAbsolute_append he.ne_empty,
        he.isAbsolute_eq]

/-! ## Following elements -/

/-- Elements that lead straight to a place, the last first: names, and below them parents, which
    only a relative path has. -/
inductive Straight (absolute : Bool) : List String → Prop where
  | nil : Straight absolute []
  | parent {sofar : List String} (habsolute : absolute = false) (h : Straight absolute sofar)
      (hall : ∀ e ∈ sofar, e = "..") : Straight absolute (".." :: sofar)
  | name {e : String} {sofar : List String} (he : IsName e) (h : Straight absolute sofar) :
      Straight absolute (e :: sofar)

theorem Straight.walk (h : Straight absolute sofar) (hes : ∀ e ∈ es, IsElement e) :
    Straight absolute (walk absolute sofar es) := by
  fun_induction Path.walk absolute sofar es with
  | case1 sofar => exact h
  | case2 sofar rest ih => exact ih h (List.forall_mem_cons.1 hes).2
  | case3 rest hne ih =>
    refine ih ?_ (List.forall_mem_cons.1 hes).2
    -- a path from the root has no parent there
    cases absolute with
    | false => exact .parent rfl .nil (by simp)
    | true => exact .nil
  | case4 rest above hne ih =>
    refine ih ?_ (List.forall_mem_cons.1 hes).2
    -- a parent stands only on parents, so another one may be put there
    cases h with
    | parent habsolute habove hall =>
      exact .parent habsolute (.parent habsolute habove hall) (by simpa using hall)
    | name hname _ => exact absurd rfl hname.ne_parent
  | case5 rest last above hlast hne ih =>
    refine ih ?_ (List.forall_mem_cons.1 hes).2
    -- the last element is a name, and the parent takes it away
    cases h with
    | parent _ _ _ => exact absurd rfl hlast
    | name _ habove => exact habove
  | case6 sofar e rest hself hparent ih =>
    refine ih (.name ⟨hes e (List.mem_cons_self ..), hself, hparent⟩ h) ?_
    exact (List.forall_mem_cons.1 hes).2

theorem Straight.isElement (h : Straight absolute sofar) : ∀ e ∈ sofar, IsElement e := by
  have hparent : IsElement ".." := ⟨by decide, by decide⟩
  intro e he
  induction h with
  | nil => cases he
  | parent _ _ _ ih =>
    rcases List.mem_cons.1 he with rfl | he
    · exact hparent
    · exact ih he
  | name hname _ ih =>
    rcases List.mem_cons.1 he with rfl | he
    · exact hname.toIsElement
    · exact ih he

/-! ## Clean paths -/

/-- The elements that are left of a path, from the first on. -/
def straightened (path : String) : List String :=
  (walk (isAbsolute path) [] (elements path)).reverse

theorem straight_straightened (path : String) :
    Straight (isAbsolute path) (straightened path).reverse := by
  rw [straightened, List.reverse_reverse]
  exact Straight.nil.walk fun e he => isElement_of_mem_elements he

theorem isElement_of_mem_straightened (h : e ∈ straightened path) : IsElement e :=
  (straight_straightened path).isElement e (List.mem_reverse.2 h)

theorem clean_eq (path : String) :
    clean path =
      if isAbsolute path then "/" ++ String.intercalate "/" (straightened path)
      else if (straightened path).isEmpty then "."
      else String.intercalate "/" (straightened path) :=
  rfl

@[simp] theorem isAbsolute_clean (path : String) : isAbsolute (clean path) = isAbsolute path := by
  rw [clean_eq]
  cases habsolute : isAbsolute path with
  | true => rw [if_pos rfl, isAbsolute_append (by decide)]; rfl
  | false =>
    rw [if_neg Bool.false_ne_true]
    split
    · rfl
    · exact isAbsolute_intercalate fun e he => isElement_of_mem_straightened he

/-- A clean path has the elements that are left, or leads nowhere. -/
theorem elements_clean (path : String) :
    elements (clean path) = straightened path ∨
      (straightened path = [] ∧ elements (clean path) = ["."]) := by
  have helements : elements (String.intercalate "/" (straightened path)) = straightened path := by
    apply elements_intercalate
    intro e he
    exact isElement_of_mem_straightened he
  rw [clean_eq]
  split
  · left
    have happend := elements_append "" (String.intercalate "/" (straightened path))
    rw [String.empty_append] at happend
    rw [happend, helements]
    rfl
  · split
    · rename_i hempty
      exact .inr ⟨List.isEmpty_iff.1 hempty, rfl⟩
    · exact .inl helements

end Path

end StackIr.Text
