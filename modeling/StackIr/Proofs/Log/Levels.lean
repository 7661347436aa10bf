import Mathlib.Logic.Relation
import StackIr.Log.Threshold

/-! # The level of a module

    The names above a module are reached by cutting its name at the last point, again and again,
    down to the empty name (`Above`, `InChain`).  The level of a module is looked for on this way
    up (`Search`).  The way is finite, as every name on it is shorter than the one before, so the
    search ends for every name; what it finds is the level of the longest name in the chain that
    has one (`Governs`). -/

namespace StackIr.Log

variable {name above n : String} {levels : Levels} {level : Level} {result : Option Level}

/-! ## Names above -/

/-- The name right above another: what stands before its last point, or the empty name if it has
    no point.  Nothing is above the empty name. -/
inductive Above : String → String → Prop where
  | point {name last : String} (h : '.' ∉ last.toList) : Above (name ++ "." ++ last) name
  | root {name : String} (hne : name ≠ "") (h : '.' ∉ name.toList) : Above name ""

/-- The chain of a name has the name itself, the name right above it, and so on. -/
def InChain : String → String → Prop :=
  Relation.ReflTransGen Above

theorem Above.length_lt (h : Above name above) : above.length < name.length := by
  cases h with
  | point h =>
    rw [String.length_append, String.length_append, show ".".length = 1 from rfl]
    omega
  | root hne h =>
    apply Nat.pos_of_ne_zero
    intro hlength
    exact hne (String.length_eq_zero_iff.1 hlength)

theorem Above.ne_empty (h : Above name above) : name ≠ "" := by
  intro heq
  have hlt := h.length_lt
  rw [heq] at hlt
  exact Nat.not_lt_zero _ hlt

theorem exists_above (hne : name ≠ "") : ∃ above, Above name above := by
  by_cases hpoint : '.' ∈ name.toList
  · -- the last point is the first one from behind
    obtain ⟨last, first, hname, hlast⟩ := List.eq_append_cons_of_mem (List.mem_reverse.2 hpoint)
    refine ⟨.ofList first.reverse, ?_⟩
    have heq : name = String.ofList first.reverse ++ "." ++ String.ofList last.reverse := by
      apply String.toList_inj.1
      rw [List.reverse_eq_iff] at hname
      simp [hname]
    rw [heq]
    apply Above.point
    simpa using hlast
  · exact ⟨"", .root hne hpoint⟩

/-- Every name is reached from the empty name downwards. -/
theorem above_induction {motive : String → Prop} (empty : motive "")
    (step : ∀ name above, Above name above → motive above → motive name) (name : String) :
    motive name := by
  induction hlength : name.length using Nat.strongRecOn generalizing name with
  | _ length ih =>
    by_cases hempty : name = ""
    · exact hempty ▸ empty
    · obtain ⟨above, habove⟩ := exists_above hempty
      apply step name above habove
      exact ih above.length (hlength ▸ habove.length_lt) above rfl

/-! ## The chain as it is computed -/

theorem namesAbove_append {last : List Char} (h : '.' ∉ last) (rest : List Char) :
    namesAbove (last ++ rest) = namesAbove rest := by
  induction last with
  | nil => rfl
  | cons c last ih =>
    obtain ⟨hc, hlast⟩ := not_or.1 (mt List.mem_cons.2 h)
    rw [List.cons_append, namesAbove, if_neg (Ne.symm hc), ih hlast]

theorem moduleChain_point {last : String} (h : '.' ∉ last.toList) :
    moduleChain (name ++ "." ++ last) = (name ++ "." ++ last) :: moduleChain name := by
  have hreverse : (name ++ "." ++ last).toList.reverse =
      last.toList.reverse ++ '.' :: name.toList.reverse := by simp
  rw [moduleChain, hreverse, namesAbove_append (by simpa using h), namesAbove, if_pos rfl,
    List.map_cons, List.reverse_reverse, String.ofList_toList, ← moduleChain]

theorem moduleChain_root (h : '.' ∉ name.toList) : moduleChain name = [name, ""] := by
  have hreverse : '.' ∉ name.toList.reverse := by simpa using h
  have hnames := namesAbove_append hreverse []
  rw [List.append_nil] at hnames
  rw [moduleChain, hnames]
  rfl

theorem Above.getElem?_moduleChain (h : Above name above) :
    (moduleChain name)[1]? = some above := by
  cases h with
  | point h =>
    rw [moduleChain_point h]
    rfl
  | root hne h =>
    rw [moduleChain_root h]
    rfl

/-- There is one name right above a name. -/
theorem Above.unique {above' : String} (h : Above name above) (h' : Above name above') :
    above = above' := by
  have hsame := h.getElem?_moduleChain.symm.trans h'.getElem?_moduleChain
  exact Option.some.inj hsame

theorem inChain_iff (h : Above name above) : InChain name n ↔ n = name ∨ InChain above n := by
  constructor
  · intro hchain
    rcases Relation.ReflTransGen.cases_head hchain with heq | ⟨above', habove', hrest⟩
    · exact .inl heq.symm
    · exact .inr (h.unique habove' ▸ hrest)
  · rintro (rfl | hrest)
    · exact .refl
    · exact .head h hrest

@[simp] theorem inChain_empty_iff : InChain "" n ↔ n = "" := by
  constructor
  · intro hchain
    rcases Relation.ReflTransGen.cases_head hchain with heq | ⟨above, habove, -⟩
    · exact heq.symm
    · exact absurd rfl habove.ne_empty
  · rintro rfl
    exact .refl

theorem InChain.length_le (h : InChain name n) : n.length ≤ name.length := by
  induction h with
  | refl => exact Nat.le_refl _
  | tail _ habove ih => exact Nat.le_trans (Nat.le_of_lt habove.length_lt) ih

/-! ## The search -/

/-- The way up from a name: it ends at the first name that has a level, or at the empty name. -/
inductive Search (levels : Levels) : String → Option Level → Prop where
  | found {name : String} {level : Level} (h : levels.get? name = some level) :
      Search levels name (some level)
  | stop (h : levels.get? "" = none) : Search levels "" none
  | up {name above : String} {result : Option Level} (h : levels.get? name = none)
      (habove : Above name above) (hrest : Search levels above result) : Search levels name result

/-- The level is that of the longest name in the chain of a name that has one. -/
def Governs (levels : Levels) (name : String) (level : Level) : Prop :=
  ∃ n, InChain name n ∧ levels.get? n = some level ∧
    ∀ longer, InChain name longer → n.length < longer.length → levels.get? longer = none

@[simp] theorem governs_empty_iff : Governs levels "" level ↔ levels.get? "" = some level := by
  constructor
  · intro ⟨n, hn, hget, _⟩
    rwa [inChain_empty_iff.1 hn] at hget
  · intro h
    refine ⟨"", .refl, h, ?_⟩
    intro longer hlonger hlt
    rw [inChain_empty_iff.1 hlonger] at hlt
    exact absurd hlt (Nat.lt_irrefl _)

/-- The level of a name is its own, or that of the name right above it. -/
theorem governs_iff (h : Above name above) :
    Governs levels name level ↔
      levels.get? name = some level ∨ (levels.get? name = none ∧ Governs levels above level) := by
  constructor
  · intro ⟨n, hn, hget, hnone⟩
    rcases (inChain_iff h).1 hn with rfl | hn
    · exact .inl hget
    · -- the name itself is longer than what is found above it
      have hlt := Nat.lt_of_le_of_lt hn.length_le h.length_lt
      refine .inr ⟨hnone name .refl hlt, n, hn, hget, ?_⟩
      intro longer hlonger hlt
      exact hnone longer ((inChain_iff h).2 (.inr hlonger)) hlt
  · rintro (hname | ⟨hname, n, hn, hget, hnone⟩)
    · -- nothing in the chain is longer than the name itself
      refine ⟨name, .refl, hname, ?_⟩
      intro longer hlonger hlt
      exact absurd hlonger.length_le (Nat.not_le_of_lt hlt)
    · refine ⟨n, (inChain_iff h).2 (.inr hn), hget, ?_⟩
      intro longer hlonger hlt
      rcases (inChain_iff h).1 hlonger with rfl | hlonger
      · exact hname
      · exact hnone longer hlonger hlt

namespace Levels

@[simp] theorem of?_empty : levels.of? "" = levels.get? "" := by
  rw [Levels.of?, moduleChain_root (by decide), List.findSome?_cons, List.findSome?_cons]
  cases levels.get? "" <;> rfl

/-- A name has its own level, or that of the name right above it. -/
theorem of?_eq_or (h : Above name above) :
    levels.of? name = (levels.get? name).or (levels.of? above) := by
  have hcons : ∀ chain : List String,
      (name :: chain).findSome? levels.get? =
        (levels.get? name).or (chain.findSome? levels.get?) := by
    intro chain
    rw [List.findSome?_cons]
    cases levels.get? name <;> rfl
  cases h with
  | point h => rw [Levels.of?, moduleChain_point h, hcons, ← Levels.of?]
  | root hne h =>
    rw [Levels.of?, moduleChain_root h, hcons, of?_empty, List.findSome?_cons]
    cases levels.get? "" <;> rfl

/-- The search ends for every name, with the level that is computed and no other. -/
theorem search_iff : Search levels name result ↔ result = levels.of? name := by
  constructor
  · intro hsearch
    induction hsearch with
    | @found name level h =>
      by_cases hempty : name = ""
      · subst hempty
        rw [of?_empty, h]
      · obtain ⟨above, habove⟩ := exists_above hempty
        rw [of?_eq_or habove, h, Option.some_or]
    | stop h => rw [of?_empty, h]
    | up h habove _ ih => rw [of?_eq_or habove, h, Option.none_or, ih]
  · rintro rfl
    induction name using above_induction with
    | empty =>
      rw [of?_empty]
      cases h : levels.get? "" with
      | none => exact .stop h
      | some level => exact .found h
    | step name above habove ih =>
      rw [of?_eq_or habove]
      cases h : levels.get? name with
      | none => exact .up h habove ih
      | some level => exact .found h

/-- A name with a level of its own has this one. -/
theorem of?_of_get? (h : levels.get? name = some level) : levels.of? name = some level :=
  (search_iff.1 (.found h)).symm

theorem of?_eq_none_iff :
    levels.of? name = none ↔ ∀ n, InChain name n → levels.get? n = none := by
  induction name using above_induction with
  | empty => simp only [of?_empty, inChain_empty_iff, forall_eq]
  | step name above habove ih =>
    simp only [of?_eq_or habove, Option.or_eq_none_iff, ih, inChain_iff habove, or_imp,
      forall_and, forall_eq]

theorem of?_eq_some_iff : levels.of? name = some level ↔ Governs levels name level := by
  induction name using above_induction with
  | empty => rw [of?_empty, governs_empty_iff]
  | step name above habove ih => rw [of?_eq_or habove, governs_iff habove, ← ih, Option.or_eq_some_iff]

end Levels

end StackIr.Log
