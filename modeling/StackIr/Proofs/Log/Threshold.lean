import Mathlib.Algebra.Order.BigOperators.Group.List
import Mathlib.Algebra.Order.Group.Nat
import StackIr.Proofs.Log.Family
import StackIr.Proofs.Log.Levels
import StackIr.Proofs.OrderedMap

/-! # What thresholds remember and admit

    Thresholds that were derived from one another share the levels of the modules that were
    checked.  What they remember is right (`Coherent`), a check keeps it so, and therefore it is
    right after any checks by any of them.  A check thus never depends on the checks before.

    Before an entry is checked, its level alone is tested.  This test passes exactly if there is
    a module whose entries of that level are admitted. -/

namespace StackIr.Log

namespace Threshold

variable {t : Threshold} {levels found : Levels} {admits : Level → Bool} {name : String}
  {level : Level}

/-! ## Derived thresholds -/

/-- A threshold is derived with a rule of its own, or an entry of a module is checked by one. -/
abbrev Step : Type :=
  Family.Step (Level → Bool) (String × Level)

/-- What is remembered after a threshold with a rule of its own checked an entry. -/
def remember (levels : Levels) (admits : Level → Bool) (found : Levels) (entry : String × Level) :
    Id Levels :=
  (check { admits := admits, levels := levels, found := found } entry.1 entry.2).2.found

/-- A threshold and those derived from it, after some steps.  They differ in their rules, and
    share the levels and what was found so far. -/
def derived (t : Threshold) (steps : List Step) : List Threshold :=
  let f := Id.run (Family.run (remember t.levels) ⟨t.found, [t.admits]⟩ steps)
  f.members.map fun admits => { t with admits := admits, found := f.shared }

/-! ## What is remembered -/

/-- The levels that were found are those that would be found again. -/
def Coherent (levels found : Levels) : Prop :=
  ∀ name level, found.get? name = some level → levels.of? name = some level

theorem coherent_empty (levels : Levels) : Coherent levels .empty := by
  intro name level h
  cases h

theorem Coherent.insert (h : Coherent levels found) (hname : levels.of? name = some level) :
    Coherent levels (found.insert name level) := by
  intro name' level' hget
  rw [OrderedMap.get?_insert] at hget
  split at hget
  · rename_i heq
    cases hget
    rwa [heq]
  · exact h name' level' hget

/-- The level of a module is the one that is found without remembering, and nothing but what is
    remembered changes. -/
theorem levelOf_eq (h : Coherent t.levels t.found) (name : String) :
    ∃ found, Coherent t.levels found ∧
      t.levelOf name = (t.levels.of? name, { t with found := found }) := by
  unfold levelOf
  -- a level that is remembered is right, and one that is not is looked for and remembered
  cases hfound : t.found.get? name with
  | some level => exact ⟨t.found, h, by rw [h name level hfound]⟩
  | none =>
    cases hname : t.levels.of? name with
    | none => exact ⟨t.found, h, rfl⟩
    | some level => exact ⟨t.found.insert name level, h.insert hname, rfl⟩

/-- An entry is admitted from the level of its module on.  Without a module, or if the module has
    no level, it is left to the rule. -/
def passes (t : Threshold) (name : String) (level : Level) : Bool :=
  if name = "" then t.admits level
  else
    match t.levels.of? name with
    | some least => decide (least ≤ level)
    | none => t.admits level

theorem passes_of_level {least : Level} (hname : name ≠ "") (h : t.levels.of? name = some least) :
    t.passes name level = decide (least ≤ level) := by
  unfold passes
  rw [if_neg hname, h]

theorem check_eq (h : Coherent t.levels t.found) (name : String) (level : Level) :
    ∃ found, Coherent t.levels found ∧
      t.check name level = (t.passes name level, { t with found := found }) := by
  unfold check passes
  by_cases hname : name = ""
  · rw [if_pos hname, if_pos hname]
    exact ⟨t.found, h, rfl⟩
  · obtain ⟨found, hfound, hlevel⟩ := levelOf_eq h name
    refine ⟨found, hfound, ?_⟩
    rw [if_neg hname, if_neg hname, hlevel]
    cases t.levels.of? name with
    | none => rfl
    | some least => rfl

theorem check_fst (h : Coherent t.levels t.found) (name : String) (level : Level) :
    (t.check name level).1 = t.passes name level := by
  obtain ⟨found, -, hcheck⟩ := check_eq h name level
  rw [hcheck]

/-- A check keeps what is remembered right. -/
theorem Coherent.remember (h : Coherent levels found) (admits : Level → Bool)
    (entry : String × Level) : Coherent levels (remember levels admits found entry) := by
  let t : Threshold := { admits := admits, levels := levels, found := found }
  obtain ⟨found', hfound', hcheck⟩ := check_eq (t := t) h entry.1 entry.2
  show Coherent levels (t.check entry.1 entry.2).2.found
  rw [hcheck]
  exact hfound'

/-- Any checks do. -/
theorem Coherent.foldlM_remember (h : Coherent levels found)
    (requests : List ((Level → Bool) × String × Level)) :
    Coherent levels
      (requests.foldlM (fun found (admits, entry) => Threshold.remember levels admits found entry)
        found : Id Levels) := by
  induction requests generalizing found with
  | nil => exact h
  | cons request rest ih => exact ih (h.remember request.1 request.2)

/-- Thresholds that were derived from a new one have its levels, and remember what is right. -/
theorem coherent_of_mem_derived {steps : List Step}
    (ht : t ∈ derived { admits := admits, levels := levels } steps) :
    t.levels = levels ∧ Coherent levels t.found := by
  obtain ⟨own, -, rfl⟩ := List.mem_map.1 ht
  refine ⟨rfl, ?_⟩
  -- what is shared after the steps is what the checks among them leave
  have hshared := Family.map_shared_run (m := Id) (remember levels) ⟨.empty, [admits]⟩ steps
  have hchecks := (coherent_empty levels).foldlM_remember (Family.requests [admits] steps)
  rw [← hshared] at hchecks
  exact hchecks

/-- After any checks by thresholds that were derived from a new one, the search for the level of
    a module ends in each of them with the level of the longest name in its chain that has one, or
    without a level if none has.  Whether an entry is admitted does not depend on the checks. -/
theorem levelOf_of_mem_derived {steps : List Step}
    (ht : t ∈ derived { admits := admits, levels := levels } steps) (name : String) :
    Search levels name (t.levelOf name).1 ∧
      (∀ level, (t.levelOf name).1 = some level ↔ Governs levels name level) ∧
      ((t.levelOf name).1 = none ↔ ∀ n, InChain name n → levels.get? n = none) ∧
      ∀ level, (t.check name level).1 = ({ t with found := .empty }.check name level).1 := by
  obtain ⟨rfl, hfound⟩ := coherent_of_mem_derived ht
  obtain ⟨found, -, hlevel⟩ := levelOf_eq hfound name
  rw [hlevel]
  refine ⟨Levels.search_iff.2 rfl, fun level => Levels.of?_eq_some_iff, Levels.of?_eq_none_iff, ?_⟩
  intro level
  have hnew : Coherent { t with found := .empty }.levels { t with found := .empty }.found :=
    coherent_empty t.levels
  rw [check_fst hfound, check_fst hnew]
  rfl

/-- A threshold derived from another, with names that have points in a row. -/
theorem levelOf_of_mem_derived_points :
    let levels : Levels := .ofList [("", .error), ("ir", .debug), ("x.", .warn)]
    let steps : List Step :=
      [.use 0 ("ir.outputs", .debug), .derive 0 fun _ _ => false, .use 1 ("x..y", .info)]
    ∃ t ∈ derived { admits := fun level => decide (.info ≤ level), levels := levels } steps,
      t.found.entries = [("ir.outputs", .debug), ("x..y", .warn)] ∧
      (t.levelOf "x..y").1 = some .warn ∧ Governs levels "x..y" .warn ∧
      (t.check "x..y" .info).1 = false ∧
      ({ t with found := .empty }.check "x..y" .info).1 = false := by
  intro levels steps
  let found : Levels := .ofList [("ir.outputs", .debug), ("x..y", .warn)]
  let t : Threshold := { admits := fun _ => false, levels := levels, found := found }
  have hfound : (Id.run (Family.run (remember levels)
      ⟨.empty, [fun level => decide (Level.info ≤ level)]⟩ steps)).shared = found := by
    decide +kernel
  have ht : t ∈ derived { admits := fun level => decide (.info ≤ level), levels := levels } steps := by
    refine List.mem_map.2 ⟨fun _ => false, List.mem_cons_of_mem _ (List.mem_cons_self ..), ?_⟩
    show { admits := _, levels := levels, found := _ } = t
    rw [hfound]
  obtain ⟨-, hgoverns, -, hcheck⟩ := levelOf_of_mem_derived ht "x..y"
  have hlevel : (t.levelOf "x..y").1 = some .warn := by decide +kernel
  have hnot : (t.check "x..y" .info).1 = false := by decide +kernel
  exact ⟨t, ht, rfl, hlevel, (hgoverns .warn).1 hlevel, hnot, (hcheck .info) ▸ hnot⟩

/-! ## Levels that are of use -/

/-- An entry that is admitted has a level that the rule or some module admits. -/
theorem enabled_of_passes (h : t.passes name level = true) : t.enabled level = true := by
  rw [enabled, Bool.or_eq_true, List.any_eq_true]
  by_cases hname : name = ""
  · rw [passes, if_pos hname] at h
    exact .inl h
  · cases hlevel : t.levels.of? name with
    | none =>
      rw [passes, if_neg hname, hlevel] at h
      exact .inl h
    | some least =>
      rw [passes_of_level hname hlevel] at h
      -- the level is that of some name in the chain, which stands among the levels
      obtain ⟨n, -, hget, -⟩ := Levels.of?_eq_some_iff.1 hlevel
      exact .inr ⟨(n, least), OrderedMap.get?_eq_some_iff.1 hget, h⟩

/-- Some name right below the empty name has no level of its own. -/
theorem exists_above_without_level (levels : Levels) :
    ∃ name, Above name "" ∧ levels.get? name = none := by
  -- a name that is longer than all that have a level
  let length := (levels.keys.map String.length).sum + 1
  let name := String.ofList (List.replicate length 'a')
  have hlength : name.length = length := by simp [name]
  refine ⟨name, .root ?_ ?_, OrderedMap.get?_eq_none_iff.2 ?_⟩
  · intro hempty
    rw [hempty] at hlength
    exact absurd hlength (Nat.succ_ne_zero _).symm
  · simp [name]
  · intro hkey
    have hle := List.le_sum_of_mem (List.mem_map_of_mem (f := String.length) hkey)
    omega

/-- A level that the rule or some module admits is that of an entry that is admitted. -/
theorem exists_passes_of_enabled (h : t.enabled level = true) :
    ∃ name, t.passes name level = true := by
  rw [enabled, Bool.or_eq_true, List.any_eq_true] at h
  rcases h with hadmits | ⟨⟨name, least⟩, hmem, hle⟩
  · exact ⟨"", hadmits⟩
  · have hget : t.levels.get? name = some least := OrderedMap.get?_of_mem_entries hmem
    by_cases hname : name = ""
    · -- the level of the empty name is that of a module that has none
      obtain ⟨below, hbelow, hnone⟩ := exists_above_without_level t.levels
      refine ⟨below, ?_⟩
      have hlevel : t.levels.of? below = some least := by
        rw [Levels.of?_eq_or hbelow, hnone, Option.none_or]
        exact Levels.of?_of_get? (hname ▸ hget)
      rw [passes_of_level hbelow.ne_empty hlevel]
      exact hle
    · refine ⟨name, ?_⟩
      rw [passes_of_level hname (Levels.of?_of_get? hget)]
      exact hle

/-- A level passes the test before the check exactly if the check admits entries of this level from
    some module, whatever was checked before. -/
theorem enabled_iff_exists_check {steps : List Step}
    (ht : t ∈ derived { admits := admits, levels := levels } steps) (level : Level) :
    t.enabled level = true ↔ ∃ name, (t.check name level).1 = true := by
  obtain ⟨rfl, hfound⟩ := coherent_of_mem_derived ht
  simp only [check_fst hfound]
  constructor
  · exact exists_passes_of_enabled
  · intro ⟨name, hpasses⟩
    exact enabled_of_passes hpasses

/-- The only level is that of the empty name, and the rule admits nothing: entries of modules
    are admitted from that level on, and below it none are. -/
theorem enabled_iff_exists_check_default :
    let levels : Levels := .ofList [("", .warn)]
    let t : Threshold := { admits := fun _ => false, levels := levels }
    (t.enabled .error = true ∧ ∃ name, (t.check name .error).1 = true) ∧
      t.enabled .info = false ∧ ¬ ∃ name, (t.check name .info).1 = true := by
  intro levels t
  have ht : t ∈ derived { admits := fun _ => false, levels := levels } [] :=
    List.mem_cons_self ..
  have herror : t.enabled .error = true := by decide
  have hinfo : t.enabled .info = false := by decide
  refine ⟨⟨herror, (enabled_iff_exists_check ht .error).1 herror⟩, hinfo, ?_⟩
  rw [← enabled_iff_exists_check ht .info, hinfo]
  exact Bool.false_ne_true

end Threshold

end StackIr.Log
