import StackIr.Proofs.OrderedMap
import StackIr.Template.LookupTable

/-! # The history of a lookup table

    A lookup table is made by steps that set a leaf or add an outer key.  All that can be seen
    of it follows from the steps alone: the leaf under two keys is the one that was set last,
    and both levels list their keys in the order in which the steps first name them.

    `Recalls` is the invariant: what the rows are after some steps.  One more step preserves it
    (`Recalls.step`), so it holds after any run (`recalls_run`), and each observer is read off
    from it.  A walk is compared with its visits, which are stated with the observers. -/

namespace StackIr.LookupTable

/-! ## Steps -/

/-- An operation that changes a table. -/
inductive Step where
  | set (outer inner : String) (leaf : Scalar)
  | addOuter (outer : String)
  deriving DecidableEq, Repr

namespace Step

/-- The outer key that a step names. -/
def outer : Step → String
  | .set outer _ _ => outer
  | .addOuter outer => outer

/-- The inner key and the leaf that a step sets under an outer key. -/
def under? (outer : String) : Step → Option (String × Scalar)
  | .set o inner leaf => if o = outer then some (inner, leaf) else none
  | .addOuter _ => none

/-- The inner key that a step sets under an outer key. -/
def inner? (outer : String) (s : Step) : Option String :=
  (s.under? outer).map Prod.fst

/-- The leaf that a step sets under two keys. -/
def leaf? (outer inner : String) (s : Step) : Option Scalar :=
  (s.under? outer).bind fun (i, leaf) => if i = inner then some leaf else none

/-- The table after a step. -/
def apply (t : LookupTable) : Step → LookupTable
  | .set outer inner leaf => t.set outer inner leaf
  | .addOuter outer => t.addOuter outer

end Step

/-- The table after some steps. -/
def run (t : LookupTable) (steps : List Step) : LookupTable :=
  steps.foldl Step.apply t

/-- The leaf that was set last under two keys. -/
def lastLeaf? (steps : List Step) (outer inner : String) : Option Scalar :=
  (steps.filterMap (Step.leaf? outer inner)).getLast?

/-- The outer keys in order of their first appearance, each once. -/
def outerSeen (steps : List Step) : List String :=
  (steps.map Step.outer).eraseDups

/-- The inner keys set under an outer key in order of their first appearance, each once. -/
def innerSeen (steps : List Step) (outer : String) : List String :=
  (steps.filterMap (Step.inner? outer)).eraseDups

/-! ## One more step -/

section append

variable {steps : List Step}

theorem eraseDups_append_singleton (seen : List String) (key : String) :
    (seen ++ [key]).eraseDups =
      if key ∈ seen.eraseDups then seen.eraseDups else seen.eraseDups ++ [key] := by
  rw [List.eraseDups_append]
  by_cases hkey : key ∈ seen
  · rw [if_pos (List.mem_eraseDups.2 hkey)]
    simp [List.removeAll, hkey]
  · rw [if_neg (mt List.mem_eraseDups.1 hkey)]
    simp [List.removeAll, hkey, List.eraseDups_cons]

@[simp] theorem mem_outerSeen {outer : String} :
    outer ∈ outerSeen steps ↔ outer ∈ steps.map Step.outer :=
  List.mem_eraseDups

theorem outerSeen_append (s : Step) :
    outerSeen (steps ++ [s]) =
      if s.outer ∈ outerSeen steps then outerSeen steps else outerSeen steps ++ [s.outer] := by
  rw [outerSeen, List.map_append]
  exact eraseDups_append_singleton _ _

theorem innerSeen_append_of_under {s : Step} {outer inner : String} {leaf : Scalar}
    (h : s.under? outer = some (inner, leaf)) :
    innerSeen (steps ++ [s]) outer =
      if inner ∈ innerSeen steps outer then innerSeen steps outer
      else innerSeen steps outer ++ [inner] := by
  have hinner : s.inner? outer = some inner := by simp [Step.inner?, h]
  rw [innerSeen, List.filterMap_append, List.filterMap_cons, hinner, List.filterMap_nil]
  exact eraseDups_append_singleton _ _

theorem innerSeen_append_of_none {s : Step} {outer : String} (h : s.under? outer = none) :
    innerSeen (steps ++ [s]) outer = innerSeen steps outer := by
  have hinner : s.inner? outer = none := by simp [Step.inner?, h]
  rw [innerSeen, List.filterMap_append, List.filterMap_cons, hinner, List.filterMap_nil,
    List.append_nil, innerSeen]

theorem lastLeaf?_append (s : Step) (outer inner : String) :
    lastLeaf? (steps ++ [s]) outer inner =
      (s.leaf? outer inner).or (lastLeaf? steps outer inner) := by
  rw [lastLeaf?, List.filterMap_append, List.getLast?_append, List.filterMap_cons]
  cases s.leaf? outer inner <;> rfl

end append

/-! ## The invariant -/

/-- The rows of a table are what some steps left. -/
structure Recalls (rows : OrderedMap Row) (steps : List Step) : Prop where
  outerKeys : rows.keys = outerSeen steps
  innerKeys : ∀ outer, ((rows.get? outer).getD .empty).keys = innerSeen steps outer
  leaf : ∀ outer inner, ((rows.get? outer).getD .empty).get? inner = lastLeaf? steps outer inner

theorem recalls_nil : Recalls .empty [] :=
  ⟨rfl, fun _ => rfl, fun _ _ => rfl⟩

variable {steps : List Step}

/-- The row under a key after a row was put under another. -/
theorem getD_insert (rows : OrderedMap Row) (key outer : String) (row : Row) :
    ((rows.insert key row).get? outer).getD .empty =
      if outer = key then row else (rows.get? outer).getD .empty := by
  rw [OrderedMap.get?_insert]
  split
  · rfl
  · rfl

theorem rows?_addOuter (t : LookupTable) (outer : String) :
    (t.addOuter outer).rows? = some (t.addOuter outer).rows := by
  unfold LookupTable.addOuter
  split
  · rfl
  · rfl

theorem keys_addOuter (t : LookupTable) (outer : String) :
    (t.addOuter outer).rows.keys =
      if outer ∈ t.rows.keys then t.rows.keys else t.rows.keys ++ [outer] := by
  unfold LookupTable.addOuter
  split
  · rename_i hthere
    rw [OrderedMap.contains_iff] at hthere
    exact (if_pos hthere).symm
  · exact OrderedMap.keys_insert ..

/-- An outer key that is added brings no leaves. -/
@[simp] theorem getD_addOuter (t : LookupTable) (outer other : String) :
    ((t.addOuter outer).rows.get? other).getD .empty = (t.rows.get? other).getD .empty := by
  unfold LookupTable.addOuter
  split
  · rfl
  · rename_i hnew
    rw [OrderedMap.contains_iff] at hnew
    refine (getD_insert t.rows outer other .empty).trans ?_
    split
    · rename_i heq
      rw [heq, OrderedMap.get?_eq_none_iff.2 hnew]
      rfl
    · rfl

theorem keys_set (t : LookupTable) (outer inner : String) (leaf : Scalar) :
    (t.set outer inner leaf).rows.keys =
      if outer ∈ t.rows.keys then t.rows.keys else t.rows.keys ++ [outer] :=
  OrderedMap.keys_insert ..

/-- A leaf is put into one row. -/
theorem getD_set (t : LookupTable) (outer inner : String) (leaf : Scalar) (other : String) :
    ((t.set outer inner leaf).rows.get? other).getD .empty =
      if other = outer then ((t.rows.get? outer).getD .empty).insert inner leaf
      else (t.rows.get? other).getD .empty :=
  getD_insert ..

theorem Recalls.addOuter {t : LookupTable} (h : Recalls t.rows steps) (outer : String) :
    Recalls (t.addOuter outer).rows (steps ++ [.addOuter outer]) := by
  refine ⟨?_, fun o => ?_, fun o i => ?_⟩
  · rw [keys_addOuter, h.outerKeys, outerSeen_append]
    rfl
  · rw [getD_addOuter, h.innerKeys, innerSeen_append_of_none rfl]
  · rw [getD_addOuter, h.leaf, lastLeaf?_append]
    rfl

theorem Recalls.set {t : LookupTable} (h : Recalls t.rows steps) (outer inner : String)
    (leaf : Scalar) :
    Recalls (t.set outer inner leaf).rows (steps ++ [.set outer inner leaf]) := by
  have hunder : ∀ o, (Step.set outer inner leaf).under? o =
      if outer = o then some (inner, leaf) else none := fun _ => rfl
  refine ⟨?_, fun o => ?_, fun o i => ?_⟩
  · rw [keys_set, h.outerKeys, outerSeen_append]
    rfl
  · rw [getD_set]
    split
    · rename_i heq
      subst heq
      rw [OrderedMap.keys_insert, h.innerKeys,
        innerSeen_append_of_under ((hunder o).trans (if_pos rfl))]
    · rename_i hne
      rw [innerSeen_append_of_none ((hunder o).trans (if_neg (Ne.symm hne)))]
      exact h.innerKeys o
  · rw [getD_set, lastLeaf?_append, Step.leaf?, hunder]
    split
    · rename_i heq
      subst heq
      rw [OrderedMap.get?_insert, h.leaf, if_pos rfl, Option.bind_some]
      by_cases hi : i = inner
      · simp [hi]
      · simp [hi, Ne.symm hi]
    · rename_i hne
      rw [if_neg (Ne.symm hne)]
      exact h.leaf o i

/-- One step preserves the invariant. -/
theorem Recalls.step {t : LookupTable} (h : Recalls t.rows steps) (s : Step) :
    Recalls (s.apply t).rows (steps ++ [s]) := by
  cases s with
  | set outer inner leaf => exact h.set outer inner leaf
  | addOuter outer => exact h.addOuter outer

/-- A run preserves the invariant. -/
theorem Recalls.run {t : LookupTable} {before : List Step} (h : Recalls t.rows before) :
    Recalls (t.run steps).rows (before ++ steps) := by
  induction steps generalizing t before with
  | nil => simpa [LookupTable.run] using h
  | cons s rest ih =>
    have hrest := ih (h.step s)
    rwa [List.append_assoc] at hrest

/-- A table that nothing was put into has no rows, whether it was made or not. -/
theorem recalls_run {start : LookupTable} (hstart : start = empty ∨ start = untouched) :
    Recalls (start.run steps).rows steps := by
  have hempty : Recalls start.rows [] := by
    rcases hstart with rfl | rfl
    · exact recalls_nil
    · exact recalls_nil
  exact hempty.run

/-! ## Observers -/

section observers

variable {t : LookupTable}

/-- A row that is not there has no leaves. -/
theorem get?_eq (t : LookupTable) (outer inner : String) :
    t.get? outer inner = ((t.rows.get? outer).getD .empty).get? inner := by
  rw [LookupTable.get?]
  cases t.rows.get? outer with
  | none => rfl
  | some row => rfl

theorem innerKeys?_eq (t : LookupTable) (outer : String) :
    t.innerKeys? outer =
      if outer ∈ t.rows.keys then some ((t.rows.get? outer).getD .empty).keys else none := by
  rw [LookupTable.innerKeys?]
  cases hget : t.rows.get? outer with
  | none => exact (if_neg (OrderedMap.get?_eq_none_iff.1 hget)).symm
  | some row =>
    have hthere : outer ∈ t.rows.keys := by
      by_contra habsent
      rw [OrderedMap.get?_eq_none_iff.2 habsent] at hget
      cases hget
    exact (if_pos hthere).symm

theorem Recalls.get? (h : Recalls t.rows steps) (outer inner : String) :
    t.get? outer inner = lastLeaf? steps outer inner := by
  rw [get?_eq, h.leaf]

theorem Recalls.innerKeys? (h : Recalls t.rows steps) (outer : String) :
    t.innerKeys? outer =
      if outer ∈ steps.map Step.outer then some (innerSeen steps outer) else none := by
  rw [innerKeys?_eq, h.outerKeys, h.innerKeys]
  simp only [mem_outerSeen]

/-- The keys of a table that was never touched are no list at all. -/
@[simp] theorem getD_outerKeys? (t : LookupTable) : t.outerKeys?.getD [] = t.rows.keys := by
  obtain ⟨_ | rows⟩ := t
  · rfl
  · rfl

theorem outerKeys?_run_eq_none_iff {start : LookupTable} :
    (start.run steps).outerKeys? = none ↔ start.rows? = none ∧ steps = [] := by
  rcases List.eq_nil_or_concat steps with rfl | ⟨before, last, rfl⟩
  · simp [run, outerKeys?]
  · have hrun : start.run (before ++ [last]) = last.apply (start.run before) := by
      simp [run, List.foldl_append]
    have hrows : (last.apply (start.run before)).rows? ≠ none := by
      cases last with
      | set outer inner leaf => exact Option.some_ne_none _
      | addOuter outer =>
        rw [Step.apply, addOuter]
        split
        · exact Option.some_ne_none _
        · exact Option.some_ne_none _
    simp [hrun, outerKeys?, hrows]

/-- The leaves are found under the keys that the observers list, in their order. -/
theorem leaves_eq (t : LookupTable) :
    (t.leaves.map fun (outer, inner, leaf) => (outer, inner, some leaf)) =
      (t.outerKeys?.getD []).flatMap fun outer =>
        ((t.innerKeys? outer).getD []).map fun inner => (outer, inner, t.get? outer inner) := by
  rw [getD_outerKeys?, leaves, List.map_flatMap, OrderedMap.keys, List.flatMap_map]
  refine List.flatMap_congr ?_
  rintro ⟨outer, row⟩ hmem
  have hrow : t.rows.get? outer = some row := OrderedMap.get?_of_mem_entries hmem
  simp only [innerKeys?, LookupTable.get?, hrow, Option.map_some, Option.getD_some, OrderedMap.keys,
    Option.bind_some, List.map_map]
  refine List.map_congr_left ?_
  rintro ⟨inner, leaf⟩ hleaf
  simp only [Function.comp_apply, OrderedMap.get?_of_mem_entries hleaf]

/-- No two leaves have the same two keys. -/
theorem nodup_leaves (t : LookupTable) :
    (t.leaves.map fun (outer, inner, _) => (outer, inner)).Nodup := by
  rw [leaves, List.map_flatMap]
  refine List.nodup_flatMap.2 ⟨?_, ?_⟩
  · rintro ⟨outer, row⟩ -
    have hpairs : ((row.entries.map fun (inner, leaf) => (outer, inner, leaf)).map
        fun (outer, inner, _) => (outer, inner)) = row.keys.map fun inner => (outer, inner) := by
      rw [OrderedMap.keys, List.map_map, List.map_map]
      rfl
    rw [hpairs]
    exact row.distinct.map fun _ _ heq => (Prod.mk.inj heq).2
  · -- rows have distinct outer keys, so their pairs differ in the first part
    have hdistinct := List.pairwise_map.1 t.rows.distinct
    refine hdistinct.imp fun {a b} hne => ?_
    intro pair ha hb
    simp only [List.map_map, List.mem_map, Function.comp_apply] at ha hb
    obtain ⟨_, _, rfl⟩ := ha
    obtain ⟨_, _, heq⟩ := hb
    exact hne (Prod.mk.inj heq).1.symm

end observers

/-! ## Walks -/

/-- A leaf with its two keys. -/
abbrev Visit := String × String × Scalar

/-- What is done at every leaf of a walk: it changes a state, and may fail. -/
abbrev Visitor (ε σ : Type) := String → String → Scalar → ExceptT ε (StateM σ) Unit

variable {ε σ : Type}

namespace Visitor

/-- The outcome of one visit, and the state after it. -/
def visitAt (visit : Visitor ε σ) (leaf : Visit) (s : σ) : Except ε Unit × σ :=
  visit leaf.1 leaf.2.1 leaf.2.2 s

/-- Visits some leaves one after the other, until a visit fails. -/
def visitAll (visit : Visitor ε σ) (leaves : List Visit) : ExceptT ε (StateM σ) Unit :=
  forM leaves fun leaf => visit leaf.1 leaf.2.1 leaf.2.2

/-- The same visitor with a list of all visits in its state, the one that fails included. -/
def remembering (visit : Visitor ε σ) : Visitor ε (σ × List Visit) :=
  fun outer inner leaf (s, seen) =>
    let (outcome, s) := visit outer inner leaf s
    (outcome, s, seen ++ [(outer, inner, leaf)])

end Visitor

/-- Visiting some leaves one after the other does not fail and changes the state as given. -/
inductive Passes (visit : Visitor ε σ) : σ → List Visit → σ → Prop
  | nil (s : σ) : Passes visit s [] s
  | cons {s s₁ s₂ : σ} {leaf : Visit} {rest : List Visit} (h : visit.visitAt leaf s = (.ok (), s₁))
      (hrest : Passes visit s₁ rest s₂) : Passes visit s (leaf :: rest) s₂

variable {visit : Visitor ε σ} {s s₁ s₂ : σ} {leaves : List Visit}

theorem Passes.remembering (h : Passes visit s leaves s₁) (seen : List Visit) :
    Passes visit.remembering (s, seen) leaves (s₁, seen ++ leaves) := by
  induction h generalizing seen with
  | nil s =>
    rw [List.append_nil]
    exact .nil _
  | @cons s s₁ s₂ leaf rest h _ ih =>
    have hfirst : visit.remembering.visitAt leaf (s, seen) = (.ok (), s₁, seen ++ [leaf]) := by
      rw [Visitor.visitAt] at h
      simp [Visitor.visitAt, Visitor.remembering, h]
    have hrest := ih (seen ++ [leaf])
    rw [List.append_assoc] at hrest
    exact .cons hfirst hrest

/-- A walk goes over the leaves of a table, row by row. -/
theorem walk_eq {m : Type → Type} [Monad m] [LawfulMonad m] (t : LookupTable)
    (visit : String → String → Scalar → m Unit) :
    t.walk visit = forM t.leaves fun leaf => visit leaf.1 leaf.2.1 leaf.2.2 := by
  rw [walk, leaves]
  simp only [List.forM_eq_forM]
  induction t.rows.entries with
  | nil => rfl
  | cons entry rest ih =>
    rw [List.flatMap_cons, List.forM_append, List.forM_cons, ih, List.forM_map]

/-- What a walk does after one visit. -/
theorem visitAll_cons (visit : Visitor ε σ) (leaf : Visit) (rest : List Visit) (s : σ) :
    visit.visitAll (leaf :: rest) s =
      match visit.visitAt leaf s with
      | (.ok (), s₁) => visit.visitAll rest s₁
      | (.error e, s₁) => (.error e, s₁) := by
  rw [Visitor.visitAll, List.forM_cons]
  show (ExceptT.bindCont _ (visit.visitAt leaf s).1 : StateM σ _) (visit.visitAt leaf s).2 = _
  split
  · rename_i s₁ h
    rw [h]
    rfl
  · rename_i e s₁ h
    rw [h]
    rfl

theorem Passes.visitAll_append (h : Passes visit s leaves s₁) (rest : List Visit) :
    visit.visitAll (leaves ++ rest) s = visit.visitAll rest s₁ := by
  induction h with
  | nil s => rfl
  | cons h _ ih =>
    rw [List.cons_append, visitAll_cons, h]
    exact ih

/-- How a table is walked, with the leaves in the order given: all of them are visited if no
    visit fails, and where a visit fails the walk ends with its failure. -/
def WalksAlong (t : LookupTable) (leaves : List Visit) : Prop :=
  ∀ (ε σ : Type) (visit : Visitor ε σ) (s : σ),
    (∀ s₁, Passes visit s leaves s₁ → t.walk visit.remembering (s, []) = (.ok (), s₁, leaves)) ∧
    ∀ k leaf s₁ e s₂, leaves[k]? = some leaf → Passes visit s (leaves.take k) s₁ →
      visit.visitAt leaf s₁ = (.error e, s₂) →
        t.walk visit.remembering (s, []) = (.error e, s₂, leaves.take (k + 1))

theorem walksAlong_leaves (t : LookupTable) : t.WalksAlong t.leaves := by
  intro ε σ visit s
  rw [walk_eq]
  show (∀ s₁, _ → visit.remembering.visitAll t.leaves (s, []) = _) ∧
    ∀ k leaf s₁ e s₂, _ → _ → _ → visit.remembering.visitAll t.leaves (s, []) = _
  refine ⟨fun s₁ h => ?_, fun k leaf s₁ e s₂ hleaf hpasses hfails => ?_⟩
  · have hall := (h.remembering []).visitAll_append []
    rw [List.append_nil] at hall
    exact hall
  · obtain ⟨hk, hget⟩ := List.getElem?_eq_some_iff.1 hleaf
    have hsplit : t.leaves = t.leaves.take k ++ leaf :: t.leaves.drop (k + 1) := by
      rw [← hget, ← List.drop_eq_getElem_cons hk, List.take_append_drop]
    have hlast : visit.remembering.visitAt leaf (s₁, [] ++ t.leaves.take k) =
        (.error e, s₂, t.leaves.take (k + 1)) := by
      rw [Visitor.visitAt] at hfails
      simp [Visitor.visitAt, Visitor.remembering, hfails, List.take_add_one, hleaf]
    have hwalk := (hpasses.remembering []).visitAll_append (leaf :: t.leaves.drop (k + 1))
    rw [← hsplit, visitAll_cons, hlast] at hwalk
    exact hwalk

/-! ## All that can be seen of a table -/

/-- Every observer of a table agrees with the steps that made it.  The leaf under two keys is
    the one set last.  The outer keys are those of all steps in order of their first
    appearance, each once, and their number is the size; only a table that was never touched
    has no list of them.  The inner keys are those set under the outer key in order of their
    first appearance; an outer key that was only added has none, and an unknown one has no list
    of them.  A walk visits exactly the leaves under these keys, in their order and each once,
    up to the visit that fails. -/
theorem run_observed {start : LookupTable} (hstart : start = empty ∨ start = untouched)
    (steps : List Step) :
    let t := start.run steps
    (∀ outer inner, t.get? outer inner = lastLeaf? steps outer inner) ∧
    (t.outerKeys?.getD [] = outerSeen steps ∧ (outerSeen steps).Nodup ∧
      t.size = (outerSeen steps).length ∧
      (t.outerKeys? = none ↔ start = untouched ∧ steps = [])) ∧
    (∀ outer, t.innerKeys? outer =
      if outer ∈ steps.map Step.outer then some (innerSeen steps outer) else none) ∧
    (t.leaves.map fun (outer, inner, leaf) => (outer, inner, some leaf)) =
      ((t.outerKeys?.getD []).flatMap fun outer =>
        ((t.innerKeys? outer).getD []).map fun inner => (outer, inner, t.get? outer inner)) ∧
    (t.leaves.map fun (outer, inner, _) => (outer, inner)).Nodup ∧
    t.WalksAlong t.leaves := by
  intro t
  have h : Recalls t.rows steps := recalls_run hstart
  have huntouched : start.rows? = none ↔ start = untouched := by
    rcases hstart with rfl | rfl
    · simp [empty, untouched]
    · simp [untouched]
  refine ⟨h.get?, ⟨?_, ?_, ?_, ?_⟩, h.innerKeys?, leaves_eq t, nodup_leaves t, walksAlong_leaves t⟩
  · rw [getD_outerKeys?, h.outerKeys]
  · rw [← h.outerKeys]
    exact t.rows.distinct
  · rw [← h.outerKeys, OrderedMap.keys, List.length_map]
    rfl
  · rw [outerKeys?_run_eq_none_iff, huntouched]

/-- A visitor that fails at an inner key. -/
def Visitor.stopAt (key : String) : Visitor String Unit :=
  fun _ inner _ => if inner = key then throw "stopped" else pure ()

/-- A leaf that is set again keeps its place, a key that is only added has an empty row, and a
    walk that is stopped at the second leaf has seen two. -/
theorem run_observed_regions :
    let steps : List Step := [.set "east" "a" (.int 1), .addOuter "west", .set "east" "b" (.int 2),
      .set "east" "a" (.int 3), .addOuter "east"]
    let t := untouched.run steps
    t.get? "east" "a" = some (.int 3) ∧ t.outerKeys? = some ["east", "west"] ∧
      t.innerKeys? "east" = some ["a", "b"] ∧ t.innerKeys? "west" = some [] ∧
      t.innerKeys? "north" = none ∧
      t.walk (Visitor.stopAt "b").remembering ((), []) =
        (.error "stopped", (), [("east", "a", .int 3), ("east", "b", .int 2)]) := by
  intro steps t
  obtain ⟨hget, ⟨houter, -, -, hnone⟩, hinner, -, -, hwalk⟩ := run_observed (.inr rfl) steps
  refine ⟨hget "east" "a", ?_, hinner "east", hinner "west", hinner "north", ?_⟩
  · cases hkeys : t.outerKeys? with
    | none => exact absurd (hnone.1 hkeys).2 (by decide)
    | some keys =>
      rw [hkeys] at houter
      exact congrArg some houter
  · exact (hwalk String Unit (.stopAt "b") ()).2 1 ("east", "b", .int 2) () "stopped" () rfl
      (.cons rfl (.nil ())) rfl

end StackIr.LookupTable
