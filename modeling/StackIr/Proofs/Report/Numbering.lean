import Mathlib.Data.List.Basic
import StackIr.Report.FailureText

/-! # The numbers of a report

    A report goes through a failure from left to right.  A collection of two or more failures gets
    a heading, and its members are reported one by one after it.  Everything else is a leaf and
    gets an entry: a single cause, a failure with a note, and also a collection of fewer than two,
    whatever is in it.

    The number of the last entry is handed on from member to member.  So each statement about
    numbers is about reports that start after any number `n`, and the report of the whole failure
    starts after zero. -/

namespace StackIr

/-! ## Leaves and collections -/

namespace Failure

/-- A failure that has an entry of its own. -/
def IsLeaf : Failure → Prop
  | .several members => members.length < 2
  | _ => True

mutual

/-- The leaves of a failure from left to right. -/
def leaves : Failure → List Failure
  | .several (f :: g :: rest) => leavesOf (f :: g :: rest)
  | f => [f]

def leavesOf : List Failure → List Failure
  | [] => []
  | f :: fs => leaves f ++ leavesOf fs

end

mutual

/-- The sizes of the collections in a failure that are not leaves, each before those of its
    members. -/
def collectionSizes : Failure → List Nat
  | .several (f :: g :: rest) => (rest.length + 2) :: collectionSizesOf (f :: g :: rest)
  | _ => []

def collectionSizesOf : List Failure → List Nat
  | [] => []
  | f :: fs => collectionSizes f ++ collectionSizesOf fs

end

/-- A part of a failure that a report comes to, with what it comes to before: the leaves, and the
    sizes of the collections.  What is inside a leaf is no part. -/
inductive Part : Failure → List Failure → List Nat → Failure → Prop
  | whole (f : Failure) : Part f [] [] f
  | member {fs gs before : List Failure} {opened : List Nat} {f part : Failure}
      (h : 2 ≤ (fs ++ f :: gs).length) (hpart : Part f before opened part) :
      Part (.several (fs ++ f :: gs)) (fs.flatMap leaves ++ before)
        ((fs ++ f :: gs).length :: (fs.flatMap collectionSizes ++ opened)) part

/-- What holds of leaves, and of collections of two or more if it holds of their members, holds
    of every failure. -/
theorem leaf_induction {P : Failure → Prop} (leaf : ∀ f : Failure, f.IsLeaf → P f)
    (several : ∀ members : List Failure, 2 ≤ members.length → (∀ f ∈ members, P f) →
      P (.several members)) (f : Failure) : P f := by
  match f with
  | .cause c => exact leaf _ trivial
  | .context note inner => exact leaf _ trivial
  | .several members =>
    by_cases h : 2 ≤ members.length
    · apply several members h
      intro f hf
      exact leaf_induction leaf several f
    · exact leaf _ (Nat.lt_of_not_le h)
  termination_by sizeOf f
  decreasing_by
    have hlt := List.sizeOf_lt_of_mem hf
    simp only [Failure.several.sizeOf_spec]
    omega

theorem leaves_of_isLeaf {f : Failure} (h : f.IsLeaf) : f.leaves = [f] := by
  match f, h with
  | .cause c, _ => rfl
  | .context note inner, _ => rfl
  | .several [], _ => rfl
  | .several [f], _ => rfl

theorem leavesOf_eq_flatMap (fs : List Failure) : leavesOf fs = fs.flatMap leaves := by
  induction fs with
  | nil => rfl
  | cons f fs ih => rw [leavesOf, ih, List.flatMap_cons]

theorem leaves_several {members : List Failure} (h : 2 ≤ members.length) :
    (several members).leaves = members.flatMap leaves := by
  rw [← leavesOf_eq_flatMap]
  match members, h with
  | f :: g :: rest, _ => rfl

theorem collectionSizes_of_isLeaf {f : Failure} (h : f.IsLeaf) : f.collectionSizes = [] := by
  match f, h with
  | .cause c, _ => rfl
  | .context note inner, _ => rfl
  | .several [], _ => rfl
  | .several [f], _ => rfl

theorem collectionSizesOf_eq_flatMap (fs : List Failure) :
    collectionSizesOf fs = fs.flatMap collectionSizes := by
  induction fs with
  | nil => rfl
  | cons f fs ih => rw [collectionSizesOf, ih, List.flatMap_cons]

theorem collectionSizes_several {members : List Failure} (h : 2 ≤ members.length) :
    (several members).collectionSizes = members.length :: members.flatMap collectionSizes := by
  rw [← collectionSizesOf_eq_flatMap]
  match members, h with
  | f :: g :: rest, _ => rfl

end Failure

/-! ## Reports -/

namespace Report

open Failure

/-- The failure of an entry and its number. -/
def FailureLine.entry? : FailureLine → Option (Failure × Nat)
  | .heading _ => none
  | .entry number failure => some (failure, number)

/-- The count of a heading. -/
def FailureLine.heading? : FailureLine → Option Nat
  | .heading count => some count
  | .entry _ _ => none

theorem failureLines_of_isLeaf (n : Nat) {f : Failure} (h : f.IsLeaf) :
    failureLines n f = ([.entry (n + 1) f], n + 1) := by
  match f, h with
  | .cause c, _ => rfl
  | .context note inner, _ => rfl
  | .several [], _ => rfl
  | .several [f], _ => rfl

theorem failureLines_several (n : Nat) {members : List Failure} (h : 2 ≤ members.length) :
    failureLines n (.several members) =
      (.heading members.length :: (memberLines n members).1, (memberLines n members).2) := by
  match members, h with
  | f :: g :: rest, _ => rfl

theorem memberLines_cons (n : Nat) (f : Failure) (fs : List Failure) :
    memberLines n (f :: fs) =
      ((failureLines n f).1 ++ (memberLines (failureLines n f).2 fs).1,
        (memberLines (failureLines n f).2 fs).2) :=
  rfl

theorem memberLines_append (n : Nat) (fs gs : List Failure) :
    memberLines n (fs ++ gs) =
      ((memberLines n fs).1 ++ (memberLines (memberLines n fs).2 gs).1,
        (memberLines (memberLines n fs).2 gs).2) := by
  induction fs generalizing n with
  | nil => rfl
  | cons f fs ih => rw [List.cons_append, memberLines_cons, ih, memberLines_cons, List.append_assoc]

/-! ## Entries -/

/-- The report after `n` has an entry for each leaf, numbered from `n + 1` on, and hands on the
    number of the last. -/
def Counts (n : Nat) (leaves : List Failure) (report : List FailureLine × Nat) : Prop :=
  report.1.filterMap FailureLine.entry? = leaves.zipIdx (n + 1) ∧ report.2 = n + leaves.length

theorem counts_memberLines_of_forall {members : List Failure}
    (h : ∀ f ∈ members, ∀ n, Counts n f.leaves (failureLines n f)) (n : Nat) :
    Counts n (members.flatMap leaves) (memberLines n members) := by
  induction members generalizing n with
  | nil => exact ⟨rfl, rfl⟩
  | cons f fs ih =>
    obtain ⟨hentries, hlast⟩ := h f List.mem_cons_self n
    -- the rest of the members is counted from where this one ends
    obtain ⟨hmore, hend⟩ := ih (fun g hg => h g (List.mem_cons_of_mem f hg)) (failureLines n f).2
    rw [memberLines_cons, List.flatMap_cons]
    constructor
    · rw [List.filterMap_append, hentries, hmore, hlast, List.zipIdx_append, Nat.add_right_comm]
    · rw [hend, hlast, List.length_append, Nat.add_assoc]

theorem counts_failureLines (n : Nat) (f : Failure) : Counts n f.leaves (failureLines n f) := by
  induction f using leaf_induction generalizing n with
  | leaf f h =>
    rw [failureLines_of_isLeaf n h, leaves_of_isLeaf h]
    exact ⟨rfl, rfl⟩
  | several members h ih =>
    rw [failureLines_several n h, leaves_several h]
    exact counts_memberLines_of_forall (fun f hf n => ih f hf n) n

theorem counts_memberLines (n : Nat) (members : List Failure) :
    Counts n (members.flatMap leaves) (memberLines n members) :=
  counts_memberLines_of_forall (fun f _ n => counts_failureLines n f) n

/-! ## Headings -/

theorem headings_memberLines_of_forall {members : List Failure}
    (h : ∀ f ∈ members, ∀ n,
      (failureLines n f).1.filterMap FailureLine.heading? = f.collectionSizes) (n : Nat) :
    (memberLines n members).1.filterMap FailureLine.heading? =
      members.flatMap collectionSizes := by
  induction members generalizing n with
  | nil => rfl
  | cons f fs ih =>
    rw [memberLines_cons, List.flatMap_cons, List.filterMap_append, h f List.mem_cons_self n,
      ih (fun g hg => h g (List.mem_cons_of_mem f hg))]

theorem headings_failureLines (n : Nat) (f : Failure) :
    (failureLines n f).1.filterMap FailureLine.heading? = f.collectionSizes := by
  induction f using leaf_induction generalizing n with
  | leaf f h =>
    rw [failureLines_of_isLeaf n h, collectionSizes_of_isLeaf h]
    rfl
  | several members h ih =>
    rw [failureLines_several n h, collectionSizes_several h]
    show members.length :: (memberLines n members).1.filterMap FailureLine.heading? = _
    rw [headings_memberLines_of_forall (fun f hf n => ih f hf n)]

theorem headings_memberLines (n : Nat) (members : List Failure) :
    (memberLines n members).1.filterMap FailureLine.heading? = members.flatMap collectionSizes :=
  headings_memberLines_of_forall (fun f _ n => headings_failureLines n f) n

/-! ## Places -/

/-- The report of a part stands in the report of the whole, after the entries and the headings of
    what comes before it. -/
theorem exists_failureLines_part {f part : Failure} {before : List Failure} {opened : List Nat}
    (h : Part f before opened part) (n : Nat) :
    ∃ above below,
      (failureLines n f).1 = above ++ (failureLines (n + before.length) part).1 ++ below ∧
        above.filterMap FailureLine.entry? = before.zipIdx (n + 1) ∧
        above.filterMap FailureLine.heading? = opened := by
  induction h generalizing n with
  | whole f => exact ⟨[], [], by simp, rfl, rfl⟩
  | @member fs gs before opened f part hlength _ ih =>
    -- what comes before the part are the members before its own, and then what is before it there
    obtain ⟨hentries, hlast⟩ := counts_memberLines n fs
    obtain ⟨above, below, hlines, habove, hopened⟩ := ih (memberLines n fs).2
    refine ⟨.heading (fs ++ f :: gs).length :: ((memberLines n fs).1 ++ above),
      below ++ (memberLines (failureLines (memberLines n fs).2 f).2 gs).1, ?_, ?_, ?_⟩
    · rw [failureLines_several n hlength, memberLines_append, memberLines_cons, hlines, hlast,
        List.length_append, Nat.add_assoc]
      simp
    · show ((memberLines n fs).1 ++ above).filterMap FailureLine.entry? = _
      rw [List.filterMap_append, hentries, habove, hlast, List.zipIdx_append, Nat.add_right_comm]
    · show _ :: ((memberLines n fs).1 ++ above).filterMap FailureLine.heading? = _
      rw [List.filterMap_append, headings_memberLines, hopened]

/-- What a report says of a failure. -/
structure Reports (f : Failure) (lines : List FailureLine) : Prop where
  /-- There is one entry for each leaf, from left to right, and they are numbered from one on. -/
  entries : lines.filterMap FailureLine.entry? = f.leaves.zipIdx 1
  /-- There is one heading for each collection of two or more. -/
  headings : lines.filterMap FailureLine.heading? = f.collectionSizes
  /-- The heading of a collection stands before its entries.  Above it are the entries and the
      headings of what comes before the collection, and no others. -/
  places : ∀ before opened members, Part f before opened (.several members) →
    2 ≤ members.length →
      ∃ above below, lines = above ++ .heading members.length :: below ∧
        above.filterMap FailureLine.entry? = before.zipIdx 1 ∧
        above.filterMap FailureLine.heading? = opened ∧
        (Failure.several members).leaves.zipIdx (before.length + 1) <+:
          below.filterMap FailureLine.entry?

/-- Every failure is reported with one numbered entry for each of its leaves and a heading in
    front of each of its collections. -/
theorem failureText_reports (colored : Bool) (f : Failure) :
    ∃ lines, failureText colored f = String.join (lines.map (FailureLine.text colored)) ∧
      Reports f lines := by
  refine ⟨(failureLines 0 f).1, rfl, (counts_failureLines 0 f).1, headings_failureLines 0 f, ?_⟩
  intro before opened members hpart hlength
  obtain ⟨above, below, hlines, habove, hopened⟩ := exists_failureLines_part hpart 0
  rw [failureLines_several _ hlength, Nat.zero_add] at hlines
  refine ⟨above, (memberLines before.length members).1 ++ below, ?_, habove, hopened, ?_⟩
  · rw [hlines]
    simp
  · rw [List.filterMap_append, (counts_memberLines before.length members).1, leaves_several hlength]
    exact List.prefix_append _ _

-- the collection of one is a leaf, and the collection inside it gets no heading
example :
    failureText false (.several [.other "a", .several [.other "b", .other "c"],
        .several [.several [.other "d", .other "e"]]]) =
      "3 errors:\n[err 1] a\n2 errors:\n[err 2] b\n[err 3] c\n" ++
        "[err 4] 2 errors occurred:\n\t* d\n\t* e\n" := by
  decide +kernel

end Report

end StackIr
