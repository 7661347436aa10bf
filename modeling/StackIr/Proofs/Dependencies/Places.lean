import Mathlib.Order.ConditionallyCompleteLattice.Finset
import StackIr.Proofs.Dependencies.Ties

/-! # Places in dependency order

    The order of a graph is the only one that is sorted by release: of two names in it, which
    comes first is decided by when they are released and, if that is together, by which is
    declared first.

    Places tell something about depth.  If a name stands no later than another, then for each
    of its dependencies the other has one that stands no earlier.  Following this down, the
    other name has every chain of dependencies that the first one has, so a name with a longer
    chain always comes later. -/

namespace StackIr.Ir

/-! ## Chains of dependencies -/

/-- A chain of so many dependencies, each of which needs the one before, that ends at a name. -/
inductive Chain (R : String → String → Prop) : Nat → String → Prop
  | single (name : String) : Chain R 0 name
  | step {n : Nat} {dependency name : String} (h : Chain R n dependency) (hlast : R dependency name) :
      Chain R (n + 1) name

/-- The length of the longest chain of dependencies that ends at a name. -/
def LongestChain (R : String → String → Prop) (name : String) (n : Nat) : Prop :=
  Chain R n name ∧ ∀ m, Chain R m name → m ≤ n

variable {R : String → String → Prop} {row : List String}

/-- Every dependency stands before what needs it, so a chain is no longer than the row up to
    its end. -/
theorem Chain.le_idxOf (hbefore : ∀ d name, R d name → row.idxOf d < row.idxOf name) {n : Nat}
    {name : String} (h : Chain R n name) : n ≤ row.idxOf name := by
  induction h with
  | single name => exact Nat.zero_le _
  | step _ hlast ih =>
    have hlt := hbefore _ _ hlast
    omega

theorem exists_longestChain (hbefore : ∀ d name, R d name → row.idxOf d < row.idxOf name)
    (name : String) : ∃ n, LongestChain R name n := by
  have hbound : BddAbove {n | Chain R n name} :=
    ⟨row.idxOf name, fun n h => h.le_idxOf hbefore⟩
  have hsome : {n | Chain R n name}.Nonempty := ⟨0, .single name⟩
  exact ⟨sSup {n | Chain R n name}, Nat.sSup_mem hsome hbound, fun m h => le_csSup hbound h⟩

/-- A name of a row has the chains of all names that stand no later than itself, if the
    dependencies of the one stand no later than those of the other. -/
theorem Chain.of_idxOf_le
    (hlater : ∀ a, ∀ b ∈ row, row.idxOf a ≤ row.idxOf b →
      ∀ d, R d a → ∃ d' ∈ row, R d' b ∧ row.idxOf d ≤ row.idxOf d')
    {n : Nat} {a b : String} (hb : b ∈ row) (hle : row.idxOf a ≤ row.idxOf b) (h : Chain R n a) :
    Chain R n b := by
  induction h generalizing b with
  | single name => exact .single b
  | step _ hlast ih =>
    obtain ⟨d', hd', hneeds, hle'⟩ := hlater _ b hb hle _ hlast
    exact .step (ih hd' hle') hneeds

/-! ## Places in a list -/

theorem idxOf_lt_idxOf_of_append {before after : List String} (hdistinct : (before ++ after).Nodup)
    {a b : String} (ha : a ∈ before) (hb : b ∈ after) :
    (before ++ after).idxOf a < (before ++ after).idxOf b := by
  have hb' : b ∉ before := fun hmem => (List.nodup_append.1 hdistinct).2.2 b hmem b hb rfl
  rw [List.idxOf_append_of_mem ha, List.idxOf_append_of_notMem hb']
  have hlt := List.idxOf_lt_length_of_mem ha
  omega

theorem idxOf_lt_idxOf_of_sublist {l : List String} (hdistinct : l.Nodup) {a b : String}
    (h : [a, b].Sublist l) : l.idxOf a < l.idxOf b := by
  obtain ⟨before, after, rfl, hbefore, hafter⟩ := List.cons_sublist_iff.1 h
  exact idxOf_lt_idxOf_of_append hdistinct hbefore (List.singleton_sublist.1 hafter)

namespace DependencyGraph

variable {g : DependencyGraph} {order : List String} {a b : String}

/-! ## Places in the order of a graph -/

theorem Precedes.idxOf_of_releasedAt_eq (hdistinct : g.vertices.Nodup) (h : g.Precedes order a b) :
    g.releasedAt order a < g.releasedAt order b ∨
      (g.releasedAt order a = g.releasedAt order b ∧ g.vertices.idxOf a < g.vertices.idxOf b) := by
  rcases h with hlt | ⟨heq, hsub⟩
  · exact Or.inl hlt
  · exact Or.inr ⟨heq, idxOf_lt_idxOf_of_sublist hdistinct hsub⟩

theorem precedes_of_idxOf_lt (hsort : g.sort? = some order) (hb : b ∈ order)
    (hlt : order.idxOf a < order.idxOf b) : g.Precedes order a b := by
  obtain ⟨rfl, -⟩ := sort?_eq_some_iff.1 hsort
  have hplace := List.idxOf_lt_length_of_mem hb
  have hprecedes := List.pairwise_iff_getElem.1 (order_pairwise_precedes (g := g)) _ _
    (hlt.trans hplace) hplace hlt
  rwa [List.getElem_idxOf, List.getElem_idxOf] at hprecedes

/-- Of two names, the one that is released first comes first, and among names that are released
    together the one that is declared first. -/
theorem idxOf_lt_idxOf_iff (hdistinct : g.vertices.Nodup) (hsort : g.sort? = some order)
    (ha : a ∈ order) (hb : b ∈ order) (hne : a ≠ b) :
    order.idxOf a < order.idxOf b ↔
      g.releasedAt order a < g.releasedAt order b ∨
        (g.releasedAt order a = g.releasedAt order b ∧
          g.vertices.idxOf a < g.vertices.idxOf b) := by
  constructor
  · intro hlt
    exact (precedes_of_idxOf_lt hsort hb hlt).idxOf_of_releasedAt_eq hdistinct
  · intro hfirst
    by_contra hnot
    -- otherwise `b` comes first, and the same rule says that it was released or declared first
    have hplaces : order.idxOf a ≠ order.idxOf b := fun heq => hne ((List.idxOf_inj ha).1 heq)
    have hlt : order.idxOf b < order.idxOf a := by omega
    have hsecond := (precedes_of_idxOf_lt hsort ha hlt).idxOf_of_releasedAt_eq hdistinct
    omega

/-- A name is released no later than those that come after it. -/
theorem releasedAt_le_of_idxOf_le (hsort : g.sort? = some order) (hb : b ∈ order)
    (hle : order.idxOf a ≤ order.idxOf b) : g.releasedAt order a ≤ g.releasedAt order b := by
  rcases hle.lt_or_eq with hlt | heq
  · rcases precedes_of_idxOf_lt hsort hb hlt with hbefore | ⟨hsame, -⟩
    · exact hbefore.le
    · exact hsame.le
  · rw [(List.idxOf_inj hb).1 heq.symm]

theorem idxOf_lt_of_edge (hg : g.Valid) (hdistinct : g.vertices.Nodup)
    (hsort : g.sort? = some order) (hedge : g.Edge a b) : order.idxOf a < order.idxOf b := by
  obtain ⟨hperm, hrespects⟩ := sort?_eq_some hsort
  obtain ⟨before, after, rfl⟩ := List.append_of_mem (hperm.mem_iff.2 (hg.inside a b hedge).2)
  have ha : a ∈ before := hrespects before b after rfl a hedge
  exact idxOf_lt_idxOf_of_append (hperm.nodup_iff.2 hdistinct) ha List.mem_cons_self

/-! ## Depth -/

theorem exists_longestChain_edge (hg : g.Valid) (hdistinct : g.vertices.Nodup)
    (hsort : g.sort? = some order) (name : String) : ∃ n, LongestChain g.Edge name n :=
  exists_longestChain (fun _ _ hedge => idxOf_lt_of_edge hg hdistinct hsort hedge) name

/-- Of two names, the one with the longer chain of dependencies comes later. -/
theorem idxOf_lt_of_longestChain_lt (hg : g.Valid) (hsort : g.sort? = some order) (ha : a ∈ order)
    {m n : Nat} (hm : LongestChain g.Edge a m) (hn : LongestChain g.Edge b n) (hlt : m < n) :
    order.idxOf a < order.idxOf b := by
  -- a name that stands no earlier would have the longer chain too
  by_contra hnot
  have hchain : Chain g.Edge n a := by
    refine hn.1.of_idxOf_le ?_ ha (Nat.le_of_not_lt hnot)
    intro x y hy hle d hedge
    have hreleased := releasedAt_le_of_idxOf_le hsort hy hle
    obtain ⟨d', hedge', hle'⟩ := releasedAt_le_releasedAt_iff.1 hreleased d hedge
    have hd' : d' ∈ order := (sort?_eq_some hsort).1.mem_iff.2 (hg.inside d' y hedge').1
    exact ⟨d', hd', hedge', hle'⟩
  have hle := hm.2 n hchain
  omega

end DependencyGraph

end StackIr.Ir
