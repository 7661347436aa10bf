import Mathlib.Data.List.MinMax
import StackIr.Proofs.Dependencies.Places
import StackIr.Proofs.Resources.Order

/-! # The rule behind the order of resources

    Ordered resources follow one rule, which can be checked on the result alone.  Of two
    instructions, that one comes first whose last dependency comes first; if they have the same
    last dependency, or neither has one, that one which is declared first.  So no resource comes
    after one with a longer chain of dependencies. -/

namespace StackIr.Ir

variable {refs : Resolver} {s : Section Resource}

/-! ## The last dependency -/

/-- The place of a name in a row of instructions. -/
def placeIn (row : List ResourceInstruction) (name : String) : Nat :=
  (row.map (·.name)).idxOf name

/-- The place of that dependency of an instruction which comes last in a row.  An instruction
    without dependencies has `⊥`, which is before every place. -/
def lastDependency (row : List ResourceInstruction) (i : ResourceInstruction) : WithBot Nat :=
  (i.dependencies.map (placeIn row)).maximum

theorem lastDependency_le_iff {row : List ResourceInstruction} {i j : ResourceInstruction} :
    lastDependency row i ≤ lastDependency row j ↔
      ∀ d ∈ i.dependencies, ∃ d' ∈ j.dependencies, placeIn row d ≤ placeIn row d' := by
  constructor
  · intro hle d hd
    have hlast : WithBot.some (placeIn row d) ≤ lastDependency row j :=
      (List.le_maximum_of_mem' (List.mem_map_of_mem hd)).trans hle
    obtain ⟨place, hplace, hle'⟩ := List.coe_le_maximum_iff.1 hlast
    obtain ⟨d', hd', rfl⟩ := List.mem_map.1 hplace
    exact ⟨d', hd', hle'⟩
  · intro h
    -- every dependency of the first has one of the second after it, so the maximum has too
    refine List.maximum_le_of_forall_le fun place hplace => ?_
    obtain ⟨d, hd, rfl⟩ := List.mem_map.1 hplace
    obtain ⟨d', hd', hle⟩ := h d hd
    exact List.coe_le_maximum_iff.2 ⟨_, List.mem_map_of_mem hd', hle⟩

/-! ## The graph behind a row -/

/-- A row of instructions and the graph that it was sorted by. -/
structure SortedBy (refs : Resolver) (s : Section Resource) (row : List ResourceInstruction)
    (g : DependencyGraph) : Prop where
  valid : g.Valid
  vertices : g.vertices = Section.names s
  edge_iff : ∀ a b, g.Edge a b ↔ Depends refs (Section.entries s) a b
  sorted : g.sort? = some (row.map (·.name))
  describes : ∀ i ∈ row, ∃ r, (i.name, r) ∈ Section.entries s ∧ i.Describes refs r

theorem exists_sortedBy {result : Option (List ResourceInstruction)}
    (h : orderResources refs s = .ok result) : ∃ g, SortedBy refs s (result.getD []) g := by
  have hdescribes := fun i hi => describes_of_orderResources (i := i) h hi
  -- without a section the row is empty, and so is its graph
  rcases orderResources_eq_ok h with ⟨hnone, rfl⟩ | ⟨instructions, g, order, hadded, hsort, rfl⟩
  · refine ⟨.ofNames [], DependencyGraph.valid_ofNames [], ?_, ?_, rfl, hdescribes⟩
    · rw [Section.names, hnone]
      rfl
    · simp [Depends, hnone, DependencyGraph.not_edge_ofNames]
  · refine ⟨g, valid_of_addResources hadded, (edges_of_addResources hadded).1,
      edge_iff_depends hadded, ?_, hdescribes⟩
    rw [Option.getD_some, map_name_of_sort? hadded hsort]
    exact hsort

namespace SortedBy

variable {row : List ResourceInstruction} {g : DependencyGraph} {u v : ResourceInstruction}

theorem distinct (h : SortedBy refs s row g) : g.vertices.Nodup := by
  rw [h.vertices]
  exact Section.nodup_names s

/-- An instruction depends on the names that have an edge to its own. -/
theorem mem_dependencies_iff_edge (h : SortedBy refs s row g) (hu : u ∈ row) (d : String) :
    d ∈ u.dependencies ↔ g.Edge d u.name := by
  obtain ⟨r, hmem, hdescribes⟩ := h.describes u hu
  rw [hdescribes.mem_dependencies_iff, h.edge_iff]
  constructor
  · intro hdepends
    exact ⟨r, hmem, hdepends⟩
  · rintro ⟨r', hmem', hdepends⟩
    -- names are declared once, so there is one resource that the instruction can describe
    cases Section.eq_of_mem_entries hmem hmem'
    exact hdepends

/-- Which of two instructions has the later last dependency is which is released later. -/
theorem lastDependency_le_iff_releasedAt_le (h : SortedBy refs s row g) (hu : u ∈ row)
    (hv : v ∈ row) :
    lastDependency row u ≤ lastDependency row v ↔
      g.releasedAt (row.map (·.name)) u.name ≤ g.releasedAt (row.map (·.name)) v.name := by
  simp only [lastDependency_le_iff, DependencyGraph.releasedAt_le_releasedAt_iff,
    h.mem_dependencies_iff_edge hu, h.mem_dependencies_iff_edge hv, placeIn]

theorem placeIn_lt_iff (h : SortedBy refs s row g) (hu : u ∈ row) (hv : v ∈ row)
    (hne : u.name ≠ v.name) :
    placeIn row u.name < placeIn row v.name ↔
      lastDependency row u < lastDependency row v ∨
        (lastDependency row u = lastDependency row v ∧
          (Section.names s).idxOf u.name < (Section.names s).idxOf v.name) := by
  have huv := h.lastDependency_le_iff_releasedAt_le hu hv
  have hvu := h.lastDependency_le_iff_releasedAt_le hv hu
  -- the places are those of a total order, so `<` and `=` follow from `≤`
  have hlt : lastDependency row u < lastDependency row v ↔
      g.releasedAt (row.map (·.name)) u.name < g.releasedAt (row.map (·.name)) v.name := by
    rw [← not_le, hvu, not_le]
  have heq : lastDependency row u = lastDependency row v ↔
      g.releasedAt (row.map (·.name)) u.name = g.releasedAt (row.map (·.name)) v.name := by
    rw [le_antisymm_iff, huv, hvu, ← le_antisymm_iff]
  rw [hlt, heq, ← h.vertices]
  exact DependencyGraph.idxOf_lt_idxOf_iff h.distinct h.sorted (List.mem_map_of_mem hu)
    (List.mem_map_of_mem hv) hne

theorem edge_eq_depends (h : SortedBy refs s row g) :
    g.Edge = Depends refs (Section.entries s) := by
  funext a b
  exact propext (h.edge_iff a b)

theorem exists_longestChain_depends (h : SortedBy refs s row g) (name : String) :
    ∃ n, LongestChain (Depends refs (Section.entries s)) name n := by
  rw [← h.edge_eq_depends]
  exact DependencyGraph.exists_longestChain_edge h.valid h.distinct h.sorted name

theorem placeIn_lt_of_longestChain_lt (h : SortedBy refs s row g) (hu : u ∈ row) {m n : Nat}
    (hm : LongestChain (Depends refs (Section.entries s)) u.name m)
    (hn : LongestChain (Depends refs (Section.entries s)) v.name n) (hlt : m < n) :
    placeIn row u.name < placeIn row v.name := by
  rw [← h.edge_eq_depends] at hm hn
  exact DependencyGraph.idxOf_lt_of_longestChain_lt h.valid h.sorted (List.mem_map_of_mem hu) hm hn hlt

end SortedBy

/-! ## The rule -/

/-- Of two resources that of which the last dependency comes first comes first, and if that is
    the same or there is none, that which is declared first.  Every resource has a longest
    chain of dependencies, and comes before those with a longer one. -/
theorem orderResources_place_lt_iff {result : Option (List ResourceInstruction)}
    (h : orderResources refs s = .ok result) :
    (∀ u ∈ result.getD [], ∀ v ∈ result.getD [], u.name ≠ v.name →
      (placeIn (result.getD []) u.name < placeIn (result.getD []) v.name ↔
        lastDependency (result.getD []) u < lastDependency (result.getD []) v ∨
          (lastDependency (result.getD []) u = lastDependency (result.getD []) v ∧
            (Section.names s).idxOf u.name < (Section.names s).idxOf v.name))) ∧
      (∀ u ∈ result.getD [], ∃ n, LongestChain (Depends refs (Section.entries s)) u.name n) ∧
      ∀ u ∈ result.getD [], ∀ v ∈ result.getD [], ∀ m n,
        LongestChain (Depends refs (Section.entries s)) u.name m →
        LongestChain (Depends refs (Section.entries s)) v.name n → m < n →
        placeIn (result.getD []) u.name < placeIn (result.getD []) v.name := by
  obtain ⟨g, hsorted⟩ := exists_sortedBy h
  refine ⟨?_, ?_, ?_⟩
  · intro u hu v hv hne
    exact hsorted.placeIn_lt_iff hu hv hne
  · intro u _
    exact hsorted.exists_longestChain_depends u.name
  · intro u hu v _ m n hm hn hlt
    exact hsorted.placeIn_lt_of_longestChain_lt hu hm hn hlt

/-- An alarm and a policy that both need the topic declared between them, and a bucket that
    needs nothing. -/
def alarmTemplate : Template where
  resources := some (.ofList
    [ ("Alarm", {
        type := "AWS::CloudWatch::Alarm"
        properties := some [("Action", .object [("Ref", .string "Topic")])] }),
      ("Topic", { type := "AWS::SNS::Topic" }),
      ("Policy", { type := "AWS::SNS::TopicPolicy", dependsOn := some ["Topic"] }),
      ("Bucket", { type := "AWS::S3::Bucket" }) ])

/-- The bucket is declared last and comes before both, since it waits for nothing. -/
theorem orderResources_place_lt_iff_alarm :
    ∃ row, orderResources (.ofTemplate alarmTemplate) alarmTemplate.resources = .ok (some row) ∧
      row.map (fun i => (i.name, lastDependency row i)) =
        [("Topic", ⊥), ("Bucket", ⊥), ("Alarm", WithBot.some 0), ("Policy", WithBot.some 0)] ∧
      ∀ u ∈ row, ∀ v ∈ row, u.name ≠ v.name →
        (placeIn row u.name < placeIn row v.name ↔
          lastDependency row u < lastDependency row v ∨
            (lastDependency row u = lastDependency row v ∧
              ["Alarm", "Topic", "Policy", "Bucket"].idxOf u.name <
                ["Alarm", "Topic", "Policy", "Bucket"].idxOf v.name)) := by
  have heval : (orderResources (.ofTemplate alarmTemplate) alarmTemplate.resources).toOption.map
      (fun result => result.map fun row => row.map fun i => (i.name, lastDependency row i)) =
        some (some
          [("Topic", ⊥), ("Bucket", ⊥), ("Alarm", WithBot.some 0), ("Policy", WithBot.some 0)]) := by
    decide +kernel
  have hnames : Section.names alarmTemplate.resources = ["Alarm", "Topic", "Policy", "Bucket"] := by
    cbv
  cases h : orderResources (.ofTemplate alarmTemplate) alarmTemplate.resources with
  | error failure =>
    rw [h] at heval
    cases heval
  | ok result =>
    rw [h] at heval
    obtain ⟨row, rfl, hrow⟩ := Option.map_eq_some_iff.1 (Option.some.inj heval)
    have hrule := (orderResources_place_lt_iff h).1
    rw [hnames] at hrule
    exact ⟨row, rfl, hrow, hrule⟩

end StackIr.Ir
