import StackIr.Proofs.Dependencies.Ties
import StackIr.Proofs.Resources.Order

/-! # Resources in declaration order

    When resources come out as they are declared.  A resource joins the queue with the last of
    the resources that it depends on, so those that wait for the same one keep their order,
    and one that is declared first but waits for longer comes after.  A section in which every
    resource already stands after its dependencies may therefore still be reordered. -/

namespace StackIr.Ir

variable {refs : Resolver} {s : Section Resource}

/-- Every resource is declared after the names that it depends on. -/
def DeclaredAfterDependencies (refs : Resolver) (s : Section Resource) : Prop :=
  ∀ before name after, Section.names s = before ++ name :: after →
    ∀ d, Depends refs (Section.entries s) d name → d ∈ before

/-- Resources are declared in the order in which they are released: of two resources, the
    last dependency of the one that is declared first stands no later than that of the
    other. -/
def DeclaredByRelease (refs : Resolver) (s : Section Resource) : Prop :=
  (Section.names s).Pairwise fun a b =>
    ∀ d, Depends refs (Section.entries s) d a →
      ∃ d', Depends refs (Section.entries s) d' b ∧
        (Section.names s).idxOf d ≤ (Section.names s).idxOf d'

/-- The graph that was built says the same of the section in its own terms. -/
theorem declaredByRelease_iff {instructions : List ResourceInstruction} {g : DependencyGraph}
    (h : addResources refs (Section.names s) (.ofNames (Section.names s)) (Section.entries s) =
      .ok (instructions, g)) :
    DeclaredByRelease refs s ↔
      g.vertices.Pairwise fun a b => g.releasedAt g.vertices a ≤ g.releasedAt g.vertices b := by
  have hvertices : g.vertices = Section.names s := (edges_of_addResources h).1
  simp only [DeclaredByRelease, DependencyGraph.releasedAt_le_releasedAt_iff, hvertices,
    edge_iff_depends h]

theorem declaredAfterDependencies_of_respects {instructions : List ResourceInstruction}
    {g : DependencyGraph}
    (h : addResources refs (Section.names s) (.ofNames (Section.names s)) (Section.entries s) =
      .ok (instructions, g)) (hrespects : g.Respects g.vertices) :
    DeclaredAfterDependencies refs s := by
  have hvertices : g.vertices = Section.names s := (edges_of_addResources h).1
  intro before name after hsplit d hdepends
  exact hrespects before name after (hvertices.trans hsplit) d ((edge_iff_depends h d name).2 hdepends)

/-- Resources come out as they are declared exactly if they are declared in the order in which
    they are released.  This is more than that each is declared after its dependencies. -/
theorem orderResources_eq_declared_iff {result : Option (List ResourceInstruction)}
    (h : orderResources refs s = .ok result) :
    ((result.getD []).map (·.name) = Section.names s ↔ DeclaredByRelease refs s) ∧
      (DeclaredByRelease refs s → DeclaredAfterDependencies refs s) := by
  -- without a section there is nothing to reorder
  rcases orderResources_eq_ok h with ⟨hnone, rfl⟩ | ⟨instructions, g, order, hadded, hsort, rfl⟩
  · have hnames : Section.names s = [] := by rw [Section.names, hnone, List.map_nil]
    simp [DeclaredByRelease, DeclaredAfterDependencies, hnames]
  · have hvertices : g.vertices = Section.names s := (edges_of_addResources hadded).1
    have hiff : order = Section.names s ↔ DeclaredByRelease refs s := by
      rw [declaredByRelease_iff hadded, ← hvertices]
      exact DependencyGraph.sort?_eq_vertices_iff hsort
    rw [Option.getD_some, map_name_of_sort? hadded hsort]
    refine ⟨hiff, ?_⟩
    intro hreleased
    have hrespects : g.Respects order := (DependencyGraph.sort?_eq_some hsort).2
    rw [hiff.2 hreleased, ← hvertices] at hrespects
    exact declaredAfterDependencies_of_respects hadded hrespects

/-- A subscription that needs the topic declared before it, and a queue that needs neither. -/
def subscriptionTemplate : Template where
  resources := some (.ofList
    [ ("Topic", { type := "AWS::SNS::Topic" }),
      ("Subscription", { type := "AWS::SNS::Subscription", dependsOn := some ["Topic"] }),
      ("Queue", { type := "AWS::SQS::Queue" }) ])

theorem depends_subscriptionTemplate_iff {d name : String} :
    Depends (.ofTemplate subscriptionTemplate) (Section.entries subscriptionTemplate.resources)
      d name ↔ d = "Topic" ∧ name = "Subscription" := by
  have hentries : Section.entries subscriptionTemplate.resources =
      [ ("Topic", { type := "AWS::SNS::Topic" }),
        ("Subscription", { type := "AWS::SNS::Subscription", dependsOn := some ["Topic"] }),
        ("Queue", { type := "AWS::SQS::Queue" }) ] := by
    cbv
  have hdeclared : ∀ type dependsOn, DependsOn (.ofTemplate subscriptionTemplate)
      { type := type, dependsOn := dependsOn } d ↔ d ∈ dependsOn.getD [] := by
    simp [DependsOn, references, referencesOfFields]
  rw [hentries, depends_cons_iff, depends_cons_iff, depends_cons_iff, hdeclared, hdeclared, hdeclared]
  simp [Depends]

/-- The queue comes before the subscription, although the declared order already puts every
    resource after its dependencies. -/
theorem orderResources_eq_declared_iff_subscription :
    ∃ result, orderResources (.ofTemplate subscriptionTemplate) subscriptionTemplate.resources =
        .ok result ∧
      (result.getD []).map (·.name) = ["Topic", "Queue", "Subscription"] ∧
      DeclaredAfterDependencies (.ofTemplate subscriptionTemplate) subscriptionTemplate.resources ∧
      ¬ DeclaredByRelease (.ofTemplate subscriptionTemplate) subscriptionTemplate.resources := by
  have heval : (orderResources (.ofTemplate subscriptionTemplate)
      subscriptionTemplate.resources).toOption.map (fun result => (result.getD []).map (·.name)) =
        some ["Topic", "Queue", "Subscription"] := by
    decide +kernel
  have hnames : Section.names subscriptionTemplate.resources = ["Topic", "Subscription", "Queue"] := by
    cbv
  obtain ⟨result, h, hresult⟩ := toOption_map_eq_some_iff.1 heval
  refine ⟨result, h, hresult, ?_, ?_⟩
  · intro before name after hsplit d hdepends
    obtain ⟨rfl, rfl⟩ := depends_subscriptionTemplate_iff.1 hdepends
    rw [hnames] at hsplit
    cases before with
    | nil => simp at hsplit
    | cons first before =>
      rw [List.cons_append, List.cons.injEq] at hsplit
      rw [hsplit.1]
      exact List.mem_cons_self ..
  · intro hreleased
    have hdeclared := (orderResources_eq_declared_iff h).1.2 hreleased
    rw [hresult, hnames] at hdeclared
    exact absurd hdeclared (by decide)

end StackIr.Ir
