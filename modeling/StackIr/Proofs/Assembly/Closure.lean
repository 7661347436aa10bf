import StackIr.Ir.Assembly
import StackIr.Proofs.Lowering.Outputs
import StackIr.Proofs.Lowering.Parts
import StackIr.Proofs.Resources.Order

/-! # The representation is closed

    Whatever an assembled representation refers to, at any depth of an output or from one
    resource to another, is an entry of the representation itself.  The names of a template
    and the entries of its representation are the same, so this follows from what the
    resolver allowed. -/

namespace StackIr.Ir

/-! ## Entries -/

def resourceNames (ir : Ir) : List String :=
  (ir.resources.getD []).map (·.name)

def parameterNames (ir : Ir) : List String :=
  (ir.constructor.getD []).map (·.logicalName)

def conditionNames (ir : Ir) : List String :=
  (ir.conditions.getD []).map (·.name)

/-- The expressions of an output: its value and the name of its export. -/
def OutputInstruction.exprs (out : OutputInstruction) : List Expr :=
  out.value.toList ++ out.exported.toList

/-- A representation has a name to refer to, and the name is of that origin. -/
def Provides (ir : Ir) (name : String) : Origin → Prop
  | .resource => name ∈ ir.resourceNames
  | .parameter => name ∈ ir.parameterNames
  | .pseudoParameter => name ∈ pseudoParameters
  | _ => False

/-- A variable of a substitution string that a representation gives a meaning: the string
    binds it, or it is an attribute of a resource, or a name to refer to. -/
def ProvidesVariable (ir : Ir) (bound : List String) (name : String) : Prop :=
  name ∈ bound ∨
    (Text.startsWith name "AWS::" = false ∧
      ∃ resource attr, Text.cut? "." name = some (resource, attr) ∧ resource ∈ ir.resourceNames) ∨
    ∃ origin, ir.Provides name origin

/-- A part of an expression that refers to entries of a representation only. -/
def ProvidesPart (ir : Ir) : Expr → Prop
  | .ref name origin => ir.Provides name origin
  | .getAtt resource attr => attr ≠ "" ∧ resource ∈ ir.resourceNames
  | .sub tokens bound =>
    ∀ name ∈ Substitution.variableNames tokens, ir.ProvidesVariable (bound.map Prod.fst) name
  | _ => True

/-- A representation that refers to nothing but its own entries. -/
structure Closed (ir : Ir) : Prop where
  /-- At any depth of an output. -/
  outputs : ∀ out ∈ ir.outputs.getD [], ∀ e ∈ out.exprs, ∀ part ∈ e.parts, ir.ProvidesPart part
  /-- From one resource to another. -/
  dependencies : ∀ i ∈ ir.resources.getD [], ∀ d, d ∈ i.dependsOn.getD [] ∨ d ∈ i.references →
    d ∈ ir.resourceNames
  resourceConditions : ∀ i ∈ ir.resources.getD [], i.condition ≠ "" →
    i.condition ∈ ir.conditionNames
  outputConditions : ∀ out ∈ ir.outputs.getD [], out.condition ≠ "" →
    out.condition ∈ ir.conditionNames

/-! ## Entries and declarations -/

/-- What a completed assembly has done. -/
structure Assembles (refs : Resolver) (t : Template) (ir : Ir) : Prop where
  description : ir.description = t.description
  parameters : ir.constructor = deriveParameters t.parameters
  mappings : ir.mappings = classifyMappings t.mappings
  conditions : ir.conditions = passConditions t.conditions
  resources : orderResources refs t.resources = .ok ir.resources
  outputs : lowerOutputs refs t.outputs = .ok ir.outputs
  imports : Import.ofTypes t.resourceTypes = .ok (ir.imports.getD [])

theorem assembles_of_assemble {refs : Resolver} {t : Template} {ir : Ir}
    (h : assemble refs t = .ok ir) : Assembles refs t ir := by
  rw [assemble, assembleSteps] at h
  split at h
  · cases h
  rename_i imports himports
  dsimp only at h
  split at h
  · cases h
  rename_i resources hresources
  split at h
  · cases h
  rename_i outputs houtputs
  cases h
  exact ⟨rfl, rfl, rfl, rfl, hresources, houtputs, himports⟩

theorem map_logicalName_deriveParameters (s : Section Parameter) :
    ((deriveParameters s).getD []).map (·.logicalName) = Section.names s := by
  cases s with
  | none => rfl
  | some parameters =>
    simp [deriveParameters, Section.names, Section.entries, deriveParameter, Function.comp_def]

theorem map_name_passConditions (s : Section Value) :
    ((passConditions s).getD []).map (·.name) = Section.names s := by
  cases s with
  | none => rfl
  | some conditions =>
    simp [passConditions, Section.names, Section.entries, Function.comp_def]

namespace Assembles

variable {refs : Resolver} {t : Template} {ir : Ir}

theorem mem_resourceNames_iff (h : Assembles refs t ir) {name : String} :
    name ∈ ir.resourceNames ↔ name ∈ Section.names t.resources :=
  (perm_names_of_orderResources h.resources).mem_iff

theorem parameterNames_eq (h : Assembles refs t ir) :
    ir.parameterNames = Section.names t.parameters := by
  rw [parameterNames, h.parameters, map_logicalName_deriveParameters]

theorem conditionNames_eq (h : Assembles refs t ir) :
    ir.conditionNames = Section.names t.conditions := by
  rw [conditionNames, h.conditions, map_name_passConditions]

end Assembles

/-! ## What the resolver allows -/

namespace Assembles

variable {t : Template} {ir : Ir}

theorem provides (h : Assembles (.ofTemplate t) t ir) {name : String} {origin : Origin}
    (horigin : (Resolver.ofTemplate t).origin? name = some origin)
    (hreferable : origin.isReferable = true) : ir.Provides name origin := by
  -- an origin that can be referred to is a section of the template, whose names are entries
  have hdeclared : t.DeclaresAs name origin := Resolver.declaresAs_of_origin? horigin
  cases origin with
  | parameter =>
    rw [Provides, h.parameterNames_eq]
    exact hdeclared
  | resource => exact h.mem_resourceNames_iff.2 hdeclared
  | pseudoParameter => exact hdeclared
  | condition => cases hreferable
  | mapping => cases hreferable
  | other number => cases hreferable

theorem providesVariable (h : Assembles (.ofTemplate t) t ir) {bound : List String} {name : String}
    (hresolves : VariableResolves (.ofTemplate t) bound name) : ir.ProvidesVariable bound name := by
  cases hresolves with
  | isBound hbound => exact Or.inl hbound
  | attributeOf resource hattribute horigin =>
    obtain ⟨hstart, attr, hcut⟩ := Substitution.attributeResource?_eq_some_iff.1 hattribute
    have hresource : resource ∈ ir.resourceNames := h.provides horigin rfl
    exact Or.inr (Or.inl ⟨hstart, resource, attr, hcut, hresource⟩)
  | referable origin _ horigin hreferable =>
    exact Or.inr (Or.inr ⟨origin, h.provides horigin hreferable⟩)

theorem providesPart (h : Assembles (.ofTemplate t) t ir) {part : Expr}
    (hresolved : part.Resolved (.ofTemplate t)) : ir.ProvidesPart part := by
  cases part with
  | ref name origin => exact h.provides hresolved.1 hresolved.2
  | getAtt resource attr => exact ⟨hresolved.1, h.provides hresolved.2 rfl⟩
  | sub tokens bound => exact fun name hname => h.providesVariable (hresolved name hname)
  | string _ => trivial
  | scalar _ => trivial
  | list _ => trivial
  | object _ => trivial
  | intrinsic _ _ => trivial

end Assembles

/-! ## Closure -/

/-- The expressions of an output are lowered from what it declares. -/
theorem OutputInstruction.Describes.lowers {refs : Resolver} {out : OutputInstruction} {o : Output}
    (h : out.Describes refs o) {e : Expr} (he : e ∈ out.exprs) : ∃ v, Lowers refs v e := by
  rcases List.mem_append.1 he with hvalue | hexported
  · obtain ⟨e', he', hlowers⟩ := h.value
    rw [he', Option.toList_some, List.mem_singleton] at hvalue
    exact ⟨o.value, hvalue ▸ hlowers⟩
  · have hexport := h.exported
    rw [Option.mem_toList.1 hexported] at hexport
    exact ⟨o.exportName, lowers_of_lowerExport hexport⟩

/-- An assembled representation refers to nothing but its own entries. -/
theorem closed_of_ofTemplate {t : Template} {ir : Ir} (h : Ir.ofTemplate t = .ok ir) :
    ir.Closed := by
  have hassembles : Assembles (.ofTemplate t) t ir := assembles_of_assemble h
  have hordered : Orderable t := orderable_of_orderResources hassembles.resources
  refine ⟨?_, ?_, ?_, ?_⟩
  · intro out hout e he part hpart
    obtain ⟨o, -, hdescribes⟩ := describes_of_lowerOutputs hassembles.outputs hout
    obtain ⟨v, hlowers⟩ := hdescribes.lowers he
    exact hassembles.providesPart (hlowers.resolved part hpart)
  · -- declared dependencies were checked one by one; references are resources when found
    intro i hi d hd
    obtain ⟨r, hmem, hdescribes⟩ := describes_of_orderResources hassembles.resources hi
    rcases hdescribes.mem_dependencies_iff.1 (List.mem_append.2 hd) with
      hdeclared | ⟨found, hfound, hreferred⟩
    · exact hassembles.mem_resourceNames_iff.2 (hordered.declared i.name r hmem d hdeclared)
    · exact hassembles.provides (origin?_of_mem_references hfound hreferred) rfl
  · intro i hi hne
    obtain ⟨r, hmem, hdescribes⟩ := describes_of_orderResources hassembles.resources hi
    rw [hassembles.conditionNames_eq, hdescribes.condition]
    exact hordered.conditions i.name r hmem (hdescribes.condition ▸ hne)
  · intro out hout hne
    obtain ⟨o, -, hdescribes⟩ := describes_of_lowerOutputs hassembles.outputs hout
    rw [hassembles.conditionNames_eq, hdescribes.condition]
    rw [hdescribes.condition] at hne
    exact Resolver.isCondition_ofTemplate_iff.1 (hdescribes.declared.resolve_left hne)

/-- A topic that is made under a condition, and an output with a reference in the variables
    of a substitution string. -/
def topicTemplate : Template where
  parameters := some (.ofList [("Stage", { type := "String" })])
  conditions := some (.ofList [("IsLive", .prim (.bool true))])
  resources := some (.ofList
    [ ("Topic", { type := "AWS::SNS::Topic", condition := "IsLive" }) ])
  outputs := some (.ofList
    [ ("Address", {
        condition := "IsLive"
        value := .object [("Fn::Sub", .list
          [ .string "$\x7bTopic.TopicArn\x7d-$\x7bAWS::Region\x7d-$\x7bSuffix\x7d",
            .object [("Suffix", .object [("Ref", .string "Stage")])] ])] }) ])

theorem closed_of_ofTemplate_topic :
    ∃ ir, Ir.ofTemplate topicTemplate = .ok ir ∧ ir.Closed ∧ ir.resourceNames = ["Topic"] ∧
      (ir.outputs.getD []).flatMap (fun out => out.exprs.flatMap fun e => e.parts.map Expr.kind) =
        ["Fn::Sub", "Ref Stage"] := by
  have heval : (Ir.ofTemplate topicTemplate).toOption.map (fun ir => (ir.resourceNames,
      (ir.outputs.getD []).flatMap fun out => out.exprs.flatMap fun e => e.parts.map Expr.kind)) =
        some (["Topic"], ["Fn::Sub", "Ref Stage"]) := by
    decide +kernel
  cases h : Ir.ofTemplate topicTemplate with
  | error failure =>
    rw [h] at heval
    cases heval
  | ok ir =>
    rw [h] at heval
    obtain ⟨hnames, hparts⟩ := Prod.mk.inj (Option.some.inj heval)
    exact ⟨ir, rfl, closed_of_ofTemplate h, hnames, hparts⟩

end StackIr.Ir
