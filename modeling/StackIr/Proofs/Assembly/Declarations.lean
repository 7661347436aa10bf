import StackIr.Proofs.Assembly.Closure
import StackIr.Proofs.Imports
import StackIr.Proofs.Text.LowerCase

/-! # What becomes of declarations

    Every declaration of a template has one entry in the representation that is assembled from
    it, which says what the declaration says.  The entries of a section are in the order of the
    declarations; only resources are put into another order.  Imports are made from resources:
    one for each service, in order. -/

namespace StackIr.Ir

/-! ## Parameters -/

/-- A string parameter with two allowed values, true and false in any ASCII case. -/
def OffersTruth (p : Parameter) : Prop :=
  p.type = "String" ∧ ∃ a b, p.allowedValues = some [a, b] ∧
    ((a.toLower = "true" ∧ b.toLower = "false") ∨ (a.toLower = "false" ∧ b.toLower = "true"))

/-- No other character has a lower case that is a letter of these words. -/
theorem isBooleanChoice_iff {p : Parameter} : isBooleanChoice p = true ↔ OffersTruth p := by
  have htrue : ∀ s, Text.lower s = "true" ↔ s.toLower = "true" :=
    fun s => Text.lower_eq_iff_toLower (by decide)
  have hfalse : ∀ s, Text.lower s = "false" ↔ s.toLower = "false" :=
    fun s => Text.lower_eq_iff_toLower (by decide)
  unfold isBooleanChoice OffersTruth
  rw [Bool.and_eq_true, decide_eq_true_eq]
  refine and_congr_right fun _ => ?_
  split
  · rename_i a b hvalues
    simp only [Bool.or_eq_true, Bool.and_eq_true, decide_eq_true_eq, htrue, hfalse]
    constructor
    · intro h
      exact ⟨a, b, hvalues, h⟩
    · rintro ⟨a', b', hvalues', h⟩
      rw [hvalues] at hvalues'
      cases hvalues'
      exact h
  · rename_i hother
    constructor
    · intro h
      cases h
    · rintro ⟨a, b, hvalues, -⟩
      exact (hother a b hvalues).elim

/-- An input of a stack says what a parameter declares.  Its type is the declared one, unless
    the parameter offers a choice of true and false. -/
structure ConstructorParameter.Describes (c : ConstructorParameter) (name : String)
    (p : Parameter) : Prop where
  logicalName : c.logicalName = name
  description : c.description = p.description
  default : c.default = p.default
  allowedValues : c.allowedValues = p.allowedValues
  noEcho : c.noEcho = p.noEcho
  boolean : OffersTruth p → c.type = "Boolean"
  declared : ¬ OffersTruth p → c.type = p.type

theorem describes_deriveParameter (name : String) (p : Parameter) :
    (deriveParameter name p).Describes name p := by
  refine ⟨rfl, rfl, rfl, rfl, rfl, ?_, ?_⟩
  · intro h
    exact if_pos (isBooleanChoice_iff.2 h)
  · intro h
    exact if_neg (mt isBooleanChoice_iff.1 h)

/-! ## Sections -/

/-- A representation that has one entry for each declaration of a template and no others, with
    what the declaration says. -/
structure Declares (ir : Ir) (t : Template) : Prop where
  description : ir.description = t.description
  parameters : List.Forall₂ (fun entry c => c.Describes entry.1 entry.2)
    (Section.entries t.parameters) (ir.constructor.getD [])
  mappings : List.Forall₂
    (fun entry m => m.name = entry.1 ∧ m.table = some entry.2 ∧
      m.classification = some (classify entry.2))
    (Section.entries t.mappings) (ir.mappings.getD [])
  conditions : List.Forall₂ (fun entry c => c.name = entry.1 ∧ c.expression = entry.2)
    (Section.entries t.conditions) (ir.conditions.getD [])
  outputs : List.Forall₂ (fun entry out => out.name = entry.1 ∧ out.Describes (.ofTemplate t) entry.2)
    (Section.entries t.outputs) (ir.outputs.getD [])
  /-- The resources in another order. -/
  resources : ∃ declared, declared.Perm (Section.entries t.resources) ∧
    List.Forall₂ (fun entry i => i.name = entry.1 ∧ i.Describes (.ofTemplate t) entry.2)
      declared (ir.resources.getD [])
  /-- Imports are those of the types of resources, in lower case. -/
  imports : ∀ i, i ∈ ir.imports.getD [] ↔ ∃ r ∈ ir.resources.getD [],
    i.organization = Text.lower r.type.organization ∧ i.service = Text.lower r.type.service
  /-- They are in order, and none is there twice. -/
  increasing : (ir.imports.getD []).Pairwise fun i j =>
    i.organization < j.organization ∨ (i.organization = j.organization ∧ i.service < j.service)

namespace Assembles

variable {refs : Resolver} {t : Template} {ir : Ir}

theorem forall₂_parameters (h : Assembles refs t ir) :
    List.Forall₂ (fun entry c => c.Describes entry.1 entry.2) (Section.entries t.parameters)
      (ir.constructor.getD []) := by
  rw [h.parameters]
  cases t.parameters with
  | none => exact .nil
  | some parameters =>
    show List.Forall₂ _ parameters.entries (parameters.entries.map _)
    rw [List.forall₂_map_right_iff]
    exact List.forall₂_same.2 fun entry _ => describes_deriveParameter entry.1 entry.2

theorem forall₂_mappings (h : Assembles refs t ir) :
    List.Forall₂
      (fun entry m => m.name = entry.1 ∧ m.table = some entry.2 ∧
        m.classification = some (classify entry.2))
      (Section.entries t.mappings) (ir.mappings.getD []) := by
  rw [h.mappings]
  cases t.mappings with
  | none => exact .nil
  | some mappings =>
    show List.Forall₂ _ mappings.entries (mappings.entries.map _)
    rw [List.forall₂_map_right_iff]
    exact List.forall₂_same.2 fun entry _ => ⟨rfl, rfl, rfl⟩

theorem forall₂_conditions (h : Assembles refs t ir) :
    List.Forall₂ (fun entry c => c.name = entry.1 ∧ c.expression = entry.2)
      (Section.entries t.conditions) (ir.conditions.getD []) := by
  rw [h.conditions]
  cases t.conditions with
  | none => exact .nil
  | some conditions =>
    show List.Forall₂ _ conditions.entries (conditions.entries.map _)
    rw [List.forall₂_map_right_iff]
    exact List.forall₂_same.2 fun entry _ => ⟨rfl, rfl⟩

theorem forall₂_outputs (h : Assembles refs t ir) :
    List.Forall₂ (fun entry out => out.name = entry.1 ∧ out.Describes refs entry.2)
      (Section.entries t.outputs) (ir.outputs.getD []) := by
  have houtputs := h.outputs
  cases hsection : t.outputs with
  | none =>
    rw [hsection] at houtputs
    rw [← Except.ok.inj houtputs]
    exact .nil
  | some outputs =>
    rw [hsection] at houtputs
    obtain ⟨list, hlist, heq⟩ := map_eq_ok_iff.1 houtputs
    rw [← heq]
    exact forall₂_of_lowerOutputList hlist

/-- Each instruction is that of one resource, and each resource has one. -/
theorem exists_forall₂_resources (h : Assembles refs t ir) :
    ∃ declared, declared.Perm (Section.entries t.resources) ∧
      List.Forall₂ (fun entry i => i.name = entry.1 ∧ i.Describes refs entry.2) declared
        (ir.resources.getD []) := by
  -- the resources are looked up in the order of the instructions
  have hentries : ∀ i ∈ ir.resources.getD [],
      ∃ r, (i.name, r) ∈ Section.entries t.resources ∧ i.Describes refs r :=
    fun i hi => describes_of_orderResources h.resources hi
  have hperm := perm_names_of_orderResources h.resources
  generalize ir.resources.getD [] = instructions at hentries hperm
  have hdeclared : ∃ declared, (∀ entry ∈ declared, entry ∈ Section.entries t.resources) ∧
      List.Forall₂ (fun entry i => i.name = entry.1 ∧ i.Describes refs entry.2) declared
        instructions := by
    -- the induction is over the instructions alone
    clear hperm
    induction instructions with
    | nil => exact ⟨[], by simp, .nil⟩
    | cons i rest ih =>
      obtain ⟨⟨r, hmem, hdescribes⟩, hrest⟩ := List.forall_mem_cons.1 hentries
      obtain ⟨declared, hsub, hforall⟩ := ih hrest
      exact ⟨(i.name, r) :: declared, List.forall_mem_cons.2 ⟨hmem, hsub⟩,
        .cons ⟨rfl, hdescribes⟩ hforall⟩
  obtain ⟨declared, hsub, hforall⟩ := hdeclared
  refine ⟨declared, ?_, hforall⟩
  have hnames : declared.map Prod.fst = instructions.map (·.name) := by
    rw [← List.forall₂_eq_eq_eq, List.forall₂_map_left_iff, List.forall₂_map_right_iff]
    exact hforall.imp fun _ _ hentry => hentry.1.symm
  have hpermNames : (declared.map Prod.fst).Perm (Section.names t.resources) := hnames ▸ hperm
  -- entries with distinct names that are all declared, and as many as are declared
  have hnodup : (declared.map Prod.fst).Nodup :=
    hpermNames.nodup_iff.2 (Section.nodup_names t.resources)
  refine (List.subperm_of_subset (List.Nodup.of_map _ hnodup) hsub).perm_of_length_le ?_
  have hlength := hpermNames.length_eq
  rw [List.length_map, Section.names, List.length_map] at hlength
  exact hlength.ge

/-- The imports are those of the types of the resources. -/
theorem mem_imports_iff (h : Assembles refs t ir) (j : Import) :
    j ∈ ir.imports.getD [] ↔ ∃ i ∈ ir.resources.getD [], j = i.type.toImport := by
  obtain ⟨declared, hperm, hforall⟩ := h.exists_forall₂_resources
  rw [(Import.ofTypes_eq_ok h.imports).2 j]
  simp only [Template.resourceTypes, List.mem_map]
  constructor
  · rintro ⟨type, ⟨⟨name, r⟩, hmem, rfl⟩, typeName, hparse, rfl⟩
    obtain ⟨i, hi, -, hdescribes⟩ := exists_mem_of_forall₂ hforall.flip (hperm.mem_iff.2 hmem)
    rw [hdescribes.type] at hparse
    cases hparse
    exact ⟨i, hi, rfl⟩
  · rintro ⟨i, hi, rfl⟩
    obtain ⟨⟨name, r⟩, hmem, -, hdescribes⟩ := exists_mem_of_forall₂ hforall hi
    exact ⟨r.type, ⟨(name, r), hperm.mem_iff.1 hmem, rfl⟩, i.type, hdescribes.type, rfl⟩

end Assembles

/-! ## Templates -/

/-- No declaration of a template that is assembled is lost, doubled or changed. -/
theorem declares_of_ofTemplate {t : Template} {ir : Ir} (h : Ir.ofTemplate t = .ok ir) :
    ir.Declares t := by
  have hassembles : Assembles (.ofTemplate t) t ir := assembles_of_assemble h
  refine ⟨hassembles.description, hassembles.forall₂_parameters, hassembles.forall₂_mappings,
    hassembles.forall₂_conditions, hassembles.forall₂_outputs, hassembles.exists_forall₂_resources,
    ?_, (Import.ofTypes_eq_ok hassembles.imports).1⟩
  intro i
  rw [hassembles.mem_imports_iff]
  refine exists_congr fun r => and_congr_right fun _ => ?_
  constructor
  · rintro rfl
    exact ⟨rfl, rfl⟩
  · intro ⟨horganization, hservice⟩
    exact congrArg₂ Import.mk horganization hservice

/-- A choice of true and false and another parameter; a queue that is declared before the topic
    that it needs, and a type of the same service in another case. -/
def serviceTemplate : Template where
  parameters := some (.ofList
    [ ("Live", { type := "String", allowedValues := some ["FALSE", "True"] }),
      ("Kind", { type := "String", allowedValues := some ["true", "maybe"] }) ])
  mappings := some (.ofList [("Sizes", LookupTable.empty.set "small" "disk" (.int 8))])
  conditions := some (.ofList [("IsLive", .object [("Ref", .string "Live")])])
  resources := some (.ofList
    [ ("Queue", { type := "AWS::SQS::Queue", dependsOn := some ["Topic"], condition := "IsLive" }),
      ("Topic", { type := "AWS::SNS::Topic" }),
      ("Policy", { type := "Aws::sqs::QueuePolicy" }) ])
  outputs := some (.ofList [("Name", { value := .object [("Ref", .string "Queue")] })])

theorem declares_of_ofTemplate_service :
    ∃ ir, Ir.ofTemplate serviceTemplate = .ok ir ∧ ir.Declares serviceTemplate ∧
      (ir.constructor.getD []).map (·.type) = ["Boolean", "String"] ∧
      ir.resourceNames = ["Topic", "Policy", "Queue"] := by
  have heval : (Ir.ofTemplate serviceTemplate).toOption.map (fun ir =>
      ((ir.constructor.getD []).map (·.type), ir.resourceNames)) =
        some (["Boolean", "String"], ["Topic", "Policy", "Queue"]) := by
    decide +kernel
  cases h : Ir.ofTemplate serviceTemplate with
  | error failure =>
    rw [h] at heval
    cases heval
  | ok ir =>
    rw [h] at heval
    simp only [Except.toOption, Option.map_some, Option.some.injEq, Prod.mk.injEq] at heval
    exact ⟨ir, rfl, declares_of_ofTemplate h, heval⟩

end StackIr.Ir
