import StackIr.Ir.Assembly
import StackIr.Proofs.Decoding.Alike
import StackIr.Proofs.Decoding.Native

/-! # The order of keys

    The values of a template are free in the order of their keys: two templates that differ only
    there are decoded to the same template, or both fail.  The failures may differ, since each is
    that of the first member that fails.

    The order of declarations and of their members is not free, so the nodes above values are
    related entry by entry (`Members`). -/

namespace StackIr.Template

open Yaml (Node Header Comments Scope)

/-! ## Decoded values are in order -/

theorem keptByDecoding_ordered : KeptByDecoding Value.Ordered where
  prim := .prim
  string := .string
  list _ := .list
  ofPairs _ := Value.ordered_ofPairs

theorem ordered_of_decodeValue {scope : Scope} (n : Node) {v : Value}
    (h : decodeValue scope n = .ok v) : v.Ordered :=
  keptByDecoding_ordered.of_decodeValue n h

/-! ## Templates -/

/-- Mappings with the same keys in the same order and related values, or no mappings at all. -/
def Members (scope scope' : Scope) (R : String → Node → Node → Prop) (n n' : Node) : Prop :=
  SameOutcome (List.Forall₂ fun entry entry' => entry.1 = entry'.1 ∧ R entry.1 entry.2 entry'.2)
    (entriesOf scope n) (entriesOf scope' n')

/-- How the members of an output are related: the order is free in the values of the output and
    of its export. -/
def OutputMember (scope scope' : Scope) (key : String) (n n' : Node) : Prop :=
  if key = "Export" then Members scope scope' (fun _ => Alike true scope scope') n n'
  else Alike true scope scope' n n'

/-- How the entries of a template are related.  The order is free in conditions, below the
    members of resources, and in the values of outputs and of their exports. -/
def EntryMember (scope scope' : Scope) (key : String) (n n' : Node) : Prop :=
  if key = "Conditions" then Members scope scope' (fun _ => Alike true scope scope') n n'
  else if key = "Resources" then
    Members scope scope' (fun _ => Members scope scope' fun _ => Alike true scope scope') n n'
  else if key = "Outputs" then
    Members scope scope' (fun _ => Members scope scope' (OutputMember scope scope')) n n'
  else Alike false scope scope' n n'

/-- The representation of a template, if there is one of each. -/
def assembled (t : Except Stop Template) : Except Stop Ir :=
  t >>= fun t => (Ir.ofTemplate t).mapError .failed

section templates

variable {scope scope' : Scope} {R : String → Node → Node → Prop} {n n' root root' : Node}

theorem Members.sameMembers {S : String → Node → Node → Prop} (h : Members scope scope' R n n')
    (hS : ∀ key m m', R key m m' → S key m m') : SameMembers true scope scope' S n n' :=
  SameMembers.imp (Agree.of_sameOutcome rfl h) hS

theorem OutputMember.outputAlike {key : String} (h : OutputMember scope scope' key n n') :
    OutputAlike true scope scope' key n n' := by
  unfold OutputMember at h
  unfold OutputAlike
  split
  · rename_i hkey
    rw [if_pos hkey] at h
    exact h.sameMembers fun _ _ _ hm => hm
  · rename_i hkey
    rwa [if_neg hkey] at h

theorem EntryMember.entryAlike {key : String} (h : EntryMember scope scope' key n n') :
    EntryAlike true scope scope' key n n' := by
  unfold EntryMember at h
  unfold EntryAlike
  split_ifs at h ⊢
  · exact h.sameMembers fun _ _ _ hm => hm
  · exact h.sameMembers fun _ _ _ hm => hm.sameMembers fun _ _ _ hmember => hmember
  · exact h.sameMembers fun _ _ _ hm => hm.sameMembers fun _ _ _ hmember => hmember.outputAlike
  · exact h

/-- A template is read like the members of a declaration. -/
theorem ofNode_sameOutcome_foldMembers (scope : Scope) (root : Node) :
    SameOutcome Eq (ofNode scope root)
      (foldMembers scope root (decodeEntry scope) Template.blank) := by
  have hdirect := direct_resolve scope root
  unfold ofNode foldMembers
  unfold entriesOf
  match hroot : root.resolve scope, hdirect with
  | .mapping h entries, _ => exact .refl _
  | .scalar h text, _ => exact .error
  | .sequence h items, _ => exact .error

theorem Members.sameOutcome_ofNode
    (h : Members scope scope' (EntryMember scope scope') root root') :
    SameOutcome Eq (ofNode scope root) (ofNode scope' root') := by
  have hfold := (h.sameMembers fun _ _ _ hentry => hentry.entryAlike).agree_template.sameOutcome
  have hroot := ofNode_sameOutcome_foldMembers scope root
  have hroot' := (ofNode_sameOutcome_foldMembers scope' root').symm
  exact (hroot.trans hfold fun _ _ _ => Eq.trans).trans hroot'
    fun _ _ _ hone htwo => hone.trans htwo.symm

/-- Two templates that differ only in the order of keys with free order are assembled to
    representations with one text and one fingerprint, or neither is assembled.  No step after
    decoding needs the order in which decoding leaves the fields of a value: visited in another
    order, the same resources are found and, but for the order, the same expression is made. -/
theorem ofNode_anyKeyOrder (h : Members scope scope' (EntryMember scope scope') root root') :
    ((∃ ir, assembled (ofNode scope root) = .ok ir) ↔
      ∃ ir, assembled (ofNode scope' root') = .ok ir) ∧
    (∀ ir ir', assembled (ofNode scope root) = .ok ir → assembled (ofNode scope' root') = .ok ir' →
      ir.encode = ir'.encode ∧ ir.fingerprint = ir'.fingerprint) ∧
    (∀ bytes bytes' document document',
      Yaml.Document.ofBytes? bytes = .ok (some document) →
      document.root = root → document.scope = scope →
      Yaml.Document.ofBytes? bytes' = .ok (some document') →
      document'.root = root' → document'.scope = scope' →
      ∀ ir, assembled (parse bytes) = .ok ir ↔ assembled (parse bytes') = .ok ir) ∧
    (∀ n w, decodeValue scope n = .ok w → w.Ordered ∧
      ∀ refs v, v.DistinctKeys → v.sorted = w →
        SameOutcome (fun found found' => Fields.sortedKeys found = Fields.sortedKeys found')
          (Ir.references refs v) (Ir.references refs w) ∧
        SameOutcome (fun e e' => e.sorted = e') (Ir.lower refs v) (Ir.lower refs w)) := by
  have hsame : SameOutcome Eq (assembled (ofNode scope root))
      (assembled (ofNode scope' root')) := by
    refine h.sameOutcome_ofNode.bind fun t t' ht => ?_
    rw [ht]
    exact .refl _
  refine ⟨exists_congr fun ir => hsame.eq_ok_iff, fun ir ir' hir hir' => ?_,
    fun bytes bytes' document document' hbytes hroot hscope hbytes' hroot' hscope' ir => ?_,
    fun n w hw => ⟨ordered_of_decodeValue n hw, ?_⟩⟩
  · rw [hsame.eq_ok_iff.1 hir] at hir'
    cases hir'
    exact ⟨rfl, rfl⟩
  · subst hroot hroot' hscope hscope'
    rw [parse_of_ofBytes? hbytes, parse_of_ofBytes? hbytes']
    exact hsame.eq_ok_iff
  · rintro refs v hdistinct rfl
    refine ⟨(Ir.sameFound_references v hdistinct).imp fun found found' _ _ hfound => ?_,
      Ir.sortsTo_lower v hdistinct⟩
    exact Fields.sortedKeys_congr hfound

/-- A mapping of the first line. -/
def mappingNode (entries : List (String × Node)) : Node :=
  .mapping { line := 1, anchor := none, tag := "!!map" }
    (entries.map fun entry => (stringNode entry.1, entry.2))

/-- A list of the first line. -/
def listNode (items : List Node) : Node :=
  .sequence { line := 1, anchor := none, tag := "!!seq" } items

/-- A template with a resource and an output whose values have some entries. -/
def topicTemplate (properties vars : List (String × Node)) : Node :=
  mappingNode
    [ ("Resources", mappingNode
        [("Topic", mappingNode
          [("Type", stringNode "AWS::SNS::Topic"), ("Properties", mappingNode properties)])]),
      ("Outputs", mappingNode
        [("Name", mappingNode
          [("Value", mappingNode
            [("Fn::Sub", listNode [stringNode "$\x7ba\x7d$\x7bb\x7d", mappingNode vars])])])]) ]

theorem alike_mappingNode {entries entries' : List (String × Node)}
    (hdistinct : (entries.map Prod.fst).Nodup) (hperm : entries.Perm entries') :
    AlikeBy true scope scope Eq (mappingNode entries) (mappingNode entries') := by
  refine .mapping rfl (.permuteLeft rfl ?_ (hperm.map _) (.refl true scope _))
  rw [List.map_map]
  exact hdistinct

theorem members_mappingNode {entries entries' : List (String × Node)}
    (h : List.Forall₂ (fun entry entry' => entry.1 = entry'.1 ∧
      R entry.1 (entry.2.resolve scope) (entry'.2.resolve scope')) entries entries') :
    Members scope scope' R (mappingNode entries) (mappingNode entries') := by
  refine .ok ?_
  rw [List.map_map, List.map_map, List.forall₂_map_left_iff, List.forall₂_map_right_iff]
  exact h

/-- The properties of a resource and the variables of a substitution string in another order. -/
theorem ofNode_anyKeyOrder_topic :
    let root := topicTemplate [("A", stringNode "1"), ("B", stringNode "2")]
      [("a", mappingNode [("Ref", stringNode "Topic")]), ("b", stringNode "3")]
    let root' := topicTemplate [("B", stringNode "2"), ("A", stringNode "1")]
      [("b", stringNode "3"), ("a", mappingNode [("Ref", stringNode "Topic")])]
    Members [] [] (EntryMember [] []) root root' ∧
      ∃ ir ir', assembled (ofNode [] root) = .ok ir ∧ assembled (ofNode [] root') = .ok ir' ∧
        ir.fingerprint = ir'.fingerprint := by
  intro root root'
  have hresource : Members [] [] (fun _ => Members [] [] fun _ => Alike true [] [])
      (mappingNode [("Topic", mappingNode [("Type", stringNode "AWS::SNS::Topic"), ("Properties",
        mappingNode [("A", stringNode "1"), ("B", stringNode "2")])])])
      (mappingNode [("Topic", mappingNode [("Type", stringNode "AWS::SNS::Topic"), ("Properties",
        mappingNode [("B", stringNode "2"), ("A", stringNode "1")])])]) := by
    refine members_mappingNode (.cons ⟨rfl, members_mappingNode ?_⟩ .nil)
    exact .cons ⟨rfl, .refl true [] _⟩
      (.cons ⟨rfl, .of_alikeBy (alike_mappingNode (by decide) (.swap _ _ _))⟩ .nil)
  have houtput : Members [] [] (fun _ => Members [] [] (OutputMember [] []))
      (mappingNode [("Name", mappingNode [("Value", mappingNode [("Fn::Sub", listNode
        [stringNode "$\x7ba\x7d$\x7bb\x7d", mappingNode
          [("a", mappingNode [("Ref", stringNode "Topic")]), ("b", stringNode "3")]])])])])
      (mappingNode [("Name", mappingNode [("Value", mappingNode [("Fn::Sub", listNode
        [stringNode "$\x7ba\x7d$\x7bb\x7d", mappingNode
          [("b", stringNode "3"), ("a", mappingNode [("Ref", stringNode "Topic")])]])])])]) := by
    refine members_mappingNode (.cons ⟨rfl, members_mappingNode (.cons ⟨rfl, ?_⟩ .nil)⟩ .nil)
    refine .of_alikeBy (.mapping rfl (.cons rfl (.sequence rfl ?_) .nil))
    exact .cons (.refl true [] _) (.cons (alike_mappingNode (by decide) (.swap _ _ _)) .nil)
  have hroot : Members [] [] (EntryMember [] []) root root' :=
    members_mappingNode (.cons ⟨rfl, hresource⟩ (.cons ⟨rfl, houtput⟩ .nil))
  obtain ⟨hiff, hsame, -⟩ := ofNode_anyKeyOrder hroot
  have hok : (assembled (ofNode [] root)).isOk = true := by decide +kernel
  obtain ⟨ir, hir⟩ : ∃ ir, assembled (ofNode [] root) = .ok ir := by
    cases h : assembled (ofNode [] root) with
    | ok ir => exact ⟨ir, rfl⟩
    | error failure =>
      rw [h] at hok
      cases hok
  obtain ⟨ir', hir'⟩ := hiff.1 ⟨ir, hir⟩
  exact ⟨hroot, ir, ir', hir, hir', (hsame ir ir' hir hir').2⟩

end templates

end StackIr.Template
