import StackIr.Proofs.Lowering.Checks
import StackIr.Proofs.Substitution.Scan
import StackIr.Proofs.Text.Cut

/-! # The two spellings of an attribute

    An attribute of a resource is the argument of a function of its own, or the placeholder of a
    substitution string.  Both spellings are cut at the first point, and for both the resolver is
    asked where the part before it comes from.

    Only the function asks for two parts that are not empty.  A placeholder without an attribute,
    or without a resource where the empty name is one, is therefore accepted although the function
    is not, and this is the only difference. -/

namespace StackIr

namespace Value

/-- The attribute that a text names, as a function of its own. -/
def attributeFunction (s : String) : Value :=
  .object [("Fn::GetAtt", .string s)]

/-- The attribute that a text names, as the placeholder of a substitution string. -/
def attributePlaceholder (s : String) : Value :=
  .object [("Fn::Sub", .string ("$\x7b" ++ s ++ "\x7d"))]

end Value

namespace Substitution

open Alphabet

/-- A text that is no more than a placeholder has one token. -/
theorem scanString_placeholder {s : String} (hbrace : '\x7d' ∉ s.toList)
    (hbang : ¬ "!".toList <+: s.toList) :
    scanString ("$\x7b" ++ s ++ "\x7d") = .ok [.var s] := by
  -- no bang follows the brace, so the placeholder is not an escaped one
  have hhead : s.toList.head? ≠ some bang := by
    cases hs : s.toList with
    | nil => simp
    | cons c rest =>
      rintro hc
      cases Option.some.inj hc
      exact hbang (hs ▸ ⟨rest, rfl⟩)
  have hchars : ("$\x7b" ++ s ++ "\x7d").toList = placeholder s.toList ++ [] := by
    rw [List.append_nil, String.toList_append, String.toList_append]
    rfl
  have hscan : scan ("$\x7b" ++ s ++ "\x7d").toList = .ok [.var s.toList] := by
    rw [hchars, scan_variable hbrace hhead, scan]
    rfl
  rw [scanString, hscan]
  show Except.ok [Token.var (String.ofList s.toList)] = _
  rw [String.ofList_toList]

end Substitution

namespace Ir

variable {refs : Resolver} {s resource attr : String}

/-- A text that names an attribute where it stands in a placeholder. -/
structure NamesAttribute (s : String) : Prop where
  hasPoint : '.' ∈ s.toList
  noBrace : '\x7d' ∉ s.toList
  noBang : ¬ "!".toList <+: s.toList
  notPseudo : ¬ "AWS::".toList <+: s.toList

theorem NamesAttribute.exists_cut (h : NamesAttribute s) :
    ∃ resource attr, Text.cut? "." s = some (resource, attr) := by
  cases hcut : Text.cut? "." s with
  | none => exact absurd h.hasPoint ((Text.cut?_eq_none_iff rfl).1 hcut)
  | some sides => exact ⟨sides.1, sides.2, rfl⟩

theorem checkResource_eq (refs : Resolver) (name fn : String) :
    checkResource refs name fn =
      if refs.origin? name = some .resource then .ok () else unresolved name fn (refs.origin? name) := by
  unfold checkResource
  split
  · rename_i h
    rw [if_pos h]
  · rename_i h
    rw [if_neg h]

/-- A placeholder is checked for the resource and for nothing else. -/
theorem lower_attributePlaceholder (refs : Resolver) (h : NamesAttribute s)
    (hcut : Text.cut? "." s = some (resource, attr)) :
    lower refs (.attributePlaceholder s) =
      if refs.origin? resource = some .resource then .ok (.sub [.var s] [])
      else unresolved resource "Fn::Sub" (refs.origin? resource) := by
  have htokens : tokensOf ("$\x7b" ++ s ++ "\x7d") = .ok [.var s] := by
    rw [tokensOf, Substitution.scanString_placeholder h.noBrace h.noBang]
    rfl
  have hpseudo : Text.startsWith s "AWS::" = false :=
    Bool.eq_false_iff.2 fun hstart => h.notPseudo (Text.startsWith_iff.1 hstart)
  have hattribute : Substitution.attributeResource? s = some resource :=
    Substitution.attributeResource?_eq_some_iff.2 ⟨hpseudo, attr, hcut⟩
  have hcheck : checkVariable refs [] s = checkResource refs resource "Fn::Sub" := by
    rw [checkVariable, if_neg List.not_mem_nil, hattribute]
  -- the one token is a variable that is not bound, so its check is all that can fail
  show lowerSub refs ("$\x7b" ++ s ++ "\x7d") (.ok []) = _
  rw [lowerSub, htokens]
  show ((checkVariable refs [] s >>= fun _ => Except.ok ()) >>= fun _ =>
    Except.ok (Expr.sub [.var s] [])) = _
  rw [hcheck, checkResource_eq]
  split
  · rfl
  · rfl

/-- The function asks for its two parts first. -/
theorem lower_attributeFunction (refs : Resolver) (hcut : Text.cut? "." s = some (resource, attr)) :
    lower refs (.attributeFunction s) =
      if resource = "" ∨ attr = "" then malformed (.attributeArgument s)
      else if refs.origin? resource = some .resource then .ok (.getAtt resource attr)
      else unresolved resource "Fn::GetAtt" (refs.origin? resource) := by
  have hparts : attributeParts (.string s) = (resource, attr) := by
    rw [attributeParts, Text.cut, hcut, Option.getD_some]
  show lowerGetAtt refs (.string s) = _
  rw [lowerGetAtt, hparts]
  simp only [Bool.or_eq_true, decide_eq_true_eq, checkResource_eq]
  split
  · rfl
  · split
    · rfl
    · rfl

/-- The two spellings of an attribute are accepted alike exactly if both parts have a text or the
    first names no resource.  They fail alike: a placeholder only because of the resource, and the
    function for the same resource of the same origin, unless a part is empty. -/
theorem lower_attribute_alike_iff (refs : Resolver) (h : NamesAttribute s) :
    ∃ resource attr, (s = resource ++ "." ++ attr ∧ '.' ∉ resource.toList) ∧
      (((∃ e, lower refs (.attributePlaceholder s) = .ok e) ↔
          ∃ e, lower refs (.attributeFunction s) = .ok e) ↔
        (resource ≠ "" ∧ attr ≠ "") ∨ refs.origin? resource ≠ some .resource) ∧
      (∀ failure, lower refs (.attributePlaceholder s) = .error failure →
        failure = .assembly (.unresolved ⟨resource, "Fn::Sub", refs.origin? resource⟩)) ∧
      (∀ failure, lower refs (.attributeFunction s) = .error failure →
        (resource ≠ "" ∧ attr ≠ "" ∧
          failure = .assembly (.unresolved ⟨resource, "Fn::GetAtt", refs.origin? resource⟩)) ∨
        ((resource = "" ∨ attr = "") ∧ failure = .assembly (.malformed (.attributeArgument s)))) := by
  obtain ⟨resource, attr, hcut⟩ := h.exists_cut
  refine ⟨resource, attr, (Text.cut?_eq_some_iff rfl).1 hcut, ?_⟩
  -- both results depend on two questions only: is a part empty, and is there such a resource
  rw [lower_attributePlaceholder refs h hcut, lower_attributeFunction refs hcut, ← not_or]
  by_cases hempty : resource = "" ∨ attr = ""
  · by_cases horigin : refs.origin? resource = some .resource
    · simp [hempty, horigin, malformed, eq_comm]
    · simp [hempty, horigin, malformed, unresolved, eq_comm]
  · obtain ⟨hresource, hattr⟩ := not_or.1 hempty
    by_cases horigin : refs.origin? resource = some .resource
    · simp [hempty, horigin]
    · simp [hresource, hattr, horigin, unresolved, eq_comm]

/-- A resolver that knows one resource. -/
def knowsBucket : Resolver where
  origin? name := if name = "Bucket" then some .resource else none
  isCondition _ := false

/-- Attributes of attributes and undeclared resources are judged alike.  A placeholder without an
    attribute is accepted and the function is not. -/
theorem lower_attribute_alike_iff_noAttribute :
    ((∃ e, lower knowsBucket (.attributePlaceholder "Bucket.Website.Url") = .ok e) ↔
      ∃ e, lower knowsBucket (.attributeFunction "Bucket.Website.Url") = .ok e) ∧
    (∀ failure, lower knowsBucket (.attributePlaceholder "Topic.Arn") = .error failure →
      failure = .assembly (.unresolved ⟨"Topic", "Fn::Sub", none⟩)) ∧
    lower knowsBucket (.attributePlaceholder "Bucket.") = .ok (.sub [.var "Bucket."] []) ∧
    ¬ ((∃ e, lower knowsBucket (.attributePlaceholder "Bucket.") = .ok e) ↔
      ∃ e, lower knowsBucket (.attributeFunction "Bucket.") = .ok e) := by
  -- the parts that a name is divided into are those that it is cut into
  have hparts : ∀ {s resource attr : String} (cut : String × String), Text.cut? "." s = some cut →
      s = resource ++ "." ++ attr ∧ '.' ∉ resource.toList → cut = (resource, attr) := by
    intro s resource attr cut hcut hs
    exact Option.some.inj (hcut.symm.trans ((Text.cut?_eq_some_iff rfl).2 hs))
  refine ⟨?_, ?_, ?_, ?_⟩
  · obtain ⟨resource, attr, hs, halike, -⟩ := lower_attribute_alike_iff knowsBucket
      (s := "Bucket.Website.Url") ⟨by decide, by decide, by decide, by decide⟩
    cases hparts ("Bucket", "Website.Url") (by decide) hs
    exact halike.2 (.inl ⟨by decide, by decide⟩)
  · obtain ⟨resource, attr, hs, -, hfailure, -⟩ := lower_attribute_alike_iff knowsBucket
      (s := "Topic.Arn") ⟨by decide, by decide, by decide, by decide⟩
    cases hparts ("Topic", "Arn") (by decide) hs
    exact hfailure
  · have hcut : Text.cut? "." "Bucket." = some ("Bucket", "") := by decide
    exact lower_attributePlaceholder knowsBucket ⟨by decide, by decide, by decide, by decide⟩ hcut
  · obtain ⟨resource, attr, hs, halike, -⟩ := lower_attribute_alike_iff knowsBucket
      (s := "Bucket.") ⟨by decide, by decide, by decide, by decide⟩
    cases hparts ("Bucket", "") (by decide) hs
    rw [halike]
    decide

end Ir

end StackIr
