import StackIr.Proofs.Imports

/-! # Type names and their texts

    A type is read by cutting it at its two leftmost separators, and a name is written without
    its kind if that is empty.  What was read is therefore read again from what is written, and
    the two texts are the same but for one form: a type that ends at its second separator has an
    empty kind, and is written without the separator. -/

namespace StackIr.Ir.TypeName

variable {type : String} {t : TypeName}

/-- A type that ends right behind its second separator. -/
def EndsAtKind (type : String) : Prop :=
  ∃ organization rest service,
    Text.Leftmost separator type organization rest ∧ Text.Leftmost separator rest service ""

/-! ## What is written -/

theorem toString_of_kind_eq (h : t.kind = "") : t.toString = t.organization ++ separator ++ t.service := by
  rw [toString, if_pos h]

theorem toString_of_kind_ne (h : t.kind ≠ "") :
    t.toString = t.organization ++ separator ++ (t.service ++ separator ++ t.kind) := by
  rw [toString, if_neg h]
  simp only [String.append_assoc]

/-- A name is read again from its text. -/
theorem parse?_toString (h : parse? type = some t) : parse? t.toString = some t := by
  obtain ⟨rest, htype, hrest, ho, hs⟩ := parse?_eq_some_iff.1 h
  rw [parse?_eq_some_iff]
  by_cases hkind : t.kind = ""
  · rw [toString_of_kind_eq hkind]
    refine ⟨t.service, htype.replace_after _, ?_, ho, hs⟩
    -- no separator is left in the service, so it is not cut
    have habsent : ¬ ∃ b a, t.service = b ++ separator ++ a := by
      rcases Text.cut_eq_iff_leftmost.1 hrest with hcut | ⟨heq, -, habsent⟩
      · exact hcut.absent (by decide)
      · rwa [heq] at habsent
    exact Text.cut_eq_iff_leftmost.2 (.inr ⟨rfl, hkind, habsent⟩)
  · rw [toString_of_kind_ne hkind]
    refine ⟨t.service ++ separator ++ t.kind, htype.replace_after _, ?_, ho, hs⟩
    rcases Text.cut_eq_iff_leftmost.1 hrest with hcut | ⟨-, hempty, -⟩
    · exact Text.cut_eq_iff_leftmost.2 (.inl (hcut.replace_after _))
    · exact absurd hempty hkind

/-- The text of a name is what it was read from, with a separator less if that ended there. -/
theorem eq_toString_or (h : parse? type = some t) :
    (type = t.toString ∧ ¬ EndsAtKind type) ∨ (type = t.toString ++ separator ∧ EndsAtKind type) := by
  obtain ⟨rest, htype, hrest, -, -⟩ := parse?_eq_some_iff.1 h
  rcases Text.cut_eq_iff_leftmost.1 hrest with hcut | ⟨rfl, hkind, habsent⟩
  · by_cases hkind : t.kind = ""
    · right
      refine ⟨?_, t.organization, rest, t.service, htype, hkind ▸ hcut⟩
      rw [toString_of_kind_eq hkind, htype.eq, hcut.eq, hkind]
      simp only [String.append_assoc, String.append_empty]
    · left
      refine ⟨?_, ?_⟩
      · rw [toString_of_kind_ne hkind, ← hcut.eq]
        exact htype.eq
      · intro ⟨organization, rest', service, htype', hcut'⟩
        obtain ⟨-, rfl⟩ := htype.unique htype'
        exact hkind (hcut.unique hcut').2
  · left
    refine ⟨?_, ?_⟩
    · rw [toString_of_kind_eq hkind]
      exact htype.eq
    · intro ⟨organization, rest', service, htype', hcut'⟩
      obtain ⟨-, rfl⟩ := htype.unique htype'
      exact habsent ⟨service, "", hcut'.eq⟩

/-- A name that was read from a type is read again from its own text.  This text is the type
    itself exactly if the type does not end at its second separator; if it does, the separator is
    what the text lacks. -/
theorem toString_eq_iff_of_parse? (h : parse? type = some t) :
    parse? t.toString = some t ∧
      (t.toString = type ↔ ¬ EndsAtKind type) ∧
      (EndsAtKind type → t.toString ++ separator = type) := by
  refine ⟨parse?_toString h, ?_⟩
  rcases eq_toString_or h with ⟨htype, hends⟩ | ⟨htype, hends⟩
  · exact ⟨⟨fun _ => hends, fun _ => htype.symm⟩, fun hends' => absurd hends' hends⟩
  · refine ⟨⟨fun heq => ?_, fun hnot => absurd hends hnot⟩, fun _ => htype.symm⟩
    have hlength := congrArg String.length htype
    rw [heq, String.length_append, show separator.length = 2 from rfl] at hlength
    omega

/-- Colons in a row are kept.  A separator at the end is not, although the type is read. -/
theorem toString_eq_iff_of_parse?_colons :
    (parse? "A:::B:::" = some ⟨"A", ":B", ":"⟩ ∧ toString ⟨"A", ":B", ":"⟩ = "A:::B:::") ∧
      (parse? "AWS::S3::" = some ⟨"AWS", "S3", ""⟩ ∧
        parse? (toString ⟨"AWS", "S3", ""⟩) = some ⟨"AWS", "S3", ""⟩ ∧
        toString ⟨"AWS", "S3", ""⟩ ≠ "AWS::S3::") := by
  have hcolons : parse? "A:::B:::" = some ⟨"A", ":B", ":"⟩ := by decide
  have hends : parse? "AWS::S3::" = some ⟨"AWS", "S3", ""⟩ := by decide
  have hkind : EndsAtKind "AWS::S3::" := by
    refine ⟨"AWS", "S3::", "S3", ?_, ?_⟩
    · exact Text.cut?_eq_some_iff_leftmost.1 (by decide)
    · exact Text.cut?_eq_some_iff_leftmost.1 (by decide)
  obtain ⟨-, hsame, -⟩ := toString_eq_iff_of_parse? hcolons
  obtain ⟨hagain, hother, -⟩ := toString_eq_iff_of_parse? hends
  refine ⟨⟨hcolons, hsame.2 ?_⟩, hends, hagain, fun heq => hother.1 heq hkind⟩
  -- the rest behind the first separator is cut before its last colon
  intro ⟨organization, rest, service, htype, hrest⟩
  have hfirst : Text.Leftmost separator "A:::B:::" "A" ":B:::" :=
    Text.cut?_eq_some_iff_leftmost.1 (by decide)
  obtain ⟨-, rfl⟩ := hfirst.unique htype
  have hsecond : Text.Leftmost separator ":B:::" ":B" ":" :=
    Text.cut?_eq_some_iff_leftmost.1 (by decide)
  exact absurd (hsecond.unique hrest).2 (by decide)

end StackIr.Ir.TypeName
