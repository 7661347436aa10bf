import StackIr.Proofs.Rendering.Scalars

/-! # The characters of text in block style

    The reader refuses some characters.  The text in block style has none of them: it has only
    characters that are written as they are. -/

namespace StackIr.Json

open Yaml

/-- The characters that are written as they are, in some style. -/
def Shown (c : Char) : Prop :=
  Presentation.isPrintable c = true ∨ c = '\t'

instance (c : Char) : Decidable (Shown c) :=
  inferInstanceAs (Decidable (_ ∨ _))

theorem Shown.isAllowed {c : Char} (h : Shown c) : Yaml.isAllowed c = true := by
  rcases h with h | rfl
  · simp only [Presentation.isPrintable, Bool.or_eq_true, Bool.and_eq_true, decide_eq_true_eq,
      beq_iff_eq, bne_iff_ne] at h
    simp only [Yaml.isAllowed, Bool.or_eq_true, Bool.and_eq_true, decide_eq_true_eq, beq_iff_eq]
    omega
  · decide

theorem not_shown_mark : ¬ Shown '\ufeff' := by
  decide

theorem shown_of_graphic {c : Char} (h : Quoted.Graphic c) : Shown c := by
  obtain ⟨hlow, hhigh⟩ := h
  have hascii : 0x20 ≤ c.toNat ∧ c.toNat ≤ 0x7E := by omega
  exact .inl (by simp [Presentation.isPrintable, hascii])

theorem shown_spaces (n : Nat) : ∀ x ∈ List.replicate n ' ', Shown x := by
  intro x hx
  rw [List.eq_of_mem_replicate hx]
  decide

theorem shown_of_hasSpecial {cs : List Char} (h : Presentation.hasSpecial cs = false) :
    ∀ x ∈ cs, Shown x := by
  intro x hx
  simp only [Presentation.hasSpecial, List.any_eq_false, Bool.and_eq_true, bne_iff_ne,
    Bool.not_eq_true', not_and, Bool.not_eq_false] at h
  by_cases htab : x = '\t'
  · exact .inr htab
  · exact .inl (h x hx htab)

theorem shown_folded {n : Nat} {put : Char → List Char} :
    ∀ {cs : List Char} {broken : Bool}, (∀ c ∈ cs, Shown c ∧ ∀ x ∈ put c, Shown x) →
      ∀ x ∈ folded n put broken cs, Shown x := by
  intro cs
  induction cs with
  | nil => exact fun _ _ hx => absurd hx List.not_mem_nil
  | cons c cs ih =>
    intro broken h
    rw [List.forall_mem_cons] at h
    rw [folded]
    split
    · rw [List.forall_mem_cons]
      exact ⟨h.1.1, ih h.2⟩
    · simp only [List.forall_mem_append]
      refine ⟨?_, h.1.2, ih h.2⟩
      cases broken
      · exact fun _ hx => absurd hx List.not_mem_nil
      · exact shown_spaces n

theorem shown_doubleQuoted (cs : List Char) : ∀ x ∈ Presentation.doubleQuoted cs, Shown x := by
  intro x hx
  obtain ⟨c, _, hx⟩ := List.mem_flatMap.1 hx
  split at hx
  · -- an escape starts with a backslash, so it is not the character itself
    have hhead : (Presentation.escape c).head? = some '\\' := rfl
    rcases Quoted.spells_escape c with ⟨hself, _, _, hne⟩ | ⟨e, hescape, he⟩
    · rw [hself] at hhead
      exact absurd (by simpa using hhead) hne
    · rw [hescape] at hx
      rcases List.mem_cons.1 hx with rfl | hx
      · decide
      · exact shown_of_graphic (he.graphic x hx)
  · rename_i hc
    simp only [Bool.or_eq_true, Bool.not_eq_true', not_or, Bool.not_eq_false] at hc
    rw [List.mem_singleton.1 hx]
    exact .inl hc.1.1.1.2

theorem shown_literalHints (cs : List Char) : ∀ x ∈ Printer.literalHints 2 cs, Shown x := by
  rw [Printer.literalHints, List.forall_mem_append]
  constructor
  · split <;> exact List.all_iff_forall_prop.1 (by decide)
  · split
    · exact List.all_iff_forall_prop.1 (by decide)
    · split_ifs <;> exact List.all_iff_forall_prop.1 (by decide)

theorem shown_scalarText {cs : List Char} {simpleKey : Bool} {style : ScalarStyle}
    (h : HasStyle cs simpleKey style) (n : Nat) : ∀ x ∈ scalarText n style cs, Shown x := by
  have hsingle : Presentation.singleAllowed cs = true → ∀ x ∈ cs, Shown x := by
    intro hsingle
    simp only [Presentation.singleAllowed, Bool.not_eq_true', Bool.or_eq_false_iff] at hsingle
    exact shown_of_hasSpecial hsingle.2
  cases h with
  | plain hne hplain =>
    obtain ⟨c, cs, rfl⟩ := List.exists_cons_of_ne_nil hne
    simp only [Presentation.plainAllowed, Bool.and_eq_true] at hplain
    exact hsingle hplain.1.1.1.1.1.1
  | singleQuoted hallowed _ _ =>
    have hput : ∀ c ∈ cs, Shown c ∧ ∀ x ∈ quoteChar c, Shown x := by
      intro c hc
      refine ⟨hsingle hallowed c hc, ?_⟩
      unfold quoteChar
      split
      · exact List.all_iff_forall_prop.1 (by decide)
      · simpa using hsingle hallowed c hc
    simp only [scalarText, List.forall_mem_cons, List.forall_mem_append]
    exact ⟨by decide, shown_folded hput, by decide, List.forall_mem_nil _⟩
  | doubleQuoted =>
    simp only [scalarText, List.forall_mem_cons, List.forall_mem_append]
    exact ⟨by decide, shown_doubleQuoted cs, by decide, List.forall_mem_nil _⟩
  | literal _ _ hblock =>
    have hshown : ∀ c ∈ cs, Shown c := by
      simp only [Presentation.blockAllowed, Bool.and_eq_true, Bool.not_eq_true'] at hblock
      exact shown_of_hasSpecial hblock.2
    simp only [scalarText, List.forall_mem_cons, List.forall_mem_append]
    exact ⟨by decide, shown_literalHints cs, by decide, shown_spaces n,
      shown_folded fun c hc => ⟨hshown c hc, by simpa using hshown c hc⟩⟩

theorem shown_scalarLine {cs : List Char} {simpleKey : Bool} {style : ScalarStyle}
    (h : HasStyle cs simpleKey style) (n : Nat) : ∀ x ∈ scalarLine n style cs, Shown x := by
  rw [scalarLine, List.forall_mem_append]
  refine ⟨shown_scalarText h n, ?_⟩
  unfold lineEnd
  split <;> exact List.all_iff_forall_prop.1 (by decide)

theorem shown_keyText (level : Nat) (key : String) (opens : Bool) :
    ∀ x ∈ keyText level key opens, Shown x := by
  unfold keyText
  split
  · simp only [List.forall_mem_append, List.forall_mem_cons]
    refine ⟨shown_scalarText (hasStyle_textStyle key true) _, by decide, ?_⟩
    split
    · rw [List.forall_mem_cons]
      exact ⟨by decide, shown_spaces _⟩
    · exact List.all_iff_forall_prop.1 (by decide)
  · simp only [List.forall_mem_append, List.forall_mem_cons]
    exact ⟨by decide, by decide, shown_scalarLine (hasStyle_textStyle key false) _, shown_spaces _,
      by decide, by decide, List.forall_mem_nil _⟩

mutual

theorem shown_blockText (j : Json) (level : Nat) (hfinite : j.unsupported? = none) :
    ∀ x ∈ blockText level j, Shown x := by
  have hscalar : depth j = 0 → ∀ x ∈ blockText level j, Shown x := by
    intro hdepth
    rcases isWord_blockText level hdepth hfinite with ⟨w, htext, hw, _⟩ | ⟨str, rfl⟩
    · rw [htext, List.forall_mem_append]
      exact ⟨fun x hx => .inl (isPrintable_of_isWordChar (hw.chars x hx)),
        List.all_iff_forall_prop.1 (by decide)⟩
    · exact shown_scalarLine (hasStyle_textStyle str false) _
  cases j with
  | array items =>
    cases items with
    | nil =>
      rw [blockText]
      exact List.all_iff_forall_prop.1 (by decide)
    | cons item items =>
      simp only [unsupported?, unsupportedItem?, Option.or_eq_none_iff] at hfinite
      simp only [blockText, List.forall_mem_cons, List.forall_mem_append]
      exact ⟨by decide, by decide, shown_blockText item _ hfinite.1, shown_itemsText items _ hfinite.2⟩
  | object members =>
    rcases members with _ | ⟨⟨key, value⟩, members⟩
    · rw [blockText]
      exact List.all_iff_forall_prop.1 (by decide)
    · simp only [unsupported?, unsupportedMember?, Option.or_eq_none_iff] at hfinite
      simp only [blockText, List.forall_mem_append]
      exact ⟨shown_keyText _ _ _, shown_blockText value _ hfinite.1,
        shown_membersText members _ hfinite.2⟩
  | _ => exact hscalar rfl

theorem shown_itemsText (items : List Json) (level : Nat) (hfinite : unsupportedItem? items = none) :
    ∀ x ∈ itemsText level items, Shown x := by
  cases items with
  | nil => exact fun _ hx => absurd hx List.not_mem_nil
  | cons item items =>
    simp only [unsupportedItem?, Option.or_eq_none_iff] at hfinite
    simp only [itemsText, List.forall_mem_cons, List.forall_mem_append]
    exact ⟨shown_spaces _, by decide, by decide, shown_blockText item _ hfinite.1,
      shown_itemsText items _ hfinite.2⟩

theorem shown_membersText (members : List (String × Json)) (level : Nat)
    (hfinite : unsupportedMember? members = none) : ∀ x ∈ membersText level members, Shown x := by
  rcases members with _ | ⟨⟨key, value⟩, members⟩
  · exact fun _ hx => absurd hx List.not_mem_nil
  · simp only [unsupportedMember?, Option.or_eq_none_iff] at hfinite
    simp only [membersText, List.forall_mem_append]
    exact ⟨shown_spaces _, shown_keyText _ _ _, shown_blockText value _ hfinite.1,
      shown_membersText members _ hfinite.2⟩

end

end StackIr.Json
