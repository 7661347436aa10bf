import StackIr.Proofs.Json.Scanning

/-! # Reading JSON text

    The indented text of a document is one that is read as what it says, so reading it gives
    the tokens of the document's shape. -/

namespace StackIr.Json

open Yaml Yaml.Scanner

/-! ## Strings -/

theorem ne_next_of_legibleChar {c : Char} (h : legibleChar c = true) : c.toNat ≠ 0x85 := by
  simp only [legibleChar, Bool.or_eq_true, Bool.and_eq_true, decide_eq_true_eq, bne_iff_ne] at h
  omega

theorem legibleChar_of_mem {str : String} (h : legibleText str = true) :
    ∀ c ∈ str.toList, legibleChar c = true := by
  simp only [legibleText, Bool.and_eq_true, List.all_eq_true] at h
  exact h.1.1

/-- A control character is escaped. -/
theorem head_escapeChar {c : Char} (h : c.toNat < 0x20) : (escapeChar .safe c).head? = some '\\' := by
  unfold escapeChar
  split_ifs <;> rfl

theorem spells_of_legible {str : String} (h : legibleText str = true) :
    ∀ c ∈ str.toList, Quoted.Spells (escapeChar .safe c) c :=
  fun c hc => Quoted.spells_escapeChar .safe (ne_next_of_legibleChar (legibleChar_of_mem h c hc))

/-- What is written for a legible text is a single line. -/
theorem not_break_of_legible {str : String} (h : legibleText str = true) :
    ∀ x ∈ str.toList.flatMap (escapeChar .safe), isBreak x = false := by
  intro x hx
  obtain ⟨c, hc, hxc⟩ := List.mem_flatMap.1 hx
  exact (spells_of_legible h c hc).not_break x hxc

/-- A legible text is spelled by its escapes. -/
theorem spelled_escapeChar {str : String} (h : legibleText str = true) :
    Spelled str.toList (str.toList.flatMap (escapeChar .safe)) := by
  have hchars := legibleChar_of_mem h
  have hspelled : Spelled (str.toList.map id) (str.toList.flatMap (escapeChar .safe)) := by
    refine spelled_of_pieces (fun c hc => .inl (spells_of_legible h c hc))
      (Quoted.keepsSeparators_of_not_break (not_break_of_legible h)) ?_
    intro c hc hself
    -- Written as itself, so it is no control character.
    have hlow : 0x20 ≤ c.toNat := by
      by_contra hlow
      have hhead := head_escapeChar (Nat.lt_of_not_le hlow)
      rw [hself] at hhead
      obtain rfl : c = '\\' := by simpa using hhead
      exact hlow (by decide)
    have hlegible := hchars c hc
    simp only [legibleChar, Bool.or_eq_true, Bool.and_eq_true, decide_eq_true_eq] at hlegible
    exact (hlegible.resolve_left (by omega)).1
  rwa [List.map_id] at hspelled

theorem isKey_escapeChar {key : String} (h : legibleKey key = true) :
    IsKey key.toList (key.toList.flatMap (escapeChar .safe)) [] := by
  simp only [legibleKey, Bool.and_eq_true, decide_eq_true_eq] at h
  exact ⟨spelled_escapeChar h.1, not_break_of_legible h.1, nofun, h.2⟩

/-! ## Values -/

/-- What a value that is no array or object is written as, if it has no quotes. -/
theorem isWord_indented {j : Json} (level : Nat) (hdepth : depth j = 0)
    (hfinite : j.unsupported? = none) :
    (∃ w, indented .safe level j = w ∧ IsWord w ∧ shape j = .word w) ∨ ∃ str, j = .string str := by
  cases j with
  | null => exact .inl ⟨_, rfl, isWord_null, rfl⟩
  | bool b =>
    refine .inl ⟨_, ?_, isWord_bool b, rfl⟩
    cases b <;> rfl
  | int i => exact .inl ⟨_, rfl, isWord_intText i, rfl⟩
  | float x =>
    have hx : x.isFinite = true := by
      simpa [unsupported?] using hfinite
    exact .inl ⟨_, rfl, isWord_render hx, rfl⟩
  | string str => exact .inr ⟨str, rfl⟩
  | array items => simp [depth] at hdepth
  | object members => simp [depth] at hdepth

theorem isWhitespace_newLine (level : Nat) : ∀ x ∈ newLine level, isWhitespace x = true := by
  rw [newLine, List.forall_mem_cons]
  refine ⟨rfl, fun x hx => ?_⟩
  rw [List.eq_of_mem_replicate hx]
  rfl

theorem written_scalar {j : Json} (level : Nat) (hdepth : depth j = 0) (hlegible : legible j = true)
    (hfinite : j.unsupported? = none) : Written (indented .safe level j) (shape j) := by
  rcases isWord_indented level hdepth hfinite with ⟨w, hw, hword, hshape⟩ | ⟨str, rfl⟩
  · rw [hw, hshape]
    exact .word hword
  · have hwritten := Written.string (spelled_escapeChar hlegible)
    rwa [String.ofList_toList] at hwritten

/-- An item on a line of its own. -/
theorem WrittenItems.line (first : Bool) (level : Nat) {text rest : List Char} {item : Shape}
    {items : List Shape} (hitem : Written text item) (hrest : WrittenItems false rest items) :
    WrittenItems first ((if first then [] else [',']) ++ (newLine level ++ (text ++ rest)))
      (item :: items) :=
  @WrittenItems.cons first (newLine level) text [] rest item items (isWhitespace_newLine level) hitem
    nofun hrest

/-- A member on a line of its own. -/
theorem WrittenMembers.line (first : Bool) (level : Nat) {key : String} {text rest : List Char}
    {value : Shape} {members : List (String × Shape)} (hkey : legibleKey key = true)
    (hvalue : Written text value) (hrest : WrittenMembers false rest members) :
    WrittenMembers first ((if first then [] else [',']) ++ (newLine level ++ (stringText .safe key ++
      ':' :: ' ' :: (text ++ rest)))) ((key, value) :: members) := by
  have hmember := @WrittenMembers.cons first (newLine level) key.toList _ [] [' '] text [] rest value
    members (isWhitespace_newLine level) (isKey_escapeChar hkey)
    (List.all_iff_forall_prop.1 (by decide)) hvalue
    nofun hrest
  rwa [String.ofList_toList] at hmember

mutual

/-- Indented text is read as what it says. -/
theorem written_indented (j : Json) (level : Nat) (hlegible : legible j = true)
    (hfinite : j.unsupported? = none) : Written (indented .safe level j) (shape j) := by
  match j with
  | .null => exact written_scalar level rfl rfl rfl
  | .bool b => exact written_scalar level rfl rfl rfl
  | .int i => exact written_scalar level rfl rfl rfl
  | .float x => exact written_scalar level rfl rfl hfinite
  | .string str => exact written_scalar level rfl hlegible rfl
  | .array [] => exact .array (@WrittenItems.nil true [] (List.forall_mem_nil _))
  | .array (item :: items) =>
    simp only [legible, legibleItems, Bool.and_eq_true] at hlegible
    simp only [unsupported?, unsupportedItem?, Option.or_eq_none_iff] at hfinite
    have hitem := written_indented item (level + 1) hlegible.1 hfinite.1
    have hitems := written_indentedItems items level hlegible.2 hfinite.2
    have harray := Written.array (.line true (level + 1) hitem hitems)
    simpa [indented, shape, shapeItems] using harray
  | .object [] => exact .object (@WrittenMembers.nil true [] (List.forall_mem_nil _))
  | .object ((key, value) :: members) =>
    simp only [legible, legibleMembers, Bool.and_eq_true] at hlegible
    simp only [unsupported?, unsupportedMember?, Option.or_eq_none_iff] at hfinite
    have hvalue := written_indented value (level + 1) hlegible.1.2 hfinite.1
    have hmembers := written_indentedMembers members level hlegible.2 hfinite.2
    have hobject := Written.object (.line true (level + 1) hlegible.1.1 hvalue hmembers)
    simpa [indented, shape, shapeMembers] using hobject

theorem written_indentedItems (items : List Json) (level : Nat) (hlegible : legibleItems items = true)
    (hfinite : unsupportedItem? items = none) :
    WrittenItems false (indentedItems .safe (level + 1) items ++ newLine level) (shapeItems items) := by
  match items with
  | [] => exact .nil (isWhitespace_newLine level)
  | item :: items =>
    simp only [legibleItems, Bool.and_eq_true] at hlegible
    simp only [unsupportedItem?, Option.or_eq_none_iff] at hfinite
    have hitem := written_indented item (level + 1) hlegible.1 hfinite.1
    have hitems := written_indentedItems items level hlegible.2 hfinite.2
    simpa [indentedItems, shapeItems] using WrittenItems.line false (level + 1) hitem hitems

theorem written_indentedMembers (members : List (String × Json)) (level : Nat)
    (hlegible : legibleMembers members = true) (hfinite : unsupportedMember? members = none) :
    WrittenMembers false (indentedMembers .safe (level + 1) members ++ newLine level)
      (shapeMembers members) := by
  match members with
  | [] => exact .nil (isWhitespace_newLine level)
  | (key, value) :: members =>
    simp only [legibleMembers, Bool.and_eq_true] at hlegible
    simp only [unsupportedMember?, Option.or_eq_none_iff] at hfinite
    have hvalue := written_indented value (level + 1) hlegible.1.2 hfinite.1
    have hmembers := written_indentedMembers members level hlegible.2 hfinite.2
    simpa [indentedMembers, shapeMembers] using
      WrittenMembers.line false (level + 1) hlegible.1.1 hvalue hmembers

end

mutual

@[simp] theorem depth_shape (j : Json) : (shape j).depth = depth j := by
  match j with
  | .null | .bool _ | .int _ | .float _ | .string _ => rfl
  | .array items => exact congrArg (· + 1) (itemsDepth_shapeItems items)
  | .object members => exact congrArg (· + 1) (membersDepth_shapeMembers members)

@[simp] theorem itemsDepth_shapeItems (items : List Json) :
    Shape.itemsDepth (shapeItems items) = itemsDepth items := by
  match items with
  | [] => rfl
  | item :: items => exact congrArg₂ max (depth_shape item) (itemsDepth_shapeItems items)

@[simp] theorem membersDepth_shapeMembers (members : List (String × Json)) :
    Shape.membersDepth (shapeMembers members) = membersDepth members := by
  match members with
  | [] => rfl
  | (_, value) :: members => exact congrArg₂ max (depth_shape value) (membersDepth_shapeMembers members)

end

end StackIr.Json
