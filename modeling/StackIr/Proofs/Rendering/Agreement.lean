import StackIr.Command.Translate
import StackIr.Proofs.Failure
import StackIr.Proofs.Rendering.Block
import StackIr.Proofs.Rendering.Characters
import StackIr.Proofs.Yaml.Input

/-! # Both renderings say the same

    A representation is written as JSON, and as YAML by reading the JSON text and writing it
    in block style.  For a legible representation both texts are read as documents that say
    the same. -/

namespace StackIr

namespace Json

open Yaml Yaml.Scanner Text

variable {j : Json}

/-- JSON text is read as a document that says what it says. -/
theorem ofBytes?_indented {gap : List Char} (hcollection : 0 < depth j) (hlegible : legible j = true)
    (hfinite : j.unsupported? = none) (hdepth : depth j ≤ depthLimit)
    (hgap : gap = [] ∨ gap = ['\n']) :
    ∃ d, Document.ofBytes? (Utf8.encode (String.ofList (indented .safe 0 j ++ gap))) = .ok (some d) ∧
      SaysDocument d j := by
  have hafter : isPassable false true gap = true := by
    rcases hgap with rfl | rfl <;> rfl
  have hscanned : Scanned (Input.ofBytes (Utf8.encode (String.ofList ([] ++ (indented .safe 0 j ++ gap)))))
      (shape j) := (written_indented j 0 hlegible hfinite).scan (by rwa [depth_shape]) rfl hafter
  rcases hscanned.ofInput? with ⟨-, node, hdocument, htells⟩ | ⟨hdeep, -⟩
  · exact ⟨{ root := node }, hdocument, says_of_tells j htells hfinite, rfl, rfl⟩
  · rw [depth_shape] at hdeep
    omega

/-- Text in block style is read as a document that says what it says. -/
theorem ofBytes?_blockText (hopens : opensBlock j = true) (hlegible : legible j = true)
    (hfinite : j.unsupported? = none) (hdepth : depth j ≤ depthLimit) :
    ∃ d, Document.ofBytes? (Utf8.encode (String.ofList (blockText 0 j))) = .ok (some d) ∧
      SaysDocument d j := by
  have hshown := shown_blockText j 0 hfinite
  have hmark : (blockText 0 j).head? ≠ some '\ufeff' := by
    intro hhead
    exact not_shown_mark (hshown _ (List.mem_of_head? hhead))
  obtain ⟨n, hinput⟩ := Input.ofBytes_encode (fun c hc => (hshown c hc).isAllowed) hmark
  have hscan := scan_blockText hopens hlegible hfinite hdepth (congrArg Input.fault hinput)
    (congrArg Input.characters hinput) (by rwa [hinput])
  obtain ⟨node, hdocument, hsays⟩ := Build.ofInput?_root hscan (opens_blockKinds j)
    fun r rest fuel h hfuel => readNode_block j rest fuel false h hlegible hfinite hfuel
  exact ⟨{ root := node }, hdocument, hsays, rfl, rfl⟩

/-- A document that was read is written in block style. -/
theorem reformat_says {bytes : List UInt8} {d : Document}
    (hread : Document.ofBytes? bytes = .ok (some d)) (hmeans : SaysDocument d j)
    (hopens : opensBlock j = true) (hlegible : legible j = true) (hfinite : j.unsupported? = none) :
    Yaml.reformat 2 bytes = .ok (String.ofList (blockText 0 j)) := by
  rw [← render_says hmeans hopens hlegible hfinite]
  unfold Yaml.reformat
  generalize Document.ofBytes? bytes = result at hread ⊢
  subst hread
  rfl

end Json

/-! ## Refusals -/

namespace Json

@[simp] theorem unsupportedMember?_append (members more : List (String × Json)) :
    unsupportedMember? (members ++ more) =
      (unsupportedMember? members).or (unsupportedMember? more) := by
  induction members with
  | nil => rfl
  | cons member members ih =>
    rw [List.cons_append, unsupportedMember?, unsupportedMember?, ih, Option.or_assoc]

@[simp] theorem membersDepth_append (members more : List (String × Json)) :
    membersDepth (members ++ more) = max (membersDepth members) (membersDepth more) := by
  induction members with
  | nil => rw [List.nil_append, membersDepth, Nat.zero_max]
  | cons member members ih =>
    rw [List.cons_append, membersDepth, membersDepth, ih, Nat.max_assoc]

@[simp] theorem unsupportedMember?_textMember (key s : String) :
    unsupportedMember? (textMember key s) = none := by
  unfold textMember
  split <;> rfl

@[simp] theorem membersDepth_textMember (key s : String) :
    membersDepth (textMember key s) = 0 := by
  unfold textMember
  split <;> rfl

section arrays

variable {α : Type} {f : α → Json}

theorem unsupportedItem?_map_eq_none_iff {items : List α} :
    unsupportedItem? (items.map f) = none ↔ ∀ a ∈ items, (f a).unsupported? = none := by
  induction items with
  | nil => simp [unsupportedItem?]
  | cons a items ih =>
    rw [List.map_cons, unsupportedItem?, Option.or_eq_none_iff, ih, List.forall_mem_cons]

theorem unsupported?_arrayOrNull_eq_none_iff {items : Option (List α)} :
    (arrayOrNull f items).unsupported? = none ↔
      ∀ a ∈ items.getD [], (f a).unsupported? = none := by
  cases items with
  | none => simp [arrayOrNull, unsupported?]
  | some items => exact unsupportedItem?_map_eq_none_iff

theorem depth_lt_arrayOrNull {items : Option (List α)} {a : α} (h : a ∈ items.getD []) :
    (f a).depth < (arrayOrNull f items).depth := by
  cases items with
  | none => cases h
  | some items =>
    show _ < itemsDepth (items.map f) + 1
    rw [Option.getD_some] at h
    refine Nat.lt_succ_of_le ?_
    induction items with
    | nil => cases h
    | cons first items ih =>
      rw [List.map_cons, itemsDepth]
      rcases List.mem_cons.1 h with rfl | hrest
      · exact Nat.le_max_left ..
      · exact Nat.le_trans (ih hrest) (Nat.le_max_right ..)

end arrays

end Json

namespace Ir

open Json

/-- An output whose expressions are encoded on their own is refused as if it were encoded at
    once: around an expression is only the output itself. -/
@[simp] theorem OutputInstruction.refusal?_eq_none_iff (o : OutputInstruction) :
    o.refusal? = none ↔ o.toJson.unsupported? = none ∧ o.toJson.depth ≤ levelLimit + 1 := by
  obtain ⟨name, description, condition, exported, value⟩ := o
  rw [refusal?, Option.or_eq_none_iff]
  cases exported with
  | none =>
    cases value with
    | none =>
      simp [toJson, unsupported?, depth, unsupportedMember?, membersDepth]
    | some e =>
      simp [toJson, unsupported?, depth, unsupportedMember?, membersDepth, Expr.refusal?]
  | some exported =>
    cases value with
    | none =>
      simp [toJson, unsupported?, depth, unsupportedMember?, membersDepth, Expr.refusal?]
    | some e =>
      simp [toJson, unsupported?, depth, unsupportedMember?, membersDepth, Expr.refusal?]
      exact and_and_and_comm

/-- The numbers of a representation are those of its outputs and of the rest. -/
theorem unsupported?_toJson_eq_none_iff (ir : Ir) :
    ir.toJson.unsupported? = none ↔ { ir with outputs := none }.toJson.unsupported? = none ∧
      ∀ o ∈ ir.outputs.getD [], o.toJson.unsupported? = none := by
  rw [← unsupported?_arrayOrNull_eq_none_iff]
  simp only [toJson, unsupported?, unsupportedMember?_append, unsupportedMember?,
    unsupportedMember?_textMember, Option.or_eq_none_iff, arrayOrNull]
  tauto

theorem depth_toJson_of_mem {ir : Ir} {o : OutputInstruction} (h : o ∈ ir.outputs.getD []) :
    o.toJson.depth + 2 ≤ ir.toJson.depth := by
  have hsection := depth_lt_arrayOrNull (f := OutputInstruction.toJson) h
  simp only [toJson, depth, membersDepth_append, membersDepth]
  omega

theorem refusal?_eq_none_iff (ir : Ir) (hdepth : ir.toJson.depth ≤ levelLimit) :
    ir.refusal? = none ↔ ir.toJson.unsupported? = none := by
  rw [refusal?, Option.or_eq_none_iff, numberRefusal?_eq_none_iff, List.findSome?_eq_none_iff,
    unsupported?_toJson_eq_none_iff ir]
  refine and_congr_right fun _ => forall₂_congr fun o ho => ?_
  have := depth_toJson_of_mem ho
  rw [o.refusal?_eq_none_iff, and_iff_left (by omega)]

end Ir

namespace Command

open Json Yaml Text

@[simp] theorem opensBlock_toJson (ir : Ir) : opensBlock ir.toJson = true := by
  unfold Ir.toJson textMember
  split <;> rfl

theorem encodeIndented_eq_ok_iff {ir : Ir} {text : String} :
    ir.encodeIndented = .ok text ↔
      (ir.toJson.unsupported? = none ∧ ir.toJson.depth ≤ levelLimit) ∧
        text = String.ofList (indented .safe 0 ir.toJson) := by
  rw [Ir.encodeIndented, mapError_eq_ok_iff, textUnless_eq_ok_iff, Option.or_eq_none_iff,
    tooDeep?_eq_none_iff]
  refine and_congr_left fun _ => and_congr_left fun hdepth => ?_
  exact ir.refusal?_eq_none_iff hdepth

/-- A representation has a JSON text if all its numbers are finite and it is not too deep. -/
theorem encode_json_eq_ok_iff {ir : Ir} {json : String} :
    Format.encode .json ir = .ok json ↔
      (ir.toJson.unsupported? = none ∧ ir.toJson.depth ≤ levelLimit) ∧
        json = String.ofList (indented .safe 0 ir.toJson ++ ['\n']) := by
  rw [String.ofList_append, Format.encode, bind_eq_ok_iff]
  constructor
  · rintro ⟨text, htext, heq⟩
    obtain ⟨hfits, rfl⟩ := encodeIndented_eq_ok_iff.1 htext
    exact ⟨hfits, (pure_eq_ok_iff.1 heq).symm⟩
  · rintro ⟨hfits, rfl⟩
    exact ⟨_, encodeIndented_eq_ok_iff.2 ⟨hfits, rfl⟩, rfl⟩

/-- If a legible representation has a JSON text then it has a YAML text too, and both are read
    as documents that say the representation. -/
theorem Format.encode_yaml_says {ir : Ir} {json : String} (h : Format.encode .json ir = .ok json)
    (hlegible : ir.toJson.legible = true) :
    ∃ yaml, Format.encode .yaml ir = .ok yaml ∧
      (∃ d, Document.ofBytes? (Utf8.encode json) = .ok (some d) ∧ SaysDocument d ir.toJson) ∧
      ∃ d, Document.ofBytes? (Utf8.encode yaml) = .ok (some d) ∧ SaysDocument d ir.toJson := by
  obtain ⟨⟨hfinite, hdepth⟩, rfl⟩ := encode_json_eq_ok_iff.1 h
  have hopens := opensBlock_toJson ir
  have hcollection := depth_pos_of_opensBlock hopens
  -- The YAML text is made from the document that the JSON text is read as.
  obtain ⟨d, hread, hmeans⟩ := ofBytes?_indented hcollection hlegible hfinite hdepth (.inl rfl)
  rw [List.append_nil] at hread
  have hyaml : Format.encode .yaml ir = .ok (String.ofList (blockText 0 ir.toJson)) := by
    rw [Format.encode, encodeIndented_eq_ok_iff.2 ⟨⟨hfinite, hdepth⟩, rfl⟩]
    exact reformat_says hread hmeans hopens hlegible hfinite
  exact ⟨_, hyaml, ofBytes?_indented hcollection hlegible hfinite hdepth (.inr rfl),
    ofBytes?_blockText hopens hlegible hfinite hdepth⟩

/-- Texts in every style: a literal block, an escape, quotes, words that look like something
    else, and a key on lines of its own. -/
def manyStyles : Ir where
  description := "first\n\n  second\n\n"
  conditions := some [⟨"null", .object [
    ("", .string "a\rb"), ("1", .list [.string "it's: so", .prim (.int (-7)), .list []]),
    ("two\nlines", .object [("key", .object [])])]⟩]

theorem Format.encode_yaml_says_manyStyles :
    (∃ json yaml, Format.encode .json manyStyles = .ok json ∧ Format.encode .yaml manyStyles = .ok yaml ∧
      (∃ d, Document.ofBytes? (Utf8.encode json) = .ok (some d) ∧ SaysDocument d manyStyles.toJson) ∧
      ∃ d, Document.ofBytes? (Utf8.encode yaml) = .ok (some d) ∧ SaysDocument d manyStyles.toJson) ∧
    ((Format.encode .json { description := "a\x7fb" }).toOption.isSome = true ∧
      (Format.encode .yaml { description := "a\x7fb" }).toOption = none) := by
  refine ⟨?_, by decide +kernel, by decide +kernel⟩
  have hjson : Format.encode .json manyStyles = .ok _ :=
    encode_json_eq_ok_iff.2 ⟨⟨by decide +kernel, by decide +kernel⟩, rfl⟩
  obtain ⟨yaml, hyaml, hread⟩ := Format.encode_yaml_says hjson (by decide +kernel)
  exact ⟨_, yaml, hjson, hyaml, hread⟩

end Command

end StackIr
