import StackIr.Proofs.Decoding.Ends
import StackIr.Proofs.Text.Cut

/-! # Functions written as tags

    A tag that stands for a function is short for a mapping with one entry, from the name of
    the function to the node without the tag.  `expand` writes this mapping out wherever such a
    tag is used, also in the lists and mappings that aliases inside them refer to, and decoding
    does not see the difference.

    Two things are left to say.  A key is only its text, so the tag of a key that is a scalar
    means nothing.  And a tagged attribute reference has to have a point, which its long form
    need not have. -/

namespace StackIr.Template

open Yaml (Node Header Scope)

/-! ## The tags -/

theorem longForm?_getAtt_iff {tag : String} : longForm? tag = some "Fn::GetAtt" ↔ tag = "!GetAtt" := by
  constructor
  · intro h
    obtain ⟨before, after, hsplit, -⟩ := List.lookup_eq_some_iff.1 h
    have hmem : (tag, "Fn::GetAtt") ∈ shortForms := by
      rw [hsplit]
      simp
    simpa [shortForms] using hmem
  · rintro rfl
    decide

/-- The tags that nodes have anyway stand for no function. -/
theorem longForm?_implied :
    longForm? "!!str" = none ∧ longForm? "!!seq" = none ∧ longForm? "!!map" = none := by
  decide

/-! ## Long forms -/

/-- A node that something of a tagged node is moved to: it has no anchor and no comments. -/
def bareHeader (h : Header) (tag : String) : Header :=
  { line := h.line, anchor := none, tag := tag }

/-- A mapping from the name of a function to its argument, in place of a node. -/
def call (h : Header) (fn : String) (arg : Node) : Node :=
  .mapping (bareHeader h "!!map") [(.scalar (bareHeader h "!!str") fn, arg)]

/-- The argument that a tagged scalar stands for: its text, and for an attribute reference
    the two sides of the first point. -/
def scalarArgument (h : Header) (fn text : String) : Node :=
  let whole : Node := .scalar { h with tag := "!!str" } text
  if fn = "Fn::GetAtt" then
    match Text.cut? "." text with
    | some (resource, attr) =>
      .sequence { h with tag := "!!seq" }
        [.scalar (bareHeader h "!!str") resource, .scalar (bareHeader h "!!str") attr]
    | none => whole
  else whole

def isScalar : Node → Bool
  | .scalar .. => true
  | _ => false

mutual

/-- A node with every tag that stands for a function written out.  Keys that are scalars are
    left as they are unless `keys` holds. -/
def expand (keys : Bool) : Node → Node
  | .scalar h text =>
    match longForm? h.tag with
    | some fn => call h fn (scalarArgument h fn text)
    | none => .scalar h text
  | .sequence h items =>
    match longForm? h.tag with
    | some fn => call h fn (.sequence { h with tag := "!!seq" } (expandItems keys items))
    | none => .sequence h (expandItems keys items)
  | .mapping h entries =>
    match longForm? h.tag with
    | some fn => call h fn (.mapping { h with tag := "!!map" } (expandEntries keys entries))
    | none => .mapping h (expandEntries keys entries)
  | .alias line name comments target => .alias line name comments (expand keys target)
  | .selfAlias line name comments number => .selfAlias line name comments number

def expandItems (keys : Bool) : List Node → List Node
  | [] => []
  | n :: ns => expand keys n :: expandItems keys ns

def expandEntries (keys : Bool) : List (Node × Node) → List (Node × Node)
  | [] => []
  | (key, n) :: rest =>
    (if isScalar key && !keys then key else expand keys key, expand keys n) ::
      expandEntries keys rest

end

/-- Only the text of a scalar can get lost when a tag is written out. -/
theorem text_expand {key : Node} (hkey : isScalar key = false) (keys : Bool) :
    (expand keys key).text = key.text := by
  match key with
  | .scalar h text => cases hkey
  | .sequence h items =>
    unfold expand
    split
    · rfl
    · rfl
  | .mapping h entries =>
    unfold expand
    split
    · rfl
    · rfl
  | .alias line name comments target => rw [expand, Node.text, Node.text]
  | .selfAlias line name comments number => rw [expand]

theorem isCollection_expand (keys : Bool) (n : Node) (hn : n.isCollection = true) :
    (expand keys n).isCollection = true := by
  match n with
  | .sequence h items =>
    unfold expand
    split
    · rfl
    · rfl
  | .mapping h entries =>
    unfold expand
    split
    · rfl
    · rfl

/-- A scope with every tag that stands for a function written out. -/
def expandScope (keys : Bool) : Scope → Scope :=
  mapNodes (isCollection_expand keys)

@[simp] theorem node_expandScope (keys : Bool) (scope : Scope) (number : Nat) :
    (expandScope keys scope).node number = expand keys (scope.node number) :=
  node_mapNodes (isCollection_expand keys) rfl scope number

/-! ## References without a point -/

/-- Decoding comes to a tagged attribute reference without a point. -/
def LacksPoint (scope : Scope) (n : Node) : Prop :=
  ∃ h text, Reached scope (.scalar h text) n ∧ h.tag = "!GetAtt" ∧ '.' ∉ text.toList

section reached

variable {scope : Scope}

theorem exists_error_of_item {enclosing : Nat → Except Stop Value} {items : List Node} {n : Node}
    (hmem : n ∈ items) (hn : ∃ stop, valueWith enclosing n = .error stop) :
    ∃ stop, itemsWith enclosing items = .error stop := by
  rw [itemsWith_eq_mapM]
  exact exists_mapM_eq_error hmem hn

theorem exists_error_of_value {enclosing : Nat → Except Stop Value} {entries : List (Node × Node)}
    {key n : Node} (hmem : (key, n) ∈ entries) (hn : ∃ stop, valueWith enclosing n = .error stop) :
    ∃ stop, fieldsWith enclosing entries = .error stop := by
  rw [fieldsWith_eq_mapM]
  refine exists_mapM_eq_error hmem ?_
  obtain ⟨stop, herror⟩ := hn
  exact ⟨stop, map_eq_error_iff.2 herror⟩

/-- What decoding comes to it does not pass over: if one node has no value, neither has the
    whole. -/
theorem Reached.exists_error {m n : Node} (h : Reached scope m n)
    (hm : ∃ stop, decodeValue scope m = .error stop) :
    ∃ stop, decodeValue scope n = .error stop := by
  induction h with
  | self => exact hm
  | item hmem _ ih =>
    obtain ⟨stop, herror⟩ := exists_error_of_item hmem ih
    exact ⟨stop, by rw [decodeValue, valueWith, herror]; rfl⟩
  | value hmem _ ih =>
    obtain ⟨stop, herror⟩ := exists_error_of_value hmem ih
    exact ⟨stop, by rw [decodeValue, valueWith, herror]; rfl⟩
  | target _ ih =>
    rw [decodeValue, valueWith]
    exact ih
  | enclosing _ ih =>
    rw [decodeValue_selfAlias]
    exact ih

theorem LacksPoint.exists_error {n : Node} (h : LacksPoint scope n) :
    ∃ stop, decodeValue scope n = .error stop := by
  obtain ⟨header, text, hreached, htag, hpoint⟩ := h
  refine hreached.exists_error ⟨faultAt (.scalar header text) (.attributeWithoutPoint text), ?_⟩
  have hcut : Text.cut? "." text = none := (Text.cut?_eq_none_iff (c := '.') rfl).2 hpoint
  rw [decodeValue, valueWith, longForm?_getAtt_iff.2 htag]
  simp [shortScalar, hcut]

end reached

/-! ## Decoding long forms -/

section long

variable {scope : Scope} {enclosing enclosing' : Nat → Except Stop Value}

theorem valueWith_call (h : Header) (fn : String) (arg : Node) :
    valueWith enclosing (call h fn arg) =
      (valueWith enclosing arg).map fun v => .object [(fn, v)] := by
  rw [call, valueWith, fieldsWith, fieldsWith]
  cases valueWith enclosing arg with
  | error stop => rfl
  | ok v => rfl

theorem valueWith_scalarArgument {h : Header} {fn text : String} (htag : longForm? h.tag = some fn)
    (hpoint : ¬ LacksPoint scope (.scalar h text)) :
    (valueWith enclosing (scalarArgument h fn text)).map (fun v => Value.object [(fn, v)]) =
      shortScalar (.scalar h text) fn text := by
  -- without its tag the text is a string, whatever it looks like
  have hwhole : valueWith enclosing (.scalar { h with tag := "!!str" } text) =
      .ok (.string text) := by
    rw [valueWith, longForm?_implied.1]
    rfl
  unfold scalarArgument shortScalar
  split
  · rename_i hfn
    subst hfn
    cases hcut : Text.cut? "." text with
    | some sides => rfl
    | none =>
      have hmissing : '.' ∉ text.toList := (Text.cut?_eq_none_iff (c := '.') rfl).1 hcut
      exact absurd ⟨h, text, .self, longForm?_getAtt_iff.1 htag, hmissing⟩ hpoint
  · rw [hwhole]
    rfl

mutual

/-- Where every tagged attribute reference has a point, decoding does not see whether tags are
    written out, not even in its failures, if it does not in what encloses a node. -/
theorem valueWith_expand
    (henclosing : ∀ number, ¬ LacksPoint scope (scope.node number) →
      enclosing' number = enclosing number) (n : Node) (h : ¬ LacksPoint scope n) :
    valueWith enclosing' (expand false n) = valueWith enclosing n := by
  match n with
  | .scalar header text =>
    unfold expand
    cases htag : longForm? header.tag with
    | none =>
      dsimp only
      rw [valueWith, valueWith]
    | some fn =>
      dsimp only
      rw [valueWith_call, valueWith_scalarArgument htag h, valueWith, htag]
  | .sequence header items =>
    have hitems : itemsWith enclosing' (expandItems false items) = itemsWith enclosing items := by
      refine itemsWith_expand henclosing items ?_
      rintro n hmem ⟨header', text, hreached, hmissing⟩
      exact h ⟨header', text, .item hmem hreached, hmissing⟩
    unfold expand
    cases htag : longForm? header.tag with
    | none =>
      dsimp only
      rw [valueWith, valueWith, hitems]
    | some fn =>
      dsimp only
      rw [valueWith_call, valueWith, valueWith, hitems]
      cases itemsWith enclosing items with
      | error stop => rfl
      | ok vs => simp [Except.map, underTag, htag, longForm?_implied.2.1]
  | .mapping header entries =>
    have hfields : fieldsWith enclosing' (expandEntries false entries) =
        fieldsWith enclosing entries := by
      refine fieldsWith_expand henclosing entries ?_
      rintro key n hmem ⟨header', text, hreached, hmissing⟩
      exact h ⟨header', text, .value hmem hreached, hmissing⟩
    unfold expand
    cases htag : longForm? header.tag with
    | none =>
      dsimp only
      rw [valueWith, valueWith, hfields]
    | some fn =>
      dsimp only
      rw [valueWith_call, valueWith, valueWith, hfields]
      cases fieldsWith enclosing entries with
      | error stop => rfl
      | ok fields => simp [Except.map, underTag, htag, longForm?_implied.2.2]
  | .alias line name comments target =>
    rw [expand, valueWith, valueWith]
    refine valueWith_expand henclosing target ?_
    rintro ⟨header, text, hreached, hmissing⟩
    exact h ⟨header, text, .target hreached, hmissing⟩
  | .selfAlias line name comments number =>
    rw [expand, valueWith, valueWith]
    refine henclosing number ?_
    rintro ⟨header, text, hreached, hmissing⟩
    exact h ⟨header, text, .enclosing hreached, hmissing⟩

theorem itemsWith_expand
    (henclosing : ∀ number, ¬ LacksPoint scope (scope.node number) →
      enclosing' number = enclosing number) (items : List Node)
    (h : ∀ n ∈ items, ¬ LacksPoint scope n) :
    itemsWith enclosing' (expandItems false items) = itemsWith enclosing items := by
  match items with
  | [] => rfl
  | n :: ns =>
    obtain ⟨hn, hns⟩ := List.forall_mem_cons.1 h
    rw [expandItems, itemsWith, itemsWith, valueWith_expand henclosing n hn,
      itemsWith_expand henclosing ns hns]

theorem fieldsWith_expand
    (henclosing : ∀ number, ¬ LacksPoint scope (scope.node number) →
      enclosing' number = enclosing number) (entries : List (Node × Node))
    (h : ∀ key n, (key, n) ∈ entries → ¬ LacksPoint scope n) :
    fieldsWith enclosing' (expandEntries false entries) = fieldsWith enclosing entries := by
  match entries with
  | [] => rfl
  | (key, n) :: rest =>
    have hn : ¬ LacksPoint scope n := h key n (List.mem_cons_self ..)
    have hrest := fieldsWith_expand henclosing rest
      fun k m hmem => h k m (List.mem_cons_of_mem _ hmem)
    -- scalars are left alone, and the text of any other key is empty before and after
    have hkey : (if isScalar key && !false then key else expand false key).text = key.text := by
      cases hscalar : isScalar key with
      | true => rfl
      | false => exact text_expand hscalar false
    rw [expandEntries, fieldsWith, fieldsWith, valueWith_expand henclosing n hn, hrest, hkey]

end

theorem valueWithin_expand (depth number : Nat) (h : ¬ LacksPoint scope (scope.node number)) :
    valueWithin (expandScope false scope) depth number = valueWithin scope depth number := by
  induction depth generalizing number with
  | zero => rfl
  | succ depth ih =>
    rw [valueWithin, valueWithin, node_expandScope]
    exact valueWith_expand ih _ h

theorem decodeValue_expand (n : Node) (h : ¬ LacksPoint scope n) :
    decodeValue (expandScope false scope) (expand false n) = decodeValue scope n := by
  refine valueWith_expand (fun number hnumber => ?_) n h
  rw [enclosingValue, enclosingValue, expandScope, length_mapNodes]
  exact valueWithin_expand _ number hnumber

end long

/-- Tags mean their long form at every depth: what can be decoded has the same value with every
    tag written out, and what cannot be decoded either has a tagged attribute reference without
    a point or cannot be decoded with every tag written out.  Keys that are scalars keep their
    tags.

    Where no alias stands inside its target, decoding comes to an end, so that what cannot be
    decoded fails. -/
theorem decodeValue_expand_iff (scope : Scope) (n : Node) :
    (∀ v, decodeValue scope n = .ok v →
      decodeValue (expandScope false scope) (expand false n) = .ok v) ∧
    ((∃ stop, decodeValue scope n = .error stop) ↔
      LacksPoint scope n ∨
        ∃ stop, decodeValue (expandScope false scope) (expand false n) = .error stop) ∧
    (LacksPoint scope n ∨
      decodeValue (expandScope false scope) (expand false n) = decodeValue scope n) ∧
    (¬ FollowsItself scope n → decodeValue scope n ≠ .error .endless) := by
  by_cases hpoint : LacksPoint scope n
  · obtain ⟨stop, herror⟩ := hpoint.exists_error
    refine ⟨fun v hv => ?_, iff_of_true ⟨stop, herror⟩ (.inl hpoint), .inl hpoint,
      fun hself => (ends_valueWith n fun h => absurd h hself).ne_endless⟩
    rw [herror] at hv
    cases hv
  · rw [decodeValue_expand n hpoint]
    exact ⟨fun v hv => hv, by simp [hpoint], .inr rfl,
      fun hself => (ends_valueWith n fun h => absurd h hself).ne_endless⟩

/-- A mapping whose key is a scalar with the tag of a function. -/
def taggedKey : Node :=
  .mapping { line := 1, anchor := none, tag := "!!map" }
    [(.scalar { line := 1, anchor := none, tag := "!Ref" } "Name",
      .scalar { line := 1, anchor := none, tag := "!!str" } "text")]

/-- The tag of a key means nothing: written out, it would take the text of the key away. -/
theorem decodeValue_expand_taggedKey :
    decodeValue [] taggedKey = .ok (.object [("Name", .string "text")]) ∧
      decodeValue [] (expand true taggedKey) = .ok (.object [("", .string "text")]) ∧
      decodeValue [] taggedKey ≠ decodeValue [] (expand true taggedKey) := by
  have hkept : decodeValue [] taggedKey = .ok (.object [("Name", .string "text")]) := by rfl
  have hlost : decodeValue [] (expand true taggedKey) = .ok (.object [("", .string "text")]) := by
    rfl
  refine ⟨hkept, hlost, ?_⟩
  rw [hkept, hlost]
  simp

end StackIr.Template
