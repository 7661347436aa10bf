import StackIr.Proofs.Decoding.Enclosing

/-! # Decoding that comes to an end

    Only the value of a node can be without end, and only if decoding comes to an alias inside its
    target.  All else that is read of a template either has a result or fails. -/

namespace StackIr.Template

open Yaml (Node Header Scope)

/-! ## Nodes that are decoded -/

/-- A node that decoding comes to: the node itself, an item, a value or the target of an alias,
    at any depth. -/
inductive Reached (scope : Scope) (m : Node) : Node → Prop
  | self : Reached scope m m
  | item {h : Header} {items : List Node} {n : Node} (hmem : n ∈ items) (hn : Reached scope m n) :
      Reached scope m (.sequence h items)
  | value {h : Header} {entries : List (Node × Node)} {key n : Node} (hmem : (key, n) ∈ entries)
      (hn : Reached scope m n) : Reached scope m (.mapping h entries)
  | target {line : Nat} {name : String} {comments : Yaml.Comments} {n : Node}
      (hn : Reached scope m n) : Reached scope m (.alias line name comments n)
  | enclosing {line : Nat} {name : String} {comments : Yaml.Comments} {number : Nat}
      (hn : Reached scope m (scope.node number)) :
      Reached scope m (.selfAlias line name comments number)

/-- Decoding comes to an alias inside its target. -/
def FollowsItself (scope : Scope) (n : Node) : Prop :=
  ∃ line name comments number, Reached scope (.selfAlias line name comments number) n

/-! ## Computations with an end -/

/-- A computation that fails if it has no result. -/
abbrev Ends {α : Type} (x : Except Stop α) : Prop :=
  FailsOnly (· ≠ .endless) x

section ends

variable {α : Type} {x : Except Stop α}

theorem Ends.ne_endless (h : Ends x) : x ≠ .error .endless :=
  fun heq => h .endless heq rfl

theorem ends_faultAt (n : Node) (problem : Problem) : Ends (α := α) (.error (faultAt n problem)) :=
  .error nofun

/-- A note neither ends a computation nor takes its end away. -/
theorem Ends.noting (hx : Ends x) (note : String) : Ends (Stop.noting note x) := by
  refine hx.mapError fun stop hstop => ?_
  cases stop with
  | failed failure => exact nofun
  | endless => exact absurd rfl hstop

theorem ends_scalarFault (n : Node) (x : Except Yaml.Fault α) : Ends (scalarFault n x) := by
  have hfailed : Ends (x.mapError fun fault => .failed (.cause (.document fault))) :=
    FailsOnly.mapError (P := fun _ => True) (fun _ _ => trivial) fun _ _ => nofun
  exact hfailed.noting _

end ends

/-! ## Values -/

section values

variable {scope : Scope} {enclosing : Nat → Except Stop Value}

theorem ends_scalarValue (n : Node) (tag text : String) : Ends (scalarValue n tag text) := by
  unfold scalarValue
  split
  · exact .ok _
  split
  · exact (ends_scalarFault n _).map
  split
  · exact (ends_scalarFault n _).map
  split
  · exact (ends_scalarFault n _).map
  · exact .ok _

theorem ends_shortScalar (n : Node) (fn text : String) : Ends (shortScalar n fn text) := by
  unfold shortScalar
  split
  · split
    · exact .ok _
    · exact ends_faultAt n _
  · exact .ok _

mutual

/-- Where decoding comes to no alias inside its target, or the values of the nodes around it have
    an end, a value has an end. -/
theorem ends_valueWith (n : Node)
    (h : FollowsItself scope n → ∀ number, Ends (enclosing number)) :
    Ends (valueWith enclosing n) := by
  match n with
  | .scalar header text =>
    rw [valueWith]
    split
    · exact ends_shortScalar _ _ _
    · exact ends_scalarValue _ _ _
  | .sequence header items =>
    rw [valueWith]
    refine (ends_itemsWith items fun n hmem => ?_).map
    rintro ⟨line, name, comments, number, hreached⟩
    exact h ⟨line, name, comments, number, .item hmem hreached⟩
  | .mapping header entries =>
    rw [valueWith]
    refine (ends_fieldsWith entries fun key n hmem => ?_).map
    rintro ⟨line, name, comments, number, hreached⟩
    exact h ⟨line, name, comments, number, .value hmem hreached⟩
  | .alias line name comments target =>
    rw [valueWith]
    refine ends_valueWith target ?_
    rintro ⟨line, name, comments, number, hreached⟩
    exact h ⟨line, name, comments, number, .target hreached⟩
  | .selfAlias line name comments number =>
    rw [valueWith]
    exact h ⟨line, name, comments, number, .self⟩ number

theorem ends_itemsWith (items : List Node)
    (h : ∀ n ∈ items, FollowsItself scope n → ∀ number, Ends (enclosing number)) :
    Ends (itemsWith enclosing items) := by
  match items with
  | [] => exact .ok _
  | n :: ns =>
    obtain ⟨hn, hns⟩ := List.forall_mem_cons.1 h
    rw [itemsWith]
    refine (ends_valueWith n hn).bind fun v _ => ?_
    exact (ends_itemsWith ns hns).bind fun vs _ => .ok _

theorem ends_fieldsWith (entries : List (Node × Node))
    (h : ∀ key n, (key, n) ∈ entries → FollowsItself scope n → ∀ number, Ends (enclosing number)) :
    Ends (fieldsWith enclosing entries) := by
  match entries with
  | [] => exact .ok _
  | (key, n) :: rest =>
    rw [fieldsWith]
    refine (ends_valueWith n (h key n (List.mem_cons_self ..))).bind fun v _ => ?_
    exact (ends_fieldsWith rest fun k m hmem => h k m (List.mem_cons_of_mem _ hmem)).bind
      fun fields _ => .ok _

end

/-- In a document without aliases inside their targets all values have an end. -/
theorem ends_decodeValue_nil (n : Node) : Ends (decodeValue [] n) := by
  refine @ends_valueWith [] _ n fun _ number => ?_
  exact .ok _

end values

/-! ## Templates -/

section templates

variable {scope : Scope}

theorem ends_entriesOf (n : Node) : Ends (entriesOf scope n) := by
  unfold entriesOf
  split
  · exact .ok _
  · exact ends_faultAt _ _

theorem ends_foldMembers {α : Type} {member : α → String → Node → Except Stop α}
    (hmember : ∀ state key n, Ends (member state key n)) (n : Node) (start : α) :
    Ends (foldMembers scope n member start) :=
  (ends_entriesOf n).bind fun _ _ =>
    .foldlM (fun state entry _ => hmember state entry.1 entry.2) start

theorem ends_itemTexts (items : List Node) : Ends (itemTexts scope items) := by
  induction items with
  | nil => exact .ok _
  | cons n ns ih =>
    rw [itemTexts]
    split
    · exact ih.map
    · exact ends_faultAt _ _

theorem ends_texts (n : Node) : Ends (texts scope n) := by
  unfold texts
  split
  · exact ends_itemTexts _
  · exact ends_faultAt _ _

theorem ends_rawText (n : Node) : Ends (rawText scope n) := by
  unfold rawText
  split
  · exact .ok _
  · exact (ends_itemTexts _).map
  · exact ends_faultAt _ _

theorem ends_parameterMember (p : Parameter) (key : String) (n : Node) :
    Ends (parameterMember scope p key n) := by
  unfold parameterMember
  split
  · exact .ok _
  split
  · exact .ok _
  split
  · exact (ends_rawText n).map
  split
  · exact (ends_texts n).map
  split
  · split
    · exact .ok _
    · exact ends_faultAt n _
  · exact .ok _

theorem ends_decodeParameter (name : String) (n : Node) : Ends (decodeParameter scope name n) := by
  refine ((ends_foldMembers ends_parameterMember n {}).noting _).bind fun p _ => ?_
  split
  · exact ends_faultAt n _
  · exact .ok _

theorem ends_decodeLeaf (n : Node) : Ends (decodeLeaf scope n) := by
  unfold decodeLeaf
  split
  · split
    · exact (ends_scalarFault _ _).map
    split
    · exact (ends_scalarFault _ _).map
    split
    · exact (ends_scalarFault _ _).map
    split
    · exact .ok _
    · exact ends_faultAt _ _
  · exact (ends_itemTexts _).map
  · exact ends_faultAt _ _

theorem ends_decodeTable (name : String) (n : Node) : Ends (decodeTable scope name n) := by
  refine (ends_foldMembers (fun table outer n => ?_) n LookupTable.empty).noting _
  refine (ends_entriesOf n).bind fun leaves _ => ?_
  refine .foldlM (fun table leaf _ => ?_) _
  exact ((ends_decodeLeaf leaf.2).noting _).bind fun v _ => .ok _

variable (hvalue : ∀ n, Ends (decodeValue scope n))

include hvalue

theorem ends_decodeCondition (name : String) (n : Node) : Ends (decodeCondition scope name n) :=
  (hvalue n).noting _

theorem ends_resourceMember (r : Resource) (key : String) (n : Node) :
    Ends (resourceMember scope r key n) := by
  unfold resourceMember
  split
  · exact .ok _
  split
  · refine (hvalue n).bind fun v _ => ?_
    split
    · exact .ok _
    · exact .ok _
    · exact ends_faultAt n _
  split
  · split
    · exact .ok _
    · exact (ends_texts n).map
  split
  · exact .ok _
  split
  · exact .ok _
  split
  · exact .ok _
  · exact .ok _

theorem ends_decodeResource (name : String) (n : Node) : Ends (decodeResource scope name n) := by
  refine ((ends_foldMembers (ends_resourceMember hvalue) n {}).noting _).bind fun r _ => ?_
  split
  · exact ends_faultAt n _
  · exact .ok _

theorem ends_exportMember (o : Output) (key : String) (n : Node) :
    Ends (exportMember scope o key n) := by
  unfold exportMember
  split
  · exact (hvalue n).map
  · exact .ok _

theorem ends_outputMember (state : Output × Bool) (key : String) (n : Node) :
    Ends (outputMember scope state key n) := by
  obtain ⟨o, hasValue⟩ := state
  simp only [outputMember]
  split
  · exact (hvalue n).map
  split
  · exact .ok _
  split
  · exact .ok _
  split
  · refine (ends_entriesOf n).bind fun members _ => ?_
    refine FailsOnly.bind (.foldlM (fun o member _ => ?_) _) fun o _ => .ok _
    exact ends_exportMember hvalue o member.1 member.2
  · exact .ok _

theorem ends_decodeOutput (name : String) (n : Node) : Ends (decodeOutput scope name n) := by
  refine ((ends_foldMembers (ends_outputMember hvalue) n _).noting _).bind fun (o, hasValue) _ => ?_
  dsimp only
  split
  · exact ends_faultAt n _
  · exact .ok _

omit hvalue in
theorem ends_decodeSection {α : Type} {decode : String → Node → Except Stop α}
    (hdecode : ∀ name n, Ends (decode name n)) (s : Section α) (n : Node) :
    Ends (decodeSection scope decode s n) := by
  refine (ends_entriesOf n).bind fun entries _ => ?_
  refine FailsOnly.bind (.foldlM (fun declared entry _ => ?_) _) fun declared _ => .ok _
  exact (hdecode entry.1 entry.2).bind fun a _ => .ok _

theorem ends_decodeEntry (t : Template) (key : String) (n : Node) :
    Ends (decodeEntry scope t key n) := by
  unfold decodeEntry
  split
  · exact .ok _
  refine Ends.noting ?_ key
  split
  · exact (ends_decodeSection ends_decodeParameter _ n).map
  split
  · exact (ends_decodeSection ends_decodeTable _ n).map
  split
  · exact (ends_decodeSection (ends_decodeCondition hvalue) _ n).map
  split
  · exact (ends_decodeSection (ends_decodeResource hvalue) _ n).map
  split
  · exact (ends_decodeSection (ends_decodeOutput hvalue) _ n).map
  · exact .ok _

/-- Where all values of a document have an end, so has the reading of its template. -/
theorem ends_ofNode (root : Node) : Ends (ofNode scope root) := by
  unfold ofNode
  split
  · exact ends_foldMembers (ends_decodeEntry hvalue) _ _
  · exact ends_faultAt _ _

end templates

end StackIr.Template
