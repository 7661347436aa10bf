import StackIr.Proofs.Failure
import StackIr.Proofs.OrderedMap
import StackIr.Template.Decode

/-! # Values of templates

    A value can be of a type that templates do not have, as far as its definition goes.  No
    document denotes one: whatever is decoded is made of primitives, strings, lists and objects
    at any depth, and so are the values of all outputs of a template that was read.

    Decoding puts values together in few ways.  A property that each of them keeps
    (`KeptByDecoding`) is one of all decoded values. -/

namespace StackIr

namespace Value

mutual

/-- A value that is made of what templates have, at any depth. -/
def Native : Value → Prop
  | .prim _ => True
  | .string _ => True
  | .list items => NativeItems items
  | .object fields => NativeFields fields
  | .foreign _ => False

def NativeItems : List Value → Prop
  | [] => True
  | v :: vs => v.Native ∧ NativeItems vs

def NativeFields : List (String × Value) → Prop
  | [] => True
  | (_, v) :: rest => v.Native ∧ NativeFields rest

end

theorem nativeItems_iff {items : List Value} :
    NativeItems items ↔ ∀ item ∈ items, item.Native := by
  induction items with
  | nil => simp [NativeItems]
  | cons item rest ih => rw [NativeItems, List.forall_mem_cons, ih]

theorem nativeFields_iff {fields : List (String × Value)} :
    NativeFields fields ↔ ∀ field ∈ fields, field.2.Native := by
  induction fields with
  | nil => simp [NativeFields]
  | cons field rest ih => rw [NativeFields, List.forall_mem_cons, ih]

end Value

/-- An output whose value and export are made of what templates have. -/
structure Output.Native (o : Output) : Prop where
  value : o.value.Native
  exportName : o.exportName.Native

namespace Template

open Yaml (Node Scope)

/-! ## Values -/

/-- A property that decoding keeps while it puts a value together. -/
structure KeptByDecoding (P : Value → Prop) : Prop where
  prim : ∀ p, P (.prim p)
  string : ∀ s, P (.string s)
  list : ∀ items, (∀ item ∈ items, P item) → P (.list items)
  ofPairs : ∀ pairs, (∀ pair ∈ pairs, P pair.2) → P (.ofPairs pairs)

namespace KeptByDecoding

variable {P : Value → Prop}

/-- A call is an object with one field. -/
theorem call (hP : KeptByDecoding P) {fn : String} {v : Value} (h : P v) : P (.object [(fn, v)]) :=
  hP.ofPairs [(fn, v)] (List.forall_mem_singleton.2 h)

theorem of_scalarValue (hP : KeptByDecoding P) {n : Node} {tag text : String} {v : Value}
    (h : scalarValue n tag text = .ok v) : P v := by
  unfold scalarValue at h
  split at h
  · cases h
    exact hP.prim .null
  split at h
  · obtain ⟨b, -, rfl⟩ := map_eq_ok_iff.1 h
    exact hP.prim (.bool b)
  split at h
  · obtain ⟨number, -, rfl⟩ := map_eq_ok_iff.1 h
    -- a whole number that does not fit is read as the nearest float
    cases number with
    | inl i => exact hP.prim _
    | inr x => exact hP.prim _
  split at h
  · obtain ⟨x, -, rfl⟩ := map_eq_ok_iff.1 h
    exact hP.prim _
  · cases h
    exact hP.string text

theorem of_shortScalar (hP : KeptByDecoding P) {n : Node} {fn text : String} {v : Value}
    (h : shortScalar n fn text = .ok v) : P v := by
  unfold shortScalar at h
  split at h
  · split at h
    · cases h
      refine hP.call (hP.list _ ?_)
      simp [hP.string]
    · cases h
  · cases h
    exact hP.call (hP.string text)

theorem underTag (hP : KeptByDecoding P) {tag : String} {v : Value} (h : P v) :
    P (underTag tag v) := by
  unfold Template.underTag
  split
  · exact hP.call h
  · exact h

section enclosing

variable {enclosing : Nat → Except Stop Value}

mutual

theorem of_valueWith (hP : KeptByDecoding P)
    (henclosing : ∀ number v, enclosing number = .ok v → P v) (n : Node) {v : Value}
    (h : valueWith enclosing n = .ok v) : P v := by
  match n with
  | .scalar header text =>
    rw [valueWith] at h
    split at h
    · exact hP.of_shortScalar h
    · exact hP.of_scalarValue h
  | .sequence header items =>
    rw [valueWith] at h
    obtain ⟨vs, hvs, rfl⟩ := map_eq_ok_iff.1 h
    exact hP.underTag (hP.list vs (hP.of_itemsWith henclosing items hvs))
  | .mapping header entries =>
    rw [valueWith] at h
    obtain ⟨pairs, hpairs, rfl⟩ := map_eq_ok_iff.1 h
    exact hP.underTag (hP.ofPairs pairs (hP.of_fieldsWith henclosing entries hpairs))
  | .alias line name comments target =>
    rw [valueWith] at h
    exact hP.of_valueWith henclosing target h
  | .selfAlias line name comments number =>
    rw [valueWith] at h
    exact henclosing number v h

theorem of_itemsWith (hP : KeptByDecoding P)
    (henclosing : ∀ number v, enclosing number = .ok v → P v) (items : List Node)
    {vs : List Value} (h : itemsWith enclosing items = .ok vs) : ∀ v ∈ vs, P v := by
  match items with
  | [] =>
    cases h
    simp
  | n :: ns =>
    rw [itemsWith] at h
    obtain ⟨v, hv, h⟩ := bind_eq_ok_iff.1 h
    obtain ⟨rest, hrest, h⟩ := bind_eq_ok_iff.1 h
    cases h
    exact List.forall_mem_cons.2
      ⟨hP.of_valueWith henclosing n hv, hP.of_itemsWith henclosing ns hrest⟩

theorem of_fieldsWith (hP : KeptByDecoding P)
    (henclosing : ∀ number v, enclosing number = .ok v → P v) (entries : List (Node × Node))
    {pairs : List (String × Value)} (h : fieldsWith enclosing entries = .ok pairs) :
    ∀ pair ∈ pairs, P pair.2 := by
  match entries with
  | [] =>
    cases h
    simp
  | (key, n) :: rest =>
    rw [fieldsWith] at h
    obtain ⟨v, hv, h⟩ := bind_eq_ok_iff.1 h
    obtain ⟨more, hmore, h⟩ := bind_eq_ok_iff.1 h
    cases h
    exact List.forall_mem_cons.2
      ⟨hP.of_valueWith henclosing n hv, hP.of_fieldsWith henclosing rest hmore⟩

end

end enclosing

theorem of_valueWithin (hP : KeptByDecoding P) {scope : Scope} (depth number : Nat) {v : Value}
    (h : valueWithin scope depth number = .ok v) : P v := by
  induction depth generalizing number v with
  | zero => cases h
  | succ depth ih => exact hP.of_valueWith (fun number v => ih number) _ h

theorem of_decodeValue (hP : KeptByDecoding P) {scope : Scope} (n : Node) {v : Value}
    (h : decodeValue scope n = .ok v) : P v :=
  hP.of_valueWith (fun number _ => hP.of_valueWithin _ number) n h

end KeptByDecoding

theorem keptByDecoding_native : KeptByDecoding Value.Native where
  prim _ := trivial
  string _ := trivial
  list items h := by
    rw [Value.Native, Value.nativeItems_iff]
    exact h
  ofPairs pairs h := by
    -- the fields of an object are some of the pairs it is made of
    rw [Value.ofPairs, Value.Native, Value.nativeFields_iff]
    intro field hfield
    exact h field (Fields.mem_of_mem_ofList hfield)

variable {scope : Scope}

theorem native_of_decodeValue (n : Node) {v : Value} (h : decodeValue scope n = .ok v) :
    v.Native :=
  keptByDecoding_native.of_decodeValue n h

/-! ## Outputs -/

/-- What each member keeps, all members of a declaration keep. -/
theorem foldMembers_preserves {α : Type} {P : α → Prop} {n : Node}
    {member : α → String → Node → Except Stop α}
    (hmember : ∀ a key m a', P a → member a key m = .ok a' → P a') {start result : α}
    (hstart : P start) (h : foldMembers scope n member start = .ok result) : P result := by
  unfold foldMembers at h
  obtain ⟨entries, -, h⟩ := bind_eq_ok_iff.1 h
  exact foldlM_preserves (fun a entry a' => hmember a entry.1 entry.2 a') hstart h

theorem native_of_exportMember {o o' : Output} {key : String} {n : Node} (ho : o.Native)
    (h : exportMember scope o key n = .ok o') : o'.Native := by
  unfold exportMember at h
  split at h
  · obtain ⟨v, hv, rfl⟩ := map_eq_ok_iff.1 h
    exact ⟨ho.value, native_of_decodeValue n hv⟩
  · cases h
    exact ho

theorem native_of_outputMember {state state' : Output × Bool} {key : String} {n : Node}
    (hstate : state.1.Native) (h : outputMember scope state key n = .ok state') :
    state'.1.Native := by
  obtain ⟨o, hasValue⟩ := state
  unfold outputMember at h
  dsimp only at h
  split at h
  · obtain ⟨v, hv, rfl⟩ := map_eq_ok_iff.1 h
    exact ⟨native_of_decodeValue n hv, hstate.exportName⟩
  split at h
  · cases h
    exact ⟨hstate.value, hstate.exportName⟩
  split at h
  · cases h
    exact ⟨hstate.value, hstate.exportName⟩
  split at h
  · obtain ⟨members, -, h⟩ := bind_eq_ok_iff.1 h
    obtain ⟨o', ho', h⟩ := bind_eq_ok_iff.1 h
    cases h
    exact foldlM_preserves (fun _ _ _ => native_of_exportMember) hstate ho'
  · cases h
    exact hstate

theorem native_of_decodeOutput {name : String} {n : Node} {o : Output}
    (h : decodeOutput scope name n = .ok o) : o.Native := by
  unfold decodeOutput at h
  obtain ⟨⟨o', hasValue⟩, hmembers, h⟩ := bind_eq_ok_iff.1 h
  have hnative : o'.Native :=
    foldMembers_preserves (P := fun state => state.1.Native)
      (fun _ _ _ _ => native_of_outputMember) ⟨trivial, trivial⟩ (Stop.noting_eq_ok_iff.1 hmembers)
  cases hasValue with
  | false => cases h
  | true =>
    cases h
    exact hnative

/-! ## Templates -/

/-- What holds of every declaration of a section still does when more are read, if it holds of
    what is read. -/
theorem forall_entries_of_decodeSection {α : Type} {P : α → Prop}
    {decode : String → Node → Except Stop α} {s s' : Section α} {n : Node}
    (hdecode : ∀ name m a, decode name m = .ok a → P a)
    (hs : ∀ entry ∈ Section.entries s, P entry.2) (h : decodeSection scope decode s n = .ok s') :
    ∀ entry ∈ Section.entries s', P entry.2 := by
  unfold decodeSection at h
  obtain ⟨entries, -, h⟩ := bind_eq_ok_iff.1 h
  obtain ⟨declared, hdeclared, h⟩ := bind_eq_ok_iff.1 h
  cases h
  refine foldlM_preserves (P := fun m : OrderedMap α => ∀ entry ∈ m.entries, P entry.2)
    (fun m entry m' hm hstep => ?_) hs hdeclared
  obtain ⟨a, ha, hinsert⟩ := bind_eq_ok_iff.1 hstep
  cases hinsert
  intro entry' hentry'
  rcases OrderedMap.mem_of_mem_insertEntry hentry' with rfl | hold
  · exact hdecode _ _ a ha
  · exact hm entry' hold

/-- Every output of a template has values that are made of what templates have. -/
def NativeOutputs (t : Template) : Prop :=
  ∀ entry ∈ Section.entries t.outputs, entry.2.Native

theorem nativeOutputs_of_decodeEntry {t t' : Template} {key : String} {n : Node}
    (ht : t.NativeOutputs) (h : decodeEntry scope t key n = .ok t') : t'.NativeOutputs := by
  unfold decodeEntry at h
  split at h
  · cases h
    exact ht
  rw [Stop.noting_eq_ok_iff] at h
  split at h
  · obtain ⟨s, -, rfl⟩ := map_eq_ok_iff.1 h
    exact ht
  split at h
  · obtain ⟨s, -, rfl⟩ := map_eq_ok_iff.1 h
    exact ht
  split at h
  · obtain ⟨s, -, rfl⟩ := map_eq_ok_iff.1 h
    exact ht
  split at h
  · obtain ⟨s, -, rfl⟩ := map_eq_ok_iff.1 h
    exact ht
  split at h
  · obtain ⟨s, hs, rfl⟩ := map_eq_ok_iff.1 h
    exact forall_entries_of_decodeSection (fun _ _ _ => native_of_decodeOutput) ht hs
  · cases h
    exact ht

theorem nativeOutputs_of_parse {bytes : List UInt8} {t : Template} (h : parse bytes = .ok t) :
    t.NativeOutputs := by
  unfold parse at h
  split at h
  · cases h
  · cases h
  · rename_i document _
    unfold ofNode at h
    split at h
    · refine foldMembers_preserves (fun _ _ _ _ => nativeOutputs_of_decodeEntry) ?_ h
      intro entry hentry
      cases hentry
    · cases h

end Template

end StackIr
