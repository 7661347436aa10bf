import StackIr.Proofs.Decoding.Alike
import StackIr.Proofs.LookupTable

/-! # Repeated entries

    A mapping may have a key several times.  Of the entries under one key the last counts, and the
    key stands where its first entry stands.  `Keeps` says this of a map and the entries that it is
    made of.

    Lookup tables are made by another rule.  The rows under one outer key are put together, and
    within them the last leaf under an inner key counts (`Gathers`). -/

namespace StackIr.Template

open Yaml (Node Scope)

variable {α : Type}

/-! ## Entries -/

/-- The entries of a mapping; another node has none. -/
def members (scope : Scope) (n : Node) : List (String × Node) :=
  match entriesOf scope n with
  | .ok entries => entries
  | .error _ => []

/-- The entries of all mappings that stand under a key, one after the other. -/
def under (scope : Scope) (key : String) (entries : List (String × Node)) : List (String × Node) :=
  (entries.filter (·.1 = key)).flatMap fun entry => members scope entry.2

/-- The node that stands last under a key. -/
def last? (entries : List (String × Node)) (key : String) : Option Node :=
  (entries.filter (·.1 = key)).getLast?.map Prod.snd

/-- The keys of entries in order of their first appearance, each once. -/
def seen (entries : List (String × Node)) : List String :=
  (entries.map Prod.fst).eraseDups

section entries

variable {scope : Scope} {entries : List (String × Node)} {key name : String} {n : Node}

theorem members_of_entriesOf (h : entriesOf scope n = .ok entries) :
    members scope n = entries := by
  rw [members, h]

@[simp] theorem under_append (key : String) (entries more : List (String × Node)) :
    under scope key (entries ++ more) = under scope key entries ++ under scope key more := by
  simp [under, List.filter_append]

@[simp] theorem under_singleton (key name : String) (n : Node) :
    under scope key [(name, n)] = if name = key then members scope n else [] := by
  by_cases h : name = key
  · simp [under, h]
  · simp [under, h]

theorem last?_append_singleton (entries : List (String × Node)) (name : String) (n : Node)
    (key : String) :
    last? (entries ++ [(name, n)]) key = if name = key then some n else last? entries key := by
  by_cases h : name = key
  · simp [last?, List.filter_append, h]
  · simp [last?, List.filter_append, h]

theorem seen_append_singleton (entries : List (String × Node)) (name : String) (n : Node) :
    seen (entries ++ [(name, n)]) =
      if name ∈ seen entries then seen entries else seen entries ++ [name] := by
  rw [seen, List.map_append]
  exact LookupTable.eraseDups_append_singleton _ _

end entries

/-! ## Maps of decoded entries -/

/-- What a map has of the entries that it is made of: their keys in order of first appearance, and
    under each key what its last entry is decoded to.  All entries can be decoded. -/
structure Keeps (decode : String → Node → Except Stop α) (entries : List (String × Node))
    (m : OrderedMap α) : Prop where
  keys : m.keys = seen entries
  value : ∀ key, (m.get? key).map .ok = (last? entries key).map (decode key)
  decoded : ∀ key n, (key, n) ∈ entries → ∃ a, decode key n = .ok a

/-- Puts a decoded entry into a map. -/
def keep (decode : String → Node → Except Stop α) (m : OrderedMap α) (entry : String × Node) :
    Except Stop (OrderedMap α) := do
  pure (m.insert entry.1 (← decode entry.1 entry.2))

namespace Keeps

variable {decode : String → Node → Except Stop α} {entries more : List (String × Node)}
  {m m' : OrderedMap α}

theorem nil : Keeps decode [] .empty where
  keys := rfl
  value := fun _ => rfl
  decoded := fun _ _ h => (nomatch h)

/-- One entry more. -/
theorem insert (h : Keeps decode entries m) {name : String} {n : Node} {a : α}
    (ha : decode name n = .ok a) : Keeps decode (entries ++ [(name, n)]) (m.insert name a) where
  keys := by rw [OrderedMap.keys_insert, h.keys, seen_append_singleton]
  value := by
    intro key
    rw [OrderedMap.get?_insert, last?_append_singleton]
    by_cases hkey : key = name
    · subst hkey
      rw [if_pos rfl, if_pos rfl, Option.map_some, Option.map_some, ha]
    · rw [if_neg hkey, if_neg (Ne.symm hkey)]
      exact h.value key
  decoded := by
    intro key n' hmem
    rcases List.mem_append.1 hmem with hmem | hmem
    · exact h.decoded key n' hmem
    · cases List.mem_singleton.1 hmem
      exact ⟨a, ha⟩

/-- All entries of one more mapping. -/
theorem foldlM (h : Keeps decode entries m) (hfold : more.foldlM (keep decode) m = .ok m') :
    Keeps decode (entries ++ more) m' := by
  refine foldlM_extends (fun done m entry next hkept hnext => ?_) h hfold
  obtain ⟨a, ha, hinsert⟩ := bind_eq_ok_iff.1 hnext
  cases hinsert
  exact hkept.insert ha

/-- A map is known from the entries. -/
theorem unique (h : Keeps decode entries m) (h' : Keeps decode entries m') : m = m' := by
  -- both maps have the keys of the entries, and under each the outcome of the same last entry
  refine OrderedMap.ext_get? (h.keys.trans h'.keys.symm) fun key => ?_
  have hok : Function.Injective (Except.ok : α → Except Stop α) := fun _ _ => Except.ok.inj
  exact Option.map_injective hok ((h.value key).trans (h'.value key).symm)

end Keeps

/-- Entries that can all be decoded can be put into any map. -/
theorem exists_foldlM_keep {decode : String → Node → Except Stop α}
    {entries : List (String × Node)}
    (h : ∀ key n, (key, n) ∈ entries → ∃ a, decode key n = .ok a) (m : OrderedMap α) :
    ∃ m', entries.foldlM (keep decode) m = .ok m' := by
  refine exists_foldlM_eq_ok (fun m entry hentry => ?_) m
  obtain ⟨a, ha⟩ := h entry.1 entry.2 hentry
  exact ⟨m.insert entry.1 a, bind_eq_ok_iff.2 ⟨a, ha, rfl⟩⟩

/-- A map has of entries what it should exactly if it is made by putting them in one by one. -/
theorem keeps_iff_foldlM {decode : String → Node → Except Stop α}
    {entries : List (String × Node)} {m : OrderedMap α} :
    Keeps decode entries m ↔ entries.foldlM (keep decode) .empty = .ok m := by
  constructor
  · intro h
    obtain ⟨m', hfold⟩ := exists_foldlM_keep h.decoded .empty
    rwa [h.unique (Keeps.nil.foldlM hfold)]
  · intro hfold
    exact Keeps.nil.foldlM hfold

/-! ## Entries that say the same -/

/-- Entries with the same keys and with nodes that differ only in where they stand. -/
def SameEntries (scope scope' : Scope) (entries entries' : List (String × Node)) : Prop :=
  List.Forall₂ (fun entry entry' => entry.1 = entry'.1 ∧ Alike false scope scope' entry.2 entry'.2)
    entries entries'

namespace SameEntries

variable {scope scope' : Scope} {entries entries' more more' : List (String × Node)} {n n' : Node}

theorem append (h : SameEntries scope scope' entries entries')
    (hmore : SameEntries scope scope' more more') :
    SameEntries scope scope' (entries ++ more) (entries' ++ more') :=
  List.rel_append h hmore

/-- Decoded to the same, entries are kept in the same map. -/
theorem keeps {decode decode' : String → Node → Except Stop α}
    (hdecode : ∀ name n n', Alike false scope scope' n n' →
      Agree false Eq (decode name n) (decode' name n'))
    (h : SameEntries scope scope' entries entries') {m : OrderedMap α}
    (hkeeps : Keeps decode entries m) : Keeps decode' entries' m := by
  rw [keeps_iff_foldlM] at hkeeps ⊢
  suffices hfold : ∀ start, Agree false Eq (entries.foldlM (keep decode) start)
      (entries'.foldlM (keep decode') start) from
    (hfold .empty).sameOutcome.eq_ok_iff.1 hkeeps
  clear hkeeps
  -- the maps so far are the same, and the next entry keeps them so
  induction h with
  | nil => exact fun _ => .refl _
  | @cons entry entry' rest rest' hentry _ ih =>
    intro start
    obtain ⟨name, n⟩ := entry
    obtain ⟨name', n'⟩ := entry'
    obtain ⟨rfl, hn⟩ := hentry
    rw [List.foldlM_cons, List.foldlM_cons]
    have hkeep : Agree false Eq (keep decode start (name, n)) (keep decode' start (name, n')) := by
      refine (hdecode name n n' hn).bind fun a a' ha => ?_
      rw [ha]
      exact .refl _
    refine hkeep.bind fun next next' hnext => ?_
    rw [hnext]
    exact ih next'

end SameEntries

theorem Alike.exists_entriesOf {scope scope' : Scope} {n n' : Node}
    (h : Alike false scope scope' n n') (hn : ∃ own, entriesOf scope n = .ok own) :
    ∃ own, entriesOf scope' n' = .ok own := by
  obtain ⟨own, hown⟩ := hn
  have hmembers := h.sameMembers
  unfold SameMembers at hmembers
  rw [hown] at hmembers
  generalize entriesOf scope' n' = read' at hmembers ⊢
  cases hmembers with
  | @ok _ own' _ => exact ⟨own', rfl⟩

/-! ## Lookup tables -/

/-- Leaves are decoded alike under all keys. -/
def leafUnder (scope : Scope) (_ : String) (n : Node) : Except Stop Scalar :=
  decodeLeaf scope n

/-- What a table has of the rows that it is made of: their outer keys in order of first appearance,
    and under each the leaves of all rows with that key. -/
structure Gathers (scope : Scope) (rows : List (String × Node)) (t : LookupTable) : Prop where
  made : t.rows? = some t.rows
  outerKeys : t.rows.keys = seen rows
  row : ∀ outer, Keeps (leafUnder scope) (under scope outer rows) ((t.rows.get? outer).getD .empty)
  mapping : ∀ outer n, (outer, n) ∈ rows → ∃ leaves, entriesOf scope n = .ok leaves

/-- Puts a decoded leaf into a table. -/
def setLeaf (scope : Scope) (outer : String) (t : LookupTable) (entry : String × Node) :
    Except Stop LookupTable := do
  let v ← Stop.noting (outer ++ "." ++ entry.1) (decodeLeaf scope entry.2)
  pure (t.set outer entry.1 v)

theorem decodeRow_eq (scope : Scope) (t : LookupTable) (outer : String) (n : Node) :
    decodeRow scope t outer n =
      entriesOf scope n >>= fun leaves => leaves.foldlM (setLeaf scope outer) (t.addOuter outer) :=
  rfl

section rows

variable {scope : Scope} {t t' : LookupTable} {outer : String}
  {leaves rows : List (String × Node)} {n : Node}

/-- Leaves that are put into a table under an outer key that is there go to its row alone. -/
theorem rows_of_foldlM_setLeaf (hthere : outer ∈ t.rows.keys) (hmade : t.rows? = some t.rows)
    (h : leaves.foldlM (setLeaf scope outer) t = .ok t') :
    t'.rows? = some t'.rows ∧ t'.rows.keys = t.rows.keys ∧
      leaves.foldlM (keep (leafUnder scope)) ((t.rows.get? outer).getD .empty) =
        .ok ((t'.rows.get? outer).getD .empty) ∧
      ∀ other, other ≠ outer →
        (t'.rows.get? other).getD .empty = (t.rows.get? other).getD .empty := by
  -- the outer key stays there, so no leaf changes the outer keys
  induction leaves generalizing t with
  | nil =>
    cases h
    exact ⟨hmade, rfl, rfl, fun _ _ => rfl⟩
  | cons entry rest ih =>
    rw [List.foldlM_cons] at h
    obtain ⟨next, hnext, hrest⟩ := bind_eq_ok_iff.1 h
    obtain ⟨v, hv, hset⟩ := bind_eq_ok_iff.1 hnext
    cases hset
    rw [Stop.noting_eq_ok_iff] at hv
    have hkeys : (t.set outer entry.1 v).rows.keys = t.rows.keys := by
      rw [LookupTable.keys_set, if_pos hthere]
    obtain ⟨hmade', hkeys', hfold, hother⟩ := ih (hkeys ▸ hthere) rfl hrest
    refine ⟨hmade', hkeys'.trans hkeys, ?_, fun other hne => ?_⟩
    · rw [LookupTable.getD_set, if_pos rfl] at hfold
      rw [List.foldlM_cons]
      exact bind_eq_ok_iff.2 ⟨_, bind_eq_ok_iff.2 ⟨v, hv, rfl⟩, hfold⟩
    · rw [hother other hne, LookupTable.getD_set, if_neg hne]

/-- One row more. -/
theorem Gathers.decodeRow (h : Gathers scope rows t) (hrow : decodeRow scope t outer n = .ok t') :
    Gathers scope (rows ++ [(outer, n)]) t' := by
  rw [decodeRow_eq] at hrow
  obtain ⟨leaves, hleaves, hfold⟩ := bind_eq_ok_iff.1 hrow
  -- the row is there before its leaves are read, even if it has none
  have hthere : outer ∈ (t.addOuter outer).rows.keys := by
    rw [LookupTable.keys_addOuter]
    split
    · assumption
    · exact List.mem_append_right _ (List.mem_singleton_self _)
  obtain ⟨hmade, hkeys, hkept, hother⟩ :=
    rows_of_foldlM_setLeaf hthere (LookupTable.rows?_addOuter t outer) hfold
  refine ⟨hmade, ?_, fun key => ?_, fun key n' hmem => ?_⟩
  · rw [hkeys, LookupTable.keys_addOuter, h.outerKeys, seen_append_singleton]
  · rw [under_append, under_singleton]
    by_cases hkey : outer = key
    · subst hkey
      rw [LookupTable.getD_addOuter] at hkept
      rw [if_pos rfl, members_of_entriesOf hleaves]
      exact (h.row outer).foldlM hkept
    · rw [if_neg hkey, List.append_nil, hother key (Ne.symm hkey),
        LookupTable.getD_addOuter]
      exact h.row key
  · rcases List.mem_append.1 hmem with hmem | hmem
    · exact h.mapping key n' hmem
    · cases List.mem_singleton.1 hmem
      exact ⟨leaves, hleaves⟩

theorem Gathers.outerKeys? (h : Gathers scope rows t) : t.outerKeys? = some (seen rows) := by
  rw [LookupTable.outerKeys?, h.made, Option.map_some, h.outerKeys]

/-- The inner keys under an outer key are those of all its rows, also where these are empty. -/
theorem Gathers.innerKeys? (h : Gathers scope rows t) (outer : String) :
    t.innerKeys? outer =
      if outer ∈ rows.map Prod.fst then some (seen (under scope outer rows)) else none := by
  rw [LookupTable.innerKeys?_eq, h.outerKeys, (h.row outer).keys]
  simp only [seen, List.mem_eraseDups]

theorem Gathers.get? (h : Gathers scope rows t) (outer inner : String) :
    (t.get? outer inner).map .ok =
      (last? (under scope outer rows) inner).map (decodeLeaf scope) := by
  rw [LookupTable.get?_eq]
  exact (h.row outer).value inner

end rows

end StackIr.Template
