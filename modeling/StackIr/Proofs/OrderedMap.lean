import Mathlib.Data.List.Forall2
import Mathlib.Data.List.Nodup
import Mathlib.Data.List.Sort
import StackIr.Template.Basic

/-! # Keys of maps

    The keys of fields are those that were put in, in increasing order, and fields with different
    keys may be put in in any order.  A map that keeps the order of insertion gives back what was
    put in last, and the names of a section are distinct.  What is made of the entries of a
    section, one by one, comes from one of them. -/

namespace StackIr

variable {α : Type}

/-! ## Fields -/

namespace Fields

@[simp] theorem mem_map_fst_insert {key k : String} {value : α} {fields : List (String × α)} :
    k ∈ (insert key value fields).map Prod.fst ↔ k = key ∨ k ∈ fields.map Prod.fst := by
  induction fields with
  | nil => simp [insert]
  | cons field rest ih =>
    obtain ⟨k', v⟩ := field
    unfold insert
    split
    · rename_i heq
      simp [heq]
    split
    · simp
    · simp only [List.map_cons, List.mem_cons, ih]
      exact or_left_comm

theorem mem_map_fst_foldl_insert {k : String} {pairs fields : List (String × α)} :
    k ∈ (pairs.foldl (fun fields (key, value) => insert key value fields) fields).map Prod.fst ↔
      k ∈ pairs.map Prod.fst ∨ k ∈ fields.map Prod.fst := by
  induction pairs generalizing fields with
  | nil => simp
  | cons pair rest ih =>
    obtain ⟨key, value⟩ := pair
    rw [List.foldl_cons, ih, mem_map_fst_insert]
    simp only [List.map_cons, List.mem_cons]
    exact or_left_comm.trans or_assoc.symm

@[simp] theorem mem_map_fst_ofList {k : String} {pairs : List (String × α)} :
    k ∈ (ofList pairs).map Prod.fst ↔ k ∈ pairs.map Prod.fst := by
  rw [ofList, mem_map_fst_foldl_insert, List.map_nil, List.mem_nil_iff, or_false]

theorem mem_of_mem_insert {key : String} {value : α} {field : String × α}
    {fields : List (String × α)} (h : field ∈ insert key value fields) :
    field = (key, value) ∨ field ∈ fields := by
  induction fields with
  | nil => simpa [insert] using h
  | cons other rest ih =>
    obtain ⟨k, v⟩ := other
    unfold insert at h
    split at h
    · exact (List.mem_cons.1 h).imp_right (List.mem_cons_of_mem _)
    split at h
    · exact List.mem_cons.1 h
    · rcases List.mem_cons.1 h with rfl | h
      · exact .inr (List.mem_cons_self ..)
      · exact (ih h).imp_right (List.mem_cons_of_mem _)

theorem mem_of_mem_foldl_insert {field : String × α} {pairs fields : List (String × α)}
    (h : field ∈ pairs.foldl (fun fields pair => insert pair.1 pair.2 fields) fields) :
    field ∈ pairs ∨ field ∈ fields := by
  induction pairs generalizing fields with
  | nil => exact .inr h
  | cons pair rest ih =>
    rcases ih h with hrest | hfields
    · exact .inl (List.mem_cons_of_mem _ hrest)
    · rcases mem_of_mem_insert hfields with rfl | hfields
      · exact .inl (List.mem_cons_self ..)
      · exact .inr hfields

/-- Fields are some of the pairs that they are made of. -/
theorem mem_of_mem_ofList {field : String × α} {pairs : List (String × α)}
    (h : field ∈ ofList pairs) : field ∈ pairs :=
  (mem_of_mem_foldl_insert h).resolve_right (List.not_mem_nil)

/-- Sorting keys loses none and invents none. -/
@[simp] theorem mem_sortedKeys {key : String} {keys : List String} :
    key ∈ sortedKeys keys ↔ key ∈ keys := by
  rw [sortedKeys, mem_map_fst_ofList]
  simp

/-! A key meets the first field: it takes the field's place, or goes in front of it, or behind. -/

@[simp] theorem insert_self (k : String) (v x : α) (rest : List (String × α)) :
    insert k v ((k, x) :: rest) = (k, v) :: rest := by
  rw [insert, if_pos rfl]

theorem insert_of_lt {k f : String} (h : k < f) (v x : α) (rest : List (String × α)) :
    insert k v ((f, x) :: rest) = (k, v) :: (f, x) :: rest := by
  have hne : f ≠ k := fun heq => String.lt_irrefl k (heq ▸ h)
  rw [insert, if_neg hne, if_pos h]

theorem insert_of_gt {k f : String} (h : f < k) (v x : α) (rest : List (String × α)) :
    insert k v ((f, x) :: rest) = (f, x) :: insert k v rest := by
  have hne : f ≠ k := fun heq => String.lt_irrefl k (heq ▸ h)
  rw [insert, if_neg hne, if_neg (String.lt_asymm h)]

theorem insert_comm_of_lt {k l : String} (hlt : k < l) (v w : α) (fields : List (String × α)) :
    insert k v (insert l w fields) = insert l w (insert k v fields) := by
  induction fields with
  | nil => rw [insert, insert, insert_of_lt hlt, insert_of_gt hlt, insert]
  | cons field rest ih =>
    obtain ⟨f, x⟩ := field
    rcases Std.lt_trichotomy f k with hfk | rfl | hkf
    · -- both keys go behind the first field
      have hfl : f < l := String.lt_trans hfk hlt
      rw [insert_of_gt hfl, insert_of_gt hfk, insert_of_gt hfk, insert_of_gt hfl, ih]
    · rw [insert_of_gt hlt, insert_self, insert_self, insert_of_gt hlt]
    · -- the smaller key goes in front, wherever the other one meets the first field
      rw [insert_of_lt hkf, insert_of_gt hlt]
      rcases Std.lt_trichotomy f l with hfl | rfl | hlf
      · rw [insert_of_gt hfl, insert_of_lt hkf]
      · rw [insert_self, insert_of_lt hkf]
      · rw [insert_of_lt hlf, insert_of_lt hlt]

/-- Fields under different keys may be put in in either order. -/
theorem insert_comm {k l : String} (hne : k ≠ l) (v w : α) (fields : List (String × α)) :
    insert k v (insert l w fields) = insert l w (insert k v fields) := by
  by_cases hlt : k < l
  · exact insert_comm_of_lt hlt v w fields
  · have hgt : l < k := Std.lt_of_le_of_ne (String.not_lt.1 hlt) (Ne.symm hne)
    exact (insert_comm_of_lt hgt w v fields).symm

theorem foldl_insert_perm {pairs pairs' : List (String × α)} (hperm : pairs.Perm pairs')
    (hdistinct : (pairs.map Prod.fst).Nodup) (fields : List (String × α)) :
    pairs.foldl (fun fields pair => insert pair.1 pair.2 fields) fields =
      pairs'.foldl (fun fields pair => insert pair.1 pair.2 fields) fields := by
  apply hperm.foldl_eq'
  intro x hx y hy fields
  -- two pairs with one key are the same pair
  by_cases hkey : x.1 = y.1
  · have hxy : x = y := List.inj_on_of_nodup_map hdistinct hx hy hkey
    rw [hxy]
  · exact insert_comm (Ne.symm hkey) y.2 x.2 fields

theorem Increasing.insert {fields : List (String × α)} (h : Increasing fields) (key : String)
    (value : α) : Increasing (insert key value fields) := by
  induction fields with
  | nil => simp [Increasing, Fields.insert]
  | cons field rest ih =>
    obtain ⟨k, v⟩ := field
    obtain ⟨hfirst, hrest⟩ := List.pairwise_cons.1 h
    unfold Fields.insert
    split
    · rename_i heq
      exact heq ▸ h
    split
    · rename_i hlt
      refine List.pairwise_cons.2 ⟨fun other hother => ?_, h⟩
      rcases List.mem_cons.1 hother with rfl | hother
      · exact hlt
      · exact String.lt_trans hlt (hfirst other hother)
    · rename_i hne hlt
      refine List.pairwise_cons.2 ⟨fun other hother => ?_, ih hrest⟩
      rcases mem_map_fst_insert.1 hother with rfl | hother
      · exact Std.lt_of_le_of_ne (String.not_lt.1 hlt) hne
      · exact hfirst other hother

theorem Increasing.foldl_insert (pairs : List (String × α)) {fields : List (String × α)}
    (h : Increasing fields) :
    Increasing (pairs.foldl (fun fields pair => Fields.insert pair.1 pair.2 fields) fields) := by
  induction pairs generalizing fields with
  | nil => exact h
  | cons pair rest ih => exact ih (h.insert pair.1 pair.2)

theorem increasing_ofList (pairs : List (String × α)) : Increasing (ofList pairs) :=
  Increasing.foldl_insert pairs List.Pairwise.nil

theorem insert_perm {key : String} (value : α) {fields : List (String × α)}
    (h : key ∉ fields.map Prod.fst) : (insert key value fields).Perm ((key, value) :: fields) := by
  induction fields with
  | nil => exact .refl _
  | cons field rest ih =>
    obtain ⟨k, v⟩ := field
    obtain ⟨hne, hrest⟩ := not_or.1 (mt List.mem_cons.2 h)
    rw [insert, if_neg (Ne.symm hne)]
    split
    · exact .refl _
    · exact ((ih hrest).cons (k, v)).trans (.swap ..)

theorem foldl_insert_perm_append {pairs fields : List (String × α)}
    (h : ((pairs ++ fields).map Prod.fst).Nodup) :
    (pairs.foldl (fun fields pair => insert pair.1 pair.2 fields) fields).Perm
      (pairs ++ fields) := by
  induction pairs generalizing fields with
  | nil => exact .refl _
  | cons pair rest ih =>
    obtain ⟨key, value⟩ := pair
    obtain ⟨hkey, -⟩ := List.nodup_cons.1 h
    have hnew : key ∉ fields.map Prod.fst := fun hmem =>
      hkey (List.map_subset _ (List.subset_append_right rest fields) hmem)
    have hperm : (rest ++ insert key value fields).Perm ((key, value) :: (rest ++ fields)) :=
      ((insert_perm value hnew).append_left rest).trans List.perm_middle
    exact (ih ((hperm.map Prod.fst).nodup_iff.2 h)).trans hperm

/-- Fields with distinct keys are put in order, and none is lost. -/
theorem ofList_perm {pairs : List (String × α)} (h : (pairs.map Prod.fst).Nodup) :
    (ofList pairs).Perm pairs := by
  have hnodup : ((pairs ++ []).map Prod.fst).Nodup := by rwa [List.append_nil]
  have hperm := foldl_insert_perm_append hnodup
  rwa [List.append_nil] at hperm

/-- Fields have one increasing order. -/
theorem Increasing.eq_of_perm {fields fields' : List (String × α)} (h : Increasing fields)
    (h' : Increasing fields') (hperm : fields.Perm fields') : fields = fields' := by
  refine hperm.eq_of_pairwise (fun a b _ _ hab hba => ?_) (List.pairwise_map.1 h)
    (List.pairwise_map.1 h')
  exact absurd hba (String.lt_asymm hab)

theorem Increasing.nodup {fields : List (String × α)} (h : Increasing fields) :
    (fields.map Prod.fst).Nodup := by
  refine List.Pairwise.imp ?_ h
  rintro a _ hlt rfl
  exact String.lt_irrefl a hlt

/-- Fields in increasing order stay as they are. -/
theorem Increasing.ofList_eq {fields : List (String × α)} (h : Increasing fields) :
    ofList fields = fields :=
  (increasing_ofList fields).eq_of_perm h (ofList_perm h.nodup)

/-- Sorted keys depend only on which keys there are. -/
theorem sortedKeys_congr {keys keys' : List String} (h : ∀ key, key ∈ keys ↔ key ∈ keys') :
    sortedKeys keys = sortedKeys keys' := by
  have hirrefl : Std.Irrefl (α := String) (· < ·) := ⟨String.lt_irrefl⟩
  have hantisymm : Std.Antisymm (α := String) (· < ·) :=
    ⟨fun a b hab hba => absurd hba (String.lt_asymm hab)⟩
  refine List.Pairwise.eq_of_mem_iff (increasing_ofList _) (increasing_ofList _) fun key => ?_
  exact mem_sortedKeys.trans ((h key).trans mem_sortedKeys.symm)

end Fields

/-! ## Maps that keep the order of insertion -/

/-- The first pair that has a key decides what is found under it. -/
theorem lookup_cons_eq_ite {κ β : Type} [BEq κ] [LawfulBEq κ] [DecidableEq κ] (k key : κ) (b : β)
    (rest : List (κ × β)) :
    ((key, b) :: rest).lookup k = if k = key then some b else rest.lookup k := by
  rw [List.lookup_cons]
  by_cases h : k = key
  · rw [if_pos h, beq_iff_eq.2 h]
  · rw [if_neg h, beq_eq_false_iff_ne.2 h]

namespace OrderedMap

variable {key k : String} {value : α}

theorem keys_insert (m : OrderedMap α) (key : String) (value : α) :
    (m.insert key value).keys = if key ∈ m.keys then m.keys else m.keys ++ [key] :=
  map_fst_insertEntry key value m.entries

theorem mem_of_mem_insertEntry {entry : String × α} {entries : List (String × α)}
    (h : entry ∈ insertEntry key value entries) : entry = (key, value) ∨ entry ∈ entries := by
  induction entries with
  | nil => simpa [insertEntry] using h
  | cons other rest ih =>
    obtain ⟨k, v⟩ := other
    unfold insertEntry at h
    split at h
    · exact (List.mem_cons.1 h).imp_right (List.mem_cons_of_mem _)
    · rcases List.mem_cons.1 h with rfl | hrest
      · exact .inr (List.mem_cons_self ..)
      · exact (ih hrest).imp_right (List.mem_cons_of_mem _)

@[simp] theorem lookup_insertEntry {entries : List (String × α)} :
    (insertEntry key value entries).lookup k =
      if k = key then some value else entries.lookup k := by
  induction entries with
  | nil => exact lookup_cons_eq_ite k key value []
  | cons entry rest ih =>
    obtain ⟨key', value'⟩ := entry
    rw [insertEntry, lookup_cons_eq_ite k key' value' rest]
    by_cases hkey : key' = key
    · subst hkey
      rw [if_pos rfl, lookup_cons_eq_ite]
      split <;> rfl
    · -- the two keys differ, so at most one of them is the one that is looked for
      rw [if_neg hkey, lookup_cons_eq_ite, ih]
      by_cases hk : k = key
      · subst hk
        rw [if_neg (Ne.symm hkey), if_pos rfl, if_pos rfl]
      · rw [if_neg hk, if_neg hk]

/-- The value of a key is the one that was put there last. -/
@[simp] theorem get?_insert (m : OrderedMap α) :
    (m.insert key value).get? k = if k = key then some value else m.get? k :=
  lookup_insertEntry

theorem get?_eq_none_iff {m : OrderedMap α} : m.get? key = none ↔ key ∉ m.keys := by
  rw [get?, List.lookup_eq_none_iff, keys]
  constructor
  · rintro h hmem
    obtain ⟨entry, hentry, rfl⟩ := List.mem_map.1 hmem
    simpa using h entry hentry
  · intro h entry hentry
    simp only [bne_iff_ne]
    rintro rfl
    exact h (List.mem_map_of_mem hentry)

@[simp] theorem contains_iff {m : OrderedMap α} : m.contains key = true ↔ key ∈ m.keys := by
  rw [contains, Option.isSome_iff_ne_none, ne_eq, get?_eq_none_iff, not_not]

theorem get?_of_mem_entries {m : OrderedMap α} (h : (key, value) ∈ m.entries) :
    m.get? key = some value := by
  obtain ⟨entries, hdistinct⟩ := m
  show entries.lookup key = some value
  induction entries with
  | nil => cases h
  | cons entry rest ih =>
    obtain ⟨hfirst, hrest⟩ := List.nodup_cons.1 hdistinct
    rw [List.lookup_cons]
    rcases List.mem_cons.1 h with rfl | h
    · simp
    · -- no key is there twice, so the first entry is not the one that is looked for
      have hne : (key == entry.1) = false := by
        simp only [beq_eq_false_iff_ne]
        intro heq
        exact hfirst (heq ▸ List.mem_map_of_mem h)
      rw [hne]
      exact ih hrest h

/-- A map has one value under a key. -/
theorem get?_eq_some_iff {m : OrderedMap α} : m.get? key = some value ↔ (key, value) ∈ m.entries := by
  refine ⟨fun h => ?_, get?_of_mem_entries⟩
  obtain ⟨before, after, hentries, -⟩ := List.lookup_eq_some_iff.1 h
  rw [hentries]
  exact List.mem_append_right _ (List.mem_cons_self ..)

/-- A map is known from its keys and its values. -/
theorem ext_get? {m m' : OrderedMap α} (hkeys : m.keys = m'.keys)
    (hvalues : ∀ key, m.get? key = m'.get? key) : m = m' := by
  have hentries : ∀ m : OrderedMap α, (m.entries.map fun entry => (entry.1, some entry.2)) =
      m.keys.map fun key => (key, m.get? key) := by
    intro m
    rw [keys, List.map_map]
    refine List.map_congr_left fun entry hentry => ?_
    rw [Function.comp_apply, get?_of_mem_entries hentry]
  -- entries are keys with what is found under them
  have hsame : m.entries.map (fun entry => (entry.1, some entry.2)) =
      m'.entries.map fun entry => (entry.1, some entry.2) := by
    rw [hentries, hentries, hkeys]
    simp only [hvalues]
  have hinjective : Function.Injective fun entry : String × α => (entry.1, some entry.2) := by
    rintro ⟨k, v⟩ ⟨k', v'⟩ h
    cases h
    rfl
  obtain ⟨entries, hdistinct⟩ := m
  obtain ⟨entries', hdistinct'⟩ := m'
  cases hinjective.list_map hsame
  rfl

end OrderedMap

/-! ## Sections -/

namespace Section

/-- A section declares no name twice. -/
theorem nodup_names (s : Section α) : (Section.names s).Nodup :=
  (s.getD .empty).distinct

theorem mem_names_iff {s : Section α} {name : String} :
    name ∈ Section.names s ↔ ∃ a, (name, a) ∈ Section.entries s := by
  simp [Section.names]

/-- A name has one declaration. -/
theorem eq_of_mem_entries {s : Section α} {name : String} {a b : α}
    (ha : (name, a) ∈ Section.entries s) (hb : (name, b) ∈ Section.entries s) : a = b :=
  congrArg Prod.snd (List.inj_on_of_nodup_map (nodup_names s) ha hb rfl)

end Section

/-! ## Entries one by one -/

theorem exists_mem_of_forall₂ {β : Type} {R : α → β → Prop} {as : List α} {bs : List β}
    (h : List.Forall₂ R as bs) {b : β} (hb : b ∈ bs) : ∃ a ∈ as, R a b := by
  induction h with
  | nil => cases hb
  | @cons a _ _ _ hfirst _ ih =>
    rcases List.mem_cons.1 hb with rfl | hrest
    · exact ⟨a, List.mem_cons_self .., hfirst⟩
    · obtain ⟨a', hmem, hrelated⟩ := ih hrest
      exact ⟨a', List.mem_cons_of_mem _ hmem, hrelated⟩

end StackIr
