/-! # Maps with an order

    Two maps from texts, both lists of pairs with at most one pair per key.  An
    `OrderedMap` keeps its keys in the order they were first inserted; the fields of an
    object are kept in increasing order of their keys. -/

namespace StackIr

/-- A map that keeps the order of insertion. -/
structure OrderedMap (α : Type) where
  entries : List (String × α)
  /-- No key is there twice. -/
  distinct : (entries.map Prod.fst).Nodup
  deriving DecidableEq, Repr

namespace OrderedMap

variable {α β : Type}

def empty : OrderedMap α :=
  ⟨[], List.nodup_nil⟩

instance : Inhabited (OrderedMap α) :=
  ⟨empty⟩

/-- Puts a value under a key: in its place if the key is there, at the end if not. -/
def insertEntry (key : String) (value : α) : List (String × α) → List (String × α)
  | [] => [(key, value)]
  | (k, v) :: rest =>
    if k = key then (key, value) :: rest else (k, v) :: insertEntry key value rest

theorem map_fst_insertEntry (key : String) (value : α) (entries : List (String × α)) :
    (insertEntry key value entries).map Prod.fst =
      if key ∈ entries.map Prod.fst then entries.map Prod.fst
      else entries.map Prod.fst ++ [key] := by
  induction entries with
  | nil => simp [insertEntry]
  | cons entry rest ih =>
    obtain ⟨k, v⟩ := entry
    by_cases hk : k = key
    · simp [insertEntry, hk]
    · have hne : key ≠ k := fun h => hk h.symm
      simp only [insertEntry, if_neg hk, List.map_cons, ih, List.mem_cons, hne, false_or]
      split <;> rfl

theorem distinct_insertEntry (key : String) (value : α) {entries : List (String × α)}
    (h : (entries.map Prod.fst).Nodup) :
    ((insertEntry key value entries).map Prod.fst).Nodup := by
  rw [map_fst_insertEntry]
  split
  · exact h
  · rename_i hkey
    refine List.nodup_append.2 ⟨h, by simp, ?_⟩
    intro k hk k' hk' heq
    rw [List.mem_singleton] at hk'
    exact hkey (hk' ▸ heq ▸ hk)

/-- A repeated key keeps its first place and takes the last value. -/
def insert (m : OrderedMap α) (key : String) (value : α) : OrderedMap α :=
  ⟨insertEntry key value m.entries, distinct_insertEntry key value m.distinct⟩

def get? (m : OrderedMap α) (key : String) : Option α :=
  m.entries.lookup key

def contains (m : OrderedMap α) (key : String) : Bool :=
  (m.get? key).isSome

def keys (m : OrderedMap α) : List String :=
  m.entries.map Prod.fst

def values (m : OrderedMap α) : List α :=
  m.entries.map Prod.snd

def size (m : OrderedMap α) : Nat :=
  m.entries.length

/-- The map of a list of pairs, inserted one after the other. -/
def ofList (pairs : List (String × α)) : OrderedMap α :=
  pairs.foldl (fun m (key, value) => m.insert key value) empty

end OrderedMap

namespace Fields

variable {α : Type}

/-- The keys of fields are in increasing order. -/
def Increasing (fields : List (String × α)) : Prop :=
  (fields.map Prod.fst).Pairwise (· < ·)

/-- Puts a value under a key among fields in increasing order of their keys. -/
def insert (key : String) (value : α) : List (String × α) → List (String × α)
  | [] => [(key, value)]
  | (k, v) :: rest =>
    if k = key then (key, value) :: rest
    else if key < k then (key, value) :: (k, v) :: rest
    else (k, v) :: insert key value rest

/-- The fields of a list of pairs; of several pairs with one key the last counts. -/
def ofList (pairs : List (String × α)) : List (String × α) :=
  pairs.foldl (fun fields (key, value) => insert key value fields) []

/-- Texts in increasing order, each once. -/
def sortedKeys (keys : List String) : List String :=
  (ofList (keys.map fun key => (key, ()))).map Prod.fst

end Fields

end StackIr
