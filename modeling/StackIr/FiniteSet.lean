/-! # Finite sets

    A set is a list of distinct members.  Its order is not observable, except through
    `sorted`. -/

namespace StackIr

/-- A set of finitely many members. -/
structure FiniteSet (α : Type) where
  members : List α
  /-- No member is there twice. -/
  distinct : members.Nodup
  deriving Repr

namespace FiniteSet

theorem distinct_append_singleton {α : Type} {members : List α} {a : α} (h : members.Nodup)
    (ha : a ∉ members) : (members ++ [a]).Nodup := by
  refine List.nodup_append.2 ⟨h, by simp, ?_⟩
  intro b hb c hc heq
  rw [List.mem_singleton.1 hc] at heq
  exact ha (heq ▸ hb)

variable {α : Type} [DecidableEq α]

def empty : FiniteSet α :=
  ⟨[], List.nodup_nil⟩

/-- Adds a member. -/
def insert (s : FiniteSet α) (a : α) : FiniteSet α :=
  if h : a ∈ s.members then s
  else ⟨s.members ++ [a], distinct_append_singleton s.distinct h⟩

/-- Adds several members. -/
def insertMany (s : FiniteSet α) (as : List α) : FiniteSet α :=
  as.foldl insert s

/-- The set of the members of a list. -/
def ofList (as : List α) : FiniteSet α :=
  empty.insertMany as

def contains (s : FiniteSet α) (a : α) : Bool :=
  a ∈ s.members

def size (s : FiniteSet α) : Nat :=
  s.members.length

/-- The members in an order. -/
def sorted (s : FiniteSet α) (le : α → α → Bool) : List α :=
  s.members.mergeSort le

/-- The members between braces, in the order of their texts. -/
def display (s : FiniteSet α) (text : α → String) : String :=
  "\x7b" ++ String.intercalate ", " ((s.members.map text).mergeSort (· ≤ ·)) ++ "\x7d"

end FiniteSet

end StackIr
