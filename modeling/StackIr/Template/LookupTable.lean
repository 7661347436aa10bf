import StackIr.OrderedMap
import StackIr.Template.Scalar

/-! # Lookup tables

    A mapping of a template: outer key, inner key, leaf.  Both levels keep the order of
    insertion.  A table that nothing was ever put into has no rows at all, which is not the
    same as an empty list of rows.

    A table may also be absent.  It is read like one that nothing was put into, and cannot be
    changed. -/

namespace StackIr

/-- A row of a lookup table: its leaves by inner key. -/
abbrev Row := OrderedMap Scalar

/-- A two-level table of leaves. -/
structure LookupTable where
  rows? : Option (OrderedMap Row)
  deriving Repr

namespace LookupTable

/-- A table without rows. -/
def empty : LookupTable :=
  ⟨some .empty⟩

/-- A table that nothing was ever put into. -/
def untouched : LookupTable :=
  ⟨none⟩

def rows (t : LookupTable) : OrderedMap Row :=
  t.rows?.getD .empty

/-- Adds an outer key without leaves, unless it is there. -/
def addOuter (t : LookupTable) (outer : String) : LookupTable :=
  if t.rows.contains outer then ⟨some t.rows⟩
  else ⟨some (t.rows.insert outer .empty)⟩

/-- Puts a leaf under two keys.  New keys come after the existing ones. -/
def set (t : LookupTable) (outer inner : String) (leaf : Scalar) : LookupTable :=
  let row := (t.rows.get? outer).getD .empty
  ⟨some (t.rows.insert outer (row.insert inner leaf))⟩

def get? (t : LookupTable) (outer inner : String) : Option Scalar :=
  (t.rows.get? outer).bind (·.get? inner)

/-- The number of outer keys. -/
def size (t : LookupTable) : Nat :=
  t.rows.size

def outerKeys? (t : LookupTable) : Option (List String) :=
  t.rows?.map OrderedMap.keys

def innerKeys? (t : LookupTable) (outer : String) : Option (List String) :=
  (t.rows.get? outer).map OrderedMap.keys

/-- Every leaf with its two keys, in order. -/
def leaves (t : LookupTable) : List (String × String × Scalar) :=
  t.rows.entries.flatMap fun (outer, row) =>
    row.entries.map fun (inner, leaf) => (outer, inner, leaf)

/-- Visits the leaves one after the other with their two keys, until a visit fails. -/
def walk {m : Type → Type} [Monad m] (t : LookupTable)
    (visit : String → String → Scalar → m Unit) : m Unit :=
  t.rows.entries.forM fun (outer, row) =>
    row.entries.forM fun (inner, leaf) => visit outer inner leaf

/-- Both levels as objects whose members keep the table's order. -/
def toJson (t : LookupTable) : Json :=
  .object (t.rows.entries.map fun (outer, row) =>
    (outer, .object (row.entries.map fun (inner, leaf) => (inner, leaf.toJson))))

/-! ## Absent tables -/

/-- A table that is absent was to be changed. -/
inductive Absent where
  | absent
  deriving DecidableEq, Repr

def Absent.message : Absent → String
  | .absent => "runtime error: invalid memory address or nil pointer dereference"

/-- A table, to be read. -/
def ofOption (t? : Option LookupTable) : LookupTable :=
  t?.getD untouched

/-- Changes a table. -/
def change (t? : Option LookupTable) (f : LookupTable → LookupTable) :
    Except Absent (Option LookupTable) :=
  match t? with
  | some t => .ok (some (f t))
  | none => .error .absent

end LookupTable

end StackIr
