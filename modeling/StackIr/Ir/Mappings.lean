import StackIr.Template.Basic

/-! # Mappings

    A lookup table is consistent when all its leaves have one kind. -/

namespace StackIr.Ir

/-- Whether a lookup table can be given one type of leaf. -/
inductive Classification where
  /-- All leaves have this kind. -/
  | consistent (kind : ScalarKind)
  /-- The leaves have several kinds, or there are none. -/
  | complex
  deriving DecidableEq, Repr

/-- A mapping and its classification. -/
structure MappingInstruction where
  name : String
  table : Option LookupTable
  classification : Option Classification

/-- The classification of some leaves: all are compared with the first. -/
def classifyLeaves : List Scalar → Classification
  | [] => .complex
  | leaf :: leaves =>
    if leaves.all (·.kind = leaf.kind) then .consistent leaf.kind else .complex

/-- The classification of a table. -/
def classify (t : LookupTable) : Classification :=
  classifyLeaves (t.leaves.map fun (_, _, leaf) => leaf)

/-- The mappings of a section with their classifications, in declaration order. -/
def classifyMappings : Section LookupTable → Option (List MappingInstruction)
  | none => none
  | some mappings =>
    some (mappings.entries.map fun (name, table) => ⟨name, some table, some (classify table)⟩)

namespace Classification

def toJson : Classification → Json
  | .consistent kind => .object [("kind", .string "consistent"), ("type", .string kind.name)]
  | .complex => .object [("kind", .string "complex")]

/-- A classification in a few words. -/
def summary : Classification → String
  | .consistent kind => kind.name
  | .complex => "complex"

end Classification

def MappingInstruction.toJson (m : MappingInstruction) : Json :=
  .object [ ("name", .string m.name),
    ("table", (m.table.map LookupTable.toJson).getD .null),
    ("classification", (m.classification.map Classification.toJson).getD .null) ]

end StackIr.Ir
