import StackIr.Ir.Assembly

/-! # Dumps

    Everything that an intermediate representation holds, with the type of each part.  Parts
    that are made of others are written between braces, one member on each line. -/

namespace StackIr.Report

/-- A dump: a text on one line, or members after a head. -/
inductive Dump where
  | leaf (text : String)
  | node (head : String) (members : List (String × Dump))

namespace Dump

mutual

/-- The text of a dump whose members are set `level` steps in. -/
def render (level : Nat) : Dump → String
  | .leaf text => text
  | .node head members =>
    head ++ "\x7b\n" ++ renderMembers level members ++
      Text.replicate (2 * (level - 1)) ' ' ++ "\x7d"

/-- Members, each with its name and on a line of its own. -/
def renderMembers (level : Nat) : List (String × Dump) → String
  | [] => ""
  | (name, d) :: rest =>
    Text.replicate (2 * level) ' ' ++ name ++ d.render (level + 1) ++
      (if rest.isEmpty then "\n" else ",\n") ++ renderMembers level rest

end

/-! ## Parts -/

def typed (type text : String) : String :=
  "(" ++ type ++ ") " ++ text

/-- The length of a part that is not empty. -/
def lengthNote (n : Nat) : String :=
  if n = 0 then "" else "(len=" ++ Nat.repr n ++ ") "

def missing (type : String) : Dump :=
  .leaf (typed type "<nil>")

/-- A quoted text after its length in bytes. -/
def measured (s : String) : String :=
  lengthNote s.utf8ByteSize ++ Text.quote s

def text (s : String) : Dump :=
  .leaf (typed "string" (measured s))

/-- A text that may be missing. -/
def text? (s : Option String) : Dump :=
  .leaf ("(*string)(" ++ (s.map measured).getD "<nil>" ++ ")")

def bool (b : Bool) : Dump :=
  .leaf (typed "bool" (if b then "true" else "false"))

def list (type : String) (items : List Dump) : Dump :=
  .node (typed type (lengthNote items.length)) (items.map ("", ·))

def list? (type : String) (items : Option (List Dump)) : Dump :=
  (items.map (list type)).getD (missing type)

/-- A list that is missing when it is empty. -/
def nonempty (type : String) (items : List Dump) : Dump :=
  if items.isEmpty then missing type else list type items

def strings? (items : Option (List String)) : Dump :=
  list? "[]string" (items.map (·.map text))

/-- A part with named members. -/
def record (type : String) (members : List (String × Dump)) : Dump :=
  .node (typed type "") (members.map fun (name, d) => (name ++ ": ", d))

/-- A part with texts for keys. -/
def map (type : String) (entries : List (String × Dump)) : Dump :=
  .node (typed type (lengthNote entries.length))
    (entries.map fun (key, d) => (typed "string" (measured key) ++ ": ", d))

/-! ## Values -/

/-- The type of an object. -/
def objectType : String := "map[string]interface \x7b\x7d"

def primitive : Primitive → Dump
  | .null => missing "interface \x7b\x7d"
  | p => .leaf (typed p.typeName p.display)

mutual

def value : Value → Dump
  | .prim p => primitive p
  | .string s => text s
  | .list items => list "[]interface \x7b\x7d" (valueItems items)
  | .object fields => map objectType (valueFields fields)
  | .foreign f => .leaf (typed f.typeName f.display)

def valueItems : List Value → List Dump
  | [] => []
  | v :: vs => value v :: valueItems vs

def valueFields : List (String × Value) → List (String × Dump)
  | [] => []
  | (key, v) :: rest => (key, value v) :: valueFields rest

end

/-! ## Expressions -/

def token : Substitution.Token String → Dump
  | .literal s => .leaf (typed "intrinsic.Literal" s)
  | .var name => .leaf (typed "intrinsic.Variable" (Substitution.Token.var name).display)

mutual

def expr : Ir.Expr → Dump
  | .string s => record "ir.StringExpr" [("Value", text s)]
  | .scalar p => record "ir.ScalarExpr" [("Value", primitive p)]
  | .list items => record "ir.ListExpr" [("Items", list "[]ir.Expr" (exprItems items))]
  | .object fields =>
    record "ir.ObjectExpr" [("Fields", map "map[string]ir.Expr" (exprFields fields))]
  | .sub tokens bound =>
    record "ir.SubExpr" [("Tokens", nonempty "[]intrinsic.Token" (tokens.map token)),
      ("Variables", nonempty "[]ir.SubVariable" (boundItems bound))]
  | .ref name origin =>
    record "ir.RefExpr" [("Name", text name),
      ("Origin", .leaf (typed "reference.Origin" origin.name))]
  | .getAtt resource attr =>
    record "ir.GetAttExpr" [("Resource", text resource), ("Attribute", text attr)]
  | .intrinsic fn args => record "ir.OpaqueExpr" [("Function", text fn), ("Args", expr args)]

def exprItems : List Ir.Expr → List Dump
  | [] => []
  | e :: es => expr e :: exprItems es

def exprFields : List (String × Ir.Expr) → List (String × Dump)
  | [] => []
  | (key, e) :: rest => (key, expr e) :: exprFields rest

def boundItems : List (String × Ir.Expr) → List Dump
  | [] => []
  | (name, e) :: rest =>
    record "ir.SubVariable" [("Name", text name), ("Value", expr e)] :: boundItems rest

end

def expr? (e : Option Ir.Expr) : Dump :=
  (e.map expr).getD (missing "ir.Expr")

/-! ## Instructions -/

def parameter (p : Ir.ConstructorParameter) : Dump :=
  record "ir.ConstructorParameter" [
    ("Name", text p.name), ("LogicalName", text p.logicalName),
    ("Description", text p.description), ("Type", text p.type), ("Default", text? p.default),
    ("AllowedValues", strings? p.allowedValues), ("NoEcho", bool p.noEcho)]

/-- A lookup table as rows of leaves. -/
def table (t : LookupTable) : Dump :=
  map "map[string]map[string]cfn.ScalarValue" (t.rows.entries.map fun (outer, row) =>
    (outer, map "map[string]cfn.ScalarValue" (row.entries.map fun (inner, scalar) =>
      (inner, .leaf (typed ("cfn." ++ scalar.kind.name) scalar.display)))))

def classification : Ir.Classification → Dump
  | .consistent kind => record "ir.Consistent" [("Kind", .leaf (typed "cfn.ScalarKind" kind.name))]
  | .complex => record "ir.Complex" []

def mapping (m : Ir.MappingInstruction) : Dump :=
  record "ir.MappingInstruction" [
    ("Name", text m.name), ("Table", (m.table.map table).getD (missing "*cfn.LookupTable")),
    ("Classification", (m.classification.map classification).getD (missing "ir.Classification"))]

def condition (c : Ir.ConditionInstruction) : Dump :=
  record "ir.ConditionInstruction" [("Name", text c.name), ("Expression", value c.expression)]

def resource (r : Ir.ResourceInstruction) : Dump :=
  record "ir.ResourceInstruction" [
    ("Name", text r.name), ("Type", .leaf (typed "ir.TypeName" r.type.toString)),
    ("Condition", text r.condition), ("DependsOn", strings? r.dependsOn),
    ("References", nonempty "[]string" (r.references.map text)),
    ("DeletionPolicy", text r.deletionPolicy), ("UpdateReplacePolicy", text r.updateReplacePolicy),
    ("Properties",
      (r.properties.map fun fields => value (.object fields)).getD (missing objectType))]

def output (o : Ir.OutputInstruction) : Dump :=
  record "ir.OutputInstruction" [
    ("Name", text o.name), ("Description", text o.description), ("Condition", text o.condition),
    ("Export", expr? o.exported), ("Value", expr? o.value)]

/-- The members of a representation. -/
def members (ir : Ir) : List (String × Dump) := [
  ("Description: ", text ir.description),
  ("Constructor: ", list? "[]ir.ConstructorParameter" (ir.constructor.map (·.map parameter))),
  ("Mappings: ", list? "[]ir.MappingInstruction" (ir.mappings.map (·.map mapping))),
  ("Conditions: ", list? "[]ir.ConditionInstruction" (ir.conditions.map (·.map condition))),
  ("Resources: ", list? "[]ir.ResourceInstruction" (ir.resources.map (·.map resource))),
  ("Outputs: ", list? "[]ir.OutputInstruction" (ir.outputs.map (·.map output))),
  ("Imports: ", list? "[]ir.Import"
    (ir.imports.map (·.map fun i => .leaf (typed "ir.Import" i.toString))))]

end Dump

/-- The dump of a representation. -/
def dump (ir : Ir) : String :=
  (Dump.node "(*ir.IR)(" (Dump.members ir)).render 1 ++ ")\n"

end StackIr.Report
