import StackIr.Ir.Lower

/-! # Outputs -/

namespace StackIr.Ir

/-- An output with its lowered value. -/
structure OutputInstruction where
  name : String
  description : String := ""
  condition : String := ""
  /-- The name under which the output is exported. -/
  exported : Option Expr := none
  value : Option Expr := none

/-- The expression of an output's name under which it is exported. -/
def lowerExport (refs : Resolver) (v : Value) : Except Failure (Option Expr) :=
  if v.isNull then .ok none else (noting "export" (lower refs v)).map some

/-- The instruction of an output. -/
def lowerOutput (refs : Resolver) (name : String) (o : Output) :
    Except Failure OutputInstruction := do
  checkCondition refs o.condition
  let value ← lower refs o.value
  let exported ← lowerExport refs o.exportName
  pure ⟨name, o.description, o.condition, exported, some value⟩

/-- The instructions of some outputs. -/
def lowerOutputList (refs : Resolver) :
    List (String × Output) → Except Failure (List OutputInstruction)
  | [] => .ok []
  | (name, o) :: rest => do
    let out ← noting ("output " ++ Text.quote name) (lowerOutput refs name o)
    let outs ← lowerOutputList refs rest
    pure (out :: outs)

/-- The instructions of a section of outputs, in declaration order. -/
def lowerOutputs (refs : Resolver) :
    Section Output → Except Failure (Option (List OutputInstruction))
  | none => .ok none
  | some outputs => (lowerOutputList refs outputs.entries).map some

def OutputInstruction.toJson (o : OutputInstruction) : Json :=
  .object ([("name", .string o.name)] ++ Json.textMember "description" o.description ++
    Json.textMember "condition" o.condition ++
    (match o.exported with
      | some e => [("export", e.toJson)]
      | none => []) ++
    [("value", (o.value.map Expr.toJson).getD .null)])

/-- What an output is refused for. -/
def OutputInstruction.refusal? (o : OutputInstruction) : Option Json.Refusal :=
  (o.exported.bind Expr.refusal?).or (o.value.bind Expr.refusal?)

end StackIr.Ir
