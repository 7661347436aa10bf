import StackIr.Failure
import StackIr.Template.Basic
import StackIr.Text.LowerCase
import StackIr.Yaml.Node.Build

/-! # Reading templates

    A template is decoded from a document tree section by section.  Aliases stand for the
    nodes they refer to, except as keys.  Functions may be written as tags, and are then
    decoded like their long form.

    A value that has an alias of itself inside has no end, and neither has its decoding. -/

namespace StackIr.Template

open Yaml (Node Scope)

/-- A fault at the line of a node. -/
def faultAt (n : Node) (problem : Problem) : Stop :=
  .failed (.cause (.template (.at n.line problem)))

/-- The faults of a scalar that is not what its tag says. -/
def scalarFault {α : Type} (n : Node) (x : Except Yaml.Fault α) : Except Stop α :=
  Stop.noting ("line " ++ Nat.repr n.line)
    (x.mapError fun fault => .failed (.cause (.document fault)))

/-- The entries of a mapping: the text of each key, and the node of each value. -/
def entriesOf (scope : Scope) (n : Node) : Except Stop (List (String × Node)) :=
  match n.resolve scope with
  | .mapping _ entries => .ok (entries.map fun (key, value) => (key.text, value.resolve scope))
  | other => .error (faultAt other .notMapping)

/-! ## Values -/

/-- The functions that may be written as tags. -/
def shortForms : List (String × String) :=
  [ ("!Ref", "Ref"), ("!Condition", "Condition"), ("!And", "Fn::And"),
    ("!Base64", "Fn::Base64"), ("!Cidr", "Fn::Cidr"), ("!Equals", "Fn::Equals"),
    ("!FindInMap", "Fn::FindInMap"), ("!GetAtt", "Fn::GetAtt"), ("!GetAZs", "Fn::GetAZs"),
    ("!If", "Fn::If"), ("!ImportValue", "Fn::ImportValue"), ("!Join", "Fn::Join"),
    ("!Not", "Fn::Not"), ("!Or", "Fn::Or"), ("!Select", "Fn::Select"),
    ("!Split", "Fn::Split"), ("!Sub", "Fn::Sub"), ("!Transform", "Fn::Transform") ]

/-- The function that a tag stands for. -/
def longForm? (tag : String) : Option String :=
  shortForms.lookup tag

/-- The value of a scalar by its tag. -/
def scalarValue (n : Node) (tag text : String) : Except Stop Value :=
  if tag = "!!null" then .ok .null
  else if tag = "!!bool" then
    (scalarFault n (Yaml.Meaning.toBool text)).map fun b => .prim (.bool b)
  else if tag = "!!int" then
    (scalarFault n (Yaml.Meaning.toWhole text)).map fun
      | .inl i => .prim (.int i)
      | .inr x => .prim (.float x)
  else if tag = "!!float" then
    (scalarFault n (Yaml.Meaning.toFloat text)).map fun x => .prim (.float x)
  else .ok (.string text)

/-- The value of a scalar with the tag of a function. -/
def shortScalar (n : Node) (fn text : String) : Except Stop Value :=
  if fn = "Fn::GetAtt" then
    match Text.cut? "." text with
    | some (resource, attr) => .ok (.object [(fn, .list [.string resource, .string attr])])
    | none => .error (faultAt n (.attributeWithoutPoint text))
  else .ok (.object [(fn, .string text)])

/-- A value under the function that a tag stands for. -/
def underTag (tag : String) (v : Value) : Value :=
  match longForm? tag with
  | some fn => .object [(fn, v)]
  | none => v

mutual

/-- The value of a node.  `enclosing` gives that of the list or mapping with a number, for the
    aliases that stand inside it. -/
def valueWith (enclosing : Nat → Except Stop Value) : Node → Except Stop Value
  | .scalar h text =>
    match longForm? h.tag with
    | some fn => shortScalar (.scalar h text) fn text
    | none => scalarValue (.scalar h text) h.tag text
  | .sequence h items => (itemsWith enclosing items).map fun vs => underTag h.tag (.list vs)
  | .mapping h entries =>
    (fieldsWith enclosing entries).map fun fields => underTag h.tag (Value.ofPairs fields)
  | .alias _ _ _ target => valueWith enclosing target
  | .selfAlias _ _ _ number => enclosing number

/-- The values of the items of a list. -/
def itemsWith (enclosing : Nat → Except Stop Value) : List Node → Except Stop (List Value)
  | [] => .ok []
  | n :: ns => do
    let v ← valueWith enclosing n
    let vs ← itemsWith enclosing ns
    pure (v :: vs)

/-- The values of the entries of a mapping. -/
def fieldsWith (enclosing : Nat → Except Stop Value) :
    List (Node × Node) → Except Stop (List (String × Value))
  | [] => .ok []
  | (key, n) :: rest => do
    let v ← valueWith enclosing n
    let fields ← fieldsWith enclosing rest
    pure ((key.text, v) :: fields)

end

/-- The value of the list or mapping with a number, if no more than `depth` of them, each inside
    the one before, have to be gone into. -/
def valueWithin (scope : Scope) : (depth number : Nat) → Except Stop Value
  | 0, _ => .error .endless
  | depth + 1, number => valueWith (valueWithin scope depth) (scope.node number)

/-- The value of the list or mapping with a number.  Where one more than there are have to be
    gone into, one of them is inside itself and its value has no end. -/
def enclosingValue (scope : Scope) : Nat → Except Stop Value :=
  valueWithin scope (scope.length + 1)

/-- The value of a node. -/
def decodeValue (scope : Scope) : Node → Except Stop Value :=
  valueWith (enclosingValue scope)

/-! ## Texts -/

variable (scope : Scope)

/-- The texts of the items of a list of scalars. -/
def itemTexts : List Node → Except Stop (List String)
  | [] => .ok []
  | n :: ns =>
    match n.resolve scope with
    | .scalar _ text => (itemTexts ns).map (text :: ·)
    | other => .error (faultAt other .itemNotScalar)

/-- The texts of a list of scalars. -/
def texts (n : Node) : Except Stop (List String) :=
  match n with
  | .sequence _ items => itemTexts scope items
  | other => .error (faultAt other .notList)

/-- The text of a scalar as it is written, or the texts of a list with commas between
    them. -/
def rawText (n : Node) : Except Stop String :=
  match n with
  | .scalar _ text => .ok text
  | .sequence _ items => (itemTexts scope items).map (String.intercalate ",")
  | other => .error (faultAt other .notScalar)

/-- The truth values that `NoEcho` may have, in lower case. -/
def truth? (text : String) : Option Bool :=
  let t := Text.lower text
  if t = "1" || t = "t" || t = "true" then some true
  else if t = "0" || t = "f" || t = "false" then some false
  else none

/-! ## Declarations -/

/-- Reads one member of a parameter. -/
def parameterMember (p : Parameter) (key : String) (n : Node) : Except Stop Parameter :=
  if key = "Type" then .ok { p with type := n.text }
  else if key = "Description" then .ok { p with description := n.text }
  else if key = "Default" then (rawText scope n).map fun text => { p with default := some text }
  else if key = "AllowedValues" then
    (texts scope n).map fun values => { p with allowedValues := some values }
  else if key = "NoEcho" then
    match truth? n.text with
    | some b => .ok { p with noEcho := b }
    | none => .error (faultAt n (.noEchoNotBoolean n.text))
  else .ok p

/-- Reads one member of a resource. -/
def resourceMember (r : Resource) (key : String) (n : Node) : Except Stop Resource :=
  if key = "Type" then .ok { r with type := n.text }
  else if key = "Properties" then do
    match ← decodeValue scope n with
    | .object fields => pure { r with properties := some fields }
    | .prim .null => pure r
    | _ => throw (faultAt n .propertiesNotMapping)
  else if key = "DependsOn" then
    match n with
    | .scalar _ text => .ok { r with dependsOn := some [text] }
    | _ => (texts scope n).map fun names => { r with dependsOn := some names }
  else if key = "Condition" then .ok { r with condition := n.text }
  else if key = "DeletionPolicy" then .ok { r with deletionPolicy := n.text }
  else if key = "UpdateReplacePolicy" then .ok { r with updateReplacePolicy := n.text }
  else .ok r

/-- Reads one member of the export of an output. -/
def exportMember (o : Output) (key : String) (n : Node) : Except Stop Output :=
  if key = "Name" then (decodeValue scope n).map fun v => { o with exportName := v } else .ok o

/-- Reads one member of an output, and notes whether it is the value. -/
def outputMember (state : Output × Bool) (key : String) (n : Node) :
    Except Stop (Output × Bool) :=
  let (o, hasValue) := state
  if key = "Value" then (decodeValue scope n).map fun v => ({ o with value := v }, true)
  else if key = "Description" then .ok ({ o with description := n.text }, hasValue)
  else if key = "Condition" then .ok ({ o with condition := n.text }, hasValue)
  else if key = "Export" then do
    let members ← entriesOf scope n
    let o ← members.foldlM (fun o (key, n) => exportMember scope o key n) o
    pure (o, hasValue)
  else .ok (o, hasValue)

/-- Reads the members of a declaration one after the other. -/
def foldMembers {α : Type} (n : Node) (member : α → String → Node → Except Stop α)
    (start : α) : Except Stop α := do
  (← entriesOf scope n).foldlM (fun state (key, n) => member state key n) start

/-- The declaration of a parameter. -/
def decodeParameter (name : String) (n : Node) : Except Stop Parameter := do
  let p ← Stop.noting ("parameter " ++ Text.quote name)
    (foldMembers scope n (parameterMember scope) {})
  if p.type = "" then throw (faultAt n (.missingMember "parameter" name "Type"))
  pure p

/-- The declaration of a resource. -/
def decodeResource (name : String) (n : Node) : Except Stop Resource := do
  let r ← Stop.noting ("resource " ++ Text.quote name)
    (foldMembers scope n (resourceMember scope) {})
  if r.type = "" then throw (faultAt n (.missingMember "resource" name "Type"))
  pure r

/-- The declaration of an output. -/
def decodeOutput (name : String) (n : Node) : Except Stop Output := do
  let (o, hasValue) ← Stop.noting ("output " ++ Text.quote name)
    (foldMembers scope n (outputMember scope) ({}, false))
  if !hasValue then throw (faultAt n (.missingMember "output" name "Value"))
  pure o

/-- The expression of a condition. -/
def decodeCondition (name : String) (n : Node) : Except Stop Value :=
  Stop.noting ("condition " ++ Text.quote name) (decodeValue scope n)

/-! ## Lookup tables -/

/-- The leaf of a node. -/
def decodeLeaf (n : Node) : Except Stop Scalar :=
  let unsupported : Stop := faultAt n (.unsupportedLeaf n.tag)
  match n with
  | .scalar h text =>
    if h.tag = "!!int" then
      (scalarFault n (Yaml.Meaning.toWhole text)).map fun
        | .inl i => .int i
        | .inr x => .float x
    else if h.tag = "!!float" then (scalarFault n (Yaml.Meaning.toFloat text)).map .float
    else if h.tag = "!!bool" then (scalarFault n (Yaml.Meaning.toBool text)).map .bool
    else if h.tag = "!!str" then .ok (.string text)
    else .error unsupported
  | .sequence _ items => (itemTexts scope items).map .strings
  | _ => .error unsupported

/-- Puts a row into a table. -/
def decodeRow (table : LookupTable) (outer : String) (n : Node) : Except Stop LookupTable := do
  (← entriesOf scope n).foldlM
    (fun table (inner, leaf) => do
      let v ← Stop.noting (outer ++ "." ++ inner) (decodeLeaf scope leaf)
      pure (table.set outer inner v))
    (table.addOuter outer)

/-- The declaration of a mapping. -/
def decodeTable (name : String) (n : Node) : Except Stop LookupTable :=
  Stop.noting ("mapping " ++ Text.quote name)
    (foldMembers scope n (decodeRow scope) LookupTable.empty)

/-! ## Sections -/

/-- Reads the declarations of a section into those that are there. -/
def decodeSection {α : Type} (decode : String → Node → Except Stop α) (s : Section α)
    (n : Node) : Except Stop (Section α) := do
  let declared ← (← entriesOf scope n).foldlM
    (fun declared (name, n) => do pure (OrderedMap.insert declared name (← decode name n)))
    (s.getD .empty)
  pure (some declared)

/-- Reads one top-level entry of a template.  Entries that are not about the stack are
    passed over. -/
def decodeEntry (t : Template) (key : String) (n : Node) : Except Stop Template :=
  if key = "Description" then .ok { t with description := n.text }
  else Stop.noting key <|
    if key = "Parameters" then
      (decodeSection scope (decodeParameter scope) t.parameters n).map fun s =>
        { t with parameters := s }
    else if key = "Mappings" then
      (decodeSection scope (decodeTable scope) t.mappings n).map fun s =>
        { t with mappings := s }
    else if key = "Conditions" then
      (decodeSection scope (decodeCondition scope) t.conditions n).map fun s =>
        { t with conditions := s }
    else if key = "Resources" then
      (decodeSection scope (decodeResource scope) t.resources n).map fun s =>
        { t with resources := s }
    else if key = "Outputs" then
      (decodeSection scope (decodeOutput scope) t.outputs n).map fun s =>
        { t with outputs := s }
    else .ok t

/-- The template of a document tree. -/
def ofNode (root : Node) : Except Stop Template :=
  match root.resolve scope with
  | .mapping h entries => foldMembers scope (.mapping h entries) (decodeEntry scope) Template.blank
  | other => .error (faultAt other .rootNotMapping)

/-- The template of a document. -/
def parse (bytes : List UInt8) : Except Stop Template :=
  match Yaml.Document.ofBytes? bytes with
  | .error fault =>
    .error (.failed (.context "could not parse template" (.cause (.document fault))))
  | .ok none => .error (.failed (.cause (.template .empty)))
  | .ok (some document) => ofNode document.scope document.root

end StackIr.Template
