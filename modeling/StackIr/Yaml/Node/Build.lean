import StackIr.Yaml.Node
import StackIr.Yaml.Token.Scanner

/-! # From tokens to nodes

    The first document of a text as a tree.  What comes after it is not looked at.

    The comments that come with tokens are collected, and a node takes what is there when it
    starts or, for a collection that is closed by a token of its own, when it ends. -/

namespace StackIr.Yaml

/-- What an anchor names: a node that was read, or the number of one that is being read. -/
inductive Anchored where
  | read (n : Node)
  | reading (number : Nat)

/-- What is left of the tokens, and what the nodes read so far have named. -/
structure Reading where
  tokens : List Token
  fault : Option Fault
  anchors : List (String × Anchored) := []
  /-- How many lists and mappings with an anchor were started. -/
  started : Nat := 0
  /-- Those of them that were read to their end. -/
  scope : Scope := []
  /-- What the handles of tags stand for. -/
  handles : List (String × String) := []
  /-- The comments that no node has taken. -/
  comments : Comments := {}
  /-- The comment above an item of a list that is a collection itself. -/
  stem : List Char := []

abbrev Build := StateT Reading (Except Fault)

namespace Build

/-- The next token.  Its comments are collected. -/
def peek : Build Token := do
  let r ← get
  match r.tokens with
  | t :: rest =>
    set { r with
      tokens := { t with comments := [] } :: rest
      comments := t.comments.foldl Comments.add r.comments }
    pure t
  | [] => throw (r.fault.getD (.general "unexpected end of tokens"))

/-- Passes over the next token. -/
def advance : Build Unit :=
  modify fun r => { r with tokens := r.tokens.drop 1 }

/-! ## Comments -/

/-- Takes the comments that were collected. -/
def takeComments : Build Comments :=
  modifyGet fun r => (r.comments, { r with comments := {}, stem := [] })

/-- Takes the comment above an item that is a collection itself. -/
def takeStem : Build Comments :=
  modifyGet fun r => ({ head := r.stem }, { r with stem := [] })

/-- Passes over the dash of an item.  If the item is a block collection, the comment above
    the dash is set apart from those above the collection's first entry. -/
def passDash : Build Unit := do
  let above := (← get).comments.head
  advance
  if !above.isEmpty then
    match (← peek).kind with
    | .blockSequenceStart | .blockMappingStart =>
      modify fun r => { r with
        stem := above
        comments := { r.comments with head := r.comments.head.drop (above.length + 1) } }
    | _ => pure ()

/-- Moves the comment below a key to the key before it, where there is one.  The entries
    come last first. -/
def raiseFoot (key : Node) : List (Node × Node) → Node × List (Node × Node)
  | [] => (key, [])
  | (k, v) :: entries =>
    if key.foot.isEmpty then (key, (k, v) :: entries)
    else (key.withFoot [], (k.withFoot key.foot, v) :: entries)

/-- Moves the comment below a value to its key, unless that has one. -/
def lowerFoot (key value : Node) : Node × Node :=
  if key.foot.isEmpty && !value.foot.isEmpty then (key.withFoot value.foot, value.withFoot [])
  else (key, value)

/-- Moves the comment at the end of a mapping to its last key.  The entries come last
    first. -/
def endFoot (comments : Comments) : List (Node × Node) → Comments × List (Node × Node)
  | [] => (comments, [])
  | (k, v) :: entries =>
    if comments.foot.isEmpty then (comments, (k, v) :: entries)
    else ({ comments with foot := [] }, (k.withFoot comments.foot, v) :: entries)

/-! ## Anchors and tags -/

/-- Puts an entry into an association list, in place of one with the same name. -/
def put {α : Type} (name : String) (value : α) (entries : List (String × α)) :
    List (String × α) :=
  (name, value) :: entries.filter (·.1 != name)

/-- The properties before a node. -/
structure Properties where
  line : Nat
  anchor : Option String := none
  tag : String := ""

/-- The tag of a node whose properties give none, and otherwise theirs. -/
def Properties.tagOr (p : Properties) (implied : String) : String :=
  if p.tag = "" || p.tag = "!" then implied else shortTag p.tag

def Properties.header (p : Properties) (implied : String) (comments : Comments) : Header :=
  ⟨p.line + 1, p.anchor, p.tagOr implied, comments⟩

/-- The full tag of a handle and a suffix. -/
def expandTag (line : Nat) (handle suffix : String) : Build String := do
  if handle = "" then pure suffix
  else
    match (← get).handles.lookup handle with
    | some start => pure (start ++ suffix)
    | none => throw (.structural line line "found undefined tag handle")

/-- Reads an anchor and a tag in either order. -/
def readProperties : Build Properties := do
  let first ← peek
  match first.kind with
  | .anchor name =>
    advance
    let t ← peek
    match t.kind with
    | .tag handle suffix =>
      advance
      pure ⟨first.line, some name, ← expandTag t.line handle suffix⟩
    | _ => pure ⟨first.line, some name, ""⟩
  | .tag handle suffix =>
    advance
    let tag ← expandTag first.line handle suffix
    let t ← peek
    match t.kind with
    | .anchor name =>
      advance
      pure ⟨first.line, some name, tag⟩
    | _ => pure ⟨first.line, none, tag⟩
  | _ => pure ⟨first.line, none, ""⟩

/-- Names a scalar. -/
def nameScalar (anchor : Option String) (n : Node) : Build Node := do
  if let some name := anchor then
    modify fun r => { r with anchors := put name (.read n) r.anchors }
  pure n

/-- Names a list or a mapping before its contents are read, and numbers it. -/
def announce (anchor : Option String) : Build Nat :=
  modifyGet fun r =>
    match anchor with
    | some name => (r.started, { r with
        anchors := put name (.reading r.started) r.anchors
        started := r.started + 1 })
    | none => (r.started, r)

/-- Names a list or a mapping when it is complete, unless a node inside it took the name, and
    keeps it for the aliases inside it. -/
def complete (anchor : Option String) (number : Nat) (c : Collection) : Build Node := do
  if let some name := anchor then
    modify fun r => { r with scope := (number, c) :: r.scope }
    if let some (.reading _) := (← get).anchors.lookup name then
      modify fun r => { r with anchors := put name (.read c.node) r.anchors }
  pure c.node

/-- The alias of a node that was named before. -/
def aliasOf (line : Nat) (name : String) : Build Node := do
  let comments ← takeComments
  match (← get).anchors.lookup name with
  | some (.read n) => pure (.alias (line + 1) name comments n)
  | some (.reading number) => pure (.selfAlias (line + 1) name comments number)
  | none => throw (.general ("unknown anchor '" ++ name ++ "' referenced"))

/-! ## Nodes -/

/-- A scalar where nothing is written. -/
def emptyScalar (line : Nat) : Node :=
  .scalar { line := line + 1, anchor := none, tag := "!!null" } ""

/-- A scalar with its properties. -/
def scalarNode (p : Properties) (text : String) (style : ScalarStyle) (comments : Comments) :
    Build Node := do
  let implied :=
    if style = .plain then
      if text = "<<" then "!!merge" else Meaning.implicitTag text
    else "!!str"
  nameScalar p.anchor (.scalar (p.header implied comments) text)

/-- A collection with its properties.  `read` reads what is in it and the comments at its end,
    and `make` puts it together. -/
def collectionNode {α : Type} (implied : String) (make : Header → List α → Collection)
    (p : Properties) (head : List Char) (read : Build (List α × Comments)) : Build Node := do
  let number ← announce p.anchor
  let (parts, comments) ← read
  complete p.anchor number (make (p.header implied { comments with head := head }) parts)

/-- A list with its properties. -/
def sequenceNode : Properties → List Char → Build (List Node × Comments) → Build Node :=
  collectionNode "!!seq" fun h items => ⟨.sequence h items, rfl⟩

/-- A mapping with its properties. -/
def mappingNode : Properties → List Char → Build (List (Node × Node) × Comments) → Build Node :=
  collectionNode "!!map" fun h entries => ⟨.mapping h entries, rfl⟩

/-- Comes to the next part of a collection in flow style, or to its end.  Between two parts is a
    comma, and there may be one before the end. -/
def flowEnds (close : TokenKind) (message : String) (start : Nat) (first : Bool) : Build Bool := do
  let t ← peek
  if t.kind = close then pure true
  else
    if !first then
      if t.kind = .flowEntry then advance
      else throw (.structural start t.line message)
    pure ((← peek).kind = close)

mutual

/-- Reads a node.  `block` tells whether it may be a block collection, and `indentless`
    whether it may be a list at the indentation of its key. -/
def readNode : (fuel : Nat) → (block indentless : Bool) → Build Node
  | 0, _, _ => throw (.general "too many tokens")
  | fuel + 1, block, indentless => do
    let first ← peek
    if let .alias name := first.kind then
      advance
      aliasOf first.line name
    else
      let p ← readProperties
      let t ← peek
      let otherwise : Build Node :=
        if p.anchor.isSome || p.tag ≠ "" then scalarNode p "" .plain {}
        else throw (.structural p.line t.line "did not find expected node content")
      match t.kind with
      | .blockEntry =>
        if indentless then sequenceNode p [] (readIndentless fuel []) else otherwise
      | .scalar text style =>
        advance
        scalarNode p text style (← takeComments)
      | .flowSequenceStart =>
        advance
        sequenceNode p (← takeComments).head (readFlowSequence fuel t.line true [])
      | .flowMappingStart =>
        advance
        mappingNode p (← takeComments).head (readFlowMapping fuel t.line true [])
      | .blockSequenceStart =>
        if block then
          advance
          sequenceNode p (← takeStem).head (readBlockSequence fuel t.line [])
        else otherwise
      | .blockMappingStart =>
        if block then
          advance
          mappingNode p (← takeStem).head (readBlockMapping fuel t.line [])
        else otherwise
      | _ => otherwise

/-- Reads the items of a block list.  `sofar` holds those read, last first. -/
def readBlockSequence : (fuel : Nat) → (start : Nat) → (sofar : List Node) →
    Build (List Node × Comments)
  | 0, _, _ => throw (.general "too many tokens")
  | fuel + 1, start, sofar => do
    let t ← peek
    match t.kind with
    | .blockEntry =>
      passDash
      let item ←
        match (← peek).kind with
        | .blockEntry | .blockEnd => pure (emptyScalar t.line)
        | _ => readNode fuel true false
      readBlockSequence fuel start (item :: sofar)
    | .blockEnd =>
      advance
      pure (sofar.reverse, {})
    | _ => throw (.structural start t.line "did not find expected '-' indicator")

/-- Reads the items of a list at the indentation of its key. -/
def readIndentless : (fuel : Nat) → (sofar : List Node) → Build (List Node × Comments)
  | 0, _ => throw (.general "too many tokens")
  | fuel + 1, sofar => do
    let t ← peek
    match t.kind with
    | .blockEntry =>
      passDash
      let item ←
        match (← peek).kind with
        | .blockEntry | .key | .value | .blockEnd => pure (emptyScalar t.line)
        | _ => readNode fuel true false
      readIndentless fuel (item :: sofar)
    | _ => pure (sofar.reverse, {})

/-- Reads the entries of a block mapping.  `sofar` holds those read, last first. -/
def readBlockMapping : (fuel : Nat) → (start : Nat) → (sofar : List (Node × Node)) →
    Build (List (Node × Node) × Comments)
  | 0, _, _ => throw (.general "too many tokens")
  | fuel + 1, start, sofar => do
    let t ← peek
    match t.kind with
    | .key =>
      advance
      let key ←
        match (← peek).kind with
        | .key | .value | .blockEnd => pure (emptyScalar t.line)
        | _ => readNode fuel true true
      let (key, sofar) := raiseFoot key sofar
      let t ← peek
      let value ←
        if t.kind = .value then do
          advance
          match (← peek).kind with
          | .key | .value | .blockEnd => pure (emptyScalar t.line)
          | _ => readNode fuel true true
        else pure (emptyScalar t.line)
      readBlockMapping fuel start (lowerFoot key value :: sofar)
    | .blockEnd =>
      advance
      let (comments, sofar) := endFoot (← takeComments) sofar
      pure (sofar.reverse, comments)
    | _ => throw (.structural start t.line "did not find expected key")

/-- Reads the items of a flow list. -/
def readFlowSequence : (fuel : Nat) → (start : Nat) → (first : Bool) → (sofar : List Node) →
    Build (List Node × Comments)
  | 0, _, _, _ => throw (.general "too many tokens")
  | fuel + 1, start, first, sofar => do
    if ← flowEnds .flowSequenceEnd "did not find expected ',' or ']'" start first then
      advance
      pure (sofar.reverse, ← takeComments)
    else
      let t ← peek
      match t.kind with
      | .key =>
        advance
        let entry ← readPair fuel
        let pair := Node.mapping { line := t.line + 1, anchor := none, tag := "!!map" } [entry]
        readFlowSequence fuel start false (pair :: sofar)
      | _ =>
        let item ← readNode fuel false false
        readFlowSequence fuel start false (item :: sofar)

/-- Reads the one entry of a mapping that is an item of a flow list.  Where its key is
    missing the token after it is passed over. -/
def readPair : (fuel : Nat) → Build (Node × Node)
  | 0 => throw (.general "too many tokens")
  | fuel + 1 => do
    let t ← peek
    let key ←
      match t.kind with
      | .value | .flowEntry | .flowSequenceEnd =>
        advance
        pure (emptyScalar t.line)
      | _ => readNode fuel false false
    let t ← peek
    let value ←
      if t.kind = .value then do
        advance
        match (← peek).kind with
        | .flowEntry | .flowSequenceEnd => pure (emptyScalar t.line)
        | _ => readNode fuel false false
      else pure (emptyScalar t.line)
    let _ ← peek
    pure (lowerFoot key value)

/-- Reads the entries of a flow mapping. -/
def readFlowMapping : (fuel : Nat) → (start : Nat) → (first : Bool) →
    (sofar : List (Node × Node)) → Build (List (Node × Node) × Comments)
  | 0, _, _, _ => throw (.general "too many tokens")
  | fuel + 1, start, first, sofar => do
    if ← flowEnds .flowMappingEnd "did not find expected ',' or '\x7d'" start first then
      advance
      pure (sofar.reverse, ← takeComments)
    else
      match (← peek).kind with
      | .key =>
        advance
        let t ← peek
        let key ←
          match t.kind with
          | .value | .flowEntry | .flowMappingEnd => pure (emptyScalar t.line)
          | _ => readNode fuel false false
        let t ← peek
        let value ←
          if t.kind = .value then do
            advance
            let t ← peek
            match t.kind with
            | .flowEntry | .flowMappingEnd => pure (emptyScalar t.line)
            | _ => readNode fuel false false
          else pure (emptyScalar t.line)
        readFlowMapping fuel start false (lowerFoot key value :: sofar)
      | _ =>
        let key ← readNode fuel false false
        let value := emptyScalar (← peek).line
        readFlowMapping fuel start false (lowerFoot key value :: sofar)

end

/-! ## Documents -/

/-- The handles that every document has. -/
def commonHandles : List (String × String) :=
  [("!", "!"), ("!!", "tag:yaml.org,2002:")]

/-- Reads the directives before a document: at most one version, which is 1.1, and what
    handles stand for, each at most once. -/
def readDirectives : (fuel : Nat) → (version : Bool) → (handles : List (String × String)) →
    Build (List (String × String))
  | 0, _, handles => pure handles
  | fuel + 1, version, handles => do
    let t ← peek
    match t.kind with
    | .versionDirective major minor =>
      if version then throw (.structural 0 t.line "found duplicate %YAML directive")
      if major ≠ 1 || minor ≠ 1 then
        throw (.structural 0 t.line "found incompatible YAML document")
      advance
      readDirectives fuel true handles
    | .tagDirective handle start =>
      if (handles.lookup handle).isSome then
        throw (.structural 0 t.line "found duplicate %TAG directive")
      advance
      readDirectives fuel version (handles ++ [(handle, start)])
    | _ => pure handles

/-- Parts the comment above the first node at its last empty line: what stands above that is
    about the document.  The comment comes last character first. -/
def splitHead : (below : List Char) → List Char → Option (List Char × List Char)
  | [], '\n' :: c :: above => some ((c :: above).reverse, [])
  | below, '\n' :: '\n' :: c :: above => some ((c :: above).reverse, below)
  | below, c :: above => splitHead (c :: below) above
  | _, [] => none

/-- Takes the comment that is about the document. -/
def takeHead : Build (List Char) :=
  modifyGet fun r =>
    match splitHead [] r.comments.head.reverse with
    | some (head, below) => (head, { r with comments := { r.comments with head := below } })
    | none => ([], r)

/-- Reads the root of a document, and the comment above that is about the document. -/
def readRoot : Build (Node × List Char) := do
  let fuel := 2 * (← get).tokens.length + 4
  let t ← peek
  match t.kind with
  | .versionDirective .. | .tagDirective .. | .documentStart =>
    let handles ← readDirectives fuel false []
    modify fun r => { r with handles := handles ++ commonHandles }
    let t ← peek
    if t.kind ≠ .documentStart then
      throw (.structural 0 t.line "did not find expected <document start>")
    advance
    let t ← peek
    match t.kind with
    | .versionDirective .. | .tagDirective .. | .documentStart | .documentEnd | .streamEnd =>
      pure (emptyScalar t.line, [])
    | _ => pure (← readNode fuel true false, [])
  | _ =>
    modify fun r => { r with handles := commonHandles }
    let head ← takeHead
    pure (← readNode fuel true false, head)

/-- Reads the first document, if there is one, and looks at what follows its root. -/
def readDocument : Build (Option Document) := do
  if (← peek).kind = .streamEnd then pure none
  else
    let (root, head) ← readRoot
    let _ ← peek
    let comments ← takeComments
    let foot := if comments.foot.isEmpty then comments.head else comments.foot
    pure (some { root := root, scope := (← get).scope, head := head, foot := foot })

end Build

/-- The first document of a text. -/
def Document.ofInput? (input : Input) : Except Fault (Option Document) := do
  let r := scan input
  let (document, _) ← Build.readDocument.run { tokens := r.tokens, fault := r.fault }
  pure document

/-- The first document of some bytes. -/
def Document.ofBytes? (bytes : List UInt8) : Except Fault (Option Document) :=
  Document.ofInput? (Input.ofBytes bytes)

end StackIr.Yaml
