import StackIr.Yaml.Resolution
import StackIr.Yaml.Token

/-! # Documents as trees

    A node is a scalar, a list, a mapping, or an alias of a node that starts earlier.  The
    entries of a mapping keep their order and may repeat a key.

    An alias has a copy of its target, except where it stands inside the target: there is no
    such tree.  It has the number of the target instead, and a document comes with the nodes
    that have numbers (`Scope`). -/

namespace StackIr.Yaml

/-- What every node but an alias has. -/
structure Header where
  /-- The line of its first token, counted from one. -/
  line : Nat
  anchor : Option String
  /-- Its tag, given or implied. -/
  tag : String
  comments : Comments := {}
  deriving DecidableEq, Repr

/-- A node of a document. -/
inductive Node where
  | scalar (header : Header) (text : String)
  | sequence (header : Header) (items : List Node)
  | mapping (header : Header) (entries : List (Node × Node))
  | alias (line : Nat) (name : String) (comments : Comments) (target : Node)
  /-- An alias that stands inside the list or mapping it refers to, with the number of that. -/
  | selfAlias (line : Nat) (name : String) (comments : Comments) (number : Nat)
  deriving Repr

namespace Node

/-- The text of a scalar, the name of an alias itself, and nothing for other nodes. -/
def text : Node → String
  | .scalar _ text => text
  | .alias _ name _ _ => name
  | .selfAlias _ name _ _ => name
  | .sequence .. => ""
  | .mapping .. => ""

def line : Node → Nat
  | .scalar h _ => h.line
  | .sequence h _ => h.line
  | .mapping h _ => h.line
  | .alias line _ _ _ => line
  | .selfAlias line _ _ _ => line

def tag : Node → String
  | .scalar h _ => h.tag
  | .sequence h _ => h.tag
  | .mapping h _ => h.tag
  | .alias .. => ""
  | .selfAlias .. => ""

/-- Whether a node is a list or a mapping. -/
def isCollection : Node → Bool
  | .sequence .. => true
  | .mapping .. => true
  | _ => false

def comments : Node → Comments
  | .scalar h _ => h.comments
  | .sequence h _ => h.comments
  | .mapping h _ => h.comments
  | .alias _ _ comments _ => comments
  | .selfAlias _ _ comments _ => comments

/-- The node with other comments. -/
def withComments (comments : Comments) : Node → Node
  | .scalar h text => .scalar { h with comments := comments } text
  | .sequence h items => .sequence { h with comments := comments } items
  | .mapping h entries => .mapping { h with comments := comments } entries
  | .alias line name _ target => .alias line name comments target
  | .selfAlias line name _ number => .selfAlias line name comments number

/-- The comment below a node. -/
def foot (n : Node) : List Char :=
  n.comments.foot

/-- The node with another comment below it. -/
def withFoot (foot : List Char) (n : Node) : Node :=
  n.withComments { n.comments with foot := foot }

end Node

/-- A list or a mapping. -/
structure Collection where
  node : Node
  isCollection : node.isCollection = true
  deriving Repr

/-- A list without items on no line. -/
def Collection.empty : Collection :=
  ⟨.sequence { line := 0, anchor := none, tag := "!!seq" } [], rfl⟩

/-- The lists and mappings of a document that have an anchor, with their numbers. -/
abbrev Scope := List (Nat × Collection)

namespace Scope

/-- The list or mapping with a number.  A number that none has stands for an empty list. -/
def collection (scope : Scope) (number : Nat) : Collection :=
  (scope.lookup number).getD .empty

/-- The node with a number. -/
def node (scope : Scope) (number : Nat) : Node :=
  (scope.collection number).node

end Scope

/-- The node that an alias refers to. -/
def Node.resolve (scope : Scope) : Node → Node
  | .alias _ _ _ target => target.resolve scope
  | .selfAlias _ _ _ number => scope.node number
  | n => n

/-- A document: its root, the nodes that aliases inside them refer to, and the comments above
    and below that belong to no node. -/
structure Document where
  root : Node
  scope : Scope := []
  head : List Char := []
  foot : List Char := []
  deriving Repr

end StackIr.Yaml
