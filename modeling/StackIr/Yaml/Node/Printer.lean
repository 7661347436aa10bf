import StackIr.Failure
import StackIr.Yaml.Node.Build
import StackIr.Yaml.Page
import StackIr.Yaml.Presentation

/-! # Writing documents

    A document tree is written in block style: an entry or an item per line, indented by a
    fixed number of columns.  Strings that would be read as something else are quoted.
    Comments stand above, behind or below what they are about. -/

namespace StackIr.Yaml

open Presentation (TagShown)

namespace Printer

/-- The columns by which documents are indented.  Zero stands for four, and numbers that are
    not one digit above one stand for two. -/
def columns (indent : Nat) : Nat :=
  if indent = 0 then 4 else if indent < 2 || indent > 9 then 2 else indent

/-- Where a node stands: the column of the collection around it, if there is one, and
    whether that is a list. -/
structure Place where
  indent : Option Nat
  inSequence : Bool

/-- The column of what belongs to a node, from `top` outside all collections. -/
def Place.inner (place : Place) (columns top : Nat) : Nat :=
  match place.indent with
  | none => top
  | some indent =>
    if place.inSequence then indent + 2 else columns * ((indent + columns) / columns)

/-! ## Properties -/

def writeAnchor (mark : Char) (name : String) (p : Page) : Page :=
  (p.indicator [mark] true false false).put name.toList

def writeAnchor? (anchor : Option String) (p : Page) : Page :=
  match anchor with
  | some name => writeAnchor '&' name p
  | none => p

def writeTag (shown : TagShown) (p : Page) : Page :=
  match shown with
  | .written tag =>
    let (handle, rest) := Presentation.splitTag tag
    if handle = "" then
      ((p.indicator ['!', '<'] true false false).put (Presentation.tagText rest)).indicator ['>']
        false false false
    else
      let p := if p.blank then p else p.put [' ']
      { p.put (handle.toList ++ Presentation.tagText rest) with blank := false, fresh := false }
  | _ => p

/-! ## Scalars -/

/-- Writes a text in single quotes.  After a break the text goes on at `indent`. -/
def writeSingle (indent : Nat) (cs : List Char) (p : Page) : Page :=
  let write (state : Page × Bool) (c : Char) : Page × Bool :=
    let (p, broken) := state
    if isBreak c then (p.putBreak c, true)
    else
      let p := if broken then p.indentTo indent else p
      ({ p.put (if c == '\'' then ['\'', '\''] else [c]) with fresh := false }, false)
  let (p, _) := cs.foldl write (p.indicator ['\''] true false false, false)
  p.indicator ['\''] false false false

/-- The digit and the sign in the header of a literal block. -/
def literalHints (columns : Nat) (cs : List Char) : List Char :=
  (if cs.head?.any fun c => c == ' ' || isBreak c then Nat.toDigits 10 columns else []) ++
    match cs.reverse with
    | [] => ['-']
    | c :: rest =>
      if !isBreak c then ['-']
      else if rest.isEmpty || rest.head?.any isBreak then ['+']
      else []

/-- Writes a text as a literal block whose lines start at `indent`.  A comment stands behind
    the header.  A break at the start of the text ends the line of the header. -/
def writeLiteral (columns indent : Nat) (cs : List Char) (p : Page) : Page :=
  let write (state : Page × Bool) (c : Char) : Page × Bool :=
    let (p, broken) := state
    if isBreak c then (p.putBreak c, true)
    else
      let p := if broken then p.indentTo indent else p
      ({ p.put [c] with fresh := false }, false)
  let p := ((p.indicator ['|'] true false false).put (literalHints columns cs)).writeLine indent
  (cs.foldl write ({ p with blank := true }, true)).1

/-- Writes a text in a style. -/
def writeText (columns indent : Nat) (style : ScalarStyle) (cs : List Char) (p : Page) : Page :=
  match style with
  | .singleQuoted => writeSingle indent cs p
  | .doubleQuoted =>
    ((p.indicator ['"'] true false false).put (Presentation.doubleQuoted cs)).indicator ['"']
      false false false
  | .literal => writeLiteral columns indent cs p
  | _ =>
    if cs.isEmpty then { p with fresh := false }
    else
      let p := if p.blank then p else p.put [' ']
      { p.put cs with blank := false, fresh := false }

def writeScalar (columns : Nat) (place : Place) (simpleKey : Bool) (h : Header) (text : String)
    (p : Page) : Page :=
  let shown := Presentation.scalarTag h.tag text
  let style := Presentation.style text.toList (shown = .byQuotes) simpleKey
  writeText columns (place.inner columns columns) style text.toList
    (writeTag shown (writeAnchor? h.anchor p))

/-! ## Nodes -/

/-- The bytes of what is written before a node's content. -/
def propertiesSize (anchor : Option String) (shown : TagShown) : Nat :=
  (anchor.getD "").utf8ByteSize +
    match shown with
    | .written tag =>
      let (handle, rest) := Presentation.splitTag tag
      handle.utf8ByteSize + rest.utf8ByteSize
    | _ => 0

/-- Whether a key can be written on one line before its colon: it has no lines or entries of
    its own and at most 128 bytes. -/
def isSimpleKey : Node → Bool
  | .scalar h text =>
    !Presentation.hasBreaks text.toList &&
      propertiesSize h.anchor (Presentation.scalarTag h.tag text) + text.utf8ByteSize ≤ 128
  | .sequence h items =>
    items.isEmpty && propertiesSize h.anchor (Presentation.collectionTag h.tag "!!seq") ≤ 128
  | .mapping h entries =>
    entries.isEmpty && propertiesSize h.anchor (Presentation.collectionTag h.tag "!!map") ≤ 128
  | .alias _ name _ _ => name.utf8ByteSize ≤ 128
  | .selfAlias _ name _ _ => name.utf8ByteSize ≤ 128

def isAlias : Node → Bool
  | .alias .. => true
  | .selfAlias .. => true
  | _ => false

/-- Hands the comments to the page that are known when a node starts.  `tail` is the comment
    below the entry before it. -/
def noteStart (tail : List Char) : Node → Page → Page
  | .scalar h _, p => p.note h.comments tail
  | .sequence h _, p => p.note { head := h.comments.head } []
  | .mapping h _, p => p.note { head := h.comments.head } tail
  | .alias _ _ comments _, p => p.note comments []
  | .selfAlias _ _ comments _, p => p.note comments []

/-- Hands the comments to the page that are known when a collection ends. -/
def noteEnd (h : Header) (tail : List Char) (p : Page) : Page :=
  p.note { h.comments with head := [] } tail

/-- Writes a scalar or an alias, or what stands before the content of a collection. -/
def writeStart (columns : Nat) (place : Place) (simpleKey : Bool) : Node → Page → Page
  | .scalar h text, p => writeScalar columns place simpleKey h text p
  | .sequence h _, p =>
    writeTag (Presentation.collectionTag h.tag "!!seq") (writeAnchor? h.anchor p)
  | .mapping h _, p =>
    writeTag (Presentation.collectionTag h.tag "!!map") (writeAnchor? h.anchor p)
  | .alias _ name _ _, p => writeAnchor '*' name p
  | .selfAlias _ name _ _, p => writeAnchor '*' name p

/-- Writes a list without items. -/
def writeNoItems (place : Place) (h : Header) (p : Page) : Page :=
  let column := place.indent.getD 0
  let p := ((noteEnd h [] p).indicator ['['] true true false).indicator [']'] false false false
  (p.writeLine column).writeFoot column

/-- Writes a mapping without entries. -/
def writeNoEntries (columns : Nat) (place : Place) (h : Header) (p : Page) : Page :=
  let column := place.indent.getD 0
  let p := (noteEnd h [] p).indicator ['\x7b'] true true false
  let p := (p.writeHead (place.inner columns columns)).indicator ['\x7d'] false false false
  (p.writeLine column).writeFoot column

/-- A comment behind a key waits for the value. -/
def keepBehindKey (p : Page) : Page :=
  if p.waiting.line.isEmpty then p
  else { p with behindKey := p.waiting.line, waiting := { p.waiting with line := [] } }

/-- A comment behind a key goes behind a scalar that has none of its own, and before a
    collection. -/
def writeBehindKey (column : Nat) (value : Node) (p : Page) : Page :=
  if p.behindKey.isEmpty then p
  else
    match value with
    | .scalar .. =>
      if p.waiting.line.isEmpty then
        { p with waiting := { p.waiting with line := p.behindKey }, behindKey := [] }
      else p
    | .sequence .. | .mapping .. =>
      let line := p.waiting.line
      let p := { p with waiting := { p.waiting with line := p.behindKey } }.writeLine column
      { p with waiting := { p.waiting with line := line }, behindKey := [] }
    | _ => p

mutual

/-- Writes the content of a collection. -/
def writeContent (columns : Nat) (place : Place) : Node → Page → Page
  | .sequence h [], p => writeNoItems place h p
  | .sequence h (item :: items), p =>
    noteEnd h [] (writeItems columns (place.inner columns 0) (item :: items) p)
  | .mapping h [], p => writeNoEntries columns place h p
  | .mapping h (entry :: entries), p =>
    writeEntries columns (place.inner columns 0) h [] (entry :: entries) p
  | _, p => p

/-- Writes the items of a list. -/
def writeItems (columns indent : Nat) : List Node → Page → Page
  | [], p => p
  | item :: items, p =>
    let place : Place := ⟨some indent, true⟩
    let p := (((noteStart [] item p).writeHead indent).indentTo indent).indicator ['-']
      true false true
    let p := ((writeStart columns place false item p).writeLine indent).writeFoot indent
    writeItems columns indent items (writeContent columns place item p)

/-- Writes the entries of a mapping with a header.  `tail` is the comment below the entry
    before them. -/
def writeEntries (columns indent : Nat) (h : Header) (tail : List Char) :
    List (Node × Node) → Page → Page
  | [], p => (noteEnd h tail p).writeHead indent
  | (key, value) :: entries, p =>
    let place : Place := ⟨some indent, false⟩
    let p := ((noteStart tail (key.withFoot []) p).writeHead indent).indentTo indent
    let p := keepBehindKey p
    let p :=
      if isSimpleKey key then
        let p := writeContent columns place key (writeStart columns place true key p)
        let p := noteStart [] value (if isAlias key then p.put [' '] else p)
        p.indicator [':'] false false false
      else
        let p := p.indicator ['?'] true false true
        let p := writeContent columns place key (writeStart columns place false key p)
        ((noteStart [] value p).indentTo indent).indicator [':'] true false true
    let p := writeBehindKey indent value p
    let p := ((writeStart columns place false value p).writeLine indent).writeFoot indent
    writeEntries columns indent h key.foot entries (writeContent columns place value p)

end

end Printer

/-- The text of a document, indented by `indent` columns. -/
def Document.render (indent : Nat) (d : Document) : String :=
  let columns := Printer.columns indent
  let place : Printer.Place := ⟨none, false⟩
  let page : Page := {}
  let p :=
    if d.head.isEmpty then page
    else ((page.note { head := d.head } []).writeHead 0).breakLine
  let p := (Printer.noteStart [] d.root p).writeHead 0
  let p := ((Printer.writeStart columns place false d.root p).writeLine 0).writeFoot 0
  let p := (Printer.writeContent columns place d.root p).note { foot := d.foot } []
  let p := { p with footColumn := some 0 }.writeFoot 0
  ({ p with footColumn := none }.indentTo 0).toString

/-- The text of a document without a root. -/
def emptyText : String := "null\n"

/-- The text of a document in block style. -/
def reformat (indent : Nat) (bytes : List UInt8) : Except Failure String :=
  match Document.ofBytes? bytes with
  | .error fault => noting "could not read JSON" (.error (.cause (.document fault)))
  | .ok none => .ok emptyText
  | .ok (some document) => .ok (document.render indent)

/-- An indent that is not accepted. -/
inductive BadIndent where
  | negative
  deriving DecidableEq, Repr

def BadIndent.message : BadIndent → String
  | .negative => "yaml: cannot indent to a negative number of spaces"

/-- The text of a document in block style, with an indent that may be negative.  The indent is
    looked at when the document has been read. -/
def reformatBy (indent : Int) (bytes : List UInt8) : Except BadIndent (Except Failure String) :=
  match reformat indent.toNat bytes with
  | .error failure => .ok (.error failure)
  | .ok text => if indent < 0 then .error .negative else .ok (.ok text)

end StackIr.Yaml
