import StackIr.Yaml.Encoding
import StackIr.Yaml.Token.Block
import StackIr.Yaml.Token.Plain
import StackIr.Yaml.Token.Properties
import StackIr.Yaml.Token.Queue
import StackIr.Yaml.Token.Quoted
import StackIr.Yaml.Token.Remarks

/-! # Reading tokens

    The scanner reads one piece of a document at a time and adds the tokens it stands for.
    Whether a scalar or a collection is a key is known only at the colon behind it, so the
    scanner remembers the place of the last token that may turn out to be one, and the
    `key` token is put there afterwards.  A key has to be on one line with its colon and
    within 1024 characters.

    Tokens are handed out while the text is still being read, two tokens behind the reading.
    A token that may be a key waits until that is known.  A bracket is the exception: if
    nothing inside the brackets could be a key, it waits only for the closing one.  A colon
    that comes later finds the bracket gone, and its `key` token goes to the end. -/

namespace StackIr.Yaml

/-- A token that may turn out to be a key. -/
structure PossibleKey where
  /-- Whether the document is wrong if it is not one. -/
  required : Bool
  /-- The number of tokens before it. -/
  number : Nat
  mark : Mark
  /-- Whether it is kept back until it is known to be a key or not. -/
  waits : Bool := true
  deriving Repr

/-- The keys at one depth of flow collections. -/
structure KeyLevel where
  key : Option PossibleKey := none
  /-- The number of the last token at this depth that could be a key, and before there is
      one that of the bracket around it. -/
  last : Nat := 0
  deriving Repr

/-- The token with a number need not wait any longer. -/
def KeyLevel.letGo (number : Nat) (l : KeyLevel) : KeyLevel :=
  { l with key := l.key.map fun k => { k with waits := k.waits && k.number != number } }

/-- The state of reading. -/
structure Scanner where
  cursor : Cursor
  /-- What is wrong with the bytes after the text, if anything. -/
  fault : Option Fault := none
  /-- Whether the mark of the byte order that a text may start with is still in view.  While
      it is, a line loses its first character. -/
  marked : Bool := false
  /-- The number of characters of the first piece of the text. -/
  firstPiece : Nat := 0
  queue : TokenQueue := {}
  /-- The column of the innermost block, -1 outside all blocks. -/
  indent : Int := -1
  outerIndents : List Int := []
  /-- Whether the next token may be a key. -/
  keyAllowed : Bool := true
  /-- The keys of the innermost flow collection, and of those around it. -/
  level : KeyLevel := {}
  outerLevels : List KeyLevel := []
  finished : Bool := false

namespace Scanner

/-- The deepest nesting of collections. -/
def depthLimit : Nat := 10000

def inFlow (s : Scanner) : Bool :=
  !s.outerLevels.isEmpty

def line (s : Scanner) : Nat :=
  s.cursor.line

def column (s : Scanner) : Nat :=
  s.cursor.column

/-- Adds a token. -/
def push (s : Scanner) (mark : Mark) (kind : TokenKind) : Scanner :=
  { s with queue := s.queue.push { mark := mark, kind := kind } }

/-- Adds a token before those that came after the first `number`. -/
def pushAt (s : Scanner) (number : Nat) (mark : Mark) (kind : TokenKind) : Scanner :=
  { s with queue := s.queue.pushAt number { mark := mark, kind := kind } }

/-- Adds a token that starts here and goes on to a cursor. -/
def pushTo (s : Scanner) (kind : TokenKind) (c : Cursor) : Scanner :=
  { s.push s.cursor.mark kind with cursor := c }

/-- Adds a token of one character. -/
def pushChar (s : Scanner) (kind : TokenKind) : Scanner :=
  s.pushTo kind (s.cursor.skip 1)

/-! ## Keys -/

/-- Whether a possible key is near enough to be followed by its colon here. -/
def inReach (s : Scanner) (k : PossibleKey) : Bool :=
  k.mark.line == s.line && s.cursor.mark.index ≤ k.mark.index + 1024

/-- What is wrong when a required key is not followed by a colon. -/
def missingColon (s : Scanner) (k : PossibleKey) : Fault :=
  .lexical k.mark.line s.line "could not find expected ':'"

def forgetKey (s : Scanner) : Scanner :=
  { s with level := { s.level with key := none } }

/-- Forgets the possible key, which must not be a required one. -/
def dropKey (s : Scanner) : Except Fault Scanner :=
  match s.level.key with
  | some k => if k.required then .error (s.missingColon k) else .ok s.forgetKey
  | none => .ok s

/-- Remembers that the next token may be a key. -/
def saveKey (s : Scanner) : Except Fault Scanner :=
  if s.keyAllowed then do
    let s ← s.dropKey
    let required := !s.inFlow && s.indent == s.column
    let number := s.queue.count
    pure { s with
      level := { key := some ⟨required, number, s.cursor.mark, true⟩, last := number } }
  else .ok s

/-! ## Indentation -/

/-- Where the block in a column ends: before the comments in its column, given last first,
    if there are only gaps and comments between them and `stop`, and otherwise at `mark`. -/
def blockEnd (column : Int) : List Comment → (stop : Nat) → Mark → Mark
  | [], _, mark => mark
  | c :: rest, stop, mark =>
    if c.finish < stop then mark
    else
      blockEnd column rest c.searched
        (if (c.start.column : Int) = column + 1 then c.start else mark)

/-- Closes the blocks that are indented further than `column`. -/
def unroll (column : Int) : List Int → Mark → Scanner → Scanner
  | [], _, s => s
  | outer :: rest, mark, s =>
    if column < s.indent then
      let mark := blockEnd s.indent s.queue.comments.reverse mark.index mark
      let s' := s.push mark .blockEnd
      unroll column rest mark { s' with indent := outer, outerIndents := rest }
    else s

/-- Closes the blocks that are indented further than `column`, outside flow collections.
    They end right before `mark`. -/
def closeBlocks (s : Scanner) (column : Int) (mark : Mark) : Scanner :=
  if s.inFlow then s
  else unroll column s.outerIndents { mark with index := mark.index - 1 } s

/-- Opens a block at a column, unless the innermost block is already there.  Its token
    comes before those that came after the first `number`. -/
def openBlock (s : Scanner) (number : Nat) (mark : Mark) (kind : TokenKind) :
    Except Fault Scanner :=
  if s.inFlow || (mark.column : Int) ≤ s.indent then .ok s
  else if s.outerIndents.length ≥ depthLimit then
    .error (.lexical mark.line s.line "exceeded max depth of 10000")
  else
    .ok { s.pushAt number mark kind with
      indent := mark.column, outerIndents := s.indent :: s.outerIndents }

/-- Opens a block here, unless the innermost block is already there. -/
def openBlockHere (s : Scanner) (kind : TokenKind) : Except Fault Scanner :=
  s.openBlock s.queue.count s.cursor.mark kind

/-! ## Gaps and comments -/

/-- Reads the comments at a cursor in the gap that starts at `gap`. -/
def takeComments (gap : Mark) (s : Scanner) (c : Cursor) : Scanner :=
  let token := s.queue.lastBeforeComma?
  let below := c.line - c.breaks + 1 + if c.breaks = 0 && c.column > 1 then 1 else 0
  let around : Surroundings :=
    { inFlow := s.inFlow
      indent := s.indent.toNat
      footLine := if gap.column > 0 then some below else none
      awaitsValue := token.any (·.kind = .value) }
  let since := (token.map (·.mark.index)).getD 0
  let (comments, c) := readComments around gap since c
  { s with cursor := c, queue := comments.foldl (fun q c => q.addComment c) s.queue }

/-- Passes over the gap that starts at `gap`, and the comments in it, to the next token.
    Tabs count as gaps only where no key may start. -/
def toNextToken (gap : Mark) : (fuel : Nat) → Scanner → Scanner
  | 0, s => s
  | fuel + 1, s =>
    let c := s.cursor
    let c := if s.marked && c.column == 0 then c.skip 1 else c
    let tabs := s.inFlow || !s.keyAllowed
    let c := c.skipWhile fun x => x == ' ' || (tabs && x == '\t')
    let s := if c.isAt '#' then s.takeComments gap c else { s with cursor := c }
    if s.cursor.peek?.any isBreak then
      toNextToken gap fuel
        { s with cursor := s.cursor.skipBreak, keyAllowed := s.keyAllowed || !s.inFlow }
    else s

/-- Takes a comment on the same line, for the token that starts at `since`. -/
def takeLineComment (since : Nat) (s : Scanner) : Scanner :=
  let blanks := (s.cursor.rest.takeWhile isBlank).length
  if s.cursor.breaks > 0 || blanks ≥ Remarks.reach then s
  else
    match (s.cursor.skip blanks).takeComment with
    | (some (start, text), c) =>
      { s with
        cursor := c
        queue := s.queue.addComment
          { place := .line, text := text, since := since, start := start } }
    | (none, _) => s

/-! ## Tokens -/

/-- The end of the document's text, which ends the last line. -/
def readEnd (s : Scanner) : Except Fault Scanner := do
  let s := if s.column = 0 then s else { s with cursor := s.cursor.nextLine 0 }
  let s := s.closeBlocks (-1) s.cursor.mark
  let s ← s.dropKey
  pure { s.push s.cursor.mark .streamEnd with keyAllowed := false, finished := true }

def readDirective (s : Scanner) : Except Fault Scanner := do
  let s := s.closeBlocks (-1) s.cursor.mark
  let s ← s.dropKey
  let (kind, c) ← Properties.readDirective s.cursor
  pure { s.pushTo kind c with keyAllowed := false }

def readMarker (s : Scanner) (kind : TokenKind) : Except Fault Scanner := do
  let s := s.closeBlocks (-1) s.cursor.mark
  let s ← s.dropKey
  pure { s.pushTo kind (s.cursor.skip 3) with keyAllowed := false }

def openFlow (s : Scanner) (kind : TokenKind) : Except Fault Scanner := do
  let s ← s.saveKey
  if s.outerLevels.length ≥ depthLimit then
    throw (.lexical s.line s.line "exceeded max depth of 10000")
  pure { s.pushChar kind with
    level := { last := s.queue.count }, outerLevels := s.level :: s.outerLevels,
    keyAllowed := true }

def closeFlow (s : Scanner) (kind : TokenKind) : Except Fault Scanner := do
  let s ← s.dropKey
  let s :=
    match s.outerLevels with
    | outer :: rest => { s with level := outer.letGo s.level.last, outerLevels := rest }
    | [] => s
  pure { s.pushChar kind with keyAllowed := false }

def readFlowEntry (s : Scanner) : Except Fault Scanner := do
  let s ← s.dropKey
  pure { s.pushChar .flowEntry with keyAllowed := true }

def readBlockEntry (s : Scanner) : Except Fault Scanner := do
  if !s.inFlow && !s.keyAllowed then
    throw (.lexical s.line s.line "block sequence entries are not allowed in this context")
  let s ← s.openBlockHere .blockSequenceStart
  let s ← s.dropKey
  pure { s.pushChar .blockEntry with keyAllowed := true }

def readKey (s : Scanner) : Except Fault Scanner := do
  if !s.inFlow && !s.keyAllowed then
    throw (.lexical s.line s.line "mapping keys are not allowed in this context")
  let s ← s.openBlockHere .blockMappingStart
  let s ← s.dropKey
  pure { s.pushChar .key with keyAllowed := !s.inFlow }

/-- The possible key of this level if it is in reach. -/
def keyInReach (s : Scanner) : Except Fault (Option PossibleKey) :=
  match s.level.key with
  | none => .ok none
  | some k =>
    if s.inReach k then .ok (some k)
    else if k.required then .error (s.missingColon k)
    else .ok none

def readValue (s : Scanner) : Except Fault Scanner := do
  match ← s.keyInReach with
  | some k =>
    let s := s.pushAt k.number k.mark .key
    let s ← s.openBlock k.number k.mark .blockMappingStart
    pure { s.forgetKey.pushChar .value with keyAllowed := false }
  | none =>
    if !s.inFlow && !s.keyAllowed then
      throw (.lexical s.line s.line "mapping values are not allowed in this context")
    let s ← s.openBlockHere .blockMappingStart
    pure { s.forgetKey.pushChar .value with keyAllowed := !s.inFlow }

/-- Adds a token that may be a key. -/
def readWithKey (s : Scanner) (read : Cursor → Except Fault (TokenKind × Cursor)) :
    Except Fault Scanner := do
  let s ← s.saveKey
  let (kind, c) ← read s.cursor
  pure { s.pushTo kind c with keyAllowed := false }

def readAnchor (make : String → TokenKind) (c : Cursor) : Except Fault (TokenKind × Cursor) := do
  let (name, c) ← Properties.readName c
  pure (make name, c)

def readTag (c : Cursor) : Except Fault (TokenKind × Cursor) := do
  let ((handle, suffix), c) ← Properties.readTag c
  pure (.tag handle suffix, c)

def readQuoted (q : Quoted.Quote) (style : ScalarStyle) (c : Cursor) :
    Except Fault (TokenKind × Cursor) := do
  let (text, c) ← Quoted.read q c
  pure (.scalar (String.ofList text) style, c)

def readBlockScalar (s : Scanner) (literal : Bool) : Except Fault Scanner := do
  let s ← s.dropKey
  let since := s.cursor.mark.index
  let (header, text, c) ← Block.read literal s.indent s.cursor
  let style := if literal then ScalarStyle.literal else .folded
  let s := s.pushTo (.scalar (String.ofList text) style) c
  let queue :=
    match header.comment with
    | some (start, text) =>
      s.queue.addComment { place := .line, text := text, since := since, start := start }
    | none => s.queue
  pure { s with queue := queue, keyAllowed := true }

def readPlain (s : Scanner) : Except Fault Scanner := do
  let s ← s.saveKey
  let r ← Plain.read s.inFlow (s.indent + 1).toNat s.cursor
  pure { s.pushTo (.scalar (String.ofList r.text) .plain) r.cursor with keyAllowed := r.broken }

/-- The characters that cannot start a plain scalar, unless what follows them says so. -/
def isIndicator (c : Char) : Bool :=
  c == '-' || c == '?' || c == ':' || c == ',' || c == '[' || c == ']' || c == '\x7b' ||
    c == '\x7d' || c == '#' || c == '&' || c == '*' || c == '!' || c == '|' || c == '>' ||
    c == '\'' || c == '"' || c == '%' || c == '@' || c == '\x60'

/-- Whether a plain scalar starts here. -/
def startsPlain (flow : Bool) : List Char → Bool
  | [] => false
  | c :: rest =>
    !(isBlank c || isBreak c || isIndicator c) ||
      (c == '-' && !rest.head?.any isBlank) ||
      (!flow && (c == '?' || c == ':') && !atGap rest)

/-- Reads a token of the content of a document. -/
def readContent (s : Scanner) (c : Char) (rest : List Char) : Except Fault Scanner :=
  if c == '[' then s.openFlow .flowSequenceStart
  else if c == '\x7b' then s.openFlow .flowMappingStart
  else if c == ']' then s.closeFlow .flowSequenceEnd
  else if c == '\x7d' then s.closeFlow .flowMappingEnd
  else if c == ',' then s.readFlowEntry
  else if c == '-' && atGap rest then s.readBlockEntry
  else if c == '?' && (s.inFlow || atGap rest) then s.readKey
  else if c == ':' && (s.inFlow || atGap rest) then s.readValue
  else if c == '*' then s.readWithKey (readAnchor .alias)
  else if c == '&' then s.readWithKey (readAnchor .anchor)
  else if c == '!' then s.readWithKey readTag
  else if c == '|' && !s.inFlow then s.readBlockScalar true
  else if c == '>' && !s.inFlow then s.readBlockScalar false
  else if c == '\'' then s.readWithKey (readQuoted .single .singleQuoted)
  else if c == '"' then s.readWithKey (readQuoted .double .doubleQuoted)
  else if startsPlain s.inFlow (c :: rest) then s.readPlain
  else .error (.lexical s.line s.line "found character that cannot start any token")

/-- The index of the token that a comment behind the next token is about.  A comment behind
    a colon or a comma is about what stands before that. -/
def commented (s : Scanner) (c : Char) : Nat :=
  if c == (if s.inFlow then ',' else ':') then (s.queue.last?.map (·.mark.index)).getD 0
  else s.cursor.mark.index

/-- Reads the token at the cursor, which stands at no gap.  A comment behind a dash is about
    what follows. -/
def readToken (s : Scanner) : Except Fault Scanner :=
  match s.cursor.rest with
  | [] => s.readEnd
  | c :: rest =>
    if s.column == 0 && c == '%' then s.readDirective
    else if s.cursor.atMarker '-' then s.readMarker .documentStart
    else if s.cursor.atMarker '.' then s.readMarker .documentEnd
    else do
      let since := s.commented c
      let s ← s.readContent c rest
      if s.queue.last?.any (·.kind = .blockEntry) then pure s
      else pure (s.takeLineComment since)

/-- Refuses to go on with fewer than `n` characters if there is a fault after them. -/
def demand (n : Nat) (s : Scanner) : Except Fault Unit :=
  match s.fault with
  | some fault => if (s.cursor.rest.drop (n - 1)).isEmpty then .error fault else .ok ()
  | none => .ok ()

/-- Passes over a gap, closes the blocks that end by indentation, and reads a token. -/
def step (s : Scanner) : Except Fault Scanner := do
  let gap := s.cursor.mark
  let s := s.toNextToken gap (s.cursor.left + 1)
  let s := { s with marked := s.marked && s.cursor.mark.index + 4 ≤ s.firstPiece }
  s.demand 4
  let s ← (s.closeBlocks s.column gap).readToken
  s.demand 1
  pure s

/-! ## The whole document -/

/-- The tokens of a text.  If the text is faulty, they end where the fault comes to light
    and the fault follows. -/
structure Tokens where
  tokens : List Token
  fault : Option Fault

/-- Hands out the tokens that need not wait for the next one to be read.  Two tokens are
    always read ahead. -/
def release (s : Scanner) : Scanner :=
  let bound (n : Nat) (l : KeyLevel) : Nat :=
    match l.key with
    | some k =>
      if k.waits && s.queue.released ≤ k.number && s.inReach k then min n k.number else n
    | none => n
  let ready := s.outerLevels.foldl bound (bound (s.queue.count - 2) s.level)
  { s with queue := s.queue.release ready }

/-- Reads tokens to the end of the text or to a fault. -/
def run : (fuel : Nat) → Scanner → Tokens
  | 0, s => ⟨s.queue.all, none⟩
  | fuel + 1, s =>
    if s.finished then ⟨s.queue.all, none⟩
    else
      match s.step with
      | .ok s => run fuel s.release
      | .error fault => ⟨s.queue.out.reverse, some fault⟩

end Scanner

/-- The tokens of a text. -/
def scan (input : Input) : Scanner.Tokens :=
  Scanner.run (input.characters.length + 1)
    { cursor := .ofList input.characters
      fault := input.fault
      marked := input.characters.head? == some '\ufeff'
      firstPiece := input.firstPiece }

end StackIr.Yaml
