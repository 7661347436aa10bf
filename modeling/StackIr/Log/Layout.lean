import StackIr.Log.Entry

/-! # Log lines

    How an entry is written: as a line with tabs for the console, as a coloured line, or as
    a line of JSON. -/

namespace StackIr.Log

/-! ## Fields as JSON -/

/-- A character inside a string of a log line. -/
def escapeChar (c : Char) : List Char :=
  if c = '"' then ['\\', '"']
  else if c = '\\' then ['\\', '\\']
  else if c = '\n' then ['\\', 'n']
  else if c = '\r' then ['\\', 'r']
  else if c = '\t' then ['\\', 't']
  else if c.toNat < 0x20 then Json.unicodeEscape c
  else [c]

/-- A text with its control characters escaped. -/
def escaped (s : String) : String :=
  String.ofList (s.toList.flatMap escapeChar)

/-- A text as a JSON string. -/
def jsonString (s : String) : String :=
  "\"" ++ escaped s ++ "\""

/-- The decimal digits of a whole number. -/
def intString (i : Int) : String :=
  String.ofList (Json.intText i)

def boolString (b : Bool) : String :=
  if b then "true" else "false"

/-- Named JSON values between braces, with blanks after the marks between them if `spaced`. -/
def members (spaced : Bool) (items : List (String × String)) : String :=
  let blank := if spaced then " " else ""
  String.intercalate ("," ++ blank) (items.map fun (name, json) =>
    jsonString name ++ ":" ++ blank ++ json)

def braced (s : String) : String :=
  "\x7b" ++ s ++ "\x7d"

/-- The value of a field as JSON. -/
def FieldValue.json (spaced : Bool) : FieldValue → String
  | .text s => jsonString s
  | .int i => intString i
  | .bool b => boolString b
  | .object items => braced (members spaced (items.map fun (name, s) => (name, jsonString s)))

/-- Fields as the members of a JSON object. -/
def fieldMembers (spaced : Bool) (fields : List Field) : List (String × String) :=
  fields.map fun f => (f.name, f.value.json spaced)

/-! ## Console lines -/

/-- A line of columns: the time, the level, the logger if it has a name, the message, and
    the fields if there are any. -/
def consoleLine (time : String) (e : Entry) : String :=
  String.intercalate "\t"
    ([time, e.level.label] ++ (if e.logger = "" then [] else [e.logger]) ++ [e.message] ++
      (if e.fields.isEmpty then [] else [braced (members true (fieldMembers true e.fields))])) ++
    "\n"

/-! ## Coloured lines -/

/-- The colours of the levels that have names, and the levels in three letters. -/
def Level.marks : List (Level × String × String) :=
  [ (.debug, "\x1b[36m", "DBG"), (.info, "\x1b[32m", "INF"), (.warn, "\x1b[33m", "WRN"),
    (.error, "\x1b[31m", "ERR"), (.dpanic, "\x1b[31m\x1b[1m", "PNC"),
    (.panic, "\x1b[31m\x1b[1m", "PNC"), (.fatal, "\x1b[31m\x1b[1m", "FTL") ]

/-- The colour of a level. -/
def Level.color (l : Level) : String :=
  ((marks.lookup l).map Prod.fst).getD ""

/-- A level in three letters. -/
def Level.abbreviation (l : Level) : String :=
  ((marks.lookup l).map Prod.snd).getD "???"

/-- A text in the colour of a level. -/
def Level.paint (l : Level) (s : String) : String :=
  l.color ++ s ++ "\x1b[0m"

def bold (s : String) : String :=
  "\x1b[1m" ++ s ++ "\x1b[0m"

/-- A simple value as it stands in a coloured line. -/
def FieldValue.plain? : FieldValue → Option String
  | .text s => some (escaped s)
  | .int i => some (intString i)
  | .bool b => some (boolString b)
  | .object _ => none

/-- A field with a simple value, after the mark that sets it apart. -/
def simpleField (l : Level) (f : Field) : String :=
  match f.value.plain? with
  | some s => l.paint " " ++ l.paint (f.name ++ "=") ++ s
  | none => ""

/-- A field with an object, on a line of its own. -/
def objectField (l : Level) (f : Field) : String :=
  match f.value with
  | .object items =>
    "\n" ++ l.paint ("  ↳ " ++ f.name) ++
      String.intercalate (l.paint " ") (items.map fun (name, s) =>
        l.paint ("." ++ name ++ "=") ++ escaped s)
  | _ => ""

/-- A coloured line.  Fields stand in the order of their names, and objects come last. -/
def coloredLine (time : String) (e : Entry) : String :=
  let l := e.level
  let fields := e.fields.mergeSort fun f g => decide (f.name ≤ g.name)
  time ++ l.paint " " ++ l.paint l.abbreviation ++
    (if e.logger = "" then "" else l.paint " " ++ bold e.logger) ++
    l.paint " " ++ bold (l.paint ">") ++ l.paint " " ++ e.message ++
    String.join (fields.map (simpleField l)) ++ String.join (fields.map (objectField l)) ++ "\n"

/-! ## JSON lines -/

/-- A line of JSON with long keys, and the time in seconds. -/
def jsonLine (e : Entry) : String :=
  braced (members false
    ([("level", jsonString e.level.name), ("ts", e.time.seconds)] ++
      (if e.logger = "" then [] else [("logger", jsonString e.logger)]) ++
      [("msg", jsonString e.message)] ++ fieldMembers false e.fields)) ++ "\n"

/-- A line of JSON with short keys, and the time with its date. -/
def shortJsonLine (e : Entry) : String :=
  braced (members false
    ([("L", jsonString e.level.label), ("T", jsonString e.time.iso)] ++
      (if e.logger = "" then [] else [("N", jsonString e.logger)]) ++
      [("M", jsonString e.message)] ++ fieldMembers false e.fields)) ++ "\n"

/-! ## Layouts -/

/-- How entries are written. -/
inductive Layout where
  /-- Console lines with the time since the start. -/
  | console
  /-- Coloured lines with the time since the start. -/
  | colored
  | json
  | shortJson
  /-- Console lines with dates. -/
  | dated
  deriving DecidableEq, Repr

/-- The line of an entry in a program that was started at `start`. -/
def Layout.line (start : Instant) : Layout → Entry → String
  | .console, e => consoleLine (Instant.offsetText false (e.time.since start)) e
  | .colored, e => coloredLine (Instant.offsetText true (e.time.since start)) e
  | .json, e => jsonLine e
  | .shortJson, e => shortJsonLine e
  | .dated, e => consoleLine e.time.iso e

end StackIr.Log
