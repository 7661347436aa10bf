import StackIr.Fingerprint.XxHash
import StackIr.Log.Instant
import StackIr.Log.Level

/-! # Log entries

    An entry is a message with a level, the name of the logger it comes from, and fields. -/

namespace StackIr.Log

/-- The value of a field. -/
inductive FieldValue where
  | text (s : String)
  | int (i : Int)
  | bool (b : Bool)
  | object (members : List (String × String))
  deriving DecidableEq, Repr

/-- A named value that an entry carries. -/
structure Field where
  name : String
  value : FieldValue
  deriving DecidableEq, Repr

namespace Field

def text (name s : String) : Field :=
  ⟨name, .text s⟩

def count (name : String) (n : Nat) : Field :=
  ⟨name, .int n⟩

/-- The template that an entry is about. -/
def template (path : String) : Field :=
  .text "template" path

/-- The resource that an entry is about. -/
def resource (name type : String) : Field :=
  ⟨"resource", .object [("name", name), ("type", type)]⟩

/-- A fingerprint in its fixed width. -/
def fingerprint (h : UInt64) : Field :=
  .text "fingerprint" (Fingerprint.hex h)

end Field

/-- A log entry. -/
structure Entry where
  time : Instant
  level : Level
  logger : String
  message : String
  fields : List Field := []
  deriving DecidableEq, Repr

/-- A source of entries. -/
structure Logger where
  name : String := ""
  /-- The fields of all its entries. -/
  context : List Field := []
  deriving DecidableEq, Repr

namespace Logger

/-- The logger of a module below. -/
def named (l : Logger) (name : String) : Logger :=
  if name = "" then l
  else { l with name := if l.name = "" then name else l.name ++ "." ++ name }

/-- The same logger with more fields. -/
def withFields (l : Logger) (fields : List Field) : Logger :=
  { l with context := l.context ++ fields }

/-- An entry of a logger. -/
def entry (l : Logger) (time : Instant) (level : Level) (message : String)
    (fields : List Field) : Entry :=
  ⟨time, level, l.name, message, l.context ++ fields⟩

/-- The logger that was attached last, or else the general one. -/
def current (attached : List (Option Logger)) (general : Logger) : Logger :=
  (attached.getLast?.bind id).getD general

end Logger

/-- The entry about a resource that was closed with a failure. -/
def closingEntry (l : Logger) (time : Instant) (what message : String) : Entry :=
  l.entry time .debug "failed to close" [.text "resource" what, .text "error" message]

end StackIr.Log
