import StackIr.Failure
import StackIr.Files.Tree

/-! # Writing documents

    Documents are written below a directory, which is made as needed.  Every document is
    tried, and the failures of those that could not be written are collected.

    What is not written to files goes to a sink, which takes bytes in order.  One with a limit
    takes what fits and refuses the rest. -/

namespace StackIr.Files

/-! ## Sinks -/

/-- A sink with the bytes it has taken. -/
structure Sink where
  /-- How many bytes it takes at most. -/
  limit : Option Nat := none
  content : List UInt8 := []

namespace Sink

/-- How many of `n` bytes a sink still takes. -/
def room (s : Sink) (n : Nat) : Nat :=
  match s.limit with
  | none => n
  | some limit => min n (limit - s.content.length)

/-- The number of bytes taken. -/
def size (s : Sink) : Nat :=
  s.content.length

/-- Writes bytes, and tells how many were taken.  Fewer than there are means that the sink
    is full. -/
def write (s : Sink) (bytes : List UInt8) : Sink × Nat :=
  let taken := s.room bytes.length
  (⟨s.limit, s.content ++ bytes.take taken⟩, taken)

end Sink

/-! ## Documents -/

/-- A document to be written. -/
inductive Document where
  | text (path : String) (bytes : List UInt8)
  /-- The file that stands at the path already. -/
  | copy (path : String)
  deriving Repr

namespace Document

/-- Where a document is written below the directory. -/
def path : Document → String
  | .text path _ => path
  | .copy path => path

/-- The bytes of a document. -/
def bytes (t : Tree) : Document → Except Fault (List UInt8)
  | .text _ bytes => .ok bytes
  | .copy path => t.read path

/-- Writes one document to a path and counts its bytes.  The file at the path is emptied
    before the document is read. -/
def write (t : Tree) (d : Document) (path : String) : Tree × Except Fault Nat :=
  match (t.makeDirectories (Text.Path.directory path)).bind (·.create path) with
  | .error fault => (t, .error fault)
  | .ok t =>
    match d.bytes t with
    | .error fault => (t, .error fault)
    | .ok bytes => (t.append path bytes, .ok bytes.length)

end Document

/-- What was written. -/
structure Written where
  files : Tree
  /-- The number of bytes. -/
  total : Nat := 0
  failures : Failures := []

/-- Writes documents below a directory. -/
def writeDocuments (t : Tree) (documents : List Document) (directory : String) : Written :=
  documents.foldl (fun w d =>
    match d.write w.files (Text.Path.join directory d.path) with
    | (files, .ok n) => { w with files := files, total := w.total + n }
    | (files, .error fault) =>
      { w with files := files, failures := w.failures ++ [.cause (.file fault)] })
    { files := t }

end StackIr.Files
