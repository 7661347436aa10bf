import StackIr.Files.Tree
import StackIr.Log.Layout

/-! # Category files

    The entries of a named logger are also written to a file for the first part of the
    name, its category.  Entries without a category are dropped. -/

namespace StackIr.Log

/-- The category of a logger name and the rest of the name.  A slash in a category would
    lead to another directory, and is written as an underscore. -/
def category (logger : String) : String × String :=
  let (first, rest) := Text.cut "." logger
  (String.ofList ((Text.trim first).toList.map fun c => if c = '/' then '_' else c), rest)

/-- How entries are written to files. -/
abbrev Encoder : Type :=
  Entry → List UInt8

/-- Entries are written as lines with dates. -/
def Encoder.dated : Encoder :=
  fun e => Text.Utf8.encode (Layout.dated.line e.time e)

/-- The directory of the category files and the categories whose files are open. -/
structure CategoryFiles where
  directory : String
  opened : List String := []

namespace CategoryFiles

/-- The file of a category. -/
def path (c : CategoryFiles) (category : String) : String :=
  Text.Path.join c.directory (category ++ ".log")

/-- Category files take entries of every level. -/
def enabled (_ : CategoryFiles) (_level : Level) : Bool :=
  true

/-- Opens the file of a category, which empties it, unless it is open. -/
def openFile (c : CategoryFiles) (files : Files.Tree) (category : String) :
    Except Files.Fault (CategoryFiles × Files.Tree) :=
  if c.opened.contains category then .ok (c, files)
  else do
    let files ← files.makeDirectories c.directory
    let files ← files.create (c.path category)
    return ({ c with opened := category :: c.opened }, files)

/-- Writes an entry to the file of its category, without the category in its name.  The file
    is stored at once if the entry is worse than an error. -/
def write (encode : Encoder) (c : CategoryFiles) (files : Files.Tree) (e : Entry) :
    Except Files.Fault (CategoryFiles × Files.Tree) :=
  let (category, rest) := category e.logger
  if category = "" then .ok (c, files)
  else do
    let (c, files) ← c.openFile files category
    let files := files.append (c.path category) (encode { e with logger := rest })
    if e.level ≤ .error then return (c, files)
    else do
      files.sync (c.path category)
      return (c, files)

/-- Stores all open files for good. -/
def sync (c : CategoryFiles) (files : Files.Tree) : Except Files.Fault Unit :=
  c.opened.forM fun category => files.sync (c.path category)

end CategoryFiles

end StackIr.Log
