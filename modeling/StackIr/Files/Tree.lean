import StackIr.Files.Fault
import StackIr.Text.Path

/-! # File trees

    The files and directories below a working directory, and what the operations on them
    answer.  A path is followed one name at a time, and every name but the last has to lead
    to a directory. -/

namespace StackIr.Files

/-- What stands at a place of a file tree. -/
inductive Item where
  | file (bytes : List UInt8)
  | directory
  deriving DecidableEq, Repr

/-- The bytes of an item that was found by a path. -/
def Item.read (path : String) : Item → Except Fault (List UInt8)
  | .file bytes => .ok bytes
  | .directory => .error ⟨.read, path, .isDirectory⟩

/-- The names that lead from the working directory to a place.  Places above the working
    directory start with `..`, and places that start at the root start with `/`. -/
abbrev Place := List String

/-- The place one level up. -/
def Place.parent (p : Place) : Place :=
  if p = ["/"] then p
  else if p.all (· = "..") then p ++ [".."]
  else p.dropLast

/-- Whether a place is the working directory, above it, or the root. -/
def Place.isOutside (p : Place) : Bool :=
  p = ["/"] || p.all (· = "..")

/-- The path of a place. -/
def Place.path : Place → String
  | "/" :: rest => "/" ++ String.intercalate "/" rest
  | p => String.intercalate "/" p

/-- The files and directories at places other than the working directory and those above
    it, which always exist. -/
structure Tree where
  items : List (Place × Item) := []

namespace Tree

/-- What stands at a place. -/
def item? (t : Tree) (p : Place) : Option Item :=
  if p.isOutside then some .directory else t.items.lookup p

/-- Puts an item at a place, in the position of the item that was there. -/
def putAt (p : Place) (item : Item) : List (Place × Item) → List (Place × Item)
  | [] => [(p, item)]
  | (q, old) :: rest => if q = p then (p, item) :: rest else (q, old) :: putAt p item rest

def put (t : Tree) (p : Place) (item : Item) : Tree :=
  ⟨putAt p item t.items⟩

/-! ## Paths -/

/-- The names of a path.  A slash at its end asks for a directory, as a point does. -/
def names (path : String) : List String :=
  (if Text.Path.isAbsolute path then ["/"] else []) ++ Text.Path.elements path ++
    (if Text.endsWith path "/" then ["."] else [])

/-- Follows names from a place. -/
def follow (t : Tree) : Place → List String → Except Reason Place
  | place, [] => .ok place
  | place, name :: rest =>
    match t.item? place with
    | none => .error .notFound
    | some (.file _) => .error .notDirectory
    | some .directory =>
      if name = "." then follow t place rest
      else if name = ".." then follow t place.parent rest
      else if name = "/" then follow t ["/"] rest
      else follow t (place ++ [name]) rest

/-- The place that a path leads to, whether or not something stands there. -/
def locate (t : Tree) (path : String) : Except Reason Place :=
  if path = "" then .error .notFound else t.follow [] (names path)

/-- What stands at the end of a path. -/
def find (t : Tree) (path : String) : Except Fault Item :=
  match t.locate path with
  | .error reason => .error ⟨.find, path, reason⟩
  | .ok place =>
    match t.item? place with
    | some item => .ok item
    | none => .error ⟨.find, path, .notFound⟩

/-! ## Files -/

/-- The bytes of the file at a path. -/
def read (t : Tree) (path : String) : Except Fault (List UInt8) :=
  (t.find path).bind (Item.read path)

/-- Makes the file at a path empty, and makes it if there is none. -/
def create (t : Tree) (path : String) : Except Fault Tree :=
  match t.locate path with
  | .error reason => .error ⟨.find, path, reason⟩
  | .ok place =>
    match t.item? place with
    | some .directory => .error ⟨.find, path, .isDirectory⟩
    | _ => .ok (t.put place (.file []))

/-- Adds bytes to the end of the file at a path. -/
def append (t : Tree) (path : String) (bytes : List UInt8) : Tree :=
  match t.locate path with
  | .error _ => t
  | .ok place =>
    match t.item? place with
    | some (.file old) => t.put place (.file (old ++ bytes))
    | _ => t

/-- Stores an open file for good.  A tree holds what was written at once. -/
def sync (_ : Tree) (_path : String) : Except Fault Unit :=
  .ok ()

/-! ## Directories -/

/-- A path without the slashes at its end. -/
def bare (path : String) : String :=
  let cs := path.toList.reverse.dropWhile (· = '/')
  if cs.isEmpty then path else String.ofList cs.reverse

/-- Makes one directory. -/
def makeDirectory (t : Tree) (path : String) : Except Fault Tree :=
  match t.locate (bare path) with
  | .error reason => .error ⟨.makeDirectory, path, reason⟩
  | .ok place =>
    match t.item? place with
    | some _ => .error ⟨.makeDirectory, path, .alreadyExists⟩
    | none => .ok (t.put place .directory)

/-- The beginnings of a path that end in a slash before a name, the shortest first. -/
def beginnings : (sofar : List Char) → List Char → List String
  | _, [] => []
  | _, [_] => []
  | sofar, c :: d :: rest =>
    if c = '/' && d ≠ '/' then
      String.ofList (c :: sofar).reverse :: beginnings (c :: sofar) (d :: rest)
    else
      beginnings (c :: sofar) (d :: rest)

/-- Makes a directory unless it is there. -/
def ensureDirectory (t : Tree) (path : String) : Except Fault Tree :=
  match t.find path with
  | .ok .directory => .ok t
  | .ok (.file _) => .error ⟨.makeDirectory, path, .notDirectory⟩
  | .error _ => t.makeDirectory path

/-- Makes a directory and those that lead to it. -/
def makeDirectories (t : Tree) (path : String) : Except Fault Tree :=
  (beginnings [] path.toList ++ [path]).foldlM ensureDirectory t

/-! ## Views -/

/-- All files with their paths. -/
def files (t : Tree) : List (String × List UInt8) :=
  t.items.filterMap fun
    | (place, .file bytes) => some (place.path, bytes)
    | (_, .directory) => none

/-- The files of `t` that `old` does not have or has with other bytes. -/
def changes (old t : Tree) : List (String × List UInt8) :=
  t.files.filter fun (path, bytes) => old.files.lookup path ≠ some bytes

end Tree

end StackIr.Files
