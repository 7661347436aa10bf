import StackIr.Text.Cut

/-! # Paths

    A path is a text whose elements stand between slashes. -/

namespace StackIr.Text.Path

/-- The elements of a path that are not empty. -/
def elements (path : String) : List String :=
  (splitOn '/' path).filter (· ≠ "")

/-- Whether a path starts at the root. -/
def isAbsolute (path : String) : Bool :=
  startsWith path "/"

/-- The last element of a path. -/
def base (path : String) : String :=
  match (elements path).getLast? with
  | some name => name
  | none => if path = "" then "." else "/"

/-- The characters of a reversed text up to and including the first point, if it stands
    before the first slash. -/
def reversedExtension : List Char → List Char → List Char
  | _, [] => []
  | sofar, c :: rest =>
    if c = '/' then []
    else if c = '.' then c :: sofar
    else reversedExtension (c :: sofar) rest

/-- The part of the last element from its last point on. -/
def ending (path : String) : String :=
  String.ofList (reversedExtension [] path.toList.reverse)

/-- The last element of a path without its ending. -/
def stem (path : String) : String :=
  dropEnding (base path) (ending path)

/-- Follows elements from those of `sofar`, the last first.  A parent takes the last element
    away; above the root there is nothing, and above a relative path parents are kept. -/
def walk (absolute : Bool) : (sofar : List String) → List String → List String
  | sofar, [] => sofar
  | sofar, e :: rest =>
    if e = "." then walk absolute sofar rest
    else if e = ".." then
      match sofar with
      | [] => walk absolute (if absolute then [] else [".."]) rest
      | last :: above =>
        if last = ".." then walk absolute (".." :: sofar) rest else walk absolute above rest
    else walk absolute (e :: sofar) rest

/-- The shortest path to the same place. -/
def clean (path : String) : String :=
  let absolute := isAbsolute path
  let es := (walk absolute [] (elements path)).reverse
  if absolute then "/" ++ String.intercalate "/" es
  else if es.isEmpty then "."
  else String.intercalate "/" es

/-- One path after another. -/
def join (a b : String) : String :=
  if a = "" then (if b = "" then "" else clean b)
  else if b = "" then clean a
  else clean (a ++ "/" ++ b)

/-- All of a path but its last element. -/
def directory (path : String) : String :=
  let cs := path.toList.reverse.dropWhile (· ≠ '/')
  clean (String.ofList cs.reverse)

end StackIr.Text.Path
