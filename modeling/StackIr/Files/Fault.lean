/-! # Faults of files -/

namespace StackIr.Files

/-- What was being done to a file. -/
inductive Operation where
  | find
  | read
  | makeDirectory
  deriving DecidableEq, Repr

def Operation.name : Operation → String
  | .find => "open"
  | .read => "read"
  | .makeDirectory => "mkdir"

/-- Why an operation on a file failed. -/
inductive Reason where
  | notFound
  | notDirectory
  | isDirectory
  | alreadyExists
  deriving DecidableEq, Repr

def Reason.message : Reason → String
  | .notFound => "no such file or directory"
  | .notDirectory => "not a directory"
  | .isDirectory => "is a directory"
  | .alreadyExists => "file exists"

/-- An operation on a file that failed. -/
structure Fault where
  operation : Operation
  path : String
  reason : Reason
  deriving DecidableEq, Repr

def Fault.message (f : Fault) : String :=
  f.operation.name ++ " " ++ f.path ++ ": " ++ f.reason.message

end StackIr.Files
