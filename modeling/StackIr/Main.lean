import Std.Time.DateTime.Timestamp
import StackIr.Command.Run

/-! # The program

    The outer layer: it looks at the files that the arguments may name, runs the command on
    what it found, and writes down the outcome. -/

namespace StackIr.Program

/-- The variable with the levels of modules for the log. -/
def levelsVariable : String := "CFN2IR_LOG_LEVEL"

/-- The texts among the arguments that may be paths. -/
def possiblePaths (args : List String) : List String :=
  args.flatMap fun arg =>
    match Text.cut? "=" arg with
    | some (_, value) => [arg, value]
    | none => if Text.startsWith arg "-" then [arg, String.ofList (arg.toList.drop 2)] else [arg]

/-- A tree to which a directory was added, if it fits. -/
def withDirectory (t : Files.Tree) (path : String) : Files.Tree :=
  match t.makeDirectories path with
  | .ok t => t
  | .error _ => t

/-- A tree to which a file was added, if it fits. -/
def withFile (t : Files.Tree) (path : String) (bytes : ByteArray) : Files.Tree :=
  match (withDirectory t (Text.Path.directory path)).create path with
  | .ok t => t.append path bytes.toList
  | .error _ => t

/-- Adds what stands at a path to a tree, and for a directory the names of what it holds. -/
def look (t : Files.Tree) (path : String) : IO Files.Tree := do
  if path = "" then return t
  try
    let real ← IO.FS.realPath path
    if ← real.isDir then
      let entries ← real.readDir
      entries.foldlM (fun t e => do
        let inner := Text.Path.join path e.fileName
        if (t.find inner).isOk then return t
        else if ← e.path.isDir then return withDirectory t inner
        else return withFile t inner .empty) (withDirectory t path)
    else
      return withFile t path (← IO.FS.readBinFile path)
  catch _ => return t

/-- The parts of the file system that a run may look at. -/
def snapshot (args : List String) : IO Files.Tree :=
  (possiblePaths args).foldlM (fun t path => do
    let t ← (Files.Tree.beginnings [] path.toList).foldlM look t
    look t path) {}

/-- Writes the files that changed. -/
def commit (old new : Files.Tree) : IO Unit :=
  (old.changes new).forM fun (path, bytes) => do
    IO.FS.createDirAll (Text.Path.directory path)
    IO.FS.writeBinFile path ⟨bytes.toArray⟩

end StackIr.Program

open StackIr StackIr.Program in
/-- Runs the program. -/
def main (args : List String) : IO UInt32 := do
  let stdout ← IO.getStdout
  let stderr ← IO.getStderr
  let plain := (← IO.getEnv "NO_COLOR").isSome || (← IO.getEnv "TERM") = some "dumb"
  let world : Command.World := {
    files := ← snapshot args
    levels := ← IO.getEnv levelsVariable
    now := ⟨(← Std.Time.Timestamp.now).toNanosecondsSinceUnixEpoch.val⟩
    terminal := ← stderr.isTty
    colored := !plain && (← stdout.isTty) }
  let some outcome := Command.run world args
    | do
      stderr.putStr "fatal error: stack overflow\n"
      return 2
  commit world.files outcome.files
  stdout.write ⟨outcome.output.content.toArray⟩
  stdout.flush
  stderr.putStr (outcome.log ++ outcome.remarks ++ outcome.report)
  return outcome.exitCode.toUInt32
