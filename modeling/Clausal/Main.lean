import Clausal.CommandLine.Commands

/-! # The program

Runs the command of the arguments on the files of the disk and by the clock of the machine, prints
what it has to say, and ends with its exit code. -/

namespace Clausal

/-- The number of an error, which some operations give with a minus sign. -/
def errorNumber (code : UInt32) : Nat := code.toInt32.toInt.natAbs

/-- The error of an operation on a file. -/
def FileError.ofIOError : IO.Error → FileError
  | .noFileOrDirectory _ code details | .inappropriateType _ code details
  | .permissionDenied _ code details | .interrupted _ code details
  | .invalidArgument _ code details | .resourceExhausted _ code details
  | .noSuchThing _ code details | .alreadyExists _ code details
  | .illegalOperation code details | .resourceBusy code details | .otherError code details
  | .hardwareFault code details | .unsupportedOperation code details
  | .unsatisfiedConstraints code details => .ofCode (errorNumber code) details
  | e => .other (toString e) 0

/-- The result of an operation on a file, or its error. -/
def attemptFile {α : Type} (act : IO α) : IO (Except FileError α) := do
  try
    return .ok (← act)
  catch e =>
    return .error (.ofIOError e)

/-- Put bytes into a file, in the given way. -/
def putBytes (path : String) (mode : IO.FS.Mode) (bytes : List UInt8) :
    IO (Except FileError Unit) :=
  attemptFile (IO.FS.withFile path mode fun h => h.write ⟨bytes.toArray⟩)

/-- The entry of a path in the working directory. -/
def entryOf (path : String) : IO.FS.DirEntry := ⟨".", path⟩

/-- The regular files below a directory. -/
def filesBelow (directory : String) : IO (List (List String)) := do
  let mut found := #[]
  let mut waiting := [(directory, [])]
  while h : !waiting.isEmpty do
    let (path, above) := waiting.head (by simpa using h)
    waiting := waiting.tail
    for entry in ← (entryOf path).path.readDir do
      let place := above ++ [entry.fileName]
      match (← entry.path.symlinkMetadata).type with
      | .file => found := found.push place
      | .dir => waiting := (Path.join path [entry.fileName], place) :: waiting
      | .symlink | .other => pure ()
  return found.toList

instance : FileAccess IO where
  read path := attemptFile (return (← IO.FS.readBinFile path).toList)
  write path := putBytes path .write
  append path := putBytes path .append
  isPresent path := (entryOf path).path.pathExists
  isDirectory path := (entryOf path).path.isDir
  regularFiles path := filesBelow path

/-- Wait for a task, which is given up when the time is up. -/
def awaitTask {α : Type} (limit : Duration) (start : Nat) (task : Task (Except IO.Error α)) :
    IO (Option α) := do
  let inTime : IO Bool := do
    return (← IO.monoNanosNow) - start < limit.nanoseconds
  while (← inTime) && !(← IO.hasFinished task) do
    IO.sleep 1
  if ← inTime then
    some <$> IO.ofExcept (← IO.wait task)
  else return none

instance : Stopwatch IO where
  time limit? f := do
    let start ← IO.monoNanosNow
    let task ← IO.asTask (do return f ()) .dedicated
    let result? ←
      match limit? with
      | some limit => awaitTask limit start task
      | none => some <$> IO.ofExcept (← IO.wait task)
    return ⟨result?, ⟨(← IO.monoNanosNow) - start⟩, none⟩

end Clausal

open Clausal in
def main (args : List String) : IO UInt32 := do
  let r : CommandLine.Run ← CommandLine.run args
  IO.print r.output
  if let some summary := r.summary? then IO.eprintln summary
  if let some e := r.error? then IO.eprint e.text
  return UInt32.ofNat r.exitCode
