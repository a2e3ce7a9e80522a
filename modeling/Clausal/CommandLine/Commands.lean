import Clausal.Benchmark
import Clausal.CommandLine.Arguments
import Clausal.Dimacs
import Clausal.Json.Records

/-! # The commands

`solve` prints the verdict on one file, as the lines of a solver competition or in JSON. `bench`
solves the files of a directory, sums up how they came out, and then puts the records behind a
table or writes them in JSON if it is asked to.  A command ends at its first error; what it has
printed and written up to then stays. -/

namespace Clausal.CommandLine

/-- Why a command ends before it is done. -/
inductive CommandError
  /-- The arguments ask for nothing. -/
  | usage
  | cannotRead (path : String) (e : LoadError)
  | notADirectory (path : String)
  | cannotOpen (path : String) (e : FileError)
  | cannotWrite (path : String) (e : FileError)
  | fault (f : Fault)
deriving DecidableEq, Repr

namespace CommandError

def headline : CommandError → String
  | usage => "Usage: clausal solve|bench ALGORITHM PATH [OPTIONS]"
  | cannotRead path _ => "Cannot read " ++ path
  | notADirectory path => "Not a directory: " ++ path
  | cannotOpen path _ => "Cannot open " ++ path
  | cannotWrite path _ => "Cannot write " ++ path
  | fault f => f.message

def cause? : CommandError → Option String
  | cannotRead _ e => some e.message
  | cannotOpen _ e | cannotWrite _ e => some e.message
  | usage | notADirectory _ | fault _ => none

/-- The headline, and the cause below it. -/
def text (e : CommandError) : String :=
  "Error: " ++ e.headline ++
    (e.cause?.map fun c => "\n\nCaused by:\n    " ++ c).getD "" ++ "\n"

/-- The number that the program ends with. -/
def exitCode : CommandError → Nat
  | usage => 2
  | fault _ => 101
  | cannotRead .. | notADirectory _ | cannotOpen .. | cannotWrite .. => 1

end CommandError

/-- What a command leaves behind, its files apart. -/
structure Run where
  /-- What it printed. -/
  output : String
  /-- The counts of a benchmark. -/
  summary? : Option String
  error? : Option CommandError

namespace Run

def failed (e : CommandError) : Run := ⟨"", none, some e⟩

def exitCode (r : Run) : Nat := (r.error?.map CommandError.exitCode).getD 0

end Run

/-- The lines of a verdict. -/
def verdictLines : Verdict → Except Fault String
  | .sat s => do
      let model ← if s.isEmpty then pure "" else (· ++ " ") <$> Dimacs.writeAssignment s
      return "s SATISFIABLE\nv " ++ model ++ "0\n"
  | .unsat => .ok "s UNSATISFIABLE\n"
  | .unknown => .ok "s UNKNOWN\n"

section Commands

variable {m : Type → Type} [Monad m] [FileAccess m]

def runSolve (a : Algorithm) (path : String) (json : Bool) (w : WalkSettings) : m Run := do
  match ← Benchmark.load path with
  | .error e => return .failed (.cannotRead path e)
  | .ok F =>
      let printed := do
        let r ← (a.solve w F).result
        if json then pure (r.toJson.pretty ++ "\n") else verdictLines r
      match printed with
      | .ok s => return ⟨s, none, none⟩
      | .error f => return .failed (.fault f)

/-- Put records behind the table of a file, a new one if there is no file. -/
def appendCsv (path : String) (rs : List Record) : m (Except CommandError Unit) := do
  let isNew := !(← FileAccess.isPresent path)
  match ← FileAccess.append path (Csv.addition isNew rs).toUTF8.toList with
  | .ok () => return .ok ()
  | .error e => return .error (.cannotOpen path e)

def writeJson (path : String) (r : Report) : m (Except CommandError Unit) := do
  match ← FileAccess.write path r.toJson.pretty.toUTF8.toList with
  | .ok () => return .ok ()
  | .error e => return .error (.cannotWrite path e)

variable [Stopwatch m]

def runBench (a : Algorithm) (directory : String) (csv? json? : Option String)
    (timeout? : Option Duration) (w : WalkSettings) : m Run := do
  match ← Benchmark.find directory with
  | none => return .failed (.notADirectory directory)
  | some paths =>
      let report ← Benchmark.run a w timeout? paths
      let finish (error? : Option CommandError) : Run := ⟨"", some report.summary, error?⟩
      match ← (csv?.map fun path => appendCsv path report.records).getD (pure (.ok ())) with
      | .error e => return finish (some e)
      | .ok () =>
          match ← (json?.map fun path => writeJson path report).getD (pure (.ok ())) with
          | .error e => return finish (some e)
          | .ok () => return finish none

/-- Do what the command asks for. -/
def Command.run : Command → m Run
  | solve a path json w => runSolve a path json w
  | bench a directory csv? json? timeout? w => runBench a directory csv? json? timeout? w

/-- Do what the arguments ask for. -/
def run (xs : List String) : m Run :=
  match Command.ofArguments? xs with
  | some c => c.run
  | none => pure (.failed .usage)

end Commands

end Clausal.CommandLine
