import Clausal.Algorithm
import Clausal.Decimal
import Clausal.Dimacs
import Clausal.Files

/-! # Benchmarks

A benchmark solves the files of a directory one after another and keeps a record of each.  Which
files these are is decided by their names; how long a solver may take is left to a `Stopwatch`,
which evaluates a value and says how that went.

One record says how one file fared: the time and memory that the solver took and how it came out.
A file that cannot be read, or a solver that breaks off, is an outcome like the others, with the
error in words.

A table has a header and one row for each record, of four cells each.  A cell with a comma, a quote
or a line feed is written in quotes, with every quote inside it doubled, so that the cells can be
told apart again. -/

namespace Clausal

/-! ### Records -/

/-- A span of time. -/
structure Duration where
  nanoseconds : Nat
deriving DecidableEq, Repr

namespace Duration

def ofSeconds (n : Nat) : Duration := ⟨n * 1000000000⟩

def ofMilliseconds (n : Nat) : Duration := ⟨n * 1000000⟩

/-- The whole seconds. -/
def seconds (d : Duration) : Nat := d.nanoseconds / 1000000000

/-- The nanoseconds behind the whole seconds. -/
def remainder (d : Duration) : Nat := d.nanoseconds % 1000000000

/-- The span in seconds, to the accuracy of a floating-point number. -/
def toSeconds (d : Duration) : Float :=
  (UInt64.ofNat d.seconds).toFloat + (UInt64.ofNat d.remainder).toFloat / 1e9

end Duration

/-- How a solver came out on a file. -/
inductive Outcome
  | sat
  | unsat
  | unknown
  /-- The time was up. -/
  | timeout
  | error (message : String)
deriving DecidableEq, Repr

namespace Outcome

def ofVerdict : Verdict → Outcome
  | .sat _ => sat
  | .unsat => unsat
  | .unknown => unknown

/-- The outcome of a run, of which nothing is left to say if it breaks off. -/
def ofRun : Except Fault Verdict → Outcome
  | .ok r => ofVerdict r
  | .error _ => error "solver thread panicked"

def isError : Outcome → Bool
  | error _ => true
  | sat | unsat | unknown | timeout => false

end Outcome

/-- How one file fared. -/
structure Record where
  filename : String
  elapsed : Duration
  /-- The largest amount of memory taken, in KiB, if it was measured. -/
  peakMemory? : Option Nat
  outcome : Outcome
deriving DecidableEq, Repr

/-- The record of a file that cannot be read. -/
def Record.unreadable (filename message : String) : Record :=
  ⟨filename, ⟨0⟩, none, .error message⟩

/-- The records of a solver on some files. -/
structure Report where
  solver : String
  timeout? : Option Duration
  records : List Record
deriving DecidableEq, Repr

namespace Report

/-- Number of records with the given outcome. -/
def count (r : Report) (o : Outcome) : Nat := r.records.countP fun x => x.outcome == o

/-- Number of records with an error of any kind. -/
def errors (r : Report) : Nat := r.records.countP fun x => x.outcome.isError

/-- The counts in one line. -/
def summary (r : Report) : String :=
  ", ".intercalate
    [toString (r.count .sat) ++ " SAT", toString (r.count .unsat) ++ " UNSAT",
      toString (r.count .unknown) ++ " unknown", toString (r.count .timeout) ++ " timeout",
      toString r.errors ++ " errors"]

end Report

/-! ### Tables -/

namespace Csv

/-- Whether a character may stand only in a quoted cell. -/
def needsQuotes (c : Char) : Bool := c == ',' || c == '"' || c == '\n'

def cell (s : String) : String :=
  if s.toList.any needsQuotes then
    "\"" ++ String.join (s.toList.map fun c => if c = '"' then "\"\"" else c.toString) ++ "\""
  else s

/-- Cells between commas. -/
def row (cells : List String) : String := ",".intercalate (cells.map cell)

def header : List String := ["filename", "time_sec", "peak_mem_kb", "result"]

/-- The last cell of a record. -/
def resultCell : Outcome → String
  | .sat => "SAT"
  | .unsat => "UNSAT"
  | .unknown => "UNKNOWN"
  | .timeout => "TIMEOUT"
  | .error message => "ERROR: " ++ message

/-- The seconds with four decimal places. -/
def timeCell (d : Duration) : String := Decimal.fixed 4 d.toSeconds

/-- The cells of a record; neither time nor memory is given for an error. -/
def cells (r : Record) : List String :=
  if r.outcome.isError then [r.filename, "ERROR", "ERROR", resultCell r.outcome]
  else
    [r.filename, timeCell r.elapsed, (r.peakMemory?.map toString).getD "", resultCell r.outcome]

/-- The row of a record. -/
def line (r : Record) : String := row (cells r)

/-- What is written behind a table to add records to it: a new table begins with the header. -/
def addition (isNew : Bool) (rs : List Record) : String :=
  String.join (((if isNew then [row header] else []) ++ rs.map line).map (· ++ "\n"))

/-- The table with more records, a new one if there was none. -/
def append (table? : Option String) (rs : List Record) : String :=
  table?.getD "" ++ addition table?.isNone rs

end Csv

/-! ### Runs -/

/-- A value that was evaluated on the clock. -/
structure Timed (α : Type) where
  /-- The value, unless the time was up before it was known. -/
  result? : Option α
  elapsed : Duration
  /-- The largest amount of memory taken, in KiB, if it was measured. -/
  peakMemory? : Option Nat

/-- Evaluation on the clock, with a time after which it may be given up. -/
class Stopwatch (m : Type → Type) where
  time : {α : Type} → Option Duration → (Unit → α) → m (Timed α)

/-- A clock that stands still: only a time that is up at once is ever up. -/
instance (σ : Type) : Stopwatch (StateM σ) where
  time limit? f :=
    return ⟨if limit? = some ⟨0⟩ then none else some (f ()), ⟨0⟩, none⟩

/-- Why a formula cannot be loaded from a file. -/
inductive LoadError
  | file (e : FileError)
  | document (e : Dimacs.ReadError)
deriving DecidableEq, Repr

def LoadError.message : LoadError → String
  | file e => e.message
  | document e => e.message

namespace Benchmark

variable {m : Type → Type} [Monad m] [FileAccess m]

/-- Load the formula of a file. -/
def load (path : String) : m (Except LoadError Formula) := do
  match ← FileAccess.read path with
  | .error e => return .error (.file e)
  | .ok bytes =>
      match Dimacs.read bytes with
      | .error e => return .error (.document e)
      | .ok d => return .ok d.formula

/-- The order of paths by their components. -/
def notAfter (p q : List String) : Bool := compare p q != .gt

/-- The paths of the regular files below a directory whose extension is `cnf`, in order; there are
none if it is no directory. -/
def find (directory : String) : m (Option (List String)) := do
  if ← FileAccess.isDirectory directory then
    let files ← FileAccess.regularFiles directory
    let instances := files.filter fun p => p.getLast?.any (Path.hasExtension "cnf")
    return some ((instances.mergeSort notAfter).map (Path.join directory))
  else return none

variable [Stopwatch m]

/-- The record of one file. -/
def measure (a : Algorithm) (w : WalkSettings) (limit? : Option Duration) (path : String) :
    m Record := do
  let name := Path.fileName path
  match ← load path with
  | .error e => return .unreadable name e.message
  | .ok F =>
      let t ← Stopwatch.time limit? fun _ => Outcome.ofRun (a.solve w F).result
      return ⟨name, t.elapsed, t.peakMemory?, t.result?.getD .timeout⟩

/-- The records of files, one after another. -/
def run (a : Algorithm) (w : WalkSettings) (limit? : Option Duration) (paths : List String) :
    m Report :=
  return ⟨a.solverName, limit?, ← paths.mapM (measure a w limit?)⟩

end Benchmark

end Clausal
