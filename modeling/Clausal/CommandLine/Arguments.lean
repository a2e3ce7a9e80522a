import Clausal.Algorithm
import Clausal.Benchmark
import Clausal.Decimal

/-! # The arguments of the command line

`solve ALGORITHM PATH` decides the formula of one file and `bench ALGORITHM DIRECTORY` the formulas
of a directory.  Options may stand anywhere behind the name of the command, each once at most, with
a value behind an equals sign or in the next argument; behind `--` there are no more options.  An
argument in the next place is no value if it begins with a dash, unless it is a dash and nothing
more. -/

namespace Clausal.CommandLine

/-- What the program is asked to do. -/
inductive Command
  | solve (a : Algorithm) (path : String) (json : Bool) (w : WalkSettings)
  | bench (a : Algorithm) (directory : String) (csv? json? : Option String)
      (timeout? : Option Duration) (w : WalkSettings)

/-! ### Options and operands -/

/-- The options that a command knows. -/
structure Options where
  /-- The names of those without a value. -/
  flags : List String
  /-- The names of those with a value. -/
  valued : List String

/-- Arguments told apart. -/
structure Arguments where
  operands : List String
  /-- The options with their values, which flags do not have. -/
  options : List (String × Option String)

namespace Arguments

def addOperand (x : String) (a : Arguments) : Arguments :=
  { a with operands := x :: a.operands }

def addOption (name : String) (value? : Option String) (a : Arguments) : Arguments :=
  { a with options := (name, value?) :: a.options }

/-- The value of an option that is given once, or nothing if it is not given. -/
def option? (a : Arguments) (name : String) : Option (Option (Option String)) :=
  match a.options.filter fun o => o.1 == name with
  | [] => some none
  | [(_, value?)] => some (some value?)
  | _ => none

end Arguments

/-- Whether an argument looks like an option. -/
def isDashed (x : String) : Bool :=
  match x.toList with
  | '-' :: _ :: _ => true
  | _ => false

/-- The name and the value of an option of the form `--name` or `--name=value`. -/
def splitOption (x : String) : Option (String × Option String) :=
  match x.toList with
  | '-' :: '-' :: cs =>
      let name := String.ofList (cs.takeWhile (· != '='))
      match cs.dropWhile (· != '=') with
      | [] => some (name, none)
      | _ :: value => some (name, some (String.ofList value))
  | _ => none

/-- Tell options from operands. -/
def split (known : Options) : List String → Option Arguments
  | [] => some ⟨[], []⟩
  | x :: xs =>
      if x = "--" then some ⟨xs, []⟩
      else if isDashed x then
        match splitOption x with
        | none => none
        | some (name, some value) =>
            if name ∈ known.valued then (split known xs).map (·.addOption name (some value))
            else none
        | some (name, none) =>
            if name ∈ known.flags then (split known xs).map (·.addOption name none)
            else if name ∈ known.valued then
              match xs with
              | y :: ys =>
                  if isDashed y then none else (split known ys).map (·.addOption name (some y))
              | [] => none
            else none
      else (split known xs).map (·.addOperand x)

/-! ### Values -/

/-- The value of an option, read by `read`. -/
def value? {α : Type} (a : Arguments) (name : String) (read : String → Option α) :
    Option (Option α) := do
  match ← a.option? name with
  | none => return none
  | some v => return some (← read (← v))

/-- A path is not empty. -/
def path? (s : String) : Option String := if s.isEmpty then none else some s

/-- A whole number of 64 bits. -/
def number? (s : String) : Option Nat := Numeral.natOfBits? 64 s.toList

def settings? (a : Arguments) : Option WalkSettings := do
  let usual : WalkSettings := {}
  let maxFlips? ← value? a "max-flips" number?
  let noise? ← value? a "noise" fun s => Decimal.float? s.toList
  let seed? ← value? a "seed" number?
  return ⟨maxFlips?.getD usual.maxFlips, noise?.getD usual.noise,
    (seed?.map UInt64.ofNat).getD usual.seed⟩

/-! ### Commands -/

/-- The options of the settings of the random walk. -/
def walkOptions : List String := ["max-flips", "noise", "seed"]

def solve? (xs : List String) : Option Command := do
  let a ← split ⟨["json"], walkOptions⟩ xs
  match a.operands with
  | [name, path] =>
      let json ← a.option? "json"
      return .solve (← Algorithm.ofName? false name) (← path? path) json.isSome (← settings? a)
  | _ => none

def bench? (xs : List String) : Option Command := do
  let a ← split ⟨[], "csv" :: "json" :: "timeout-secs" :: walkOptions⟩ xs
  match a.operands with
  | [name, directory] =>
      let timeout? ← value? a "timeout-secs" number?
      return .bench (← Algorithm.ofName? false name) (← path? directory) (← value? a "csv" path?)
        (← value? a "json" path?) (timeout?.map .ofSeconds) (← settings? a)
  | _ => none

/-- The command of some arguments, if they ask for one. -/
def Command.ofArguments? : List String → Option Command
  | "solve" :: xs => solve? xs
  | "bench" :: xs => bench? xs
  | _ => none

end Clausal.CommandLine
