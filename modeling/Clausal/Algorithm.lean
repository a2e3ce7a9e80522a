import Clausal.Random
import Clausal.Search.Backtracking
import Clausal.Search.RandomWalk
import Clausal.Search.Saturation
import Clausal.Search.VariableElimination

/-! # The algorithms by name

The five searches under the names by which they are asked for, with the settings of the one that
has some.  All of them but the random walk are complete: they decide every formula. -/

namespace Clausal

/-- The settings of the random walk. -/
structure WalkSettings where
  /-- The largest number of flips. -/
  maxFlips : Nat := 10000
  /-- The probability of a random step. -/
  noise : Float := 0.5
  /-- The seed of the draws. -/
  seed : UInt64 := 0

inductive Algorithm
  | backtracking
  | variableElimination
  | saturation
  | randomWalk
  | caseSplitting
deriving DecidableEq, Repr

namespace Algorithm

def all : List Algorithm :=
  [backtracking, variableElimination, saturation, randomWalk, caseSplitting]

/-- The name on the command line. -/
def name : Algorithm → String
  | backtracking => "dpll"
  | variableElimination => "davis-putnam"
  | saturation => "resolution"
  | randomWalk => "walksat"
  | caseSplitting => "brute-force"

/-- The name in reports, with an underscore for the hyphen. -/
def solverName (a : Algorithm) : String := a.name.map fun c => if c = '-' then '_' else c

/-- The algorithm of a name, in which the case of ASCII letters may be ignored. -/
def ofName? (ignoreCase : Bool) (s : String) : Option Algorithm :=
  let s := if ignoreCase then s.map Char.toLower else s
  all.find? fun a => a.name == s

/-- Whether the algorithm always decides. -/
def isComplete : Algorithm → Bool
  | randomWalk => false
  | backtracking | variableElimination | saturation | caseSplitting => true

/-- Run the algorithm on a formula. -/
def solve (a : Algorithm) (w : WalkSettings) (F : Formula) : Traced (Except Fault Verdict) :=
  match a with
  | backtracking => Backtracking.solve F
  | variableElimination => VariableElimination.solve F
  | saturation => Saturation.solve F
  | randomWalk => (RandomWalk.solve F w.maxFlips w.noise (ChaCha.ofSeed w.seed)).1
  | caseSplitting => CaseSplitting.solve F

end Algorithm

end Clausal
