import Clausal.Algorithm
import Clausal.Assignment
import Clausal.Benchmark
import Clausal.Clause
import Clausal.CommandLine.Arguments
import Clausal.CommandLine.Commands
import Clausal.Decimal
import Clausal.Dimacs
import Clausal.Expression
import Clausal.Files
import Clausal.Formula
import Clausal.Formula.Elimination
import Clausal.Json.Reader
import Clausal.Json.Records
import Clausal.Json.Value
import Clausal.Literal
import Clausal.Main
import Clausal.Propagation
import Clausal.Random
import Clausal.Search.Backtracking
import Clausal.Search.RandomWalk
import Clausal.Search.Saturation
import Clausal.Search.VariableElimination
import Clausal.SortedSet
import Clausal.Text
import Clausal.Verdict
import Clausal.Proofs.Attempts
import Clausal.Proofs.Backtracking
import Clausal.Proofs.CaseSplitting
import Clausal.Proofs.ClauseOrder
import Clausal.Proofs.Concatenation
import Clausal.Proofs.Conflicts
import Clausal.Proofs.Documents
import Clausal.Proofs.EliminationRounds
import Clausal.Proofs.Expressions
import Clausal.Proofs.Files
import Clausal.Proofs.ForcedLiterals
import Clausal.Proofs.GradedOrder
import Clausal.Proofs.Implicates
import Clausal.Proofs.LeastModel
import Clausal.Proofs.Lines
import Clausal.Proofs.PrintedModel
import Clausal.Proofs.Projection
import Clausal.Proofs.Propagation
import Clausal.Proofs.PureLiterals
import Clausal.Proofs.RandomWalk
import Clausal.Proofs.Resolution
import Clausal.Proofs.ResolutionClosure
import Clausal.Proofs.Resolvents
import Clausal.Proofs.Restriction
import Clausal.Proofs.Saturation
import Clausal.Proofs.SaturationPasses
import Clausal.Proofs.SearchCalls
import Clausal.Proofs.StableFormulas
import Clausal.Proofs.Tables
import Clausal.Proofs.TokenClasses
import Clausal.Proofs.Tokens
import Clausal.Proofs.UnitClosure
import Clausal.Proofs.VariableElimination
import Clausal.Proofs.Verdicts
