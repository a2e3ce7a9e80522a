import Clausal.Formula.Elimination
import Clausal.Propagation
import Clausal.Verdict

/-! # Deciding by variable elimination

The procedure of Davis and Putnam.  A round propagates units, makes the pure literals of what is
left true and then eliminates the least variable by resolution.  Each round uses up a variable, so
the rounds come to an end; the number of clauses may grow from round to round and is not bounded.

When the clauses run out, the eliminated variables get their values in the opposite order of
their elimination: false, unless that leaves a clause unsatisfied that the elimination removed. -/

namespace Clausal.VariableElimination

/-- An eliminated variable with the clauses that mentioned it. -/
structure Eliminated where
  var : Var
  removed : List Clause
deriving DecidableEq, Repr

/-- What a round starts from. -/
structure Position where
  formula : Formula
  state : Assignment
  /-- The variables eliminated so far, the latest first. -/
  eliminated : List Eliminated
deriving DecidableEq, Repr

/-- How a round ends. -/
inductive Outcome
  /-- Propagation made a clause false. -/
  | conflict (e : Conflict)
  | fault (f : Fault)
  /-- No clause is left. -/
  | solved (s : Assignment)
  /-- An empty clause is left. -/
  | emptyClause
  /-- Clauses are left but no variable. -/
  | noVariable (s : Assignment)
  /-- A variable is eliminated. -/
  | eliminated (v : Var) (e : Elimination) (s : Assignment)

/-- A round and how its outcome came about. -/
structure Round where
  trail : List Literal
  pures : List Literal
  outcome : Outcome

/-- Units in the order in which they were found, the pure literals, and then the elimination or
the conflict of round number `n`. -/
def Round.events (r : Round) (n : Nat) : List Event :=
  r.trail.map .unit ++ (if r.pures.isEmpty then [] else [.pures r.pures]) ++
    match r.outcome with
    | .conflict e => [.refuted e (n - 1)]
    | .eliminated v e _ =>
        [.eliminated v e.removed.length e.resolvents.length, .round n v e.result.size]
    | _ => []

/-- Simplify, and eliminate the least variable of what is left. -/
def round (p : Position) : Round :=
  let q := p.formula.propagate p.state
  match q.outcome with
  | .error (.conflict e) => ⟨q.trail, [], .conflict e⟩
  | .error (.fault f) => ⟨q.trail, [], .fault f⟩
  | .ok G =>
      if G.isEmpty then ⟨q.trail, [], .solved q.state⟩
      else
        let r := G.purify q.state
        match r.fault? with
        | some f => ⟨q.trail, r.pures, .fault f⟩
        | none =>
            if r.formula.isEmpty then ⟨q.trail, r.pures, .solved r.state⟩
            else if r.formula.hasEmptyClause then ⟨q.trail, r.pures, .emptyClause⟩
            else
              match r.formula.leastVar? with
              | none => ⟨q.trail, r.pures, .noVariable r.state⟩
              | some v => ⟨q.trail, r.pures, .eliminated v (r.formula.eliminate v) r.state⟩

/-- The position after the elimination of `v`. -/
def Position.next (p : Position) (v : Var) (e : Elimination) (s : Assignment) : Position :=
  ⟨e.result, s, ⟨v, e.removed⟩ :: p.eliminated⟩

theorem size_vars_next {p : Position} {v : Var} {e : Elimination} {s : Assignment}
    (h : (round p).outcome = .eliminated v e s) :
    (p.next v e s).formula.vars.size < p.formula.vars.size := by
  rw [round] at h
  split at h
  · cases h
  · cases h
  · next G hG =>
      dsimp only at h
      split at h
      · cases h
      split at h
      · cases h
      split at h
      · cases h
      split at h
      · cases h
      split at h
      · cases h
      · next hv =>
          cases h
          exact Nat.lt_of_lt_of_le
            (Formula.size_vars_eliminate (Formula.mem_vars_of_leastVar? hv))
            (SortedSet.size_le_size fun w hw => Formula.vars_propagate hG (Formula.vars_purify hw))

/-- An assignment without false clauses left, and what was eliminated to get there. -/
structure Finish where
  state : Assignment
  /-- The eliminated variables, the latest first. -/
  eliminated : List Eliminated

/-- Go on round by round until no clause is left or one is false. -/
def run (p : Position) : Traced (Except Fault (Option Finish)) :=
  let r := round p
  let events := r.events (p.eliminated.length + 1)
  match _ : r.outcome with
  | .conflict _ | .emptyClause => ⟨.ok none, events⟩
  | .fault f => ⟨.error f, events⟩
  | .solved s | .noVariable s => ⟨.ok (some ⟨s, p.eliminated⟩), events⟩
  | .eliminated v e s => (run (p.next v e s)).after events
termination_by p.formula.vars.size
decreasing_by exact size_vars_next ‹_›

/-- Give an eliminated variable its value: false, or true if a removed clause needs it. -/
def restoreOne (s : Assignment) (e : Eliminated) : Except Fault Assignment := do
  let t ← s.assign? (.neg e.var)
  let u := if e.removed.all (·.isSatisfiedBy t) then t else t.flip e.var
  if e.removed.all (·.isSatisfiedBy u) then .ok u else .error .unrepaired

/-- Extend an assignment to the variables of `F`: the variables that vanished are false, and then
the eliminated ones get their values, the latest first. -/
def restore (F : Formula) (p : Finish) : Except Fault Assignment :=
  let vanished := F.vars.filter fun v => !p.eliminated.any fun e => decide (e.var = v)
  p.eliminated.foldlM restoreOne (p.state.fill vanished.toList false)

/-- Decide a formula by eliminating its variables. -/
def solve (F : Formula) : Traced (Except Fault Verdict) :=
  (run ⟨F, ∅, []⟩).map fun r => do
    match ← r with
    | some p => .sat <$> restore F p
    | none => pure .unsat

end Clausal.VariableElimination
