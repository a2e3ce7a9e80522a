import Clausal.Propagation
import Clausal.Verdict

/-! # Backtracking search

The search of Davis, Putnam, Logemann and Loveland: `expand` simplifies a formula by unit
propagation and one round of pure literals and picks the first open variable in clause order;
`search` tries that variable true first and then false.  Every decision uses up a variable, which
bounds the depth.  Variables that the search never had to fix are false in the model.

Plain case splitting is the search without inference: try the least variable that occurs, true
first, and go on with the clauses that are left.  The variables on the way down get their values on
the way up, and the variables that vanished are false in the model.  It may visit `2 ^ n` formulas
and serves as the measure of the other searches. -/

namespace Clausal.Backtracking

/-- Where the search stands after simplifying. -/
inductive Node
  /-- Propagation made a clause false. -/
  | conflict (e : Conflict)
  | fault (f : Fault)
  /-- No clause is left. -/
  | model (s : Assignment)
  /-- Propagation left an empty clause. -/
  | emptyClause
  /-- Clauses are left but no open variable. -/
  | stuck
  /-- An open variable of the clauses left has to be decided. -/
  | branch (F : Formula) (s : Assignment) (v : Var)

/-- A simplified formula and how it came about. -/
structure Expansion where
  trail : List Literal
  pures : List Literal
  node : Node

/-- Units in the order in which they were found, then the pure literals, then a conflict. -/
def Expansion.events (x : Expansion) : List Event :=
  x.trail.map .unit ++ (if x.pures.isEmpty then [] else [.pures x.pures]) ++
    match x.node with
    | .conflict e => [.conflict e]
    | _ => []

/-- Simplify a formula under an assignment and pick the variable to decide. -/
def expand (F : Formula) (s : Assignment) : Expansion :=
  let p := F.propagate s
  match p.outcome with
  | .error (.conflict e) => ⟨p.trail, [], .conflict e⟩
  | .error (.fault f) => ⟨p.trail, [], .fault f⟩
  | .ok G =>
      if G.isEmpty then ⟨p.trail, [], .model p.state⟩
      else if G.hasEmptyClause then ⟨p.trail, [], .emptyClause⟩
      else
        let q := G.purify p.state
        match q.fault? with
        | some f => ⟨p.trail, q.pures, .fault f⟩
        | none =>
            if q.formula.isEmpty then ⟨p.trail, q.pures, .model q.state⟩
            else
              match q.formula.firstOpenVar? q.state with
              | none => ⟨p.trail, q.pures, .stuck⟩
              | some v => ⟨p.trail, q.pures, .branch q.formula q.state v⟩

/-- A decision is on an open variable of what propagation and the pure literals left. -/
theorem exists_of_branch {F G : Formula} {s t : Assignment} {v : Var}
    (h : (expand F s).node = .branch G t v) :
    ∃ H, (F.propagate s).outcome = .ok H ∧ G = (H.purify (F.propagate s).state).formula ∧
      t = (H.purify (F.propagate s).state).state ∧ G.firstOpenVar? t = some v := by
  rw [expand] at h
  split at h
  · cases h
  · cases h
  · next H hH =>
      dsimp only at h
      split at h
      · cases h
      split at h
      · cases h
      split at h
      · cases h
      split at h
      · cases h
      split at h
      · cases h
      · next hv =>
          cases h
          exact ⟨H, hH, rfl, rfl, hv⟩

/-- The variable to decide occurs, and simplifying brings in no variable. -/
theorem vars_expand {F G : Formula} {s t : Assignment} {v : Var}
    (h : (expand F s).node = .branch G t v) : v ∈ G.vars ∧ ∀ w ∈ G.vars, w ∈ F.vars := by
  obtain ⟨H, hH, rfl, rfl, hv⟩ := exists_of_branch h
  exact ⟨Formula.mem_vars_of_firstOpenVar? hv,
    fun w hw => Formula.vars_propagate hH (Formula.vars_purify hw)⟩

theorem size_vars_branch {F G H : Formula} {s t : Assignment} {v : Var} {l : Literal}
    (h : (expand F s).node = .branch G t v) (hl : l.var = v) (hH : G.condition l = .ok H) :
    H.vars.size < F.vars.size :=
  Nat.lt_of_lt_of_le (Formula.size_vars_condition hH (hl ▸ (vars_expand h).1))
    (SortedSet.size_le_size (vars_expand h).2)

/-- Look for an assignment that extends `s` and makes every clause true. -/
def search (F : Formula) (s : Assignment) : Attempt :=
  let x := expand F s
  match _ : x.node with
  | .conflict _ | .emptyClause | .stuck => ⟨.ok none, x.events⟩
  | .fault f => ⟨.error f, x.events⟩
  | .model t => ⟨.ok (some t), x.events⟩
  | .branch G t v =>
      let attempt (l : Literal) (_ : l.var = v) : Attempt :=
        match _ : G.condition l with
        | .error _ => ⟨.ok none, [.decision l]⟩
        | .ok H =>
            match t.clash? l with
            | some f => ⟨.error f, [.decision l]⟩
            | none => (search H (t.assign l)).after [.decision l]
      ((attempt (.pos v) rfl).orElse fun _ => attempt (.neg v) rfl).after x.events
termination_by F.vars.size
decreasing_by exact size_vars_branch ‹_› ‹_› ‹_›

/-- Decide a formula by backtracking. -/
def solve (F : Formula) : Traced (Except Fault Verdict) :=
  (search F ∅).map fun r => do
    match ← r with
    | some s => pure (.sat (s.fill F.vars.toList false))
    | none => pure .unsat

end Clausal.Backtracking

/-! ### Plain case splitting -/

namespace Clausal.CaseSplitting

/-- Look for an assignment of the variables that were tried. -/
def split (F : Formula) : Attempt :=
  if F.hasEmptyClause then ⟨.ok none, []⟩
  else
    match _ : F.leastVar? with
    | none => ⟨.ok (some ∅), []⟩
    | some v =>
        let attempt (l : Literal) (_ : l.var = v) : Attempt :=
          match _ : F.condition l with
          | .error _ => ⟨.ok none, [.set l]⟩
          | .ok G => ((split G).assigning l).after [.set l]
        (attempt (.pos v) rfl).orElse fun _ => attempt (.neg v) rfl
termination_by F.vars.size
decreasing_by
  subst ‹_ = v›
  exact Formula.size_vars_condition ‹_› (Formula.mem_vars_of_leastVar? ‹_›)

/-- Decide a formula by case splitting. -/
def solve (F : Formula) : Traced (Except Fault Verdict) :=
  (split F).map fun r => do
    match ← r with
    | some s => pure (.sat (s.fill F.vars.toList false))
    | none => pure .unsat

end Clausal.CaseSplitting
