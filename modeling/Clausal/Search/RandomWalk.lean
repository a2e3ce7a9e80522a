import Clausal.Random
import Clausal.Verdict

/-! # Random walk

The local search WalkSAT. It starts from a random assignment of all variables.  A step draws one of
the clauses that are not satisfied and flips one of its variables: with the probability `noise` a
random one, else the one that leaves the fewest clauses unsatisfied, the first of them on a tie.
The search ends at a model or when its flips are used up.  It proves nothing of a formula, except
that a formula with the empty clause has no model. -/

namespace Clausal.RandomWalk

/-- Where the walk stands, and the source of the draws to come. -/
structure Position (σ : Type) where
  state : Assignment
  source : σ

/-- The clauses that the assignment does not satisfy. -/
def unsatisfied (F : Formula) (s : Assignment) : List Clause :=
  F.clauses.filter fun c => !c.isSatisfiedBy s

/-- The variable of a clause that was best so far, and the clauses that its flip leaves. -/
structure Best where
  var : Var
  count : Nat

/-- Flip a variable, count what is left unsatisfied, and flip it back. -/
def probe (F : Formula) (p : Option Best × Assignment) (v : Var) : Option Best × Assignment :=
  let flipped := p.2.flip v
  let count := (unsatisfied F flipped).length
  let best :=
    match p.1 with
    | some b => if count < b.count then ⟨v, count⟩ else b
    | none => ⟨v, count⟩
  (some best, flipped.flip v)

/-- The variable of the clause whose flip leaves the fewest clauses unsatisfied, the first on a
tie, and the assignment after all have been probed. -/
def greedyPick (F : Formula) (s : Assignment) (c : Clause) : Option Var × Assignment :=
  let (best, t) := (c.toList.map Literal.var).foldl (probe F) (none, s)
  (best.map Best.var, t)

section Draws

variable {σ : Type} [RandomSource σ]

/-- Draw a member of a list, which is promised to have one. -/
def draw {α : Type} (xs : List α) (g : σ) : Except Fault (α × σ) :=
  if h : 0 < xs.length then
    let (i, g) := RandomSource.below xs.length h g
    .ok (xs[i], g)
  else .error .emptyRange

/-- Toss a coin for every variable. -/
def toss : List Var → Assignment → σ → Except Fault (Position σ)
  | [], s, g => .ok ⟨s, g⟩
  | v :: vs, s, g => do
      let (b, g) := RandomSource.coin g
      toss vs (← s.assign? ⟨v, b⟩) g

/-- The variable of `c` to flip, if it has one, with the position after the draws. -/
def choose (F : Formula) (noise : Float) (p : Position σ) (c : Clause) :
    Except Fault (Option Var × Position σ) := do
  let (x, g) := RandomSource.fraction p.source
  if x < noise then
    let (l, g) ← draw c.toList g
    pure (some l.var, ⟨p.state, g⟩)
  else
    let (v?, t) := greedyPick F p.state c
    pure (v?, ⟨t, g⟩)

/-- What a step leads to. -/
inductive Step (σ : Type)
  /-- Every clause is satisfied. -/
  | model
  | fault (f : Fault)
  /-- The clause drawn has no variable. -/
  | stuck (p : Position σ)
  /-- A variable of an unsatisfied clause was flipped. -/
  | flip (v : Var) (c : Clause) (p : Position σ)

/-- One step of the walk. -/
def step (F : Formula) (noise : Float) (p : Position σ) : Step σ :=
  match unsatisfied F p.state with
  | [] => .model
  | c :: cs =>
      let picked : Except Fault (Clause × Option Var × Position σ) := do
        let (c, g) ← draw (c :: cs) p.source
        let (v?, q) ← choose F noise ⟨p.state, g⟩ c
        pure (c, v?, q)
      match picked with
      | .error f => .fault f
      | .ok (_, none, q) => .stuck q
      | .ok (c, some v, q) => .flip v c ⟨q.state.flip v, q.source⟩

/-- Why a walk ends. -/
inductive Ending
  /-- A model was found with flips to spare. -/
  | model
  /-- The flips are used up, or no variable could be flipped. -/
  | stopped
  | fault (f : Fault)

/-- A walk and its end. -/
structure Walk (σ : Type) where
  /-- The variables flipped with the clauses that they were flipped for, the latest first. -/
  flips : List (Var × Clause)
  position : Position σ
  ending : Ending

/-- Walk on for at most the given number of flips. -/
def walk (F : Formula) (noise : Float) : Nat → List (Var × Clause) → Position σ → Walk σ
  | 0, flips, p => ⟨flips, p, .stopped⟩
  | n + 1, flips, p =>
      match step F noise p with
      | .model => ⟨flips, p, .model⟩
      | .fault f => ⟨flips, p, .fault f⟩
      | .stuck q => ⟨flips, q, .stopped⟩
      | .flip v c q => walk F noise n ((v, c) :: flips) q

/-- The verdict on a walk of at most `maxFlips` flips: a walk that stopped gets one last look. -/
def Walk.verdict (w : Walk σ) (F : Formula) (maxFlips : Nat) : Traced (Except Fault Verdict) :=
  let flips := w.flips.reverse.map fun (v, c) => .flip v c
  match w.ending with
  | .fault f => ⟨.error f, flips⟩
  | .model => ⟨.ok (.sat w.position.state), flips ++ [.modelFound w.flips.length]⟩
  | .stopped =>
      if (unsatisfied F w.position.state).isEmpty then ⟨.ok (.sat w.position.state), flips⟩
      else ⟨.ok .unknown, flips ++ [.noModel maxFlips]⟩

/-- Keep a probability between zero and one; what is not a number stays as it is. -/
def clampNoise (x : Float) : Float := if x < 0 then 0 else if 1 < x then 1 else x

/-- Look for a model by a walk of at most `maxFlips` flips, and give back the source after it. -/
def solve (F : Formula) (maxFlips : Nat) (noise : Float) (g : σ) :
    Traced (Except Fault Verdict) × σ :=
  if F.hasEmptyClause then (⟨.ok .unsat, [.emptyInput]⟩, g)
  else
    match toss F.vars.toList ∅ g with
    | .error f => (⟨.error f, []⟩, g)
    | .ok p =>
        let w := walk F (clampNoise noise) maxFlips [] p
        (w.verdict F maxFlips, w.position.source)

end Draws

end Clausal.RandomWalk
