import Clausal.Formula

/-! # What a search answers and reports

A solver says of a formula that it has a model, that it has none, or that it gave up.  Giving up
proves nothing.

The searches report what they do as events.  An event is data; `Event.line` puts it into words,
with the level that it is reported at.  `Traced` pairs a result with the events of the run that
led to it, the earliest first. -/

namespace Clausal

/-! ### Verdicts -/

/-- The answer of a solver. -/
inductive Verdict
  | sat (model : Assignment)
  | unsat
  | unknown
deriving DecidableEq, Repr

namespace Verdict

/-- The answer of a complete search: a model, or none. -/
def ofModel? : Option Assignment → Verdict
  | some s => sat s
  | none => unsat

def model? : Verdict → Option Assignment
  | sat s => some s
  | unsat | unknown => none

def isSat (r : Verdict) : Bool := r.model?.isSome

def tag : Verdict → String
  | sat _ => "SAT"
  | unsat => "UNSAT"
  | unknown => "UNKNOWN"

end Verdict

/-! ### Events -/

/-- One step of a search that is worth reporting. -/
inductive Event
  /-- A clause with one literal forces that literal. -/
  | unit (l : Literal)
  /-- Literals whose complement does not occur are made true. -/
  | pures (ls : List Literal)
  /-- Propagation made a clause false. -/
  | conflict (e : Conflict)
  /-- A literal is tried. -/
  | decision (l : Literal)
  /-- A literal is tried in plain case splitting. -/
  | set (l : Literal)
  /-- A variable is eliminated: how many clauses go and how many come. -/
  | eliminated (v : Var) (removed resolvents : Nat)
  /-- A round of eliminations ends with this many clauses. -/
  | round (n : Nat) (v : Var) (left : Nat)
  /-- Propagation made a clause false after some eliminations. -/
  | refuted (e : Conflict) (eliminations : Nat)
  /-- The formula holds the empty clause from the start. -/
  | emptyInput
  /-- Two clauses have the empty clause as their resolvent. -/
  | emptyResolvent (c d : Clause) (pass : Nat)
  /-- A pass of saturation ends. -/
  | pass (n found known : Nat)
  /-- The walk came to a model. -/
  | modelFound (flips : Nat)
  /-- The walk flips a variable of a false clause. -/
  | flip (v : Var) (c : Clause)
  /-- The walk used up its flips. -/
  | noModel (flips : Nat)
deriving DecidableEq, Repr

namespace Event

/-- Whether the event is one of many of its kind in a run. -/
def isFine : Event → Bool
  | unit _ | pures _ | conflict _ | decision _ | set _ | eliminated .. | flip .. => true
  | round .. | refuted .. | emptyInput | emptyResolvent .. | pass .. | modelFound _ | noModel _ =>
      false

def text : Event → String
  | unit l => "Unit: " ++ l.text
  | pures ls => "Pure literals: [" ++ ", ".intercalate (ls.map Literal.text) ++ "]"
  | conflict e => e.message
  | decision l => "Decision: " ++ l.text
  | set l => "Set " ++ l.text
  | eliminated v removed resolvents =>
      "Eliminate " ++ v.text ++ ": " ++ toString removed ++ " clauses -> " ++
        toString resolvents ++ " resolvents"
  | round n v left =>
      "Round " ++ toString n ++ ": eliminate " ++ v.text ++ ", " ++ toString left ++ " clauses left"
  | refuted e n => e.message ++ " after " ++ toString n ++ " eliminations"
  | emptyInput => "Input contains " ++ (∅ : Clause).text
  | emptyResolvent c d n =>
      (∅ : Clause).text ++ " from " ++ c.text ++ " and " ++ d.text ++ " in pass " ++ toString n
  | pass n found known =>
      "Pass " ++ toString n ++ ": " ++ toString found ++ " new resolvents, " ++
        toString known ++ " clauses"
  | modelFound n => "Model found after " ++ toString n ++ " flips"
  | flip v c => "Flip " ++ v.text ++ " in " ++ c.text
  | noModel n => "No model within " ++ toString n ++ " flips"

/-- The event in words, behind its level. -/
def line (e : Event) : String := (if e.isFine then "TRACE " else "DEBUG ") ++ e.text

end Event

/-! ### Runs -/

/-- A result with the events of the run that led to it. -/
structure Traced (α : Type) where
  result : α
  log : List Event

namespace Traced

/-- The same run with earlier events before it. -/
def after {α : Type} (t : Traced α) (earlier : List Event) : Traced α :=
  { t with log := earlier ++ t.log }

def map {α β : Type} (f : α → β) (t : Traced α) : Traced β := ⟨f t.result, t.log⟩

@[simp]
theorem result_after {α : Type} (t : Traced α) (es : List Event) :
    (t.after es).result = t.result := rfl

@[simp]
theorem log_after {α : Type} (t : Traced α) (es : List Event) :
    (t.after es).log = es ++ t.log := rfl

@[simp]
theorem result_map {α β : Type} (f : α → β) (t : Traced α) : (t.map f).result = f t.result := rfl

@[simp]
theorem log_map {α β : Type} (f : α → β) (t : Traced α) : (t.map f).log = t.log := rfl

end Traced

/-- A run that looks for an assignment of some kind and may find that there is none. -/
abbrev Attempt := Traced (Except Fault (Option Assignment))

/-- Try the second run if the first one finds that there is no assignment. -/
def Attempt.orElse (t : Attempt) (u : Unit → Attempt) : Attempt :=
  match t.result with
  | .ok none => (u ()).after t.log
  | _ => t

/-- Make `l` true in the assignment found. -/
def Attempt.assigning (t : Attempt) (l : Literal) : Attempt :=
  t.map fun r => do
    match ← r with
    | some s => some <$> s.assign? l
    | none => pure none

end Clausal
