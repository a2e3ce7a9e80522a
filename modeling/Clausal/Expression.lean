import Clausal.Formula

/-! # Expressions over literals, clauses and formulas

Literals are joined by `or` to clauses and by `and` to formulas.  An expression has a value of one
of these three sorts, and not every pair of sorts can be joined: a formula has no disjunction, and
only a formula can take in a formula.  `Expression.value` finds the value from left to right or
says why there is none. -/

namespace Clausal

/-! ### Values -/

/-- The value of an expression. -/
inductive Value
  | literal (l : Literal)
  | clause (c : Clause)
  | formula (F : Formula)
deriving DecidableEq, Repr

namespace Value

/-- The value as a clause, if it can be one. -/
def clause? : Value → Option Clause
  | literal l => some (.unit l)
  | clause c => some c
  | formula _ => none

/-- The value as a formula. -/
def toFormula : Value → Formula
  | literal l => .single (.unit l)
  | clause c => .single c
  | formula F => F

/-- The complement of a literal. -/
def not? : Value → Option Value
  | literal l => some (literal (-l))
  | clause _ | formula _ => none

/-- The disjunction of literals and clauses. -/
def or? (x y : Value) : Option Value := do
  return clause ((← x.clause?).union (← y.clause?))

/-- The conjunction, in which only a formula may come before a formula. -/
def and? (x y : Value) : Option Value :=
  match x, y with
  | formula F, y => some (formula (F.append y.toFormula))
  | literal _, formula _ | clause _, formula _ => none
  | x, y => some (formula (x.toFormula.append y.toFormula))

def eval (s : Assignment) : Value → Option Bool
  | literal l => l.eval s
  | clause c => c.eval s
  | formula F => F.eval s

def text : Value → String
  | literal l => l.text
  | clause c => c.text
  | formula F => F.text

end Value

/-! ### Expressions -/

inductive Expression
  | literal (l : Literal)
  | clause (c : Clause)
  /-- The formula without clauses. -/
  | truth
  | not (e : Expression)
  /-- A literal or clause as a formula. -/
  | formula (e : Expression)
  | or (e f : Expression)
  | and (e f : Expression)
  /-- An operand that stands for nothing, as one of its numbers is no literal. -/
  | broken (f : Fault)
deriving DecidableEq, Repr

/-- Why an expression has no value. -/
inductive ExpressionError
  /-- The operands are of sorts that cannot be joined. -/
  | illSorted
  | fault (f : Fault)
deriving DecidableEq, Repr

namespace Expression

/-- A value, or the complaint that the sorts do not fit. -/
def sorted (x? : Option Value) : Except ExpressionError Value :=
  match x? with
  | some x => .ok x
  | none => .error .illSorted

/-- The value, of whose operands the left one is found first. -/
def value : Expression → Except ExpressionError Value
  | literal l => .ok (.literal l)
  | clause c => .ok (.clause c)
  | truth => .ok (.formula ∅)
  | not e => do sorted (← e.value).not?
  | formula e => do return .formula (← e.value).toFormula
  | or e f => do
      let x ← e.value
      let y ← f.value
      sorted (x.or? y)
  | and e f => do
      let x ← e.value
      let y ← f.value
      sorted (x.and? y)
  | broken f => .error (.fault f)

end Expression

end Clausal
