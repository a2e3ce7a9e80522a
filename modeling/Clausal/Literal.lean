/-! # Variables and literals

A variable is a positive number, a literal is a variable with a sign, and `-l` is the literal
of the other sign.  Literals are listed by variable, the positive literal before the negative
one, so that a literal and its complement are neighbours in a sorted list.  The order is read
off one number, `Literal.rank`.

Some steps rest on a promise of their caller: a variable is given one value only, a number that
is to be a literal is not zero.  `Fault` names the promise that was broken, and `Fault.message`
is the one place where it is put into words. -/

namespace Clausal

/-! ### Variables -/

/-- A propositional variable, known by a positive number. -/
structure Var where
  index : Nat
  index_pos : 0 < index
deriving DecidableEq, Repr

namespace Var

instance : Inhabited Var := ⟨⟨1, Nat.one_pos⟩⟩

instance : Ord Var := ⟨compareOn Var.index⟩

theorem index_inj {v w : Var} : v.index = w.index ↔ v = w := by
  cases v; cases w; simp

theorem compare_eq_lt {v w : Var} : compare v w = .lt ↔ v.index < w.index :=
  Nat.compare_eq_lt

instance : Std.TransOrd Var := inferInstanceAs (Std.TransCmp (compareOn Var.index))

instance : Std.LawfulEqOrd Var where
  compare_self := Std.ReflOrd.compare_self (α := Nat)
  eq_of_compare h := index_inj.mp (Std.LawfulEqOrd.eq_of_compare (α := Nat) h)

/-- There is no variable number zero. -/
def ofNat? (n : Nat) : Option Var :=
  if h : 0 < n then some ⟨n, h⟩ else none

/-- Variables are written `x1`, `x2`, … -/
def text (v : Var) : String := "x" ++ toString v.index

end Var

/-! ### Literals -/

/-- A variable or its negation. -/
structure Literal where
  var : Var
  positive : Bool
deriving DecidableEq, Repr

namespace Literal

/-- The literal that says `v`. -/
def pos (v : Var) : Literal := ⟨v, true⟩

/-- The literal that denies `v`. -/
def neg (v : Var) : Literal := ⟨v, false⟩

instance : Inhabited Literal := ⟨pos default⟩

/-- The same variable with the other sign. -/
instance : Neg Literal := ⟨fun l => ⟨l.var, !l.positive⟩⟩

@[simp]
theorem var_neg (l : Literal) : (-l).var = l.var := rfl

@[simp]
theorem positive_neg (l : Literal) : (-l).positive = !l.positive := rfl

@[simp]
theorem neg_neg (l : Literal) : -(-l) = l := by
  cases l; simp [Neg.neg]

@[simp]
theorem neg_inj {l m : Literal} : -l = -m ↔ l = m :=
  ⟨fun h => by rw [← neg_neg l, h, neg_neg], fun h => by rw [h]⟩

@[simp]
theorem neg_ne_self (l : Literal) : -l ≠ l := fun h => by
  have := congrArg positive h
  simp at this

@[simp]
theorem ne_neg_self (l : Literal) : l ≠ -l := (neg_ne_self l).symm

@[simp]
theorem neg_pos (v : Var) : -(pos v) = neg v := rfl

@[simp]
theorem neg_neg_var (v : Var) : -(neg v) = pos v := rfl

/-- Two literals of one variable are equal or complementary. -/
theorem eq_or_eq_neg {l m : Literal} (h : l.var = m.var) : l = m ∨ l = -m := by
  obtain ⟨v, p⟩ := l
  obtain ⟨w, q⟩ := m
  subst h
  cases p <;> cases q <;> simp [Neg.neg]

/-- The place of a literal in the order: by variable, the positive literal first. -/
def rank (l : Literal) : Nat := 2 * l.var.index + if l.positive then 0 else 1

theorem rank_inj {l m : Literal} : l.rank = m.rank ↔ l = m := by
  refine ⟨fun h => ?_, fun h => by rw [h]⟩
  obtain ⟨v, p⟩ := l
  obtain ⟨w, q⟩ := m
  have hvw : v = w := by
    apply Var.index_inj.mp
    cases p <;> cases q <;> simp [rank] at h <;> omega
  subst hvw
  cases p <;> cases q <;> simp [rank] at h ⊢

/-- A literal and its complement are neighbours in the order. -/
theorem rank_neg_of_lt {l : Literal} (h : l.rank < (-l).rank) : (-l).rank = l.rank + 1 := by
  obtain ⟨v, p⟩ := l
  cases p with
  | true => rfl
  | false =>
      have h : 2 * v.index + 1 < 2 * v.index := h
      omega

instance : Ord Literal := ⟨compareOn rank⟩

theorem compare_eq_lt {l m : Literal} : compare l m = .lt ↔ l.rank < m.rank :=
  Nat.compare_eq_lt

/-- Literals are ordered by variable in the first place. -/
theorem index_le_of_lt {l m : Literal} (h : compare l m = .lt) : l.var.index ≤ m.var.index := by
  have h := compare_eq_lt.mp h
  rw [rank, rank] at h
  split at h <;> split at h <;> omega

instance : Std.TransOrd Literal := inferInstanceAs (Std.TransCmp (compareOn rank))

instance : Std.LawfulEqOrd Literal where
  compare_self := Std.ReflOrd.compare_self (α := Nat)
  eq_of_compare h := rank_inj.mp (Std.LawfulEqOrd.eq_of_compare (α := Nat) h)

/-- Whether two literals say opposite things of one variable. -/
def isComplementOf (l m : Literal) : Bool :=
  l.var = m.var && l.positive != m.positive

theorem isComplementOf_iff {l m : Literal} : l.isComplementOf m = true ↔ m = -l := by
  obtain ⟨v, p⟩ := l
  obtain ⟨w, q⟩ := m
  cases p <;> cases q <;> simp [isComplementOf, Neg.neg, eq_comm]

/-- A negative literal is written with `¬` before its variable. -/
def text (l : Literal) : String :=
  if l.positive then l.var.text else "¬" ++ l.var.text

/-! ### Signed numbers -/

/-- The largest number that may stand for a literal in a file. -/
def maxNumber : Nat := 2147483647

/-- The variable number, with a minus sign for a negative literal. -/
def number (l : Literal) : Int :=
  if l.positive then l.var.index else -l.var.index

/-- The literal of a signed number: zero is none, nor is a number of more than 31 bits. -/
def ofInt? (n : Int) : Option Literal :=
  if h : 0 < n.natAbs ∧ n.natAbs ≤ maxNumber then
    some ⟨⟨n.natAbs, h.1⟩, decide (0 < n)⟩
  else
    none

end Literal

/-! ### Broken promises -/

/-- The promise that a step found broken. -/
inductive Fault
  /-- A number that stands for no literal was to be one. -/
  | notALiteral (n : Int)
  /-- A variable was to get the value opposite to the one it has. -/
  | reassigned (v : Var) (previous : Bool)
  /-- A variable has too large a number to be written with a sign in 32 bits. -/
  | oversized
  /-- Giving an eliminated variable its value left a removed clause unsatisfied. -/
  | unrepaired
  /-- An index was to be drawn below zero. -/
  | emptyRange
deriving DecidableEq, Repr

namespace Fault

def message : Fault → String
  | notALiteral n => toString n ++ " is not a literal"
  | reassigned v previous =>
      v.text ++ " is already assigned to Some(" ++ (if previous then "true" else "false") ++ ")"
  | oversized => "ID exceeds i32::MAX: TryFromIntError(PosOverflow)"
  | unrepaired => "assertion failed: removed.iter().all(|c| c.is_satisfied_by(&state))"
  | emptyRange => "cannot sample empty range"

end Fault

/-- The literal of a signed number, which is promised to stand for one. -/
def Literal.ofInt (n : Int) : Except Fault Literal :=
  match ofInt? n with
  | some l => .ok l
  | none => .error (.notALiteral n)

end Clausal
