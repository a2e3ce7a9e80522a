import Clausal.Formula

/-! # Unit propagation and pure literals

A clause with one literal forces that literal.  `propagate` makes the literals of an assignment
true in a formula and then one forced literal after another, the first unit in clause order
first, until no unit is left or a clause has become false.  Every step drops a clause, so the
steps come to an end.

A literal of an open variable is pure when its complement does not occur.  `purify` makes all pure
literals true and drops their clauses. -/

namespace Clausal

/-- Why propagation stops before its end. -/
inductive Stop
  | conflict (e : Conflict)
  | fault (f : Fault)
deriving DecidableEq, Repr

/-- A run of unit propagation. -/
structure Propagation where
  /-- The forced literals in the order in which they were made true. -/
  trail : List Literal
  /-- The assignment at the end, also of a run that stops. -/
  state : Assignment
  /-- The clauses that are left. -/
  outcome : Except Stop Formula

namespace Formula

/-! ### Units -/

/-- Make the literals of unit clauses true until there is no unit clause. -/
def propagateUnits (F : Formula) (s : Assignment) : Propagation :=
  match _ : F.unit? with
  | none => ⟨[], s, .ok F⟩
  | some l =>
      match s.clash? l with
      | some f => ⟨[l], s.assign l, .error (.fault f)⟩
      | none =>
          match _ : F.condition l with
          | .error e => ⟨[l], s.assign l, .error (.conflict e)⟩
          | .ok G =>
              let rest := G.propagateUnits (s.assign l)
              { rest with trail := l :: rest.trail }
termination_by F.size
decreasing_by exact size_condition ‹_› ‹_›

/-- Make the literals of `s` true, and then those of unit clauses. -/
def propagate (F : Formula) (s : Assignment) : Propagation :=
  if F.hasEmptyClause then ⟨[], s, .error (.conflict ⟨∅⟩)⟩
  else
    match F.under s with
    | .error e => ⟨[], s, .error (.conflict e)⟩
    | .ok G => G.propagateUnits s

theorem vars_under {F G : Formula} {ls : List Literal} (h : ls.foldlM condition F = .ok G)
    {v : Var} (hv : v ∈ G.vars) : v ∈ F.vars := by
  induction ls generalizing F with
  | nil => cases h; exact hv
  | cons l ls ih =>
      rw [List.foldlM_cons] at h
      cases hF : F.condition l with
      | error e => rw [hF] at h; cases h
      | ok H => rw [hF] at h; exact (vars_condition hF (ih h)).1

theorem vars_propagateUnits {F G : Formula} {s : Assignment}
    (h : (F.propagateUnits s).outcome = .ok G) {v : Var} (hv : v ∈ G.vars) : v ∈ F.vars := by
  fun_induction propagateUnits F s with
  | case1 => cases h; exact hv
  | case2 => cases h
  | case3 => cases h
  | case4 F s l hl _ H hH rest ih => exact (vars_condition hH (ih h)).1

/-- Propagation brings in no variable. -/
theorem vars_propagate {F G : Formula} {s : Assignment} (h : (F.propagate s).outcome = .ok G)
    {v : Var} (hv : v ∈ G.vars) : v ∈ F.vars := by
  rw [propagate] at h
  split at h
  · cases h
  · split at h
    · cases h
    · next hG => exact vars_under hG (vars_propagateUnits h hv)

/-! ### Pure literals -/

/-- The literals of variables without a value. -/
def openLiterals (F : Formula) (s : Assignment) : Std.TreeSet Literal :=
  .ofList ((F.clauses.flatMap Clause.toList).filter fun l => !s.isAssigned l.var)

/-- The literals of variables without a value whose complement does not occur. -/
def pureLiterals (F : Formula) (s : Assignment) : List Literal :=
  let ls := F.openLiterals s
  ls.toList.filter fun l => decide (-l ∉ ls)

theorem mem_openLiterals {F : Formula} {s : Assignment} {l : Literal} :
    l ∈ F.openLiterals s ↔ (∃ c ∈ F, l ∈ c) ∧ s.value? l.var = none := by
  simp [openLiterals, Std.TreeSet.mem_ofList, Assignment.isAssigned]

theorem mem_pureLiterals {F : Formula} {s : Assignment} {l : Literal} :
    l ∈ F.pureLiterals s ↔ l ∈ F.openLiterals s ∧ -l ∉ F.openLiterals s := by
  simp [pureLiterals]

end Formula

/-- What making the pure literals true does. -/
structure Purification where
  pures : List Literal
  state : Assignment
  fault? : Option Fault
  /-- The clauses without a pure literal. -/
  formula : Formula

namespace Formula

/-- Make the pure literals true and drop their clauses. -/
def purify (F : Formula) (s : Assignment) : Purification :=
  let ls := F.pureLiterals s
  let ext := s.extend ls
  ⟨ls, ext.state, ext.fault?, F.without ls⟩

theorem vars_purify {F : Formula} {s : Assignment} {v : Var} (hv : v ∈ (F.purify s).formula.vars) :
    v ∈ F.vars := vars_without hv

end Formula

end Clausal
