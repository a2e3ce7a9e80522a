import Clausal.Algorithm
import Clausal.Proofs.Backtracking
import Clausal.Proofs.CaseSplitting
import Clausal.Proofs.RandomWalk
import Clausal.Proofs.Saturation
import Clausal.Proofs.VariableElimination

/-! # What the verdicts of the algorithms have in common

The complete algorithms decide every formula (`Algorithm.decided_solve`), and whatever algorithm
answers with an assignment, it is a model: it satisfies the formula and gives values to its
variables and to no others (`Algorithm.isModel_of_solve`).  No algorithm breaks a promise on the
way (`Algorithm.exists_verdict`). -/

namespace Clausal

open Formula

variable {F : Formula} {m : Assignment}

/-! ### Models and formulas that are decided -/

theorem Formula.Decided.isModel (h : F.Decided (.ok (.sat m))) : F.IsModel m := by
  have hsat : F.Satisfiable := by
    by_contra hunsat
    exact nomatch h.unsat_iff.mpr hunsat
  obtain ⟨n, hn, hmodel⟩ := h.model hsat
  cases hn
  exact hmodel

theorem Formula.IsModel.var_mem {l : Literal} (h : F.IsModel m) (hl : l ∈ m) : l.var ∈ F.vars := by
  rw [← h.isAssigned_iff]
  exact Assignment.isAssigned_of_mem hl

/-- A model makes exactly one of a variable and its negation true. -/
theorem Formula.IsModel.pos_mem_iff {v : Var} (h : F.IsModel m) (hv : v ∈ F.vars) :
    .pos v ∈ m ↔ .neg v ∉ m := by
  constructor
  · intro hpos
    exact Assignment.neg_not_mem hpos
  · intro hneg
    have hassigned : m.isAssigned (Literal.pos v).var = true := (h.isAssigned_iff v).mpr hv
    exact (Assignment.mem_or_neg_mem_of_isAssigned hassigned).resolve_right hneg

theorem Formula.IsModel.exists_mem {c : Clause} (h : F.IsModel m) (hc : c ∈ F) :
    ∃ l ∈ c, l ∈ m :=
  Clause.isSatisfiedBy_iff.mp (isSatisfiedBy_iff.mp h.isSatisfiedBy c hc)

/-! ### All algorithms -/

namespace Algorithm

variable {a : Algorithm} {w : WalkSettings}

theorem decided_solve (h : a.isComplete = true) (w : WalkSettings) (F : Formula) :
    F.Decided (a.solve w F).result := by
  cases a with
  | backtracking => exact Backtracking.decided_solve F
  | variableElimination => exact VariableElimination.decided_solve F
  | saturation => exact Saturation.decided_solve F
  | caseSplitting => exact CaseSplitting.decided_solve F
  | randomWalk => cases h

theorem isModel_of_solve (h : (a.solve w F).result = .ok (.sat m)) : F.IsModel m := by
  by_cases ha : a.isComplete = true
  · have hdecided := decided_solve ha w F
    rw [h] at hdecided
    exact hdecided.isModel
  · cases a with
    | randomWalk => exact RandomWalk.isModel_of_solve h
    | _ => exact absurd rfl ha

theorem exists_verdict (a : Algorithm) (w : WalkSettings) (F : Formula) :
    ∃ v, (a.solve w F).result = .ok v := by
  by_cases ha : a.isComplete = true
  · exact (decided_solve ha w F).exists_verdict
  · cases a with
    | randomWalk => exact RandomWalk.exists_verdict F _ _ _
    | _ => exact absurd rfl ha

end Algorithm

end Clausal
