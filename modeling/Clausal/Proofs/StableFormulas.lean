import Clausal.Proofs.ForcedLiterals
import Clausal.Proofs.PureLiterals

/-! # Formulas that simplifying leaves

A formula is `Stable` under an assignment when its clauses have two literals at least and none of
its variables has a value.  Propagation leaves a stable formula, and taking out the pure literals
keeps it stable; neither of the two gives a variable a second value (`simplifiesSafely`).  In a
stable formula each literal can be made true without emptying a clause (`Stable.condition`).

These are the facts that backtracking and variable elimination rest on when they take for granted
that a step after simplifying cannot fail.

In a stable formula propagation finds nothing to do (`Stable.propagate_eq`).  So the main statement,
`propagate_keeps_models`, has two parts: propagation keeps the models beyond the assignment that
it starts from, or refutes them all, and a second propagation keeps everything as it is. -/

namespace Clausal

namespace Formula

variable {F G : Formula} {s : Assignment}

/-- Every clause has at least two literals, and no variable has a value. -/
structure Stable (F : Formula) (s : Assignment) : Prop where
  openIn : F.OpenIn s
  two_le_size : ∀ c ∈ F, 2 ≤ c.size

theorem Stable.hasEmptyClause (h : F.Stable s) : F.hasEmptyClause = false := by
  rw [Bool.eq_false_iff, ne_eq, hasEmptyClause_iff_mem]
  intro hempty
  have hsize := h.two_le_size ∅ hempty
  simp at hsize

theorem Stable.unit? (h : F.Stable s) : F.unit? = none := by
  apply List.findSome?_eq_none_iff.mpr
  intro c hc
  by_contra hunit
  obtain ⟨l, hl⟩ := Option.ne_none_iff_exists'.mp hunit
  have hsize := h.two_le_size c hc
  rw [Clause.size_of_unit? hl] at hsize
  omega

/-- No literal is the complement of a unit, so each can be made true. -/
theorem Stable.condition (h : F.Stable s) (l : Literal) : ∃ G, F.condition l = .ok G := by
  cases hG : F.condition l with
  | ok G => exact ⟨G, rfl⟩
  | error e =>
      obtain ⟨hmem, hunit⟩ := unit?_of_condition_error hG
      have hsize := h.two_le_size _ hmem
      rw [Clause.size_of_unit? hunit] at hsize
      omega

/-! ### Simplifying -/

theorem stable_propagate (h : (F.propagate s).outcome = .ok G) :
    G.Stable (F.propagate s).state := by
  have hempty := hasEmptyClause_propagate h
  have hunit := unit?_propagate h
  refine ⟨openIn_propagate h, fun c hc => ?_⟩
  apply Clause.two_le_size
  · rw [hasEmptyClause, List.any_eq_false] at hempty
    exact Bool.eq_false_iff.mpr (hempty c hc)
  · exact List.findSome?_eq_none_iff.mp hunit c hc

theorem Stable.purify (h : F.Stable s) : (F.purify s).formula.Stable (F.purify s).state := by
  refine ⟨openIn_purify h.openIn, fun c hc => ?_⟩
  rw [purify_eq] at hc
  exact h.two_le_size c (mem_without.mp hc).1

/-- Simplifying `F` under `s` gives no variable a second value, and what it leaves is stable after
each of its two steps. -/
structure SimplifiesSafely (F : Formula) (s : Assignment) : Prop where
  propagate_ne_fault : ∀ f, (F.propagate s).outcome ≠ .error (.fault f)
  stable_propagate : ∀ G, (F.propagate s).outcome = .ok G → G.Stable (F.propagate s).state
  fault?_purify : ∀ G, (F.propagate s).outcome = .ok G →
    (G.purify (F.propagate s).state).fault? = none
  stable_purify : ∀ G, (F.propagate s).outcome = .ok G →
    (G.purify (F.propagate s).state).formula.Stable (G.purify (F.propagate s).state).state

theorem simplifiesSafely (F : Formula) (s : Assignment) : F.SimplifiesSafely s where
  propagate_ne_fault := Formula.propagate_ne_fault F s
  stable_propagate _ hG := Formula.stable_propagate hG
  fault?_purify _ _ := by rw [purify_eq]
  stable_purify _ hG := (Formula.stable_propagate hG).purify

/-! ### Propagating again -/

theorem under_of_openIn (h : F.OpenIn s) : F.under s = .ok F := by
  apply foldlM_condition_of_not_mem_vars
  intro l hl hv
  exact Assignment.not_mem_of_isAssigned (h l.var hv) hl

theorem Stable.propagate_eq (h : F.Stable s) : F.propagate s = ⟨[], s, .ok F⟩ := by
  have hunits : F.propagateUnits s = ⟨[], s, .ok F⟩ := by
    unfold propagateUnits
    split
    · rfl
    · next l hl =>
        rw [h.unit?] at hl
        cases hl
  simp [propagate, h.hasEmptyClause, under_of_openIn h.openIn, hunits]

/-- Propagation keeps the models beyond the assignment that it starts from, all of them and no
others, or it shows that there are none.  What it leaves has neither an empty clause nor a unit nor
a variable with a value, so that propagating again changes nothing. -/
theorem propagate_keeps_models (F : Formula) (s : Assignment) :
    (∃ e, (F.propagate s).outcome = .error (.conflict e) ∧
      ∀ u, s ⊆ u → ¬ F.isSatisfiedBy u = true) ∨
    ∃ G, (F.propagate s).outcome = .ok G ∧ s ⊆ (F.propagate s).state ∧
      (∀ c ∈ G, c ≠ ∅ ∧ ∀ l, c ≠ .unit l) ∧
      (∀ v ∈ G.vars, (F.propagate s).state.isAssigned v = false) ∧
      (∀ u, s ⊆ u → (F.isSatisfiedBy u = true ↔
        (F.propagate s).state ⊆ u ∧ G.isSatisfiedBy u = true)) ∧
      G.propagate (F.propagate s).state = ⟨[], (F.propagate s).state, .ok G⟩ := by
  cases hout : (F.propagate s).outcome with
  | error stop =>
      left
      cases stop with
      | conflict e => exact ⟨e, rfl, fun u hu => not_isSatisfiedBy_of_propagate hout hu⟩
      | fault f => exact absurd hout (propagate_ne_fault F s f)
  | ok G =>
      right
      have hreduces := reduces_propagate hout
      have hstable := stable_propagate hout
      refine ⟨G, rfl, hreduces.subset, fun c hc => ?_, hstable.openIn,
        hreduces.isSatisfiedBy_iff, hstable.propagate_eq⟩
      have hsize := hstable.two_le_size c hc
      constructor
      · rintro rfl
        simp at hsize
      · rintro l rfl
        simp at hsize

end Formula

end Clausal
