import Clausal.Proofs.Restriction

/-! # What a conflict of unit propagation says

Propagation that stops reports a clause, which by then may be a small rest of a clause of the
formula.  `Certifies F s e t` says what the report is good for, when the run began under `s` and
ended under `t`: it leads back to a clause of `F` that is false under `t`.

A conflict arises in one of three ways.  The formula holds the empty clause, which is reported as it
is; a literal of `s` empties a clause (`certifies_of_under`); or a unit does, after some unit steps
(`UnitSteps.certifies`).  The last two are alike: what is left of the formula at that point is the
residue under the literals made true before, so that the complement of the last literal stands alone
in a clause whose other literals are all false (`Certifies.of_unit`).

The main statement is `propagate_certifies`. -/

namespace Clausal.Formula

variable {F G H : Formula} {s t : Assignment} {c : Clause} {l : Literal} {e : Conflict}

/-- The conflict `e` is what is left of a clause of `F` that is false under `t`, and `t` keeps the
values of `s` and has further ones for variables of `F` only. -/
structure Certifies (F : Formula) (s : Assignment) (e : Conflict) (t : Assignment) : Prop where
  subset : s ⊆ t
  mem_or_var_mem : ∀ l ∈ t, l ∈ s ∨ l.var ∈ F.vars
  exists_clause : ∃ c ∈ F, (∀ l ∈ e.clause, l ∈ c) ∧ c.eval t = some false
  size_le : e.clause.size ≤ 1
  eq_empty_iff : e.clause = ∅ ↔ ∅ ∈ F

theorem certifies_empty (h : F.hasEmptyClause = true) : F.Certifies s ⟨∅⟩ s where
  subset := Assignment.subset_refl s
  mem_or_var_mem _ hl := .inl hl
  exists_clause := by
    refine ⟨∅, hasEmptyClause_iff_mem.mp h, fun l hl => hl, ?_⟩
    simp [Clause.eval_eq_false]
  size_le := by simp
  eq_empty_iff := iff_of_true rfl (hasEmptyClause_iff_mem.mp h)

/-- The complement of a true literal is left of a clause whose other literals are false. -/
theorem Certifies.of_unit (hF : F.hasEmptyClause = false) (hst : s ⊆ t)
    (hvar : ∀ m ∈ t, m ∈ s ∨ m.var ∈ F.vars) (he : e.clause = .unit (-l)) (hl : l ∈ t)
    (hc : ∃ c ∈ F, -l ∈ c ∧ ∀ m ∈ c, m ≠ -l → -m ∈ t) : F.Certifies s e t where
  subset := hst
  mem_or_var_mem := hvar
  exists_clause := by
    obtain ⟨c, hc, hlc, hrest⟩ := hc
    refine ⟨c, hc, fun m hm => ?_, Clause.eval_eq_false_of_rest hl hrest⟩
    rw [he, Clause.mem_unit] at hm
    rw [hm]
    exact hlc
  size_le := by simp [he]
  eq_empty_iff := by
    have hempty : ∅ ∉ F := by
      rw [← hasEmptyClause_iff_mem, hF]
      simp
    simp [he, hempty]

theorem certifies_of_under (hF : F.hasEmptyClause = false) (h : F.under s = .error e) :
    F.Certifies s e s := by
  obtain ⟨l, hl, hclause, -, c, hc, hlc, hrest⟩ := exists_of_under_error h
  apply Certifies.of_unit hF (Assignment.subset_refl s) (fun _ hm => .inl hm) hclause hl
  refine ⟨c, hc, hlc, fun m hm hne => ?_⟩
  exact (Assignment.mem_below.mp (hrest m hm hne)).1

theorem UnitSteps.certifies (hF : F.hasEmptyClause = false) (hH : F.under s = .ok H)
    (h : UnitSteps H s G t) (hl : G.unit? = some l) (he : G.condition l = .error e) :
    F.Certifies s e (t.assign l) := by
  have hreduces := (reduces_under hH).trans h.reduces
  obtain ⟨d, hd, hunit⟩ := mem_vars_of_unit? hl
  have hlG : l.var ∈ G.vars := mem_vars_of_mem hd (Clause.mem_of_unit? hunit)
  have hopen : t.isAssigned l.var = false := h.openIn (openIn_under hH) l.var hlG
  have htl : t ⊆ t.assign l :=
    Assignment.subset_assign (Assignment.neg_not_mem_of_isAssigned hopen)
  have hvar : ∀ m ∈ t.assign l, m ∈ s ∨ m.var ∈ F.vars := by
    intro m hm
    rcases Assignment.mem_assign.mp hm with rfl | ⟨hm, -⟩
    · exact .inr (hreduces.vars_subset _ hlG)
    · exact hreduces.mem_or_var_mem m hm
  rw [h.eq_residue hH] at he
  obtain ⟨hclause, c, hc, hlc, hrest⟩ := exists_of_condition_residue he
  apply Certifies.of_unit hF (Assignment.subset_trans hreduces.subset htl) hvar hclause
    (Assignment.mem_assign_self t l)
  exact ⟨c, hc, hlc, fun m hm hne => htl _ (hrest m hm hne)⟩

theorem certifies_of_propagate (h : (F.propagate s).outcome = .error (.conflict e)) :
    F.Certifies s e (F.propagate s).state := by
  revert h
  unfold propagate
  split
  · next hempty =>
      intro h
      cases h
      exact certifies_empty hempty
  · next hempty =>
      have hF := Bool.eq_false_iff.mpr hempty
      split
      · next e' he =>
          intro h
          cases h
          exact certifies_of_under hF he
      · next H hH =>
          intro h
          have hrun := propagateUnits_run H s
          rw [h] at hrun
          generalize (H.propagateUnits s).state = t at hrun ⊢
          cases hrun with
          | conflict hsteps hl he => exact hsteps.certifies hF hH hl he

/-- Propagation stops for no other reason than a conflict.  Up to there it has changed no value and
given values to variables of the formula only.  What it reports is empty if the formula holds the
empty clause, and else one literal, left over from a clause of the formula that is false now. -/
theorem propagate_certifies {stop : Stop} (h : (F.propagate s).outcome = .error stop) :
    ∃ e, stop = .conflict e ∧ s ⊆ (F.propagate s).state ∧
      (∀ l ∈ (F.propagate s).state, l ∉ s → l.var ∈ F.vars) ∧
      (∃ c ∈ F, (∀ l ∈ e.clause, l ∈ c) ∧ c.eval (F.propagate s).state = some false) ∧
      e.clause.size ≤ 1 ∧ (e.clause = ∅ ↔ ∅ ∈ F) := by
  cases stop with
  | fault f => exact absurd h (propagate_ne_fault F s f)
  | conflict e =>
      have hcert := certifies_of_propagate h
      refine ⟨e, rfl, hcert.subset, fun l hl hls => ?_, hcert.exists_clause, hcert.size_le,
        hcert.eq_empty_iff⟩
      exact (hcert.mem_or_var_mem l hl).resolve_left hls

/-- Under `x1`, the clauses `¬x1 ∨ x2`, `¬x2 ∨ x3` and `¬x1 ∨ ¬x2 ∨ ¬x3` make `x2` and `x3` true;
then `¬x3` is all that is left of the last one. -/
theorem propagate_certifies_of_chain :
    let u : Var := ⟨1, by decide⟩
    let v : Var := ⟨2, by decide⟩
    let w : Var := ⟨3, by decide⟩
    let c : Clause := .ofList [.neg u, .neg v, .neg w]
    let F : Formula := ⟨[.ofList [.neg u, .pos v], .ofList [.neg v, .pos w], c]⟩
    let s : Assignment := (∅ : Assignment).assign (.pos u)
    let t : Assignment := (s.assign (.pos v)).assign (.pos w)
    (F.propagate s).outcome = .error (.conflict ⟨.unit (.neg w)⟩) ∧ (F.propagate s).state = t ∧
      ∃ e, Stop.conflict ⟨.unit (.neg w)⟩ = .conflict e ∧ s ⊆ (F.propagate s).state ∧
        (∀ l ∈ (F.propagate s).state, l ∉ s → l.var ∈ F.vars) ∧
        (∃ c ∈ F, (∀ l ∈ e.clause, l ∈ c) ∧ c.eval (F.propagate s).state = some false) ∧
        e.clause.size ≤ 1 ∧ (e.clause = ∅ ↔ ∅ ∈ F) := by
  intro u v w c F s t
  have hrun : F.propagate s =
      ⟨[.pos v, .pos w], t, .error (.conflict ⟨.unit (.neg w)⟩)⟩ := by cbv
  have houtcome : (F.propagate s).outcome = .error (.conflict ⟨.unit (.neg w)⟩) := by rw [hrun]
  exact ⟨houtcome, by rw [hrun], propagate_certifies houtcome⟩

end Clausal.Formula
