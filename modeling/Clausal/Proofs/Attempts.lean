import Clausal.Proofs.PureLiterals
import Clausal.Verdict

/-! # Answers of a search for a model

`Answers F s r` is what a search promises that looks for an assignment beyond `s`: it comes to
an end without a fault, what it finds satisfies `F` and has no values but those of `s` and of
variables of `F`, and it finds nothing only if there is nothing to find.

Searches simplify, try a literal and then its complement.  Each of the three has one lemma that
says what it does to answers: `Simplifies.answers`, `Answers.of_condition` and `Answers.orElse`.
An answer beyond the empty assignment decides the formula when the variables without a value get
one (`Answers.decided`). -/

namespace Clausal

open Formula

/-- The result of a search for an assignment beyond `s` that satisfies `F`. -/
inductive Answers (F : Formula) (s : Assignment) : Except Fault (Option Assignment) → Prop
  | found {t : Assignment} (subset : s ⊆ t) (mem_or_var_mem : ∀ l ∈ t, l ∈ s ∨ l.var ∈ F.vars)
      (isSatisfiedBy : F.isSatisfiedBy t = true) : Answers F s (.ok (some t))
  | absent (not_isSatisfiedBy : ∀ u, s ⊆ u → ¬ F.isSatisfiedBy u = true) : Answers F s (.ok none)

variable {F G : Formula} {s t : Assignment} {l : Literal} {v : Var}
  {r : Except Fault (Option Assignment)}

theorem Formula.Simplifies.answers (h : Simplifies F s G t) (hr : Answers G t r) :
    Answers F s r := by
  cases hr with
  | found hsub hmem hsat =>
      refine .found (Assignment.subset_trans h.subset hsub) (fun m hm => ?_)
        (h.isSatisfiedBy _ hsub hsat)
      rcases hmem m hm with hm | hm
      · exact h.mem_or_var_mem m hm
      · exact .inr (h.vars_subset _ hm)
  | absent hno =>
      refine .absent fun u hsu hF => ?_
      obtain ⟨w, htw, hG⟩ := h.exists_isSatisfiedBy u hsu hF
      exact hno w htw hG

/-- After a literal was made true in the formula, answers are answers for the formula before. -/
theorem Answers.of_condition (h : F.condition l = .ok G) (hl : l ∈ s) (hr : Answers G s r) :
    Answers F s r := by
  cases hr with
  | found hsub hmem hsat =>
      refine .found hsub (fun m hm => (hmem m hm).imp_right fun hm => (vars_condition h hm).1) ?_
      exact (isSatisfiedBy_condition h (hsub l hl)).mp hsat
  | absent hno =>
      refine .absent fun u hsu hF => hno u hsu ?_
      exact (isSatisfiedBy_condition h (hsu l hl)).mpr hF

theorem Answers.of_condition_error {e : Conflict} (h : F.condition l = .error e) (hl : l ∈ s) :
    Answers F s (.ok none) :=
  .absent fun _ hsu => not_isSatisfiedBy_of_condition_error h (hsu l hl)

/-- What is found beyond `s` and a literal of an open variable is found beyond `s`. -/
theorem Answers.found_of_assign (hl : -l ∉ s) (hv : l.var ∈ F.vars)
    (h : Answers F (s.assign l) (.ok (some t))) : Answers F s (.ok (some t)) := by
  cases h with
  | found hsub hmem hsat =>
      have hst : s ⊆ t := Assignment.subset_trans (Assignment.subset_assign hl) hsub
      refine .found hst (fun m hm => ?_) hsat
      rcases hmem m hm with hm | hm
      · rcases Assignment.mem_assign.mp hm with rfl | ⟨hm, -⟩
        · exact .inr hv
        · exact .inl hm
      · exact .inr hm

theorem Attempt.result_orElse (a : Attempt) (b : Unit → Attempt) : (a.orElse b).result =
    match a.result with
    | .ok none => (b ()).result
    | r => r := by
  unfold Attempt.orElse
  cases h : a.result with
  | error f => exact h
  | ok t =>
      cases t with
      | none => rfl
      | some s => exact h

/-- Trying an open variable true and, if that fails, false leaves nothing out. -/
theorem Answers.orElse {a : Attempt} {b : Unit → Attempt} (hv : v ∈ F.vars)
    (hs : s.isAssigned v = false) (ha : Answers F (s.assign (.pos v)) a.result)
    (hb : Answers F (s.assign (.neg v)) (b ()).result) : Answers F s (a.orElse b).result := by
  have hpos : -(Literal.pos v) ∉ s := Assignment.not_mem_of_isAssigned hs
  have hneg : -(Literal.neg v) ∉ s := Assignment.not_mem_of_isAssigned hs
  unfold Attempt.orElse
  generalize hra : a.result = ra at ha
  cases ha with
  | found hsub hmem hsat =>
      dsimp only
      rw [hra]
      exact .found_of_assign hpos hv (.found hsub hmem hsat)
  | absent hnoa =>
      rw [Traced.result_after]
      generalize hrb : (b ()).result = rb at hb
      cases hb with
      | found hsub hmem hsat => exact .found_of_assign hneg hv (.found hsub hmem hsat)
      | absent hnob =>
          refine .absent fun u hsu hF => ?_
          -- an assignment that does not deny `v` satisfies the formula with `v` as well
          by_cases hu : Literal.neg v ∈ u
          · exact hnob u (Assignment.assign_subset hsu hu) hF
          · have hext : u ⊆ u.assign (.pos v) := Assignment.subset_assign hu
            refine hnoa (u.assign (.pos v)) ?_ (isSatisfiedBy_mono hext hF)
            exact Assignment.assign_subset (Assignment.subset_trans hsu hext)
              (Assignment.mem_assign_self u _)

/-- An assignment that was found becomes a model when the variables without a value get one. -/
theorem Answers.isModel_fill (b : Bool) (h : Answers F ∅ (.ok (some t))) :
    F.IsModel (t.fill F.vars.toList b) := by
  cases h with
  | found hsub hmem hsat =>
      refine ⟨fun v => ?_, isSatisfiedBy_mono (Assignment.subset_fill t _ b) hsat⟩
      rw [Assignment.isAssigned_fill, SortedSet.mem_toList, or_iff_right_of_imp]
      intro hv
      obtain ⟨l, hl, rfl⟩ := Assignment.isAssigned_iff.mp hv
      exact (hmem l hl).resolve_left (Assignment.not_mem_empty l)

/-- The verdict on an answer of a search: what was found is filled up. -/
def Verdict.ofAnswer (F : Formula) : Option Assignment → Verdict
  | some s => .sat (s.fill F.vars.toList false)
  | none => .unsat

theorem Answers.decided (h : Answers F ∅ r) : F.Decided (Verdict.ofAnswer F <$> r) := by
  cases h with
  | found hsub hmem hsat => exact ((Answers.found hsub hmem hsat).isModel_fill false).decided
  | absent hno => exact decided_unsat (not_satisfiable hno)

end Clausal
