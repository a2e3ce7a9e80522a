import Mathlib.Order.Bounds.Basic
import Clausal.Proofs.Saturation

/-! # Saturation is closure under resolution

`ResolutionClosed F D` says of a set `D` of clauses that it lacks nothing that resolution finds:
it holds the clauses of `F` that say something, and every resolvent of two of its clauses, on any
variable, that says something.  The derived clauses are the least such set (`isLeast_derived`).

`Stage.Follows` is one pass, seen as a step from stage to stage; no sequence of passes goes on for
ever (`wellFounded_follows`).  The main statement is `saturate_isLeast`. -/

namespace Clausal

/-- What two clauses with opposite literals of `v` say without them. -/
structure Clause.IsResolvent (v : Var) (c d r : Clause) : Prop where
  pos_mem : .pos v ∈ c
  neg_mem : .neg v ∈ d
  mem_iff : ∀ l, l ∈ r ↔ l ∈ c ∧ l ≠ .pos v ∨ l ∈ d ∧ l ≠ .neg v

/-- No literal stands beside its complement. -/
def Clause.IsConsistent (c : Clause) : Prop := ∀ l ∈ c, -l ∉ c

/-- A set of clauses that holds what a formula says and what follows from it by resolution. -/
structure ResolutionClosed (F : Formula) (D : Set Clause) : Prop where
  input_mem : ∀ c ∈ F, c.IsConsistent → c ∈ D
  resolvent_mem : ∀ c ∈ D, ∀ d ∈ D, ∀ v r, Clause.IsResolvent v c d r → r.IsConsistent → r ∈ D

namespace Clause

variable {c d r : Clause} {v : Var}

theorem isTautology_eq_false : c.isTautology = false ↔ c.IsConsistent := by
  rw [Bool.eq_false_iff, ne_eq, isTautology_iff]
  constructor
  · intro h l hl hneg
    exact h ⟨l, hl, hneg⟩
  · rintro h ⟨l, hl, hneg⟩
    exact h l hl hneg

theorem isResolvent_iff :
    IsResolvent v c d r ↔ .pos v ∈ c ∧ .neg v ∈ d ∧ r = resolventOn v c d := by
  constructor
  · intro h
    exact ⟨h.pos_mem, h.neg_mem, ext fun l => (h.mem_iff l).trans mem_resolventOn.symm⟩
  · rintro ⟨hp, hn, rfl⟩
    exact ⟨hp, hn, fun l => mem_resolventOn⟩

end Clause

/-- The derived clauses are the least set that resolution does not lead out of. -/
theorem isLeast_derived (F : Formula) :
    IsLeast {D | ResolutionClosed F D} {c | Derived F c} := by
  refine ⟨⟨fun c hc hcon => ?_, fun c hc d hd v r hr hcon => ?_⟩, fun D hD c hc => ?_⟩
  · exact .input hc (Clause.isTautology_eq_false.mpr hcon)
  · obtain ⟨hp, hn, rfl⟩ := Clause.isResolvent_iff.mp hr
    exact .resolvent hc hd hp hn (Clause.isTautology_eq_false.mpr hcon)
  · induction hc with
    | input hc htaut => exact hD.input_mem _ hc (Clause.isTautology_eq_false.mp htaut)
    | resolvent _ _ hp hn htaut ihc ihd =>
        have hr := Clause.isResolvent_iff.mpr ⟨hp, hn, rfl⟩
        exact hD.resolvent_mem _ ihc _ ihd _ _ hr (Clause.isTautology_eq_false.mp htaut)

namespace Saturation

variable {U : List Literal}

/-! ### Passes as steps -/

/-- A pass leads from the second stage to the first. -/
def Stage.Follows (st' st : Stage U) : Prop :=
  st.frontier ≠ [] ∧ ∃ k, ∃ h : pass st = .ok k, st' = st.next k h

/-- Passes come to an end: each one adds a clause over `U`, or else empties the frontier. -/
theorem wellFounded_follows : WellFounded (Stage.Follows (U := U)) := by
  have hlex : WellFounded (Prod.Lex (· < ·) (· < ·) : Nat × Nat → Nat × Nat → Prop) :=
    WellFounded.prod_lex Nat.lt_wfRel.wf Nat.lt_wfRel.wf
  refine Subrelation.wf (fun {st' st} hst => ?_)
    (InvImage.wf (fun st : Stage U => (missing U st.known, st.frontier.length)) hlex)
  obtain ⟨hne, k, h, rfl⟩ := hst
  exact lex_next hne h

/-- Saturation comes to an end with the least set of clauses that resolution does not lead out
of, or with nothing if the empty clause is one of them. -/
theorem saturate_isLeast (F : Formula) :
    WellFounded (Stage.Follows (U := literalsOf F)) ∧
    ∃ D : Set Clause, IsLeast {D | ResolutionClosed F D} D ∧
      ((saturate F).result = none ↔ ∅ ∈ D) ∧
      (∅ ∉ D → ∃ S, (saturate F).result = some S ∧ ∀ c, c ∈ S ↔ c ∈ D) := by
  refine ⟨wellFounded_follows, {c | Derived F c}, isLeast_derived F, ?_⟩
  have hsat := saturate_spec F
  generalize (saturate F).result = r at hsat
  cases hsat with
  | refuted hempty => exact ⟨iff_of_true rfl hempty, fun hno => absurd hempty hno⟩
  | closed hempty hmem => exact ⟨iff_of_false nofun hempty, fun _ => ⟨_, rfl, hmem⟩⟩

end Saturation

end Clausal
