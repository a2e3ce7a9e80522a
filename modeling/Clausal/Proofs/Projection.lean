import Clausal.Proofs.ResolutionClosure

/-! # Elimination is existential quantification

Eliminating `v` from a formula leaves what can be said of the other variables alone: an assignment
with a value for each of them satisfies the result if and only if it satisfies the formula with
`v` true or with `v` false (`eliminate_isSatisfiedBy_iff`).

One direction needs all the resolvents: if neither value would do, two of the removed clauses would
have a false resolvent (`removed_isSatisfiedBy`).  The other one is that resolvents follow from
the formula and that `v` is gone from them.  Tautologies are left out on both sides of the
resolution, since a tautology is satisfied in any case.

The main statement is `eliminate_quantifies`, which also tells the result and the removed clauses
as lists, by `Clause.IsResolvent`. -/

namespace Clausal

theorem Clause.mentions_eq (c : Clause) (v : Var) : c.mentions v = decide (v ∈ c.vars) := by
  rw [Bool.eq_iff_iff, decide_eq_true_eq, mentions_iff, mem_vars]
  constructor
  · rintro (h | h)
    · exact ⟨_, h, rfl⟩
    · exact ⟨_, h, rfl⟩
  · rintro ⟨l, hl, rfl⟩
    obtain ⟨w, p⟩ := l
    cases p with
    | true => exact .inl hl
    | false => exact .inr hl

namespace Formula

variable {F : Formula} {s : Assignment} {l : Literal} {v : Var} {r : Clause}

/-! ### The clauses of the result -/

theorem kept_eliminate (F : Formula) (v : Var) :
    (F.eliminate v).kept = F.clauses.filter fun c => decide (v ∉ c.vars) := by
  simp [eliminate, Clause.mentions_eq]

theorem removed_eliminate (F : Formula) (v : Var) :
    (F.eliminate v).removed = F.clauses.filter fun c => decide (v ∈ c.vars) := by
  simp [eliminate, Clause.mentions_eq]

theorem nodup_resolvents (F : Formula) (v : Var) : (F.eliminate v).resolvents.Nodup :=
  nodup_distinct

theorem mem_candidates_iff {c : Clause} (hv : v ∈ c.vars) :
    c ∈ F.candidates v ↔ c ∈ F ∧ c.IsConsistent := by
  rw [mem_candidates, Clause.mentions_eq, Clause.isTautology_eq_false]
  simp [hv]

theorem mem_resolvents : r ∈ (F.eliminate v).resolvents ↔
    r.IsConsistent ∧ ∃ c ∈ F, ∃ d ∈ F, c.IsConsistent ∧ d.IsConsistent ∧
      Clause.IsResolvent v c d r := by
  have hpos : ∀ c : Clause, .pos v ∈ c → v ∈ c.vars := fun c hp => Clause.mem_vars.mpr ⟨_, hp, rfl⟩
  have hneg : ∀ c : Clause, .neg v ∈ c → v ∈ c.vars := fun c hn => Clause.mem_vars.mpr ⟨_, hn, rfl⟩
  refine mem_resolventsOn.trans (and_congr Clause.isTautology_eq_false ?_)
  constructor
  · rintro ⟨c, hc, d, hd, hp, hn, rfl⟩
    obtain ⟨hcF, hccon⟩ := (mem_candidates_iff (hpos c hp)).mp hc
    obtain ⟨hdF, hdcon⟩ := (mem_candidates_iff (hneg d hn)).mp hd
    exact ⟨c, hcF, d, hdF, hccon, hdcon, Clause.isResolvent_iff.mpr ⟨hp, hn, rfl⟩⟩
  · rintro ⟨c, hcF, d, hdF, hccon, hdcon, hr⟩
    obtain ⟨hp, hn, rfl⟩ := Clause.isResolvent_iff.mp hr
    have hc := (mem_candidates_iff (hpos c hp)).mpr ⟨hcF, hccon⟩
    have hd := (mem_candidates_iff (hneg d hn)).mpr ⟨hdF, hdcon⟩
    exact ⟨c, hc, d, hd, hp, hn, rfl⟩

/-! ### The models of the result -/

theorem isSatisfiedBy_assign_iff (hl : l.var ∉ F.vars) :
    F.isSatisfiedBy (s.assign l) = true ↔ F.isSatisfiedBy s = true := by
  rw [isSatisfiedBy_iff, isSatisfiedBy_iff]
  refine forall₂_congr fun c hc => Clause.isSatisfiedBy_assign_iff fun m hm heq => hl ?_
  rw [← heq]
  exact mem_vars_of_mem hc hm

/-- A model of the formula satisfies the result also without its value for `v`. -/
theorem eliminate_isSatisfiedBy_of_assign (hl : l.var = v)
    (h : F.isSatisfiedBy (s.assign l) = true) : (F.eliminate v).result.isSatisfiedBy s = true := by
  have hgone : l.var ∉ (F.eliminate v).result.vars := fun hv => (vars_eliminate hv).2 hl
  exact (isSatisfiedBy_assign_iff hgone).mp (eliminate_isSatisfiedBy h)

theorem eliminate_isSatisfiedBy_iff (hs : ∀ w ∈ F.vars, w ≠ v → s.isAssigned w = true) :
    (F.eliminate v).result.isSatisfiedBy s = true ↔
      F.isSatisfiedBy (s.assign (.pos v)) = true ∨ F.isSatisfiedBy (s.assign (.neg v)) = true := by
  constructor
  · intro h
    rcases removed_isSatisfiedBy hs h with hneg | hpos
    · exact .inr (isSatisfiedBy_of_removed rfl h hneg)
    · exact .inl (isSatisfiedBy_of_removed rfl h hpos)
  · rintro (h | h)
    · exact eliminate_isSatisfiedBy_of_assign rfl h
    · exact eliminate_isSatisfiedBy_of_assign rfl h

/-- Eliminating a variable is quantifying it existentially.  The result is about the other variables
of the formula.  It lists the clauses without the variable as they stood and then each resolvent
once that is no tautology; what was removed are the clauses with the variable as they stood. -/
theorem eliminate_quantifies (F : Formula) (v : Var) :
    (∀ s : Assignment, (∀ w ∈ F.vars, w ≠ v → s.isAssigned w = true) →
      ((F.eliminate v).result.isSatisfiedBy s = true ↔
        F.isSatisfiedBy (s.assign (.pos v)) = true ∨
          F.isSatisfiedBy (s.assign (.neg v)) = true)) ∧
    v ∉ (F.eliminate v).result.vars ∧
    (∀ w ∈ (F.eliminate v).result.vars, w ∈ F.vars) ∧
    (∃ rs : List Clause,
      (F.eliminate v).result.clauses = (F.clauses.filter fun c => decide (v ∉ c.vars)) ++ rs ∧
      rs.Nodup ∧
      ∀ r, r ∈ rs ↔ r.IsConsistent ∧ ∃ c ∈ F, ∃ d ∈ F, c.IsConsistent ∧ d.IsConsistent ∧
        Clause.IsResolvent v c d r) ∧
    (F.eliminate v).removed = F.clauses.filter fun c => decide (v ∈ c.vars) := by
  refine ⟨fun s hs => eliminate_isSatisfiedBy_iff hs, fun hv => (vars_eliminate hv).2 rfl,
    fun w hw => (vars_eliminate hw).1, ?_, removed_eliminate F v⟩
  refine ⟨(F.eliminate v).resolvents, ?_, nodup_resolvents F v, fun r => mem_resolvents⟩
  rw [← kept_eliminate]
  rfl

/-- Nothing takes the place of clauses that have tautologies for resolvents, or are tautologies. -/
example :
    let u : Var := ⟨1, by decide⟩
    let v : Var := ⟨2, by decide⟩
    let w : Var := ⟨3, by decide⟩
    let F : Formula :=
      ⟨[.ofList [.pos u, .pos v], .ofList [.neg u, .neg v], .ofList [.pos u, .neg u, .pos w]]⟩
    (F.eliminate u).result = ∅ ∧ (F.eliminate u).removed = F.clauses := by decide

end Formula

end Clausal
