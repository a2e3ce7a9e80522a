import Clausal.Formula.Elimination
import Clausal.Proofs.Propagation

/-! # Resolution and elimination

A resolvent follows from its two clauses (`isSatisfiedBy_resolventOn`).  The converse that the
searches live on is `eval_resolventOn`: if one clause is false once `v` is denied and the other
once `v` is said, their resolvent on `v` is false already.  So when neither value of `v` will do
for an assignment that has a value for every other variable, some resolvent was false before
(`false_of_eliminate`): what satisfies the result of an elimination goes on to satisfy the
formula with one of the two values. -/

namespace Clausal

namespace Clause

variable {c d : Clause} {s : Assignment} {l : Literal} {v : Var}

theorem eval_assign_eq_false :
    c.eval (s.assign l) = some false ↔ l ∉ c ∧ ∀ m ∈ c, m ≠ -l → -m ∈ s := by
  rw [eval_eq_false]
  constructor
  · intro h
    refine ⟨fun hl => ?_, fun m hm hne => ?_⟩
    · exact Assignment.neg_not_mem (Assignment.mem_assign_self s l) (h l hl)
    · rcases Assignment.mem_assign.mp (h m hm) with heq | ⟨hms, -⟩
      · rw [← heq, Literal.neg_neg] at hne
        exact absurd rfl hne
      · exact hms
  · rintro ⟨hl, h⟩ m hm
    rw [Assignment.mem_assign]
    by_cases hne : m = -l
    · left
      rw [hne, Literal.neg_neg]
    · refine .inr ⟨h m hm hne, fun heq => hl ?_⟩
      rwa [← Literal.neg_inj.mp heq]

/-- A clause that becomes false when `l` becomes true holds the complement of `l`. -/
theorem neg_mem_of_eval_assign (h : c.eval (s.assign l) = some false)
    (hs : c.eval s ≠ some false) : -l ∈ c := by
  by_contra hneg
  refine hs (eval_eq_false.mpr fun m hm => (eval_assign_eq_false.mp h).2 m hm ?_)
  rintro rfl
  exact hneg hm

/-- The value of a variable that is not in the clause has nothing to do with it. -/
theorem isSatisfiedBy_assign_iff (hc : ∀ m ∈ c, m.var ≠ l.var) :
    c.isSatisfiedBy (s.assign l) = true ↔ c.isSatisfiedBy s = true := by
  have hmem : ∀ m ∈ c, (m ∈ s.assign l ↔ m ∈ s) := by
    intro m hm
    have hl : m ≠ l := fun heq => hc m hm (by rw [heq])
    have hneg : m ≠ -l := fun heq => hc m hm (by rw [heq, Literal.var_neg])
    simp [hl, hneg]
  rw [isSatisfiedBy_iff, isSatisfiedBy_iff]
  exact exists_congr fun m => and_congr_right fun hm => hmem m hm

theorem isSatisfiedBy_resolventOn (hc : c.isSatisfiedBy s = true) (hd : d.isSatisfiedBy s = true) :
    (resolventOn v c d).isSatisfiedBy s = true := by
  obtain ⟨l, hl, hls⟩ := isSatisfiedBy_iff.mp hc
  obtain ⟨m, hm, hms⟩ := isSatisfiedBy_iff.mp hd
  rw [isSatisfiedBy_iff]
  by_cases hlv : l = .pos v
  · refine ⟨m, mem_resolventOn.mpr (.inr ⟨hm, ?_⟩), hms⟩
    rintro rfl
    rw [hlv] at hls
    exact Assignment.neg_not_mem hls hms
  · exact ⟨l, mem_resolventOn.mpr (.inl ⟨hl, hlv⟩), hls⟩

/-- If neither value of `v` will do, the resolvent on `v` is false whatever `v` is. -/
theorem eval_resolventOn (hc : c.eval (s.assign (.neg v)) = some false)
    (hd : d.eval (s.assign (.pos v)) = some false) :
    (resolventOn v c d).eval s = some false := by
  rw [eval_assign_eq_false] at hc hd
  refine eval_eq_false.mpr fun m hm => ?_
  rcases mem_resolventOn.mp hm with ⟨hmc, hne⟩ | ⟨hmd, hne⟩
  · exact hc.2 m hmc hne
  · exact hd.2 m hmd hne

theorem mentions_iff : c.mentions v = true ↔ .pos v ∈ c ∨ .neg v ∈ c := by
  rw [mentions, Bool.or_eq_true, decide_eq_true_eq, decide_eq_true_eq]

theorem isTautology_of_eval (h : c.eval s = some false) : c.isTautology = false :=
  Bool.eq_false_iff.mpr fun ht => eval_ne_false_of_isTautology ht h

end Clause

namespace Formula

variable {F : Formula} {s : Assignment} {v : Var}

theorem eliminate_isSatisfiedBy (h : F.isSatisfiedBy s = true) :
    (F.eliminate v).result.isSatisfiedBy s = true := by
  have hF := isSatisfiedBy_iff.mp h
  refine isSatisfiedBy_iff.mpr fun r hr => ?_
  rcases List.mem_append.mp hr with hr | hr
  · exact hF r (List.mem_filter.mp hr).1
  · obtain ⟨-, c, hc, d, hd, -, -, rfl⟩ := mem_resolventsOn.mp hr
    exact Clause.isSatisfiedBy_resolventOn (hF c (mem_candidates.mp hc).1)
      (hF d (mem_candidates.mp hd).1)

theorem mem_removed {c : Clause} : c ∈ (F.eliminate v).removed ↔ c ∈ F ∧ c.mentions v = true :=
  List.mem_filter

/-- Two clauses that would be false for one value of `v` each have a false resolvent, so they
are not both there when the resolvents are satisfied. -/
theorem false_of_eliminate (h : (F.eliminate v).result.isSatisfiedBy s = true) {c d : Clause}
    (hc : c ∈ (F.eliminate v).removed) (hcs : c.eval (s.assign (.neg v)) = some false)
    (hd : d ∈ (F.eliminate v).removed) (hds : d.eval (s.assign (.pos v)) = some false) : False := by
  obtain ⟨hcF, hcv⟩ := mem_removed.mp hc
  obtain ⟨hdF, hdv⟩ := mem_removed.mp hd
  have hres := Clause.eval_resolventOn hcs hds
  have hpos : Literal.pos v ∈ c :=
    (Clause.mentions_iff.mp hcv).resolve_right (Clause.eval_assign_eq_false.mp hcs).1
  have hneg : Literal.neg v ∈ d :=
    (Clause.mentions_iff.mp hdv).resolve_left (Clause.eval_assign_eq_false.mp hds).1
  have hmem : Clause.resolventOn v c d ∈ F.resolventsOn v :=
    mem_resolventsOn.mpr ⟨Clause.isTautology_of_eval hres,
      c, mem_candidates.mpr ⟨hcF, hcv, Clause.isTautology_of_eval hcs⟩,
      d, mem_candidates.mpr ⟨hdF, hdv, Clause.isTautology_of_eval hds⟩, hpos, hneg, rfl⟩
  have hsat := isSatisfiedBy_iff.mp h _ (List.mem_append_right _ hmem)
  rw [Clause.isSatisfiedBy, hres] at hsat
  cases hsat

/-- For an assignment with a value for every other variable, a clause is satisfied or false once
`v` has a value. -/
theorem isSatisfiedBy_or_eval_assign (hs : ∀ w ∈ F.vars, w ≠ v → s.isAssigned w = true)
    {c : Clause} (hc : c ∈ F) {l : Literal} (hl : l.var = v) :
    c.isSatisfiedBy (s.assign l) = true ∨ c.eval (s.assign l) = some false := by
  refine Clause.isSatisfiedBy_or_eval_eq_false fun m hm => ?_
  rw [Assignment.isAssigned_assign]
  by_cases hv : m.var = v
  · exact .inl (hv.trans hl.symm)
  · exact .inr (hs m.var (mem_vars_of_mem hc hm) hv)

/-- What satisfies the result of an elimination satisfies the formula with a value of `v` that
is right for the removed clauses. -/
theorem isSatisfiedBy_of_removed {l : Literal} (hl : l.var = v)
    (h : (F.eliminate v).result.isSatisfiedBy s = true)
    (hrem : ∀ c ∈ (F.eliminate v).removed, c.isSatisfiedBy (s.assign l) = true) :
    F.isSatisfiedBy (s.assign l) = true := by
  refine isSatisfiedBy_iff.mpr fun c hc => ?_
  cases hv : c.mentions v with
  | true => exact hrem c (mem_removed.mpr ⟨hc, hv⟩)
  | false =>
      have hkept : c ∈ (F.eliminate v).kept := List.mem_filter.mpr ⟨hc, by rw [hv]; rfl⟩
      have hother : ∀ m ∈ c, m.var ≠ l.var := fun m hm => by
        rw [hl]
        exact var_ne_of_not_mentions hv hm
      apply (Clause.isSatisfiedBy_assign_iff hother).mpr
      exact isSatisfiedBy_iff.mp h c (List.mem_append_left _ hkept)

/-- If false will not do for some removed clause, true does for all of them. -/
theorem removed_isSatisfiedBy (hs : ∀ w ∈ F.vars, w ≠ v → s.isAssigned w = true)
    (h : (F.eliminate v).result.isSatisfiedBy s = true) :
    (∀ c ∈ (F.eliminate v).removed, c.isSatisfiedBy (s.assign (.neg v)) = true) ∨
    ∀ c ∈ (F.eliminate v).removed, c.isSatisfiedBy (s.assign (.pos v)) = true := by
  by_cases hall : ∀ c ∈ (F.eliminate v).removed, c.isSatisfiedBy (s.assign (.neg v)) = true
  · exact .inl hall
  · right
    push Not at hall
    obtain ⟨c, hc, hcs⟩ := hall
    have hcfalse := (isSatisfiedBy_or_eval_assign hs (mem_removed.mp hc).1
      (l := .neg v) rfl).resolve_left hcs
    intro d hd
    refine (isSatisfiedBy_or_eval_assign hs (mem_removed.mp hd).1 rfl).resolve_right ?_
    intro hdfalse
    exact false_of_eliminate h hc hcfalse hd hdfalse

end Formula

end Clausal
