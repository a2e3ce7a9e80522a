import Clausal.Formula

/-! # Variable elimination by resolution

To eliminate `v` from a formula, the clauses that mention `v` give way to all their resolvents on
`v`, less the tautologies and the repetitions.  Tautologies among the clauses that mention `v`
have no part in the resolvents, which is why `v` is gone from the result (`vars_eliminate`). -/

namespace Clausal

/-- What the elimination of one variable removes and what it adds. -/
structure Elimination where
  /-- The clauses that mention the variable. -/
  removed : List Clause
  /-- The clauses that do not. -/
  kept : List Clause
  /-- What takes the place of the removed clauses. -/
  resolvents : List Clause
deriving DecidableEq, Repr

/-- The formula after the elimination. -/
def Elimination.result (e : Elimination) : Formula := ⟨e.kept ++ e.resolvents⟩

def Clause.mentions (c : Clause) (v : Var) : Bool := decide (.pos v ∈ c) || decide (.neg v ∈ c)

namespace Formula

/-- The clauses that mention `v` and say something. -/
def candidates (F : Formula) (v : Var) : List Clause :=
  F.clauses.filter fun c => c.mentions v && !c.isTautology

/-- The resolvents on `v` that say something, each once, in the order of the clauses with `v` and
then of the clauses with `¬v`. -/
def resolventsOn (F : Formula) (v : Var) : List Clause :=
  let positives := (F.candidates v).filter fun c => decide (.pos v ∈ c)
  let negatives := (F.candidates v).filter fun c => decide (.neg v ∈ c)
  let resolvents (c : Clause) : List Clause := negatives.map (Clause.resolventOn v c)
  distinct (positives.flatMap fun c => (resolvents c).filter fun r => !r.isTautology)

/-- Replace the clauses that mention `v` by their resolvents on `v`. -/
def eliminate (F : Formula) (v : Var) : Elimination where
  removed := F.clauses.filter fun c => c.mentions v
  kept := F.clauses.filter fun c => !c.mentions v
  resolvents := F.resolventsOn v

theorem mem_candidates {F : Formula} {v : Var} {c : Clause} :
    c ∈ F.candidates v ↔ c ∈ F ∧ c.mentions v = true ∧ c.isTautology = false := by
  simp [candidates]

theorem mem_resolventsOn {F : Formula} {v : Var} {r : Clause} :
    r ∈ F.resolventsOn v ↔ r.isTautology = false ∧
      ∃ c ∈ F.candidates v, ∃ d ∈ F.candidates v,
        .pos v ∈ c ∧ .neg v ∈ d ∧ Clause.resolventOn v c d = r := by
  simp only [resolventsOn, mem_distinct, List.mem_filter, List.mem_flatMap, List.mem_map,
    decide_eq_true_eq, Bool.not_eq_true']
  constructor
  · rintro ⟨c, ⟨hc, hp⟩, ⟨d, ⟨hd, hn⟩, rfl⟩, ht⟩
    exact ⟨ht, c, hc, d, hd, hp, hn, rfl⟩
  · rintro ⟨ht, c, hc, d, hd, hp, hn, rfl⟩
    exact ⟨c, ⟨hc, hp⟩, ⟨d, ⟨hd, hn⟩, rfl⟩, ht⟩

theorem var_ne_of_not_mentions {c : Clause} {v : Var} {l : Literal} (hc : c.mentions v = false)
    (hl : l ∈ c) : l.var ≠ v := by
  rintro rfl
  obtain ⟨v, p⟩ := l
  cases p <;> simp_all [Clause.mentions, Literal.pos, Literal.neg]

theorem var_ne_of_mem_resolventOn {c d : Clause} {v : Var} {l : Literal}
    (hc : c.isTautology = false) (hd : d.isTautology = false) (hp : .pos v ∈ c) (hn : .neg v ∈ d)
    (hl : l ∈ Clause.resolventOn v c d) : l.var ≠ v := by
  rintro rfl
  have hcn := Clause.neg_not_mem_of_not_isTautology hc hp
  have hdp := Clause.neg_not_mem_of_not_isTautology hd hn
  rw [Literal.neg_pos] at hcn
  rw [Literal.neg_neg_var] at hdp
  obtain ⟨v, p⟩ := l
  rcases Clause.mem_resolventOn.mp hl with h | h <;> cases p <;>
    simp_all [Literal.pos, Literal.neg]

/-- Eliminating `v` leaves a formula over the other variables. -/
theorem vars_eliminate {F : Formula} {v w : Var} (hw : w ∈ (F.eliminate v).result.vars) :
    w ∈ F.vars ∧ w ≠ v := by
  obtain ⟨r, hr, l, hl, rfl⟩ := mem_vars.mp hw
  rcases List.mem_append.mp hr with hr | hr
  · obtain ⟨hr, hm⟩ := List.mem_filter.mp hr
    exact ⟨mem_vars_of_mem hr hl, var_ne_of_not_mentions (by simpa using hm) hl⟩
  · obtain ⟨-, c, hc, d, hd, hp, hn, rfl⟩ := mem_resolventsOn.mp hr
    obtain ⟨hcF, -, hct⟩ := mem_candidates.mp hc
    obtain ⟨hdF, -, hdt⟩ := mem_candidates.mp hd
    refine ⟨?_, var_ne_of_mem_resolventOn hct hdt hp hn hl⟩
    rcases Clause.mem_resolventOn.mp hl with h | h
    · exact mem_vars_of_mem hcF h.1
    · exact mem_vars_of_mem hdF h.1

theorem size_vars_eliminate {F : Formula} {v : Var} (hv : v ∈ F.vars) :
    (F.eliminate v).result.vars.size < F.vars.size :=
  SortedSet.size_lt_size (fun _ hw => (vars_eliminate hw).1) hv fun hw => (vars_eliminate hw).2 rfl

end Formula

end Clausal
