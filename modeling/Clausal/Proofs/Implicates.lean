import Mathlib.Data.List.Permutation
import Clausal.Proofs.ResolutionClosure

/-! # Saturation finds the implicates

`F.Implies c` says that the clause `c` follows from the formula.  The derived clauses do, but not
every clause that follows is derived: resolution brings in no literal that the two clauses do not
have.  What it does find is a part of each of them.

The reason is that values which make no clause of a closed set false can be extended to any
further variables, in any order (`Closed.exists_extension`).  If no part of `c` is known, the
values that deny `c` make no known clause false (`eval_denial`).  They extend to a model of the
formula then, and `c` does not follow (`exists_subclause`).

The clauses that follow from nothing are the tautologies: a clause without complements can be
denied (`Clause.isTautology_iff_always_satisfied`).

The main statement is `saturate_finds_implicates`. -/

namespace Clausal

/-- Values of all variables at hand satisfy the clause if they satisfy the formula. -/
def Formula.Implies (F : Formula) (c : Clause) : Prop :=
  ∀ s : Assignment, (∀ v ∈ F.vars, s.isAssigned v = true) → (∀ v ∈ c.vars, s.isAssigned v = true) →
    F.isSatisfiedBy s = true → c.isSatisfiedBy s = true

/-- The clause says something, follows from the formula, and no proper part of it does. -/
structure Formula.IsPrimeImplicate (F : Formula) (c : Clause) : Prop where
  isConsistent : c.IsConsistent
  implies : F.Implies c
  eq_of_subset : ∀ d : Clause, (∀ l ∈ d, l ∈ c) → F.Implies d → d = c

theorem Derived.implies {F : Formula} {c : Clause} (h : Derived F c) : F.Implies c :=
  fun _ _ _ hF => h.isSatisfiedBy hF

/-! ### Denying a clause -/

namespace Clause

variable {c d : Clause} {l : Literal}

/-- The complements of the literals of a clause. -/
def complements (c : Clause) : SortedSet Literal := SortedSet.ofList (c.toList.map (- ·))

@[simp]
theorem mem_complements : l ∈ c.complements ↔ -l ∈ c := by
  simp only [complements, SortedSet.mem_ofList, List.mem_map, mem_toList]
  constructor
  · rintro ⟨m, hm, rfl⟩
    rwa [Literal.neg_neg]
  · intro h
    exact ⟨-l, h, Literal.neg_neg l⟩

/-- The values that make a clause false. -/
def denial (c : Clause) (hc : c.IsConsistent) : Assignment where
  literals := c.complements
  consistent l hl hneg := by
    rw [mem_complements] at hl hneg
    exact hc (-l) hl hneg

theorem mem_denial {hc : c.IsConsistent} : l ∈ c.denial hc ↔ -l ∈ c := mem_complements

theorem eval_denial {hc : c.IsConsistent} :
    d.eval (c.denial hc) = some false ↔ ∀ l ∈ d, l ∈ c := by
  simp [eval_eq_false, mem_denial]

theorem isAssigned_denial {hc : c.IsConsistent} {v : Var} (hv : v ∈ c.vars) :
    (c.denial hc).isAssigned v = true := by
  obtain ⟨l, hl, rfl⟩ := mem_vars.mp hv
  have hneg : -l ∈ c.denial hc := by rwa [mem_denial, Literal.neg_neg]
  rw [← Literal.var_neg]
  exact Assignment.isAssigned_of_mem hneg

/-! ### Tautologies -/

theorem isTautology_iff_exists_var :
    c.isTautology = true ↔ ∃ v, .pos v ∈ c ∧ .neg v ∈ c := by
  rw [isTautology_iff]
  constructor
  · rintro ⟨⟨v, b⟩, hl, hneg⟩
    cases b with
    | true => exact ⟨v, hl, hneg⟩
    | false => exact ⟨v, hneg, hl⟩
  · rintro ⟨v, hp, hn⟩
    exact ⟨.pos v, hp, hn⟩

/-- Looking at neighbours finds every variable with both signs, and the clauses with such a variable
are the ones that no values of their variables make false. -/
theorem isTautology_iff_always_satisfied (c : Clause) :
    (c.isTautology = true ↔ ∃ v, .pos v ∈ c ∧ .neg v ∈ c) ∧
    ((∃ v, .pos v ∈ c ∧ .neg v ∈ c) ↔
      ∀ s : Assignment, (∀ v ∈ c.vars, s.isAssigned v = true) → c.isSatisfiedBy s = true) := by
  refine ⟨isTautology_iff_exists_var, ?_⟩
  rw [← isTautology_iff_exists_var]
  constructor
  · intro htaut s hs
    have hvalue := isSatisfiedBy_or_eval_eq_false fun l hl => hs l.var (mem_vars.mpr ⟨l, hl, rfl⟩)
    exact hvalue.resolve_right (eval_ne_false_of_isTautology htaut)
  · intro h
    by_contra htaut
    -- the values that deny a clause without complements do not satisfy it
    have hc : c.IsConsistent := isTautology_eq_false.mp (Bool.eq_false_iff.mpr htaut)
    have hsat := h (c.denial hc) fun v hv => isAssigned_denial hv
    have hfalse : c.eval (c.denial hc) = some false := eval_denial.mpr fun _ hl => hl
    rw [isSatisfiedBy, hfalse] at hsat
    cases hsat

end Clause

namespace Saturation

open Formula

variable {F : Formula} {S : SortedSet Clause} {s : Assignment} {c : Clause}

/-! ### Extending values -/

/-- Some value of a further variable makes no clause of a closed set false. -/
theorem Closed.exists_assign (hS : Closed S) (hs : ∀ c ∈ S, c.eval s ≠ some false) (v : Var) :
    ∃ t, s ⊆ t ∧ t.isAssigned v = true ∧ ∀ c ∈ S, c.eval t ≠ some false := by
  cases hv : s.isAssigned v with
  | true => exact ⟨s, Assignment.subset_refl s, hv, hs⟩
  | false =>
      have hopen : ∀ l : Literal, l.var = v →
          s ⊆ s.assign l ∧ (s.assign l).isAssigned v = true := by
        rintro l rfl
        have hneg := Assignment.neg_not_mem_of_isAssigned hv
        exact ⟨Assignment.subset_assign hneg, Assignment.isAssigned_assign.mpr (.inl rfl)⟩
      by_cases hfalse : ∃ c ∈ S, c.eval (s.assign (.neg v)) = some false
      · obtain ⟨c, hc, hcs⟩ := hfalse
        obtain ⟨hsub, hassigned⟩ := hopen (.pos v) rfl
        exact ⟨_, hsub, hassigned, fun d hd hds => hS.false_of_eval hs hc hcs hd hds⟩
      · obtain ⟨hsub, hassigned⟩ := hopen (.neg v) rfl
        exact ⟨_, hsub, hassigned, fun d hd hds => hfalse ⟨d, hd, hds⟩⟩

theorem Closed.exists_extension (hS : Closed S) (hs : ∀ c ∈ S, c.eval s ≠ some false)
    (vs : List Var) :
    ∃ t, s ⊆ t ∧ (∀ v ∈ vs, t.isAssigned v = true) ∧ ∀ c ∈ S, c.eval t ≠ some false := by
  induction vs generalizing s with
  | nil => exact ⟨s, Assignment.subset_refl s, by simp, hs⟩
  | cons v vs ih =>
      obtain ⟨t, hst, hv, ht⟩ := hS.exists_assign hs v
      obtain ⟨u, htu, hvs, hu⟩ := ih ht
      refine ⟨u, Assignment.subset_trans hst htu, fun w hw => ?_, hu⟩
      rcases List.mem_cons.mp hw with rfl | hw
      · exact Assignment.isAssigned_mono htu hv
      · exact hvs w hw

/-! ### Implicates -/

/-- A clause that follows from the formula has a derived part. -/
theorem exists_subclause (hempty : ¬ Derived F ∅) (hmem : ∀ c, c ∈ S ↔ Derived F c)
    (hc : c.IsConsistent) (h : F.Implies c) : ∃ d ∈ S, ∀ l ∈ d, l ∈ c := by
  by_contra hno
  have hdenial : ∀ d ∈ S, d.eval (c.denial hc) ≠ some false := fun d hd hfalse =>
    hno ⟨d, hd, Clause.eval_denial.mp hfalse⟩
  obtain ⟨t, hsub, hvars, ht⟩ :=
    (closed_of_mem_iff hempty hmem).exists_extension hdenial F.vars.toList
  have hF : F.isSatisfiedBy t = true :=
    isSatisfiedBy_of_derived hvars fun d hd => ht d ((hmem d).mpr hd)
  have hfalse : ∀ l ∈ c, -l ∈ t := by
    intro l hl
    apply hsub
    rwa [Clause.mem_denial, Literal.neg_neg]
  have hcvars : ∀ v ∈ c.vars, t.isAssigned v = true := fun v hv =>
    Assignment.isAssigned_mono hsub (Clause.isAssigned_denial hv)
  obtain ⟨l, hl, hlt⟩ := Clause.isSatisfiedBy_iff.mp (h t hvars hcvars hF)
  exact Assignment.neg_not_mem hlt (hfalse l hl)

/-- The clauses that saturation ends with say something about the variables of the formula and
follow from it, also under partial assignments.  Each clause that follows and says something has
one of them as a part, so that all prime implicates are among them. -/
theorem saturate_finds_implicates (h : (saturate F).result = some S) :
    (∀ c ∈ S, c.IsConsistent ∧ (∀ v ∈ c.vars, v ∈ F.vars) ∧
      ∀ s, F.isSatisfiedBy s = true → c.isSatisfiedBy s = true) ∧
    (∀ c : Clause, c.IsConsistent → F.Implies c → ∃ d ∈ S, ∀ l ∈ d, l ∈ c) ∧
    ∀ c, F.IsPrimeImplicate c → c ∈ S := by
  have hsat := saturate_spec F
  rw [h] at hsat
  cases hsat with
  | closed hempty hmem =>
      refine ⟨fun c hc => ?_, fun c => exists_subclause hempty hmem, fun c hc => ?_⟩
      · have hderived := (hmem c).mp hc
        refine ⟨Clause.isTautology_eq_false.mp hderived.isTautology, fun v hv => ?_,
          fun s => hderived.isSatisfiedBy⟩
        obtain ⟨l, hl, rfl⟩ := Clause.mem_vars.mp hv
        exact hderived.var_mem hl
      · obtain ⟨d, hd, hsub⟩ := exists_subclause hempty hmem hc.isConsistent hc.implies
        rwa [← hc.eq_of_subset d hsub ((hmem d).mp hd).implies]

/-- From `x1 ∨ x2` and `¬x1 ∨ x2`, saturation finds the prime implicate `x2`, a part of each clause
with `x2` that has a new variable besides. -/
theorem saturate_finds_unit :
    let u : Var := ⟨1, by decide⟩
    let v : Var := ⟨2, by decide⟩
    let w : Var := ⟨3, by decide⟩
    let a : Clause := .ofList [.pos u, .pos v]
    let b : Clause := .ofList [.neg u, .pos v]
    let p : Clause := .unit (.pos v)
    let c : Clause := .ofList [.pos v, .neg w]
    let F : Formula := ⟨[a, b]⟩
    let S : SortedSet Clause := .ofList [p, a, b]
    (saturate F).result = some S ∧ F.IsPrimeImplicate p ∧ p ∈ S ∧
      c.IsConsistent ∧ F.Implies c ∧ ∃ d ∈ S, ∀ l ∈ d, l ∈ c := by
  intro u v w a b p c F S
  have h₁ : pass (start F) = .ok ⟨[p], (start F).known.insert p⟩ := by
    rw [pass_eq]
    cbv
  have h₂ : pass ((start F).next _ h₁) = .ok ⟨[], (start F).known.insert p⟩ := by
    rw [pass_eq]
    cbv
  have hresult : (saturate F).result = some S := by
    rw [saturate_of_not_hasEmptyClause (by decide), run_of_ok (by decide) h₁,
      run_of_ok (List.cons_ne_nil p []) h₂, run_of_nil rfl]
    cbv
  have hp : Derived F p := by
    have ha : Derived F a := .input (List.mem_cons_self) (by decide)
    have hb : Derived F b := .input (List.mem_cons_of_mem a List.mem_cons_self) (by decide)
    have hr : Clause.resolventOn u a b = p := by decide
    exact hr ▸ .resolvent ha hb (by decide) (by decide) (by decide)
  have hprime : F.IsPrimeImplicate p := by
    refine ⟨Clause.isTautology_eq_false.mp (by decide), hp.implies, fun d hsub hd => ?_⟩
    let m : Assignment := ((∅ : Assignment).assign (.pos u)).assign (.pos v)
    have hFvars : ∀ x ∈ F.vars.toList, m.isAssigned x = true := by decide
    have hdvars : ∀ x ∈ d.vars, m.isAssigned x = true := by
      intro x hx
      obtain ⟨l, hl, rfl⟩ := Clause.mem_vars.mp hx
      rw [Clause.mem_unit.mp (hsub l hl)]
      decide
    obtain ⟨l, hl, -⟩ := Clause.isSatisfiedBy_iff.mp (hd m hFvars hdvars (by decide))
    refine Clause.ext fun k => ⟨hsub k, fun hk => ?_⟩
    rwa [Clause.mem_unit.mp hk, ← Clause.mem_unit.mp (hsub l hl)]
  have hc : c.IsConsistent := Clause.isTautology_eq_false.mp (by decide)
  have himplies : F.Implies c := by
    intro s _ _ hF
    obtain ⟨l, hl, hls⟩ := Clause.isSatisfiedBy_iff.mp (hp.isSatisfiedBy hF)
    rw [Clause.mem_unit.mp hl] at hls
    exact Clause.isSatisfiedBy_iff.mpr ⟨.pos v, by decide, hls⟩
  obtain ⟨-, hpart, hprimes⟩ := saturate_finds_implicates hresult
  exact ⟨hresult, hprime, hprimes p hprime, hc, himplies, hpart c hc himplies⟩

end Saturation

end Clausal
