import Mathlib.Data.List.Basic
import Clausal.Proofs.Satisfaction
import Clausal.Propagation

/-! # Unit propagation keeps the models

Making a true literal true in a formula changes nothing for the assignments that hold the
literal (`isSatisfiedBy_condition`), and where it fails, no such assignment satisfies the
formula.  A unit step makes the first unit true, and `UnitSteps` is a run of them.  Propagation
is such a run up to where it ends (`UnitRun`, `propagateUnits_run`), from which all else
follows by induction over the steps.

`Reduces F s G t` is what such a run guarantees: the assignments beyond `s` that satisfy `F`
are exactly the ones beyond `t` that satisfy `G`.  The main statements are
`reduces_propagate`, for a run that ends, and `not_isSatisfiedBy_of_propagate`, for a run that
ends in a conflict. -/

namespace Clausal.Formula

variable {F G H : Formula} {s t u : Assignment} {l : Literal} {ls : List Literal} {e : Conflict}

/-! ### Making one literal true -/

theorem isSatisfiedBy_condition (h : F.condition l = .ok G) (hl : l ∈ u) :
    G.isSatisfiedBy u = true ↔ F.isSatisfiedBy u = true := by
  rw [isSatisfiedBy_iff, isSatisfiedBy_iff]
  constructor
  · intro hG c hc
    rw [Clause.isSatisfiedBy_iff]
    by_cases hlc : l ∈ c
    · exact ⟨l, hlc, hl⟩
    · have hd := hG (c.erase (-l)) ((mem_condition h).mpr ⟨c, hc, hlc, rfl⟩)
      obtain ⟨m, hm, hmu⟩ := Clause.isSatisfiedBy_iff.mp hd
      exact ⟨m, (Clause.mem_erase.mp hm).1, hmu⟩
  · intro hF d hd
    obtain ⟨c, hc, -, rfl⟩ := (mem_condition h).mp hd
    obtain ⟨m, hm, hmu⟩ := Clause.isSatisfiedBy_iff.mp (hF c hc)
    refine Clause.isSatisfiedBy_iff.mpr ⟨m, Clause.mem_erase.mpr ⟨hm, ?_⟩, hmu⟩
    rintro rfl
    exact Assignment.neg_not_mem hl hmu

/-- What fails is the unit clause of the complement. -/
theorem unit?_of_condition_error (h : F.condition l = .error e) :
    e.clause ∈ F ∧ e.clause.unit? = some (-l) := by
  unfold condition at h
  split at h
  · next c hc =>
      cases h
      exact ⟨List.mem_of_find?_eq_some hc, by simpa using List.find?_some hc⟩
  · cases h

theorem not_isSatisfiedBy_of_condition_error (h : F.condition l = .error e) (hl : l ∈ u) :
    ¬ F.isSatisfiedBy u = true := by
  intro hF
  obtain ⟨hc, hunit⟩ := unit?_of_condition_error h
  obtain ⟨m, hm, hmu⟩ := Clause.isSatisfiedBy_iff.mp (isSatisfiedBy_iff.mp hF _ hc)
  rw [Clause.mem_iff_of_unit? hunit] at hm
  rw [hm] at hmu
  exact Assignment.neg_not_mem hl hmu

theorem mem_of_unit?_of_isSatisfiedBy (h : F.unit? = some l) (hF : F.isSatisfiedBy u = true) :
    l ∈ u := by
  obtain ⟨c, hc, hunit⟩ := mem_vars_of_unit? h
  obtain ⟨m, hm, hmu⟩ := Clause.isSatisfiedBy_iff.mp (isSatisfiedBy_iff.mp hF c hc)
  rw [Clause.mem_iff_of_unit? hunit] at hm
  exact hm ▸ hmu

theorem ne_unit_of_condition (h : F.condition l = .ok G) {c : Clause} (hc : c ∈ F) :
    c ≠ .unit (-l) := by
  rintro rfl
  unfold condition at h
  split at h
  · cases h
  · next hnone =>
      have hunit := List.find?_eq_none.mp hnone _ hc
      simp at hunit

/-- A clause that would become empty makes conditioning fail instead. -/
theorem erase_ne_empty (h : F.condition l = .ok G) {c : Clause} (hc : c ∈ F) (hne : c ≠ ∅) :
    c.erase (-l) ≠ ∅ := by
  intro hempty
  have hsub : ∀ m ∈ c, m = -l := by
    intro m hm
    by_contra hml
    apply Clause.not_mem_empty m
    rw [← hempty]
    exact Clause.mem_erase.mpr ⟨hm, hml⟩
  rcases Clause.eq_empty_or_eq_unit hsub with hc' | hc'
  · exact hne hc'
  · exact ne_unit_of_condition h hc hc'

theorem hasEmptyClause_condition (h : F.condition l = .ok G) (hF : F.hasEmptyClause = false) :
    G.hasEmptyClause = false := by
  rw [Bool.eq_false_iff, ne_eq, hasEmptyClause_iff_mem] at hF ⊢
  intro hempty
  obtain ⟨c, hc, -, herase⟩ := (mem_condition h).mp hempty
  apply erase_ne_empty h hc _ herase
  rintro rfl
  exact hF hc

/-- A literal of a variable that does not occur changes nothing. -/
theorem condition_of_not_mem_vars (h : l.var ∉ F.vars) : F.condition l = .ok F := by
  have hpos : ∀ c ∈ F, l ∉ c := fun c hc hl => h (mem_vars_of_mem hc hl)
  have hneg : ∀ c ∈ F, -l ∉ c := fun c hc hl => h (Literal.var_neg l ▸ mem_vars_of_mem hc hl)
  have hfind : F.clauses.find? (fun c => c.unit? == some (-l)) = none := by
    rw [List.find?_eq_none]
    intro c hc hunit
    exact hneg c hc (Clause.mem_of_unit? (eq_of_beq hunit))
  have hgiven : ∀ c ∈ F.clauses, c.given l = some c := by
    intro c hc
    refine Clause.given_eq_some.mpr ⟨hpos c hc, Clause.ext fun m => ?_⟩
    rw [Clause.mem_erase, and_iff_left_iff_imp]
    rintro hm rfl
    exact hneg c hc hm
  unfold condition
  rw [hfind]
  show Except.ok (⟨F.clauses.filterMap (·.given l)⟩ : Formula) = .ok F
  rw [List.filterMap_congr hgiven, List.filterMap_some]

/-! ### Making one literal after another true -/

theorem foldlM_condition_cons : (l :: ls).foldlM condition F = .ok G ↔
    ∃ H, F.condition l = .ok H ∧ ls.foldlM condition H = .ok G := by
  rw [List.foldlM_cons]
  cases hH : F.condition l with
  | error e => exact iff_of_false nofun fun ⟨_, h, _⟩ => nomatch h
  | ok H =>
      constructor
      · intro h
        exact ⟨H, rfl, h⟩
      · rintro ⟨H', hH', h⟩
        cases hH'
        exact h

theorem foldlM_condition_of_not_mem_vars (h : ∀ l ∈ ls, l.var ∉ F.vars) :
    ls.foldlM condition F = .ok F := by
  induction ls with
  | nil => rfl
  | cons l ls ih =>
      refine foldlM_condition_cons.mpr ⟨F, condition_of_not_mem_vars (h l List.mem_cons_self), ?_⟩
      exact ih fun m hm => h m (List.mem_cons_of_mem l hm)

theorem isSatisfiedBy_foldlM_condition (h : ls.foldlM condition F = .ok G)
    (hu : ∀ l ∈ ls, l ∈ u) : G.isSatisfiedBy u = true ↔ F.isSatisfiedBy u = true := by
  induction ls generalizing F with
  | nil => cases h; rfl
  | cons l ls ih =>
      obtain ⟨H, hH, h⟩ := foldlM_condition_cons.mp h
      rw [ih h fun m hm => hu m (List.mem_cons_of_mem l hm)]
      exact isSatisfiedBy_condition hH (hu l List.mem_cons_self)

theorem not_isSatisfiedBy_of_foldlM_condition (h : ls.foldlM condition F = .error e)
    (hu : ∀ l ∈ ls, l ∈ u) : ¬ F.isSatisfiedBy u = true := by
  induction ls generalizing F with
  | nil => cases h
  | cons l ls ih =>
      have hl := hu l List.mem_cons_self
      rw [List.foldlM_cons] at h
      cases hH : F.condition l with
      | error e' => exact not_isSatisfiedBy_of_condition_error hH hl
      | ok H =>
          rw [hH] at h
          rw [← isSatisfiedBy_condition hH hl]
          exact ih h fun m hm => hu m (List.mem_cons_of_mem l hm)

theorem var_ne_of_foldlM_condition (h : ls.foldlM condition F = .ok G) {v : Var}
    (hv : v ∈ G.vars) : ∀ l ∈ ls, l.var ≠ v := by
  induction ls generalizing F with
  | nil => simp
  | cons l ls ih =>
      obtain ⟨H, hH, hG⟩ := foldlM_condition_cons.mp h
      intro m hm
      rcases List.mem_cons.mp hm with rfl | hm
      · exact (vars_condition hH (vars_under hG hv)).2.symm
      · exact ih hG m hm

theorem hasEmptyClause_foldlM_condition (h : ls.foldlM condition F = .ok G)
    (hF : F.hasEmptyClause = false) : G.hasEmptyClause = false := by
  induction ls generalizing F with
  | nil => cases h; exact hF
  | cons l ls ih =>
      obtain ⟨H, hH, h⟩ := foldlM_condition_cons.mp h
      exact ih h (hasEmptyClause_condition hH hF)

/-! ### Reductions -/

/-- No variable of the formula has a value. -/
def OpenIn (F : Formula) (s : Assignment) : Prop := ∀ v ∈ F.vars, s.isAssigned v = false

/-- From `F` under `s` to `G` under `t`, values and no variables are added. -/
structure Narrows (F : Formula) (s : Assignment) (G : Formula) (t : Assignment) : Prop where
  subset : s ⊆ t
  mem_or_var_mem : ∀ l ∈ t, l ∈ s ∨ l.var ∈ F.vars
  vars_subset : ∀ v ∈ G.vars, v ∈ F.vars

theorem Narrows.refl (F : Formula) (s : Assignment) : Narrows F s F s :=
  ⟨Assignment.subset_refl s, fun _ h => .inl h, fun _ h => h⟩

theorem Narrows.trans {r : Assignment} (h₁ : Narrows F r G s) (h₂ : Narrows G s H t) :
    Narrows F r H t where
  subset := Assignment.subset_trans h₁.subset h₂.subset
  mem_or_var_mem l hl := by
    rcases h₂.mem_or_var_mem l hl with h | h
    · exact h₁.mem_or_var_mem l h
    · exact .inr (h₁.vars_subset _ h)
  vars_subset v hv := h₁.vars_subset v (h₂.vars_subset v hv)

theorem Narrows.isAssigned_or_mem_vars (h : Narrows F s G t) {v : Var}
    (hv : t.isAssigned v = true) : s.isAssigned v = true ∨ v ∈ F.vars := by
  obtain ⟨l, hl, rfl⟩ := Assignment.isAssigned_iff.mp hv
  exact (h.mem_or_var_mem l hl).imp_left Assignment.isAssigned_of_mem

/-- `G` under `t` has the same models as `F` under `s`. -/
structure Reduces (F : Formula) (s : Assignment) (G : Formula) (t : Assignment) : Prop
    extends Narrows F s G t where
  isSatisfiedBy_iff : ∀ u, s ⊆ u →
    (F.isSatisfiedBy u = true ↔ t ⊆ u ∧ G.isSatisfiedBy u = true)

theorem Reduces.refl (F : Formula) (s : Assignment) : Reduces F s F s :=
  ⟨.refl F s, fun _ hsu => (and_iff_right hsu).symm⟩

theorem Reduces.trans {r : Assignment} (h₁ : Reduces F r G s) (h₂ : Reduces G s H t) :
    Reduces F r H t where
  toNarrows := h₁.toNarrows.trans h₂.toNarrows
  isSatisfiedBy_iff u hu := by
    rw [h₁.isSatisfiedBy_iff u hu]
    constructor
    · rintro ⟨hsu, hG⟩
      exact (h₂.isSatisfiedBy_iff u hsu).mp hG
    · rintro ⟨htu, hH⟩
      have hsu := Assignment.subset_trans h₂.subset htu
      exact ⟨hsu, (h₂.isSatisfiedBy_iff u hsu).mpr ⟨htu, hH⟩⟩

theorem reduces_under (h : F.under s = .ok G) : Reduces F s G s where
  subset := Assignment.subset_refl s
  mem_or_var_mem _ hl := .inl hl
  vars_subset _ hv := vars_under h hv
  isSatisfiedBy_iff u hu := by
    rw [isSatisfiedBy_foldlM_condition h hu, and_iff_right hu]

theorem openIn_foldlM_condition (h : ls.foldlM condition F = .ok G) (hs : ∀ l ∈ s, l ∈ ls) :
    G.OpenIn s := by
  intro v hv
  rw [Bool.eq_false_iff, ne_eq, Assignment.isAssigned_iff]
  rintro ⟨l, hl, hlv⟩
  exact var_ne_of_foldlM_condition h hv l (hs l hl) hlv

theorem openIn_under (h : F.under s = .ok G) : G.OpenIn s :=
  openIn_foldlM_condition h fun _ hl => hl

/-! ### Runs of unit steps -/

/-- From a formula under an assignment, make first units true some number of times. -/
inductive UnitSteps : Formula → Assignment → Formula → Assignment → Prop
  | refl (F : Formula) (s : Assignment) : UnitSteps F s F s
  | step {F G H : Formula} {s t : Assignment} {l : Literal} (hl : F.unit? = some l)
      (hs : -l ∉ s) (hH : F.condition l = .ok H) (h : UnitSteps H (s.assign l) G t) :
      UnitSteps F s G t

/-- How propagation ends: when there is no unit, at a unit that is false already, or at a unit
that empties a clause. -/
inductive UnitRun (F : Formula) (s : Assignment) : Except Stop Formula → Assignment → Prop
  | finished {G : Formula} {t : Assignment} (h : UnitSteps F s G t) : UnitRun F s (.ok G) t
  | fault {G : Formula} {t : Assignment} {l : Literal} {f : Fault} (h : UnitSteps F s G t)
      (hl : G.unit? = some l) (hf : t.clash? l = some f) :
      UnitRun F s (.error (.fault f)) (t.assign l)
  | conflict {G : Formula} {t : Assignment} {l : Literal} {e : Conflict} (h : UnitSteps F s G t)
      (hl : G.unit? = some l) (he : G.condition l = .error e) :
      UnitRun F s (.error (.conflict e)) (t.assign l)

theorem UnitRun.step {r : Except Stop Formula} (hl : F.unit? = some l) (hs : -l ∉ s)
    (hH : F.condition l = .ok H) (h : UnitRun H (s.assign l) r t) : UnitRun F s r t := by
  cases h with
  | finished h => exact .finished (.step hl hs hH h)
  | fault h hl' hf => exact .fault (.step hl hs hH h) hl' hf
  | conflict h hl' he => exact .conflict (.step hl hs hH h) hl' he

theorem propagateUnits_run (F : Formula) (s : Assignment) :
    UnitRun F s (F.propagateUnits s).outcome (F.propagateUnits s).state := by
  fun_induction propagateUnits F s with
  | case1 F s hl => exact .finished (.refl F s)
  | case2 F s l hl f hf => exact .fault (.refl F s) hl hf
  | case3 F s l hl hs e he => exact .conflict (.refl F s) hl he
  | case4 F s l hl hs H hH rest ih => exact ih.step hl (Assignment.clash?_eq_none.mp hs) hH

theorem reduces_unit (hl : F.unit? = some l) (hs : -l ∉ s) (hH : F.condition l = .ok H) :
    Reduces F s H (s.assign l) where
  subset := Assignment.subset_assign hs
  mem_or_var_mem m hm := by
    rcases Assignment.mem_assign.mp hm with rfl | ⟨hm, -⟩
    · obtain ⟨c, hc, hunit⟩ := mem_vars_of_unit? hl
      exact .inr (mem_vars_of_mem hc (Clause.mem_of_unit? hunit))
    · exact .inl hm
  vars_subset v hv := (vars_condition hH hv).1
  isSatisfiedBy_iff u hsu := by
    constructor
    · intro hF
      have hlu := mem_of_unit?_of_isSatisfiedBy hl hF
      exact ⟨Assignment.assign_subset hsu hlu, (isSatisfiedBy_condition hH hlu).mpr hF⟩
    · rintro ⟨hu, hG⟩
      exact (isSatisfiedBy_condition hH (hu l (Assignment.mem_assign_self s l))).mp hG

theorem openIn_condition (hF : F.OpenIn s) (hH : F.condition l = .ok H) :
    H.OpenIn (s.assign l) := by
  intro v hv
  obtain ⟨hvF, hne⟩ := vars_condition hH hv
  rw [Bool.eq_false_iff, ne_eq, Assignment.isAssigned_assign, not_or, Bool.not_eq_true]
  exact ⟨hne, hF v hvF⟩

theorem UnitSteps.reduces (h : UnitSteps F s G t) : Reduces F s G t := by
  induction h with
  | refl F s => exact .refl F s
  | step hl hs hH _ ih => exact (reduces_unit hl hs hH).trans ih

theorem UnitSteps.openIn (h : UnitSteps F s G t) (hF : F.OpenIn s) : G.OpenIn t := by
  induction h with
  | refl F s => exact hF
  | step _ _ hH _ ih => exact ih (openIn_condition hF hH)

theorem UnitSteps.hasEmptyClause (h : UnitSteps F s G t) (hF : F.hasEmptyClause = false) :
    G.hasEmptyClause = false := by
  induction h with
  | refl F s => exact hF
  | step _ _ hH _ ih => exact ih (hasEmptyClause_condition hH hF)

/-! ### Propagation -/

/-- How propagation from an assignment ends: at once, since nothing beyond the assignment
satisfies the formula, or by a run from what the assignment leaves of it. -/
inductive Propagated (F : Formula) (s : Assignment) : Except Stop Formula → Assignment → Prop
  | refuted {e : Conflict} (h : ∀ u, s ⊆ u → ¬ F.isSatisfiedBy u = true) :
      Propagated F s (.error (.conflict e)) s
  | run {H : Formula} {r : Except Stop Formula} {t : Assignment} (hF : F.hasEmptyClause = false)
      (hH : F.under s = .ok H) (h : UnitRun H s r t) : Propagated F s r t

theorem propagate_spec (F : Formula) (s : Assignment) :
    Propagated F s (F.propagate s).outcome (F.propagate s).state := by
  unfold propagate
  split
  · next hempty => exact .refuted fun _ _ => not_isSatisfiedBy_of_hasEmptyClause hempty
  · next hempty =>
      split
      · next e he => exact .refuted fun _ hsu => not_isSatisfiedBy_of_foldlM_condition he hsu
      · next H hH => exact .run (Bool.eq_false_iff.mpr hempty) hH (propagateUnits_run H s)

/-- Propagation that ends without a unit went by unit steps. -/
theorem unitSteps_of_propagate (h : (F.propagate s).outcome = .ok G) :
    ∃ H, F.hasEmptyClause = false ∧ F.under s = .ok H ∧
      UnitSteps H s G (F.propagate s).state := by
  have hspec := propagate_spec F s
  rw [h] at hspec
  cases hspec with
  | run hF hH hrun =>
      cases hrun with
      | finished hsteps => exact ⟨_, hF, hH, hsteps⟩

theorem reduces_propagate (h : (F.propagate s).outcome = .ok G) :
    Reduces F s G (F.propagate s).state := by
  obtain ⟨H, -, hH, hsteps⟩ := unitSteps_of_propagate h
  exact (reduces_under hH).trans hsteps.reduces

theorem openIn_propagate (h : (F.propagate s).outcome = .ok G) :
    G.OpenIn (F.propagate s).state := by
  obtain ⟨H, -, hH, hsteps⟩ := unitSteps_of_propagate h
  exact hsteps.openIn (openIn_under hH)

theorem hasEmptyClause_propagate (h : (F.propagate s).outcome = .ok G) :
    G.hasEmptyClause = false := by
  obtain ⟨H, hempty, hH, hsteps⟩ := unitSteps_of_propagate h
  exact hsteps.hasEmptyClause (hasEmptyClause_foldlM_condition hH hempty)

/-- The units that propagation finds are of open variables, so none of them is false. -/
theorem propagate_ne_fault (F : Formula) (s : Assignment) (f : Fault) :
    (F.propagate s).outcome ≠ .error (.fault f) := by
  intro h
  have hspec := propagate_spec F s
  rw [h] at hspec
  generalize (F.propagate s).state = r at hspec
  cases hspec with
  | run _ hH hrun =>
      cases hrun with
      | @fault G t l _ hsteps hl hclash =>
          obtain ⟨c, hc, hunit⟩ := mem_vars_of_unit? hl
          have hv : l.var ∈ G.vars := mem_vars_of_mem hc (Clause.mem_of_unit? hunit)
          have hopen : t.isAssigned l.var = false := hsteps.openIn (openIn_under hH) l.var hv
          rw [Assignment.clash?_eq_none.mpr (Assignment.neg_not_mem_of_isAssigned hopen)] at hclash
          cases hclash

/-- A conflict proves that no assignment with these values satisfies the formula. -/
theorem not_isSatisfiedBy_of_propagate (h : (F.propagate s).outcome = .error (.conflict e))
    (hsu : s ⊆ u) : ¬ F.isSatisfiedBy u = true := by
  have hspec := propagate_spec F s
  rw [h] at hspec
  generalize (F.propagate s).state = r at hspec
  cases hspec with
  | refuted hno => exact hno u hsu
  | run _ hH hrun =>
      cases hrun with
      | conflict hsteps hl hcond =>
          intro hF
          obtain ⟨-, hHu⟩ := ((reduces_under hH).isSatisfiedBy_iff u hsu).mp hF
          obtain ⟨-, hGu⟩ := (hsteps.reduces.isSatisfiedBy_iff u hsu).mp hHu
          have hlu := mem_of_unit?_of_isSatisfiedBy hl hGu
          exact not_isSatisfiedBy_of_condition_error hcond hlu hGu

end Clausal.Formula
