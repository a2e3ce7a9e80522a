import Clausal.Proofs.Propagation

/-! # Unit propagation finds the forced literals

A formula forces a literal under an assignment if the literal is true there, or if it stands in
a clause whose other literals all have forced complements: `Forces F s` is the least set of
literals closed under unit clauses.  `F.residue s` is what `s` leaves of `F` at once, clause by
clause.

Propagation takes one unit after another in the order of the clauses, and each step counts on
the steps before it.  `Tracks F s G t` is the invariant: what has become true is forced, and what
is missing from a clause of `G` has a forced complement.  At the end nothing forced is left out,
since no unit is left, so the result can be told without the run (`propagate_closure`): the state
holds exactly the forced literals and the formula is the residue, or the forced literals
contradict each other. -/

namespace Clausal

/-- What an assignment leaves of a clause: nothing if it is satisfied, else the literals that are
not false. -/
def Clause.residue? (c : Clause) (s : Assignment) : Option Clause :=
  if c.isSatisfiedBy s then none else some ⟨c.literals.filter fun l => decide (-l ∉ s)⟩

/-- What an assignment leaves of a formula. -/
def Formula.residue (F : Formula) (s : Assignment) : Formula :=
  ⟨F.clauses.filterMap (·.residue? s)⟩

namespace Clause

variable {c d : Clause} {s : Assignment} {l : Literal}

/-! ### Residues -/

theorem isSatisfiedBy_eq_false : c.isSatisfiedBy s = false ↔ ∀ l ∈ c, l ∉ s := by
  rw [Bool.eq_false_iff, ne_eq, isSatisfiedBy_iff]
  simp

theorem residue?_eq_some : c.residue? s = some d ↔
    (∀ l ∈ c, l ∉ s) ∧ ∀ l, l ∈ d ↔ l ∈ c ∧ -l ∉ s := by
  have hmem : ∀ l, l ∈ (⟨c.literals.filter fun l => decide (-l ∉ s)⟩ : Clause) ↔
      l ∈ c ∧ -l ∉ s := by
    intro l
    rw [mem_mk, SortedSet.mem_filter, mem_literals, decide_eq_true_eq]
  rw [← isSatisfiedBy_eq_false, residue?]
  cases c.isSatisfiedBy s with
  | true => simp
  | false =>
      rw [if_neg Bool.false_ne_true, Option.some.injEq, eq_self, true_and]
      constructor
      · rintro rfl
        exact hmem
      · intro h
        exact ext fun l => (hmem l).trans (h l).symm

theorem exists_residue (h : ∀ l ∈ c, l ∉ s) : ∃ d, c.residue? s = some d := by
  rw [residue?, isSatisfiedBy_eq_false.mpr h]
  exact ⟨_, rfl⟩

/-- Making a true literal true beforehand changes nothing. -/
theorem residue?_given (hl : l ∈ s) : (c.given l).bind (·.residue? s) = c.residue? s := by
  have hneg : -l ∉ s := Assignment.neg_not_mem hl
  apply Option.ext
  intro d
  rw [Option.bind_eq_some_iff, residue?_eq_some]
  constructor
  · rintro ⟨b, hb, hd⟩
    obtain ⟨hlc, rfl⟩ := given_eq_some.mp hb
    obtain ⟨hsat, hmem⟩ := residue?_eq_some.mp hd
    refine ⟨fun m hm hms => ?_, fun m => ?_⟩
    · refine hsat m (mem_erase.mpr ⟨hm, ?_⟩) hms
      rintro rfl
      exact hneg hms
    · rw [hmem, mem_erase, and_assoc]
      refine and_congr_right fun _ => and_iff_right_of_imp fun hm => ?_
      rintro rfl
      rw [Literal.neg_neg] at hm
      exact hm hl
  · rintro ⟨hsat, hmem⟩
    refine ⟨c.erase (-l), given_eq_some.mpr ⟨fun hlc => hsat l hlc hl, rfl⟩, ?_⟩
    refine residue?_eq_some.mpr ⟨fun m hm => hsat m (mem_erase.mp hm).1, fun m => ?_⟩
    rw [hmem, mem_erase, and_assoc]
    refine and_congr_right fun _ => (and_iff_right_of_imp fun hm => ?_).symm
    rintro rfl
    rw [Literal.neg_neg] at hm
    exact hm hl

theorem residue?_of_open (h : ∀ l ∈ c, s.isAssigned l.var = false) : c.residue? s = some c := by
  refine residue?_eq_some.mpr ⟨fun l hl => Assignment.not_mem_of_isAssigned (h l hl), fun l => ?_⟩
  exact (and_iff_left_of_imp fun hl => Assignment.neg_not_mem_of_isAssigned (h l hl)).symm

end Clause

namespace Formula

variable {F G H : Formula} {s t : Assignment} {c d : Clause} {l : Literal} {ls : List Literal}

theorem mem_residue :
    d ∈ F.residue s ↔ ∃ c ∈ F, (∀ l ∈ c, l ∉ s) ∧ ∀ l, l ∈ d ↔ l ∈ c ∧ -l ∉ s := by
  rw [← mem_clauses, residue, List.mem_filterMap]
  simp only [Clause.residue?_eq_some, mem_clauses]

theorem residue_of_openIn (h : F.OpenIn s) : F.residue s = F := by
  have hopen : ∀ c ∈ F.clauses, c.residue? s = some c := fun c hc =>
    Clause.residue?_of_open fun l hl => h l.var (mem_vars_of_mem hc hl)
  rw [residue, List.filterMap_congr hopen, List.filterMap_some]

theorem residue_condition (h : F.condition l = .ok G) (hl : l ∈ s) :
    G.residue s = F.residue s := by
  rw [eq_of_condition h, residue, residue, List.filterMap_filterMap]
  have hgiven : ∀ c ∈ F.clauses, ((c.given l).bind fun d => d.residue? s) = c.residue? s :=
    fun c _ => Clause.residue?_given hl
  rw [List.filterMap_congr hgiven]

theorem residue_foldlM_condition (h : ls.foldlM condition F = .ok G) (hls : ∀ l ∈ ls, l ∈ s) :
    G.residue s = F.residue s := by
  induction ls generalizing F with
  | nil => cases h; rfl
  | cons l ls ih =>
      obtain ⟨H, hH, h⟩ := foldlM_condition_cons.mp h
      rw [ih h fun m hm => hls m (List.mem_cons_of_mem l hm)]
      exact residue_condition hH (hls l List.mem_cons_self)

theorem UnitSteps.residue_eq (h : UnitSteps F s G t) : G.residue t = F.residue t := by
  induction h with
  | refl F s => rfl
  | step _ _ hH h ih =>
      rw [ih]
      exact residue_condition hH (h.reduces.subset _ (Assignment.mem_assign_self _ _))

/-- Unit steps leave what the values at their end leave of the formula at once. -/
theorem UnitSteps.eq_residue (hH : F.under s = .ok H) (h : UnitSteps H s G t) :
    G = F.residue t := by
  have hopen := h.openIn (openIn_under hH)
  rw [← residue_foldlM_condition hH h.reduces.subset, ← h.residue_eq, residue_of_openIn hopen]

theorem eq_residue_of_propagate (h : (F.propagate s).outcome = .ok G) :
    G = F.residue (F.propagate s).state := by
  obtain ⟨H, -, hH, hsteps⟩ := unitSteps_of_propagate h
  exact hsteps.eq_residue hH

theorem unit?_propagateUnits (h : (F.propagateUnits s).outcome = .ok G) : G.unit? = none := by
  fun_induction propagateUnits F s with
  | case1 F s hnone => cases h; exact hnone
  | case2 => cases h
  | case3 => cases h
  | case4 F s l hl _ H hH rest ih => exact ih h

theorem unit?_propagate (h : (F.propagate s).outcome = .ok G) : G.unit? = none := by
  unfold propagate at h
  split at h
  · cases h
  · split at h
    · cases h
    · exact unit?_propagateUnits h

/-! ### Forced literals -/

/-- The literals that are true, and the ones that some clause forces when the complements of its
other literals are forced. -/
inductive Forces (F : Formula) (s : Assignment) : Literal → Prop
  | given {l : Literal} (h : l ∈ s) : Forces F s l
  | unit {c : Clause} {l : Literal} (hc : c ∈ F) (hl : l ∈ c)
      (h : ∀ m ∈ c, m ≠ l → Forces F s (-m)) : Forces F s l

/-- Which literals are forced depends on which clauses there are, not on their order. -/
theorem Forces.mono (hFG : ∀ c ∈ F, c ∈ G) (h : Forces F s l) : Forces G s l := by
  induction h with
  | given h => exact .given h
  | unit hc hl _ ih => exact .unit (hFG _ hc) hl ih

/-- `G` under `t` comes from `F` under `s` by making forced literals true. -/
structure Tracks (F : Formula) (s : Assignment) (G : Formula) (t : Assignment) : Prop where
  forces : ∀ l ∈ t, Forces F s l
  exists_clause : ∀ d ∈ G, ∃ c ∈ F, (∀ m ∈ d, m ∈ c) ∧ ∀ m ∈ c, m ∈ d ∨ Forces F s (-m)

theorem Tracks.refl (F : Formula) (s : Assignment) : Tracks F s F s :=
  ⟨fun _ hl => .given hl, fun d hd => ⟨d, hd, fun _ hm => hm, fun _ hm => .inl hm⟩⟩

theorem Tracks.forces_of_unit (h : Tracks F s G t) (hd : d ∈ G) (hunit : d.unit? = some l) :
    Forces F s l := by
  obtain ⟨c, hc, hsub, hrest⟩ := h.exists_clause d hd
  refine .unit hc (hsub l (Clause.mem_of_unit? hunit)) fun m hm hne => ?_
  refine (hrest m hm).resolve_left fun hmd => ?_
  exact hne ((Clause.mem_iff_of_unit? hunit).mp hmd)

theorem Tracks.condition (h : Tracks F s G t) (hl : Forces F s l)
    (hH : G.condition l = .ok H) : Tracks F s H t where
  forces := h.forces
  exists_clause := by
    intro d hd
    obtain ⟨b, hb, -, rfl⟩ := (mem_condition hH).mp hd
    obtain ⟨c, hc, hsub, hrest⟩ := h.exists_clause b hb
    refine ⟨c, hc, fun m hm => hsub m (Clause.mem_erase.mp hm).1, fun m hm => ?_⟩
    rcases hrest m hm with hmb | hforced
    · by_cases hml : m = -l
      · right
        rw [hml, Literal.neg_neg]
        exact hl
      · exact .inl (Clause.mem_erase.mpr ⟨hmb, hml⟩)
    · exact .inr hforced

theorem Tracks.assign (h : Tracks F s G t) (hl : Forces F s l) : Tracks F s G (t.assign l) where
  forces := by
    intro m hm
    rcases Assignment.mem_assign.mp hm with rfl | ⟨hm, -⟩
    · exact hl
    · exact h.forces m hm
  exists_clause := h.exists_clause

theorem Tracks.foldlM_condition (h : Tracks F s G s) (hls : ∀ l ∈ ls, l ∈ s)
    (hH : ls.foldlM Formula.condition G = .ok H) : Tracks F s H s := by
  induction ls generalizing G with
  | nil => cases hH; exact h
  | cons l ls ih =>
      obtain ⟨I, hI, hH⟩ := foldlM_condition_cons.mp hH
      have hl : Forces F s l := .given (hls l List.mem_cons_self)
      exact ih (h.condition hl hI) (fun m hm => hls m (List.mem_cons_of_mem l hm)) hH

theorem Tracks.unitSteps {u : Assignment} (h : Tracks F s G t) (hsteps : UnitSteps G t H u) :
    Tracks F s H u := by
  induction hsteps with
  | refl => exact h
  | step hl _ hH _ ih =>
      obtain ⟨d, hd, hunit⟩ := mem_vars_of_unit? hl
      have hforced := h.forces_of_unit hd hunit
      exact ih ((h.condition hforced hH).assign hforced)

/-- Forced literals may contradict each other. -/
def Clashes (F : Formula) (s : Assignment) : Prop := ∃ l, Forces F s l ∧ Forces F s (-l)

/-- A forced literal that cannot be made true has a forced complement. -/
theorem Tracks.clashes {e : Conflict} (h : Tracks F s G t) (hl : Forces F s l)
    (he : G.condition l = .error e) : Clashes F s := by
  obtain ⟨hmem, hunit⟩ := unit?_of_condition_error he
  exact ⟨l, hl, h.forces_of_unit hmem hunit⟩

theorem Tracks.clashes_of_foldlM_condition {e : Conflict} (h : Tracks F s G s)
    (hls : ∀ l ∈ ls, l ∈ s) (he : ls.foldlM Formula.condition G = .error e) : Clashes F s := by
  induction ls generalizing G with
  | nil => cases he
  | cons l ls ih =>
      have hl : Forces F s l := .given (hls l List.mem_cons_self)
      rw [List.foldlM_cons] at he
      cases hH : G.condition l with
      | error e' => exact h.clashes hl hH
      | ok H =>
          rw [hH] at he
          exact ih (h.condition hl hH) (fun m hm => hls m (List.mem_cons_of_mem l hm)) he

/-- Where neither a unit nor an empty clause is left, a clause that is not satisfied has more
than one open literal. -/
theorem exists_open (hempty : (F.residue t).hasEmptyClause = false)
    (hunit : (F.residue t).unit? = none) (hc : c ∈ F) (hopen : ∀ m ∈ c, m ∉ t) (l : Literal) :
    ∃ m ∈ c, m ≠ l ∧ -m ∉ t := by
  by_contra hno
  have hfalse : ∀ m ∈ c, m ≠ l → -m ∈ t := by
    intro m hm hml
    by_contra hmt
    exact hno ⟨m, hm, hml, hmt⟩
  obtain ⟨d, hd⟩ := Clause.exists_residue hopen
  obtain ⟨-, hmem⟩ := Clause.residue?_eq_some.mp hd
  have hdF : d ∈ F.residue t := List.mem_filterMap.mpr ⟨c, hc, hd⟩
  have hsub : ∀ m ∈ d, m = l := by
    intro m hm
    by_contra hml
    obtain ⟨hmc, hmt⟩ := (hmem m).mp hm
    exact hmt (hfalse m hmc hml)
  rcases Clause.eq_empty_or_eq_unit hsub with rfl | rfl
  · rw [hasEmptyClause_iff_mem.mpr hdF] at hempty
    cases hempty
  · have hnone := List.findSome?_eq_none_iff.mp hunit _ hdF
    rw [Clause.unit?_unit] at hnone
    cases hnone

/-- Where neither a unit nor an empty clause is left, everything forced is true. -/
theorem mem_of_forces (hst : s ⊆ t) (hempty : (F.residue t).hasEmptyClause = false)
    (hunit : (F.residue t).unit? = none) (h : Forces F s l) : l ∈ t := by
  induction h with
  | given h => exact hst _ h
  | @unit c l hc hl _ ih =>
      by_contra hlt
      have hopen : ∀ m ∈ c, m ∉ t := by
        intro m hm hmt
        by_cases hml : m = l
        · exact hlt (hml ▸ hmt)
        · exact Assignment.neg_not_mem hmt (ih m hm hml)
      obtain ⟨m, hm, hml, hmt⟩ := exists_open hempty hunit hc hopen l
      exact hmt (ih m hm hml)

/-! ### The result of propagation -/

/-- What propagation results in, told by the forced literals: they contradict each other or there
is an empty clause, or the state holds exactly them and the formula is what that leaves. -/
inductive Propagates (F : Formula) (s : Assignment) : Except Stop Formula → Assignment → Prop
  | refuted {e : Conflict} {t : Assignment} (h : ∅ ∈ F ∨ Clashes F s) :
      Propagates F s (.error (.conflict e)) t
  | finished {t : Assignment} (hF : ∅ ∉ F) (ht : ∀ l, l ∈ t ↔ Forces F s l) :
      Propagates F s (.ok (F.residue t)) t

theorem propagates_of_conflict {e : Conflict}
    (h : (F.propagate s).outcome = .error (.conflict e)) : ∅ ∈ F ∨ Clashes F s := by
  unfold propagate at h
  split at h
  · next hempty => exact .inl (hasEmptyClause_iff_mem.mp hempty)
  right
  split at h
  · next he => exact (Tracks.refl F s).clashes_of_foldlM_condition (fun _ hl => hl) he
  · next H hH =>
      have hrun := propagateUnits_run H s
      rw [h] at hrun
      generalize (H.propagateUnits s).state = t at hrun
      cases hrun with
      | conflict hsteps hl he =>
          have htracks := ((Tracks.refl F s).foldlM_condition (fun _ hl => hl) hH).unitSteps hsteps
          obtain ⟨d, hd, hunit⟩ := mem_vars_of_unit? hl
          exact htracks.clashes (htracks.forces_of_unit hd hunit) he

/-- The result of propagation in terms of the forced literals. -/
theorem propagate_closure (F : Formula) (s : Assignment) :
    Propagates F s (F.propagate s).outcome (F.propagate s).state := by
  cases hout : (F.propagate s).outcome with
  | error stop =>
      cases stop with
      | fault f => exact absurd hout (propagate_ne_fault F s f)
      | conflict e => exact .refuted (propagates_of_conflict hout)
  | ok G =>
      obtain ⟨H, hempty, hH, hsteps⟩ := unitSteps_of_propagate hout
      have htracks := ((Tracks.refl F s).foldlM_condition (fun _ hl => hl) hH).unitSteps hsteps
      have hst := (reduces_propagate hout).subset
      have hG := eq_residue_of_propagate hout
      have hGempty := hasEmptyClause_propagate hout
      have hGunit := unit?_propagate hout
      rw [hG] at hGempty hGunit ⊢
      refine .finished (fun h => ?_) fun l => ⟨htracks.forces l, mem_of_forces hst hGempty hGunit⟩
      rw [hasEmptyClause_iff_mem.mpr h] at hempty
      cases hempty

/-- Forced literals that are all true at the same time do not contradict each other. -/
theorem not_clashes (ht : ∀ l, l ∈ t ↔ Forces F s l) : ¬ Clashes F s := by
  rintro ⟨l, hl, hneg⟩
  exact Assignment.neg_not_mem ((ht l).mpr hl) ((ht (-l)).mpr hneg)

end Formula

end Clausal
