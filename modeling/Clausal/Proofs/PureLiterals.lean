import Clausal.Proofs.Propagation

/-! # Pure literals keep satisfiability

Making the pure literals true may lose models, but not all of them: if an assignment satisfies
the formula, it still does so once all pure literals are made true in it at the same time
(`isSatisfiedBy_assignAll_pureLiterals`), since the complement of a pure literal does not occur.

`IsPure` says which literals are pure without the list of them (`mem_pureLiterals_iff`), and
`purify_keeps_satisfiability` puts together what becomes of the assignment, of the clauses and of
the models.

`Simplifies F s G t` is what is left of `Reduces` when a step need not keep every model.  A
round of propagation and pure literals is such a step (`simplifies_purify_propagate`); it is
the part that backtracking and variable elimination have in common. -/

namespace Clausal

/-! ### Assigning many literals -/

namespace Assignment

variable {s : Assignment} {ls : List Literal} {m : Literal}

/-- Make the literals true one after another, whatever their variables were before. -/
def assignAll (s : Assignment) (ls : List Literal) : Assignment := ls.foldl assign s

theorem mem_assignAll (hls : ∀ l ∈ ls, -l ∉ ls) :
    m ∈ s.assignAll ls ↔ m ∈ ls ∨ m ∈ s ∧ -m ∉ ls := by
  induction ls generalizing s with
  | nil => simp [assignAll]
  | cons k ls ih =>
      have hls' : ∀ l ∈ ls, -l ∉ ls := fun l hl hneg =>
        hls l (List.mem_cons_of_mem k hl) (List.mem_cons_of_mem k hneg)
      have hk : -k ∉ ls := fun h => hls k List.mem_cons_self (List.mem_cons_of_mem k h)
      show m ∈ (s.assign k).assignAll ls ↔ _
      rw [ih hls', mem_assign, List.mem_cons, List.mem_cons]
      by_cases hmk : m = k
      · subst hmk
        simp [hk]
      · have hneg : m ≠ -k ↔ ¬-m = k := by rw [ne_eq, ← Literal.neg_inj, Literal.neg_neg]
        simp only [hmk, hneg, false_or, not_or, and_assoc]

/-- Without a false literal, and without a literal beside its complement, no fault comes up. -/
theorem extend_eq (hls : ∀ l ∈ ls, -l ∉ ls) (hs : ∀ l ∈ ls, -l ∉ s) :
    s.extend ls = ⟨s.assignAll ls, none⟩ := by
  induction ls generalizing s with
  | nil => rfl
  | cons k ls ih =>
      have hk : s.clash? k = none := clash?_eq_none.mpr (hs k List.mem_cons_self)
      unfold extend
      rw [hk]
      show (s.assign k).extend ls = ⟨(s.assign k).assignAll ls, none⟩
      refine ih (fun l hl hneg => ?_) fun l hl => ?_
      · exact hls l (List.mem_cons_of_mem k hl) (List.mem_cons_of_mem k hneg)
      · rw [mem_assign, not_or]
        constructor
        · intro h
          refine hls k List.mem_cons_self (List.mem_cons_of_mem k ?_)
          rw [← h, Literal.neg_neg]
          exact hl
        · exact fun h => hs l (List.mem_cons_of_mem k hl) h.1

end Assignment

namespace Formula

variable {F G H : Formula} {s t u : Assignment} {l : Literal} {ls : List Literal}

/-! ### Clauses without some literals -/

theorem mem_without {c : Clause} : c ∈ F.without ls ↔ c ∈ F ∧ ∀ l ∈ ls, l ∉ c := by
  rw [← mem_clauses, without, List.mem_filter, mem_clauses]
  simp

theorem isSatisfiedBy_of_without (hls : ∀ l ∈ ls, l ∈ u)
    (h : (F.without ls).isSatisfiedBy u = true) : F.isSatisfiedBy u = true := by
  refine isSatisfiedBy_iff.mpr fun c hc => ?_
  by_cases hmem : ∃ l ∈ ls, l ∈ c
  · obtain ⟨l, hl, hlc⟩ := hmem
    exact Clause.isSatisfiedBy_iff.mpr ⟨l, hlc, hls l hl⟩
  · have hkeep : c ∈ F.without ls := mem_without.mpr ⟨hc, fun l hl hlc => hmem ⟨l, hl, hlc⟩⟩
    exact isSatisfiedBy_iff.mp h c hkeep

theorem without_isSatisfiedBy (h : F.isSatisfiedBy u = true) :
    (F.without ls).isSatisfiedBy u = true :=
  isSatisfiedBy_iff.mpr fun c hc => isSatisfiedBy_iff.mp h c (mem_without.mp hc).1

theorem hasEmptyClause_without (h : F.hasEmptyClause = false) :
    (F.without ls).hasEmptyClause = false := by
  rw [Bool.eq_false_iff, ne_eq, hasEmptyClause_iff] at h ⊢
  rintro ⟨c, hc, hempty⟩
  exact h ⟨c, (mem_without.mp hc).1, hempty⟩

/-! ### Pure literals -/

theorem isAssigned_of_mem_pureLiterals (h : l ∈ F.pureLiterals s) : s.isAssigned l.var = false := by
  rw [Assignment.isAssigned, (mem_openLiterals.mp (mem_pureLiterals.mp h).1).2]
  rfl

theorem neg_not_mem_of_mem_pureLiterals (h : l ∈ F.pureLiterals s) : -l ∉ s :=
  Assignment.neg_not_mem_of_isAssigned (isAssigned_of_mem_pureLiterals h)

/-- The complement of a pure literal does not occur. -/
theorem neg_not_mem_clause {c : Clause} (h : l ∈ F.pureLiterals s) (hc : c ∈ F) : -l ∉ c := by
  intro hneg
  obtain ⟨hl, hnot⟩ := mem_pureLiterals.mp h
  exact hnot (mem_openLiterals.mpr ⟨⟨c, hc, hneg⟩, (mem_openLiterals.mp hl).2⟩)

theorem pureLiterals_consistent (F : Formula) (s : Assignment) :
    ∀ l ∈ F.pureLiterals s, -l ∉ F.pureLiterals s := by
  intro l hl hneg
  exact (mem_pureLiterals.mp hl).2 (mem_pureLiterals.mp hneg).1

theorem purify_eq (F : Formula) (s : Assignment) : F.purify s =
    ⟨F.pureLiterals s, s.assignAll (F.pureLiterals s), none, F.without (F.pureLiterals s)⟩ := by
  have hext : s.extend (F.pureLiterals s) = ⟨s.assignAll (F.pureLiterals s), none⟩ :=
    Assignment.extend_eq (pureLiterals_consistent F s) fun _ hl =>
      neg_not_mem_of_mem_pureLiterals hl
  unfold purify
  simp only [hext]

theorem mem_state_purify : l ∈ (F.purify s).state ↔ l ∈ s ∨ l ∈ F.pureLiterals s := by
  rw [purify_eq, Assignment.mem_assignAll (pureLiterals_consistent F s), or_comm]
  refine or_congr_left (and_iff_left_of_imp fun hl hneg => ?_)
  exact neg_not_mem_of_mem_pureLiterals hneg (by rwa [Literal.neg_neg])

/-- Repairing a model for all pure literals at once keeps it a model: a clause loses no true
literal, since a literal that would become false is the complement of a pure one. -/
theorem isSatisfiedBy_assignAll_pureLiterals (h : F.isSatisfiedBy u = true) :
    F.isSatisfiedBy (u.assignAll (F.pureLiterals s)) = true := by
  refine isSatisfiedBy_iff.mpr fun c hc => ?_
  obtain ⟨l, hl, hlu⟩ := Clause.isSatisfiedBy_iff.mp (isSatisfiedBy_iff.mp h c hc)
  refine Clause.isSatisfiedBy_iff.mpr ⟨l, hl, ?_⟩
  rw [Assignment.mem_assignAll (pureLiterals_consistent F s)]
  refine .inr ⟨hlu, fun hneg => ?_⟩
  exact neg_not_mem_clause hneg hc (by rwa [Literal.neg_neg])

theorem state_purify_subset (hsu : s ⊆ u) :
    (F.purify s).state ⊆ u.assignAll (F.pureLiterals s) := by
  intro l hl
  rw [Assignment.mem_assignAll (pureLiterals_consistent F s)]
  rcases mem_state_purify.mp hl with hl | hl
  · refine .inr ⟨hsu l hl, fun hneg => ?_⟩
    exact neg_not_mem_of_mem_pureLiterals hneg (by rwa [Literal.neg_neg])
  · exact .inl hl

theorem var_not_mem_vars_purify (hl : l ∈ F.pureLiterals s) :
    l.var ∉ (F.purify s).formula.vars := by
  rw [purify_eq]
  intro hv
  obtain ⟨c, hc, m, hm, hvar⟩ := mem_vars.mp hv
  obtain ⟨hcF, hno⟩ := mem_without.mp hc
  rcases Literal.eq_or_eq_neg hvar with rfl | rfl
  · exact hno m hl hm
  · exact neg_not_mem_clause hl hcF hm

/-! ### Purity -/

/-- The variable of the literal has no value, and of its two literals only this one occurs. -/
structure IsPure (F : Formula) (s : Assignment) (l : Literal) : Prop where
  isAssigned_var : s.isAssigned l.var = false
  exists_mem : ∃ c ∈ F, l ∈ c
  neg_not_mem : ∀ c ∈ F, -l ∉ c

theorem mem_pureLiterals_iff : l ∈ F.pureLiterals s ↔ F.IsPure s l := by
  constructor
  · intro h
    have hoccurs := (mem_openLiterals.mp (mem_pureLiterals.mp h).1).1
    exact ⟨isAssigned_of_mem_pureLiterals h, hoccurs, fun c hc => neg_not_mem_clause h hc⟩
  · intro h
    have hopen : s.value? l.var = none := by
      simpa [Assignment.isAssigned] using h.isAssigned_var
    apply mem_pureLiterals.mpr
    refine ⟨mem_openLiterals.mpr ⟨h.exists_mem, hopen⟩, fun hneg => ?_⟩
    obtain ⟨⟨c, hc, hnegc⟩, -⟩ := mem_openLiterals.mp hneg
    exact h.neg_not_mem c hc hnegc

instance (F : Formula) (s : Assignment) (l : Literal) : Decidable (F.IsPure s l) :=
  decidable_of_iff (l ∈ F.pureLiterals s) mem_pureLiterals_iff

theorem clauses_purify (F : Formula) (s : Assignment) : (F.purify s).formula.clauses =
    F.clauses.filter fun c => decide (∀ l ∈ c.toList, ¬ F.IsPure s l) := by
  rw [purify_eq]
  apply List.filter_congr
  intro c _
  rw [Bool.eq_iff_iff]
  simp only [Bool.not_eq_true', List.any_eq_false, decide_eq_true_eq, mem_pureLiterals_iff,
    Clause.mem_toList]
  exact ⟨fun h l hl hpure => h l hpure hl, fun h l hpure hl => h l hl hpure⟩

/-- A clause is dropped only if one of its literals has become true. -/
theorem isSatisfiedBy_of_not_mem_purify {c : Clause} (hc : c ∈ F)
    (h : c ∉ (F.purify s).formula) : c.isSatisfiedBy (F.purify s).state = true := by
  obtain ⟨l, hl, hpure⟩ : ∃ l ∈ c, F.IsPure s l := by
    by_contra hno
    apply h
    rw [← mem_clauses, clauses_purify, List.mem_filter, decide_eq_true_eq]
    exact ⟨hc, fun l hl hpure => hno ⟨l, hl, hpure⟩⟩
  have htrue : l ∈ (F.purify s).state :=
    mem_state_purify.mpr (.inr (mem_pureLiterals_iff.mpr hpure))
  exact Clause.isSatisfiedBy_iff.mpr ⟨l, hl, htrue⟩

/-! ### Steps that keep satisfiability -/

/-- Models of `G` under `t` are models of `F`, and there is one if `F` has one under `s`. -/
structure Simplifies (F : Formula) (s : Assignment) (G : Formula) (t : Assignment) : Prop
    extends Narrows F s G t where
  isSatisfiedBy : ∀ u, t ⊆ u → G.isSatisfiedBy u = true → F.isSatisfiedBy u = true
  exists_isSatisfiedBy : ∀ u, s ⊆ u → F.isSatisfiedBy u = true →
    ∃ w, t ⊆ w ∧ G.isSatisfiedBy w = true

theorem Reduces.simplifies (h : Reduces F s G t) : Simplifies F s G t where
  toNarrows := h.toNarrows
  isSatisfiedBy u htu hG :=
    (h.isSatisfiedBy_iff u (Assignment.subset_trans h.subset htu)).mpr ⟨htu, hG⟩
  exists_isSatisfiedBy u hsu hF := ⟨u, (h.isSatisfiedBy_iff u hsu).mp hF⟩

theorem Simplifies.trans {r : Assignment} (h₁ : Simplifies F r G s) (h₂ : Simplifies G s H t) :
    Simplifies F r H t where
  toNarrows := h₁.toNarrows.trans h₂.toNarrows
  isSatisfiedBy u htu hH :=
    h₁.isSatisfiedBy u (Assignment.subset_trans h₂.subset htu) (h₂.isSatisfiedBy u htu hH)
  exists_isSatisfiedBy u hru hF := by
    obtain ⟨w, hsw, hG⟩ := h₁.exists_isSatisfiedBy u hru hF
    exact h₂.exists_isSatisfiedBy w hsw hG

theorem Simplifies.exists_iff (h : Simplifies F s G t) :
    (∃ u, s ⊆ u ∧ F.isSatisfiedBy u = true) ↔ ∃ u, t ⊆ u ∧ G.isSatisfiedBy u = true := by
  constructor
  · rintro ⟨u, hsu, hF⟩
    exact h.exists_isSatisfiedBy u hsu hF
  · rintro ⟨u, htu, hG⟩
    exact ⟨u, Assignment.subset_trans h.subset htu, h.isSatisfiedBy u htu hG⟩

theorem simplifies_purify (F : Formula) (s : Assignment) :
    Simplifies F s (F.purify s).formula (F.purify s).state where
  subset l hl := mem_state_purify.mpr (.inl hl)
  mem_or_var_mem l hl := by
    rcases mem_state_purify.mp hl with hl | hl
    · exact .inl hl
    · obtain ⟨c, hc, hlc⟩ := (mem_openLiterals.mp (mem_pureLiterals.mp hl).1).1
      exact .inr (mem_vars_of_mem hc hlc)
  vars_subset v hv := vars_purify hv
  isSatisfiedBy u hu hG := by
    rw [purify_eq] at hG
    exact isSatisfiedBy_of_without (fun l hl => hu l (mem_state_purify.mpr (.inr hl))) hG
  exists_isSatisfiedBy u hsu hF := by
    refine ⟨u.assignAll (F.pureLiterals s), state_purify_subset hsu, ?_⟩
    rw [purify_eq]
    exact without_isSatisfiedBy (isSatisfiedBy_assignAll_pureLiterals hF)

theorem openIn_purify (h : F.OpenIn s) : (F.purify s).formula.OpenIn (F.purify s).state := by
  intro v hv
  rw [Bool.eq_false_iff, ne_eq, Assignment.isAssigned_iff]
  rintro ⟨l, hl, rfl⟩
  rcases mem_state_purify.mp hl with hl | hl
  · exact Assignment.not_mem_of_isAssigned (h _ (vars_purify hv)) hl
  · exact var_not_mem_vars_purify hl hv

theorem hasEmptyClause_purify (h : F.hasEmptyClause = false) :
    (F.purify s).formula.hasEmptyClause = false := by
  rw [purify_eq]
  exact hasEmptyClause_without h

/-- Making the pure literals true breaks no promise.  It adds these literals to the assignment and
drops the clauses that hold one of them, which are true from then on, so no variable of a pure
literal is left.  Models of what is left are models of the formula, and a model of the formula
stays one when all pure literals are made true in it. -/
theorem purify_keeps_satisfiability (F : Formula) (s : Assignment) :
    (F.purify s).fault? = none ∧
    (∀ l, l ∈ (F.purify s).pures ↔ F.IsPure s l) ∧
    (∀ l, l ∈ (F.purify s).state ↔ l ∈ s ∨ F.IsPure s l) ∧
    ((F.purify s).formula.clauses =
      F.clauses.filter fun c => decide (∀ l ∈ c.toList, ¬ F.IsPure s l)) ∧
    (∀ c ∈ F, c ∉ (F.purify s).formula → c.isSatisfiedBy (F.purify s).state = true) ∧
    (∀ l, F.IsPure s l → l.var ∉ (F.purify s).formula.vars) ∧
    ((∃ u, s ⊆ u ∧ F.isSatisfiedBy u = true) ↔
      ∃ u, (F.purify s).state ⊆ u ∧ (F.purify s).formula.isSatisfiedBy u = true) ∧
    (∀ u, (F.purify s).state ⊆ u → (F.purify s).formula.isSatisfiedBy u = true →
      F.isSatisfiedBy u = true) ∧
    ∀ u, s ⊆ u → F.isSatisfiedBy u = true →
      (F.purify s).state ⊆ u.assignAll (F.purify s).pures ∧
        F.isSatisfiedBy (u.assignAll (F.purify s).pures) = true := by
  have hsimp := simplifies_purify F s
  refine ⟨by rw [purify_eq], fun l => mem_pureLiterals_iff, fun l => ?_, clauses_purify F s,
    fun c => isSatisfiedBy_of_not_mem_purify, fun l hl => ?_, hsimp.exists_iff,
    hsimp.isSatisfiedBy, fun u hsu hF => ?_⟩
  · rw [mem_state_purify, mem_pureLiterals_iff]
  · exact var_not_mem_vars_purify (mem_pureLiterals_iff.mpr hl)
  · exact ⟨state_purify_subset hsu, isSatisfiedBy_assignAll_pureLiterals hF⟩

/-- Propagation and then pure literals. -/
theorem simplifies_purify_propagate (h : (F.propagate s).outcome = .ok G) :
    Simplifies F s (G.purify (F.propagate s).state).formula
      (G.purify (F.propagate s).state).state :=
  (reduces_propagate h).simplifies.trans (simplifies_purify G _)

end Formula

end Clausal
