import Clausal.Verdict

/-! # Satisfaction

What the values of clauses and formulas say about the literals that an assignment makes true.
A clause has the value `some true` exactly when one of its literals is true, and `some false`
exactly when the complements of all its literals are (`Clause.eval_eq_true`,
`Clause.eval_eq_false`); a formula is satisfied exactly when all its clauses are
(`Formula.isSatisfiedBy_iff`).

`s ⊆ t` says that `t` keeps every value of `s`.  Satisfaction is monotone in this order.

`Formula.Decided F r` is what the complete searches promise of their answer `r`: there is one,
it is `unsat` exactly when no assignment satisfies `F`, and a model otherwise, which gives
values to the variables of `F` and to no others. -/

namespace Clausal

/-! ### Values of literals -/

namespace Assignment

variable {s t u : Assignment} {l m : Literal} {v : Var}

theorem isAssigned_iff : s.isAssigned v = true ↔ ∃ l ∈ s, l.var = v := by
  rw [isAssigned, Option.isSome_iff_exists]
  constructor
  · rintro ⟨b, hb⟩
    exact ⟨⟨v, b⟩, value?_eq_some.mp hb, rfl⟩
  · rintro ⟨l, hl, rfl⟩
    exact ⟨l.positive, value?_eq_some.mpr hl⟩

theorem isAssigned_of_mem (h : l ∈ s) : s.isAssigned l.var = true :=
  isAssigned_iff.mpr ⟨l, h, rfl⟩

theorem not_mem_of_isAssigned (h : s.isAssigned l.var = false) : l ∉ s := by
  intro hl
  rw [isAssigned_of_mem hl] at h
  cases h

theorem neg_not_mem_of_isAssigned (h : s.isAssigned l.var = false) : -l ∉ s :=
  not_mem_of_isAssigned (l := -l) h

theorem mem_or_neg_mem_of_isAssigned (h : s.isAssigned l.var = true) : l ∈ s ∨ -l ∈ s := by
  obtain ⟨m, hm, hv⟩ := isAssigned_iff.mp h
  rcases Literal.eq_or_eq_neg hv with rfl | rfl
  · exact .inl hm
  · exact .inr hm

/-! ### Assignments that keep the values of others -/

/-- Every literal that is true in `s` is true in `t`. -/
instance : HasSubset Assignment where
  Subset s t := ∀ l ∈ s, l ∈ t

theorem subset_refl (s : Assignment) : s ⊆ s := fun _ h => h

theorem subset_trans (hst : s ⊆ t) (htu : t ⊆ u) : s ⊆ u := fun l h => htu l (hst l h)

theorem empty_subset (s : Assignment) : ∅ ⊆ s := fun l h => absurd h (not_mem_empty l)

theorem isAssigned_mono (hst : s ⊆ t) (h : s.isAssigned v = true) : t.isAssigned v = true := by
  obtain ⟨l, hl, rfl⟩ := isAssigned_iff.mp h
  exact isAssigned_of_mem (hst l hl)

theorem mem_assign_self (s : Assignment) (l : Literal) : l ∈ s.assign l :=
  mem_assign.mpr (.inl rfl)

theorem subset_assign (h : -l ∉ s) : s ⊆ s.assign l := by
  intro m hm
  refine mem_assign.mpr (.inr ⟨hm, ?_⟩)
  rintro rfl
  exact h hm

theorem assign_subset (hst : s ⊆ t) (hl : l ∈ t) : s.assign l ⊆ t := by
  intro m hm
  rcases mem_assign.mp hm with rfl | ⟨hm, -⟩
  · exact hl
  · exact hst m hm

theorem isAssigned_assign :
    (s.assign l).isAssigned v = true ↔ v = l.var ∨ s.isAssigned v = true := by
  constructor
  · intro h
    obtain ⟨m, hm, rfl⟩ := isAssigned_iff.mp h
    rcases mem_assign.mp hm with rfl | ⟨hm, -⟩
    · exact .inl rfl
    · exact .inr (isAssigned_of_mem hm)
  · rintro (rfl | h)
    · exact isAssigned_of_mem (mem_assign_self s l)
    · obtain ⟨m, hm, rfl⟩ := isAssigned_iff.mp h
      by_cases hml : m = -l
      · rw [hml, Literal.var_neg]
        exact isAssigned_of_mem (mem_assign_self s l)
      · exact isAssigned_of_mem (mem_assign.mpr (.inr ⟨hm, hml⟩))

theorem clash?_eq_none : s.clash? l = none ↔ -l ∉ s := by
  unfold clash?
  split <;> simp_all

theorem assign?_of_neg_not_mem (h : -l ∉ s) : s.assign? l = .ok (s.assign l) := by
  unfold assign?
  rw [clash?_eq_none.mpr h]

/-- Turning round a literal that was just made true makes its complement true. -/
theorem flip_assign (s : Assignment) (l : Literal) : (s.assign l).flip l.var = s.assign (-l) := by
  have hl : (s.assign l).value? l.var = some l.positive := value?_eq_some.mpr (mem_assign_self s l)
  unfold flip
  rw [hl]
  refine ext fun m => ?_
  show m ∈ (s.assign l).assign (-l) ↔ m ∈ s.assign (-l)
  simp only [mem_assign, Literal.neg_neg]
  constructor
  · rintro (h | ⟨h | ⟨h, -⟩, hne⟩)
    · exact .inl h
    · exact absurd h hne
    · exact .inr ⟨h, hne⟩
  · rintro (h | ⟨h, hne⟩)
    · exact .inl h
    · by_cases hml : m = -l
      · exact .inl hml
      · exact .inr ⟨.inr ⟨h, hml⟩, hne⟩

/-! ### The values of smaller variables -/

/-- The values of the variables before `v`. -/
def below (s : Assignment) (v : Var) : Assignment where
  literals := s.literals.filter fun l => decide (l.var.index < v.index)
  consistent l hl hneg :=
    s.consistent l (SortedSet.mem_filter.mp hl).1 (SortedSet.mem_filter.mp hneg).1

theorem mem_below : l ∈ s.below v ↔ l ∈ s ∧ l.var.index < v.index := by
  show l ∈ s.literals.filter _ ↔ _
  rw [SortedSet.mem_filter, decide_eq_true_eq, mem_literals]

/-- True literals in their order have increasing variables. -/
theorem index_lt_of_lt (hl : l ∈ s) (hm : m ∈ s) (h : compare l m = .lt) :
    l.var.index < m.var.index := by
  apply Nat.lt_of_le_of_ne (Literal.index_le_of_lt h)
  intro heq
  rcases Literal.eq_or_eq_neg (Var.index_inj.mp heq) with rfl | rfl
  · rw [Std.ReflOrd.compare_self] at h
    cases h
  · exact neg_not_mem hm hl

/-- What stands before a true literal is true of the smaller variables. -/
theorem mem_below_iff_of_append {as bs : List Literal} (h : s.literals.toList = as ++ l :: bs) :
    m ∈ s.below l.var ↔ m ∈ as := by
  have hmem : ∀ k, k ∈ s ↔ k ∈ as ++ l :: bs := by
    intro k
    rw [← h]
    rfl
  have hl : l ∈ s := (hmem l).mpr (by simp)
  have hinc := s.literals.increasing
  rw [h, List.pairwise_append, List.pairwise_cons] at hinc
  obtain ⟨-, ⟨hafter, -⟩, hbefore⟩ := hinc
  rw [mem_below]
  constructor
  · rintro ⟨hm, hlt⟩
    have hm' := (hmem m).mp hm
    simp only [List.mem_append, List.mem_cons] at hm'
    rcases hm' with has | rfl | hbs
    · exact has
    · omega
    · have := index_lt_of_lt hl hm (hafter m hbs)
      omega
  · intro has
    have hm : m ∈ s := (hmem m).mpr (List.mem_append_left _ has)
    exact ⟨hm, index_lt_of_lt hm hl (hbefore m has l List.mem_cons_self)⟩

/-! ### Filling up -/

theorem mem_fill {vs : List Var} {b : Bool} :
    l ∈ s.fill vs b ↔ l ∈ s ∨ s.isAssigned l.var = false ∧ l.var ∈ vs ∧ l.positive = b := by
  induction vs generalizing s with
  | nil => simp [fill]
  | cons w vs ih =>
      have hstep : s.fill (w :: vs) b =
          (if s.isAssigned w then s else s.assign ⟨w, b⟩).fill vs b := rfl
      rw [hstep, ih]
      cases hw : s.isAssigned w with
      | true =>
          rw [if_pos rfl]
          refine or_congr_right (and_congr_right fun hl => and_congr_left fun _ => ?_)
          rw [List.mem_cons]
          refine ⟨.inr, fun h => h.resolve_left ?_⟩
          rintro rfl
          rw [hw] at hl
          cases hl
      | false =>
          rw [if_neg Bool.false_ne_true]
          have hnew : ∀ m : Literal, m.var = w → m ∉ s := fun m hm =>
            not_mem_of_isAssigned (hm ▸ hw)
          by_cases hlw : l.var = w
          · -- the variable that just got its value: later ones do not change it
            have hassigned : (s.assign ⟨w, b⟩).isAssigned l.var = true :=
              isAssigned_assign.mpr (.inl hlw)
            have hl := hnew l hlw
            obtain ⟨lv, lb⟩ := l
            subst hlw
            simp [hassigned, hl, hw, mem_assign]
          · have hassigned : (s.assign ⟨w, b⟩).isAssigned l.var = s.isAssigned l.var := by
              rw [Bool.eq_iff_iff, isAssigned_assign, or_iff_right hlw]
            have hl : l ∈ s.assign ⟨w, b⟩ ↔ l ∈ s := by
              rw [mem_assign]
              constructor
              · rintro (rfl | ⟨h, -⟩)
                · exact absurd rfl hlw
                · exact h
              · intro h
                refine .inr ⟨h, ?_⟩
                rintro rfl
                exact hlw rfl
            rw [hl, hassigned, List.mem_cons, or_iff_right hlw]

theorem subset_fill (s : Assignment) (vs : List Var) (b : Bool) : s ⊆ s.fill vs b :=
  fun _ h => mem_fill.mpr (.inl h)

theorem isAssigned_fill {vs : List Var} {b : Bool} :
    (s.fill vs b).isAssigned v = true ↔ s.isAssigned v = true ∨ v ∈ vs := by
  constructor
  · intro h
    obtain ⟨l, hl, rfl⟩ := isAssigned_iff.mp h
    rcases mem_fill.mp hl with hl | ⟨-, hl, -⟩
    · exact .inl (isAssigned_of_mem hl)
    · exact .inr hl
  · rintro (h | h)
    · exact isAssigned_mono (subset_fill s vs b) h
    · cases hv : s.isAssigned v with
      | true => exact isAssigned_mono (subset_fill s vs b) hv
      | false =>
          have hl : (⟨v, b⟩ : Literal) ∈ s.fill vs b := mem_fill.mpr (.inr ⟨hv, h, rfl⟩)
          exact isAssigned_of_mem hl

end Assignment

theorem Literal.eval_eq_true {l : Literal} {s : Assignment} : l.eval s = some true ↔ l ∈ s := by
  obtain ⟨v, p⟩ := l
  simp only [Literal.eval, Option.map_eq_some_iff, beq_iff_eq]
  constructor
  · rintro ⟨b, hb, rfl⟩
    exact Assignment.value?_eq_some.mp hb
  · intro h
    exact ⟨p, Assignment.value?_eq_some.mpr h, rfl⟩

theorem Literal.eval_eq_false {l : Literal} {s : Assignment} :
    l.eval s = some false ↔ -l ∈ s := by
  obtain ⟨v, p⟩ := l
  simp only [Literal.eval, Option.map_eq_some_iff, beq_eq_false_iff_ne]
  constructor
  · rintro ⟨b, hb, hne⟩
    rw [Bool.eq_not_of_ne hne] at hb
    exact Assignment.value?_eq_some.mp hb
  · intro h
    exact ⟨!p, Assignment.value?_eq_some.mpr h, by simp⟩

/-! ### Clauses -/

namespace Clause

variable {c : Clause} {s t : Assignment}

theorem eval_eq_true : c.eval s = some true ↔ ∃ l ∈ c, l ∈ s := by
  have h : c.eval s = some true ↔ (c.toList.any fun l => l.eval s == some true) = true := by
    unfold eval
    split <;> simp_all
  rw [h, List.any_eq_true]
  simp only [mem_toList, beq_iff_eq, Literal.eval_eq_true]

theorem eval_eq_false : c.eval s = some false ↔ ∀ l ∈ c, -l ∈ s := by
  have hall : (c.toList.all fun l => l.eval s == some false) = true ↔ ∀ l ∈ c, -l ∈ s := by
    rw [List.all_eq_true]
    simp only [mem_toList, beq_iff_eq, Literal.eval_eq_false]
  constructor
  · intro h
    unfold eval at h
    split at h
    · cases h
    · split at h
      · next hf => exact hall.mp hf
      · cases h
  · intro h
    have hnot : c.eval s ≠ some true := by
      rw [ne_eq, eval_eq_true]
      rintro ⟨l, hl, hls⟩
      exact Assignment.neg_not_mem hls (h l hl)
    unfold eval at hnot ⊢
    split
    · next ht => rw [if_pos ht] at hnot; exact absurd rfl hnot
    · rw [if_pos (hall.mpr h)]

theorem isSatisfiedBy_iff : c.isSatisfiedBy s = true ↔ ∃ l ∈ c, l ∈ s := by
  rw [isSatisfiedBy, beq_iff_eq, eval_eq_true]

theorem isSatisfiedBy_mono (hst : s ⊆ t) (h : c.isSatisfiedBy s = true) :
    c.isSatisfiedBy t = true := by
  obtain ⟨l, hl, hls⟩ := isSatisfiedBy_iff.mp h
  exact isSatisfiedBy_iff.mpr ⟨l, hl, hst l hls⟩

/-- A clause without an open literal is satisfied or false. -/
theorem isSatisfiedBy_or_eval_eq_false (h : ∀ l ∈ c, s.isAssigned l.var = true) :
    c.isSatisfiedBy s = true ∨ c.eval s = some false := by
  by_cases hsat : ∃ l ∈ c, l ∈ s
  · exact .inl (isSatisfiedBy_iff.mpr hsat)
  · right
    refine eval_eq_false.mpr fun l hl => ?_
    exact (Assignment.mem_or_neg_mem_of_isAssigned (h l hl)).resolve_left fun hls =>
      hsat ⟨l, hl, hls⟩

/-- No tautology is false. -/
theorem eval_ne_false_of_isTautology (h : c.isTautology = true) : c.eval s ≠ some false := by
  intro hfalse
  obtain ⟨l, hl, hneg⟩ := isTautology_iff.mp h
  have h₁ := eval_eq_false.mp hfalse l hl
  have h₂ := eval_eq_false.mp hfalse (-l) hneg
  exact Assignment.neg_not_mem h₁ h₂

theorem mem_iff_of_unit? {l m : Literal} (h : c.unit? = some l) : m ∈ c ↔ m = l := by
  rw [← mem_toList, unit?_eq_some.mp h, List.mem_singleton]

@[simp]
theorem unit?_unit (l : Literal) : (unit l).unit? = some l := rfl

theorem eq_unit_of_unit? {l : Literal} (h : c.unit? = some l) : c = unit l :=
  ext fun _ => (mem_iff_of_unit? h).trans mem_unit.symm

@[simp]
theorem unit_ne_empty (l : Literal) : unit l ≠ ∅ := by
  intro h
  apply not_mem_empty l
  rw [← h]
  exact mem_unit.mpr rfl

/-- A clause that holds at most one literal is empty or a unit. -/
theorem eq_empty_or_eq_unit {l : Literal} (h : ∀ m ∈ c, m = l) : c = ∅ ∨ c = unit l := by
  by_cases hl : l ∈ c
  · right
    refine ext fun m => ⟨fun hm => mem_unit.mpr (h m hm), fun hm => ?_⟩
    rw [mem_unit.mp hm]
    exact hl
  · left
    refine ext fun m => iff_of_false (fun hm => hl ?_) (not_mem_empty m)
    rw [← h m hm]
    exact hm

theorem size_of_unit? {l : Literal} (h : c.unit? = some l) : c.size = 1 := by
  unfold size
  rw [unit?_eq_some.mp h, List.length_singleton]

@[simp]
theorem size_empty : (∅ : Clause).size = 0 := rfl

@[simp]
theorem size_unit (l : Literal) : (unit l).size = 1 := rfl

theorem two_le_size (hempty : c.isEmpty = false) (hunit : c.unit? = none) :
    2 ≤ c.size := by
  unfold isEmpty at hempty
  unfold unit? at hunit
  unfold size
  match hlist : c.toList with
  | [] => simp [hlist] at hempty
  | [l] => simp [hlist] at hunit
  | l :: m :: ls => simp

end Clause

/-! ### Formulas -/

namespace Formula

variable {F : Formula} {s t : Assignment}

theorem isSatisfiedBy_iff : F.isSatisfiedBy s = true ↔ ∀ c ∈ F, c.isSatisfiedBy s = true := by
  rw [isSatisfiedBy, beq_iff_eq]
  have hall : (F.clauses.all fun c => c.eval s == some true) = true ↔
      ∀ c ∈ F, c.isSatisfiedBy s = true := List.all_eq_true
  rw [← hall]
  unfold eval
  split
  · next hany =>
      obtain ⟨c, hc, hf⟩ := List.any_eq_true.mp hany
      refine iff_of_false nofun fun h => ?_
      have ht := List.all_eq_true.mp h c hc
      rw [beq_iff_eq] at hf ht
      rw [hf] at ht
      cases ht
  · split <;> simp_all

theorem eval_eq_true : F.eval s = some true ↔ ∀ c ∈ F, c.eval s = some true := by
  simpa [isSatisfiedBy, Clause.isSatisfiedBy] using isSatisfiedBy_iff (F := F) (s := s)

theorem eval_eq_false : F.eval s = some false ↔ ∃ c ∈ F, c.eval s = some false := by
  have hany : (F.clauses.any fun c => c.eval s == some false) = true ↔
      ∃ c ∈ F, c.eval s = some false := by
    simp
  rw [← hany]
  unfold eval
  split
  · simp_all
  · split <;> simp_all

theorem isSatisfiedBy_mono (hst : s ⊆ t) (h : F.isSatisfiedBy s = true) :
    F.isSatisfiedBy t = true :=
  isSatisfiedBy_iff.mpr fun c hc => Clause.isSatisfiedBy_mono hst (isSatisfiedBy_iff.mp h c hc)

theorem hasEmptyClause_iff : F.hasEmptyClause = true ↔ ∃ c ∈ F, ∀ l, l ∉ c := by
  rw [hasEmptyClause, List.any_eq_true]
  simp only [mem_clauses, Clause.isEmpty_iff]

theorem hasEmptyClause_iff_mem : F.hasEmptyClause = true ↔ ∅ ∈ F := by
  rw [hasEmptyClause_iff]
  constructor
  · rintro ⟨c, hc, hno⟩
    rwa [Clause.ext fun l => iff_of_false (hno l) (Clause.not_mem_empty l)] at hc
  · exact fun h => ⟨∅, h, Clause.not_mem_empty⟩

theorem not_isSatisfiedBy_of_hasEmptyClause (h : F.hasEmptyClause = true) :
    ¬ F.isSatisfiedBy s = true := by
  intro hsat
  obtain ⟨c, hc, hempty⟩ := hasEmptyClause_iff.mp h
  obtain ⟨l, hl, -⟩ := Clause.isSatisfiedBy_iff.mp (isSatisfiedBy_iff.mp hsat c hc)
  exact hempty l hl

theorem eq_empty_of_isEmpty (h : F.isEmpty = true) : F = ∅ := by
  obtain ⟨cs⟩ := F
  rw [isEmpty, List.isEmpty_iff] at h
  exact congrArg Formula.mk h

theorem isSatisfiedBy_empty (s : Assignment) : (∅ : Formula).isSatisfiedBy s = true :=
  isSatisfiedBy_iff.mpr fun _ hc => absurd hc List.not_mem_nil

/-- A formula with clauses, none of them empty, has a literal. -/
theorem exists_mem_clause (hF : ¬ F.isEmpty = true) (h : F.hasEmptyClause = false) :
    ∃ c ∈ F, ∃ l, l ∈ c := by
  rw [isEmpty, List.isEmpty_iff] at hF
  obtain ⟨c, hc⟩ := List.exists_mem_of_ne_nil _ hF
  refine ⟨c, hc, ?_⟩
  by_cases hl : ∃ l, l ∈ c
  · exact hl
  · rw [Bool.eq_false_iff, ne_eq, hasEmptyClause_iff] at h
    exact absurd ⟨c, hc, fun l hlc => hl ⟨l, hlc⟩⟩ h

/-- Some assignment satisfies the formula. -/
def Satisfiable (F : Formula) : Prop := ∃ s : Assignment, F.isSatisfiedBy s = true

/-- An assignment of exactly the variables of a formula that satisfies it. -/
structure IsModel (F : Formula) (m : Assignment) : Prop where
  isAssigned_iff : ∀ v, m.isAssigned v = true ↔ v ∈ F.vars
  isSatisfiedBy : F.isSatisfiedBy m = true

/-- The answer of a search that decides `F`: the right one, and a model where there is one. -/
structure Decided (F : Formula) (r : Except Fault Verdict) : Prop where
  unsat_iff : r = .ok .unsat ↔ ¬ F.Satisfiable
  ne_unknown : r ≠ .ok .unknown
  model : F.Satisfiable → ∃ m, r = .ok (.sat m) ∧ F.IsModel m

theorem IsModel.satisfiable {m : Assignment} (h : F.IsModel m) : F.Satisfiable :=
  ⟨m, h.isSatisfiedBy⟩

theorem IsModel.decided {m : Assignment} (h : F.IsModel m) : F.Decided (.ok (.sat m)) :=
  ⟨iff_of_false nofun (not_not_intro h.satisfiable), nofun, fun _ => ⟨m, rfl, h⟩⟩

theorem decided_unsat (h : ¬ F.Satisfiable) : F.Decided (.ok .unsat) :=
  ⟨iff_of_true rfl h, nofun, fun hsat => absurd hsat h⟩

theorem Decided.exists_verdict {r : Except Fault Verdict} (h : F.Decided r) : ∃ v, r = .ok v := by
  by_cases hsat : F.Satisfiable
  · obtain ⟨m, hm, -⟩ := h.model hsat
    exact ⟨.sat m, hm⟩
  · exact ⟨.unsat, h.unsat_iff.mpr hsat⟩

theorem not_satisfiable (h : ∀ u, ∅ ⊆ u → ¬ F.isSatisfiedBy u = true) : ¬ F.Satisfiable :=
  fun ⟨u, hu⟩ => h u (Assignment.empty_subset u) hu

end Formula

end Clausal
