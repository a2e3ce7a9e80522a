import Clausal.Proofs.Resolution

/-! # Resolvents and clashes

Two clauses clash on the variables that they hold with opposite signs, and these are the variables
that they can be resolved on.  Clashing has no direction and neither has resolving: where both
clauses hold both signs, the resolvents of the two directions agree (`resolventOn_comm`).

Literals are listed by variable, so the first literal of one clause whose complement is in the
other has the first variable of all clashes (`firstClash_of_pivot?`), whichever clause is looked
through.  A second clash stays in the resolvent with both its literals (`eq_of_clashOn`).  The main
statement is `resolvent_of_clash`. -/

namespace Clausal

namespace Clause

variable {c d r : Clause} {l : Literal} {v w : Var}

/-! ### Clashes -/

/-- The clauses hold `v` with opposite signs. -/
def ClashOn (c d : Clause) (v : Var) : Prop :=
  .pos v ∈ c ∧ .neg v ∈ d ∨ .neg v ∈ c ∧ .pos v ∈ d

/-- `v` is the first of the variables that the clauses clash on. -/
structure FirstClash (c d : Clause) (v : Var) : Prop where
  clash : ClashOn c d v
  le : ∀ w, ClashOn c d w → v.index ≤ w.index

theorem ClashOn.symm (h : ClashOn c d v) : ClashOn d c v := by
  unfold ClashOn at h ⊢
  tauto

theorem clashOn_iff : ClashOn c d v ↔ ∃ l ∈ c, -l ∈ d ∧ l.var = v := by
  constructor
  · rintro (⟨hp, hn⟩ | ⟨hn, hp⟩)
    · exact ⟨.pos v, hp, hn, rfl⟩
    · exact ⟨.neg v, hn, hp, rfl⟩
  · rintro ⟨⟨v, b⟩, hl, hneg, rfl⟩
    cases b with
    | true => exact .inl ⟨hl, hneg⟩
    | false => exact .inr ⟨hl, hneg⟩

theorem FirstClash.symm (h : FirstClash c d v) : FirstClash d c v :=
  ⟨h.clash.symm, fun w hw => h.le w hw.symm⟩

theorem FirstClash.eq (hv : FirstClash c d v) (hw : FirstClash c d w) : v = w :=
  Var.index_inj.mp (Nat.le_antisymm (hv.le w hw.clash) (hw.le v hv.clash))

/-! ### Resolving on a variable -/

/-- If each clause holds both literals of `v`, the resolvent has them both. -/
theorem resolventOn_comm (hpc : .pos v ∈ c) (hnc : .neg v ∈ c) (hpd : .pos v ∈ d)
    (hnd : .neg v ∈ d) : resolventOn v c d = resolventOn v d c := by
  refine ext fun l => ?_
  rw [mem_resolventOn, mem_resolventOn]
  have hne : Literal.pos v ≠ .neg v := Literal.ne_neg_self (.pos v)
  by_cases hp : l = .pos v
  · subst hp
    simp [hpc, hpd, hne]
  · by_cases hn : l = .neg v
    · subst hn
      simp [hnc, hnd, hp]
    · simp [hp, hn, or_comm]

theorem resolveOn_of_pos (hp : .pos v ∈ c) (hn : .neg v ∈ d) :
    c.resolveOn d v = .ok (resolventOn v c d) := if_pos ⟨hp, hn⟩

theorem resolveOn_of_neg (hn : .neg v ∈ c) (hp : .pos v ∈ d) :
    c.resolveOn d v = .ok (resolventOn v d c) := by
  by_cases h : .pos v ∈ c ∧ .neg v ∈ d
  · rw [resolveOn_of_pos h.1 h.2, resolventOn_comm h.1 hn hp h.2]
  · rw [resolveOn, if_neg h, if_pos ⟨hn, hp⟩]

theorem ClashOn.resolveOn_comm (h : ClashOn c d v) : c.resolveOn d v = d.resolveOn c v := by
  rcases h with ⟨hp, hn⟩ | ⟨hn, hp⟩
  · rw [resolveOn_of_pos hp hn, resolveOn_of_neg hn hp]
  · rw [resolveOn_of_neg hn hp, resolveOn_of_pos hp hn]

theorem resolveOn_eq_ok_iff : c.resolveOn d v = .ok r ↔
    .pos v ∈ c ∧ .neg v ∈ d ∧ r = resolventOn v c d ∨
      .neg v ∈ c ∧ .pos v ∈ d ∧ r = resolventOn v d c := by
  constructor
  · intro h
    unfold resolveOn at h
    split at h
    · next hmem => exact .inl ⟨hmem.1, hmem.2, (Except.ok.inj h).symm⟩
    · split at h
      · next hmem => exact .inr ⟨hmem.1, hmem.2, (Except.ok.inj h).symm⟩
      · cases h
  · rintro (⟨hp, hn, rfl⟩ | ⟨hn, hp, rfl⟩)
    · exact resolveOn_of_pos hp hn
    · exact resolveOn_of_neg hn hp

theorem exists_resolveOn_iff : (∃ r, c.resolveOn d v = .ok r) ↔ ClashOn c d v := by
  simp only [resolveOn_eq_ok_iff, ClashOn]
  constructor
  · rintro ⟨r, ⟨hp, hn, -⟩ | ⟨hn, hp, -⟩⟩
    · exact .inl ⟨hp, hn⟩
    · exact .inr ⟨hn, hp⟩
  · rintro (⟨hp, hn⟩ | ⟨hn, hp⟩)
    · exact ⟨_, .inl ⟨hp, hn, rfl⟩⟩
    · exact ⟨_, .inr ⟨hn, hp, rfl⟩⟩

theorem isSatisfiedBy_of_resolveOn {s : Assignment} (h : c.resolveOn d v = .ok r)
    (hc : c.isSatisfiedBy s = true) (hd : d.isSatisfiedBy s = true) :
    r.isSatisfiedBy s = true := by
  rcases resolveOn_eq_ok_iff.mp h with ⟨-, -, rfl⟩ | ⟨-, -, rfl⟩
  · exact isSatisfiedBy_resolventOn hc hd
  · exact isSatisfiedBy_resolventOn hd hc

/-! ### Resolving on the first clash -/

theorem firstClash_of_pivot? (h : c.pivot? d = some l) : FirstClash c d l.var := by
  obtain ⟨hneg, before, after, hlist, hbefore⟩ := List.find?_eq_some_iff_append.mp h
  have hl : l ∈ c := List.mem_of_find?_eq_some h
  refine ⟨clashOn_iff.mpr ⟨l, hl, of_decide_eq_true hneg, rfl⟩, fun w hw => ?_⟩
  obtain ⟨m, hm, hmneg, rfl⟩ := clashOn_iff.mp hw
  rw [← mem_toList, hlist, List.mem_append, List.mem_cons] at hm
  rcases hm with hm | rfl | hm
  · have hno := hbefore m hm
    rw [decide_eq_true hmneg] at hno
    cases hno
  · exact Nat.le_refl _
  · have hinc : c.toList.Pairwise (fun a b => compare a b = .lt) := c.literals.increasing
    rw [hlist, List.pairwise_append, List.pairwise_cons] at hinc
    exact Literal.index_le_of_lt (hinc.2.1.1 m hm)

theorem pivot?_eq_none_iff : c.pivot? d = none ↔ ∀ v, ¬ ClashOn c d v := by
  unfold pivot?
  simp only [List.find?_eq_none, mem_toList, decide_eq_true_eq, clashOn_iff]
  constructor
  · rintro h v ⟨l, hl, hneg, -⟩
    exact h l hl hneg
  · intro h l hl hneg
    exact h l.var ⟨l, hl, hneg, rfl⟩

theorem exists_firstClash (h : ClashOn c d v) : ∃ w, FirstClash c d w := by
  cases hpivot : c.pivot? d with
  | none => exact absurd h (pivot?_eq_none_iff.mp hpivot v)
  | some l => exact ⟨l.var, firstClash_of_pivot? hpivot⟩

theorem FirstClash.resolve_eq (h : FirstClash c d v) : c.resolve d = c.resolveOn d v := by
  unfold resolve
  cases hpivot : c.pivot? d with
  | none => exact absurd h.clash (pivot?_eq_none_iff.mp hpivot v)
  | some l =>
      show c.resolveOn d l.var = _
      rw [(firstClash_of_pivot? hpivot).eq h]

theorem resolve_of_no_clash (h : ∀ v, ¬ ClashOn c d v) : c.resolve d = .error .noClash := by
  unfold resolve
  rw [pivot?_eq_none_iff.mpr h]

/-- It makes no difference which clause is looked through for the variable to resolve on. -/
theorem resolve_comm (c d : Clause) : c.resolve d = d.resolve c := by
  by_cases h : ∃ v, ClashOn c d v
  · obtain ⟨v, hv⟩ := h
    obtain ⟨w, hw⟩ := exists_firstClash hv
    rw [hw.resolve_eq, hw.symm.resolve_eq, hw.clash.resolveOn_comm]
  · have hno : ∀ v, ¬ ClashOn c d v := fun v hv => h ⟨v, hv⟩
    rw [resolve_of_no_clash hno, resolve_of_no_clash fun v hv => hno v hv.symm]

theorem exists_firstClash_of_resolve (h : c.resolve d = .ok r) :
    ∃ v, FirstClash c d v ∧ c.resolveOn d v = .ok r := by
  by_cases hno : ∀ v, ¬ ClashOn c d v
  · rw [resolve_of_no_clash hno] at h
    cases h
  · push Not at hno
    obtain ⟨v, hv⟩ := hno
    obtain ⟨w, hw⟩ := exists_firstClash hv
    exact ⟨w, hw, hw.resolve_eq ▸ h⟩

theorem exists_resolve_iff : (∃ r, c.resolve d = .ok r) ↔ ∃ v, ClashOn c d v := by
  constructor
  · rintro ⟨r, h⟩
    obtain ⟨v, hv, -⟩ := exists_firstClash_of_resolve h
    exact ⟨v, hv.clash⟩
  · rintro ⟨v, hv⟩
    obtain ⟨w, hw⟩ := exists_firstClash hv
    rw [hw.resolve_eq]
    exact exists_resolveOn_iff.mpr hw.clash

theorem eq_resolventOn_of_resolve (h : c.resolve d = .ok r) :
    ∃ v, .pos v ∈ c ∧ .neg v ∈ d ∧ r = resolventOn v c d ∨
      .neg v ∈ c ∧ .pos v ∈ d ∧ r = resolventOn v d c := by
  obtain ⟨v, -, hr⟩ := exists_firstClash_of_resolve h
  exact ⟨v, resolveOn_eq_ok_iff.mp hr⟩

/-! ### Other clashes -/

/-- A resolvent that says something leaves no other clash of its two clauses. -/
theorem eq_of_clashOn (hr : (resolventOn v c d).isTautology = false) (hw : ClashOn c d w) :
    w = v := by
  obtain ⟨l, hl, hneg, rfl⟩ := clashOn_iff.mp hw
  by_contra hv
  have hmem : l ∈ resolventOn v c d := by
    refine mem_resolventOn.mpr (.inl ⟨hl, ?_⟩)
    rintro rfl
    exact hv rfl
  refine neg_not_mem_of_not_isTautology hr hmem (mem_resolventOn.mpr (.inr ⟨hneg, ?_⟩))
  intro heq
  exact hv (congrArg Literal.var heq)

theorem resolve_eq_resolventOn (hp : .pos v ∈ c) (hn : .neg v ∈ d)
    (hr : (resolventOn v c d).isTautology = false) : c.resolve d = .ok (resolventOn v c d) := by
  obtain ⟨w, hw⟩ := exists_firstClash (.inl ⟨hp, hn⟩)
  rw [hw.resolve_eq, eq_of_clashOn hr hw.clash, resolveOn_of_pos hp hn]

/-- Of clauses that say something and clash on `v` alone, the resolvent has the literals of the
other variables and says something, too. -/
theorem resolventOn_of_single_clash (hc : c.isTautology = false) (hd : d.isTautology = false)
    (hp : .pos v ∈ c) (hn : .neg v ∈ d) (hv : ∀ w, ClashOn c d w → w = v) :
    (resolventOn v c d).isTautology = false ∧
      ∀ l, l ∈ resolventOn v c d ↔ (l ∈ c ∨ l ∈ d) ∧ l.var ≠ v := by
  have hmem : ∀ l, l ∈ resolventOn v c d ↔ (l ∈ c ∨ l ∈ d) ∧ l.var ≠ v := by
    intro l
    constructor
    · intro hl
      exact ⟨(mem_resolventOn.mp hl).imp And.left And.left,
        Formula.var_ne_of_mem_resolventOn hc hd hp hn hl⟩
    · rintro ⟨hl, hne⟩
      refine mem_resolventOn.mpr (hl.imp (⟨·, ?_⟩) (⟨·, ?_⟩)) <;>
        · rintro rfl
          exact hne rfl
  refine ⟨Bool.eq_false_iff.mpr fun htaut => ?_, hmem⟩
  obtain ⟨l, hl, hneg⟩ := isTautology_iff.mp htaut
  obtain ⟨hl, hne⟩ := (hmem l).mp hl
  obtain ⟨hneg, -⟩ := (hmem (-l)).mp hneg
  -- within one clause the two literals are a tautology, across the clauses another clash
  rcases hl with hl | hl <;> rcases hneg with hneg | hneg
  · exact neg_not_mem_of_not_isTautology hc hl hneg
  · exact hne (hv l.var (clashOn_iff.mpr ⟨l, hl, hneg, rfl⟩))
  · exact hne (hv l.var (ClashOn.symm (clashOn_iff.mpr ⟨l, hl, hneg, rfl⟩)))
  · exact neg_not_mem_of_not_isTautology hd hl hneg

/-- Clauses can be resolved exactly on the variables that they clash on, in either order and with
the same resolvent, which follows from them.  Left to itself, resolution takes the first of these
variables, in either order again.  With a second clash the resolvent is a tautology; if there is
none and neither clause is a tautology, the resolvent is none either and has just the literals of
the other variables. -/
theorem resolvent_of_clash (c d : Clause) :
    (∀ v, ((∃ r, c.resolveOn d v = .ok r) ↔ ClashOn c d v) ∧
      ∀ r, c.resolveOn d v = .ok r → d.resolveOn c v = .ok r ∧
        ∀ s, c.isSatisfiedBy s = true → d.isSatisfiedBy s = true → r.isSatisfiedBy s = true) ∧
    ((∃ r, c.resolve d = .ok r) ↔ ∃ v, ClashOn c d v) ∧
    ∀ r, c.resolve d = .ok r →
      d.resolve c = .ok r ∧
      (∃ v, FirstClash c d v ∧ c.resolveOn d v = .ok r) ∧
      (∀ v w, v ≠ w → ClashOn c d v → ClashOn c d w → r.isTautology = true) ∧
      (∀ v, (∀ w, ClashOn c d w ↔ w = v) → c.isTautology = false → d.isTautology = false →
        r.isTautology = false ∧ ∀ l, l ∈ r ↔ (l ∈ c ∨ l ∈ d) ∧ l.var ≠ v) := by
  refine ⟨fun v => ⟨exists_resolveOn_iff, fun r hr => ⟨?_, ?_⟩⟩, exists_resolve_iff, ?_⟩
  · rw [← (exists_resolveOn_iff.mp ⟨r, hr⟩).resolveOn_comm]
    exact hr
  · exact fun s hc hd => isSatisfiedBy_of_resolveOn hr hc hd
  · intro r hr
    refine ⟨by rw [resolve_comm, hr], exists_firstClash_of_resolve hr, ?_, ?_⟩
    · intro v w hne hv hw
      by_contra htaut
      rw [Bool.not_eq_true] at htaut
      obtain ⟨u, ⟨-, -, rfl⟩ | ⟨-, -, rfl⟩⟩ := eq_resolventOn_of_resolve hr
      · exact hne ((eq_of_clashOn htaut hv).trans (eq_of_clashOn htaut hw).symm)
      · exact hne ((eq_of_clashOn htaut hv.symm).trans (eq_of_clashOn htaut hw.symm).symm)
    · intro v hv hc hd
      obtain ⟨u, ⟨hp, hn, rfl⟩ | ⟨hn, hp, rfl⟩⟩ := eq_resolventOn_of_resolve hr
      · obtain rfl : u = v := (hv u).mp (.inl ⟨hp, hn⟩)
        exact resolventOn_of_single_clash hc hd hp hn fun w hw => (hv w).mp hw
      · obtain rfl : u = v := (hv u).mp (.inr ⟨hn, hp⟩)
        have h := resolventOn_of_single_clash hd hc hp hn fun w hw => (hv w).mp hw.symm
        refine ⟨h.1, fun l => ?_⟩
        rw [h.2, or_comm]

/-- From `x1 ∨ x2` and `¬x1 ∨ x3`, which clash on `x1` alone, follows `x2 ∨ x3`. -/
theorem resolvent_of_clash_of_two_clauses :
    let x₁ : Var := ⟨1, by decide⟩
    let x₂ : Var := ⟨2, by decide⟩
    let x₃ : Var := ⟨3, by decide⟩
    let c := ofList [.pos x₁, .pos x₂]
    let d := ofList [.neg x₁, .pos x₃]
    let r := ofList [.pos x₂, .pos x₃]
    (∀ w, ClashOn c d w ↔ w = x₁) ∧ c.isTautology = false ∧ d.isTautology = false ∧
      c.resolve d = .ok r ∧ d.resolve c = .ok r ∧ r.isTautology = false ∧
      ∀ l, l ∈ r ↔ (l ∈ c ∨ l ∈ d) ∧ l.var ≠ x₁ := by
  intro x₁ x₂ x₃ c d r
  have hclash : ∀ w, ClashOn c d w ↔ w = x₁ := by
    intro w
    simp +contextual [ClashOn, c, d, Literal.pos, Literal.neg, eq_comm]
  have hr : c.resolve d = .ok r := by decide
  have hc : c.isTautology = false := by decide
  have hd : d.isTautology = false := by decide
  obtain ⟨hrev, -, -, hsingle⟩ := (resolvent_of_clash c d).2.2 r hr
  obtain ⟨htaut, hmem⟩ := hsingle x₁ hclash hc hd
  exact ⟨hclash, hc, hd, hr, hrev, htaut, hmem⟩

end Clause

end Clausal
