import Mathlib.Order.WellFounded
import Clausal.Proofs.LeastModel

/-! # Saturation decides every formula

`Derived F` are the clauses that follow from `F` by resolution when tautologies are left out.
Every stage of a saturation keeps the invariant `Stage.Invariant F`: the known clauses are the
processed ones and the frontier, they are derived, and no resolvent of two processed clauses is
missing.  A pass looks at every pair once and in one order only; `mem_pairs_of_mem` and the
symmetry of resolution make that enough (`Stage.Invariant.next`).

At the end nothing is left in the frontier, so that what is known are exactly the derived
clauses (`saturate_spec`).  The main statement is `modelOf_decides`: saturation decides every
formula, and its model is the least one in lexicographic order, with false before true. -/

namespace Clausal

/-- The clauses that follow from a formula by resolution, tautologies left out. -/
inductive Derived (F : Formula) : Clause → Prop
  | input {c : Clause} (hc : c ∈ F) (htaut : c.isTautology = false) : Derived F c
  | resolvent {c d : Clause} {v : Var} (hc : Derived F c) (hd : Derived F d) (hp : .pos v ∈ c)
      (hn : .neg v ∈ d) (htaut : (Clause.resolventOn v c d).isTautology = false) :
      Derived F (Clause.resolventOn v c d)

namespace Derived

variable {F : Formula} {s : Assignment} {c d r : Clause} {l : Literal}

theorem isTautology (h : Derived F c) : c.isTautology = false := by
  cases h <;> assumption

/-- A derived clause follows from the formula. -/
theorem isSatisfiedBy (h : Derived F c) (hF : F.isSatisfiedBy s = true) :
    c.isSatisfiedBy s = true := by
  induction h with
  | input hc _ => exact Formula.isSatisfiedBy_iff.mp hF _ hc
  | resolvent _ _ _ _ _ ihc ihd => exact Clause.isSatisfiedBy_resolventOn ihc ihd

theorem var_mem (h : Derived F c) (hl : l ∈ c) : l.var ∈ F.vars := by
  induction h with
  | input hc _ => exact Formula.mem_vars_of_mem hc hl
  | resolvent _ _ _ _ _ ihc ihd =>
      rcases Clause.mem_resolventOn.mp hl with hl | hl
      · exact ihc hl.1
      · exact ihd hl.1

theorem of_resolve (hc : Derived F c) (hd : Derived F d) (hr : c.resolve d = .ok r)
    (htaut : r.isTautology = false) : Derived F r := by
  obtain ⟨v, ⟨hp, hn, rfl⟩ | ⟨hn, hp, rfl⟩⟩ := Clause.eq_resolventOn_of_resolve hr
  · exact .resolvent hc hd hp hn htaut
  · exact .resolvent hd hc hp hn htaut

theorem not_isSatisfiedBy (h : Derived F ∅) : ¬ F.isSatisfiedBy s = true := by
  intro hF
  obtain ⟨l, hl, -⟩ := Clause.isSatisfiedBy_iff.mp (h.isSatisfiedBy hF)
  exact Clause.not_mem_empty l hl

end Derived

namespace Saturation

open Formula

variable {F : Formula} {U : List Literal} {c d r : Clause}

/-! ### Pairs -/

/-- Of two different clauses, not both processed, a pass looks at one of the two pairs. -/
theorem mem_pairs_of_mem {processed frontier : List Clause} (hc : c ∈ processed ++ frontier)
    (hd : d ∈ processed ++ frontier) :
    c ∈ processed ∧ d ∈ processed ∨ c = d ∨ (c, d) ∈ pairs processed frontier ∨
      (d, c) ∈ pairs processed frontier := by
  induction frontier with
  | nil =>
      rw [List.append_nil] at hc hd
      exact .inl ⟨hc, hd⟩
  | cons b cs ih =>
      have hsplit : ∀ x ∈ processed ++ b :: cs, x = b ∨ x ∈ processed ++ cs := by
        intro x hx
        simp only [List.mem_append, List.mem_cons] at hx ⊢
        tauto
      have hhead : ∀ x ∈ processed ++ cs, (b, x) ∈ pairs processed (b :: cs) := fun x hx =>
        List.mem_append_left _ (List.mem_map_of_mem hx)
      rcases hsplit c hc with rfl | hc'
      · rcases hsplit d hd with rfl | hd'
        · exact .inr (.inl rfl)
        · exact .inr (.inr (.inl (hhead d hd')))
      · rcases hsplit d hd with rfl | hd'
        · exact .inr (.inr (.inr (hhead c hc')))
        · have htail : ∀ p ∈ pairs processed cs, p ∈ pairs processed (b :: cs) := fun p hp =>
            List.mem_append_right _ hp
          rcases ih hc' hd' with h | h | h | h
          · exact .inl h
          · exact .inr (.inl h)
          · exact .inr (.inr (.inl (htail _ h)))
          · exact .inr (.inr (.inr (htail _ h)))

/-! ### Passes -/

/-- What a pass has found after it looked at the pairs `ps`. -/
structure Examined (F : Formula) (known : Std.TreeSet Clause) (ps : List (Clause × Clause))
    (k : Findings) : Prop where
  mem_known : ∀ c, c ∈ k.known ↔ c ∈ known ∨ c ∈ k.found
  derived : ∀ c ∈ k.found, Derived F c ∧ c ≠ ∅
  resolve_mem : ∀ p ∈ ps, ∀ r, p.1.resolve p.2 = .ok r → r.isTautology = true ∨ r ∈ k.known

/-- One more pair. -/
theorem Examined.append {known : Std.TreeSet Clause} {ps : List (Clause × Clause)}
    {k k' : Findings} {p : Clause × Clause} (hk : Examined F known ps k) (h₁ : Derived F p.1)
    (h₂ : Derived F p.2) (h : Examines p k (.ok k')) : Examined F known (ps ++ [p]) k' := by
  cases h with
  | unresolved he =>
      refine ⟨hk.mem_known, hk.derived, List.forall_mem_append.mpr ⟨hk.resolve_mem, ?_⟩⟩
      refine List.forall_mem_singleton.mpr fun r hr => ?_
      cases he.symm.trans hr
  | old hr hold =>
      refine ⟨hk.mem_known, hk.derived, List.forall_mem_append.mpr ⟨hk.resolve_mem, ?_⟩⟩
      refine List.forall_mem_singleton.mpr fun r' hr' => ?_
      cases hr.symm.trans hr'
      exact hold
  | new hr hne htaut hnew =>
      refine ⟨fun c => ?_, fun c hc => ?_, List.forall_mem_append.mpr ⟨fun q hq r' hr' => ?_, ?_⟩⟩
      · rw [mem_tree_insert, hk.mem_known, List.mem_cons, or_left_comm]
      · rcases List.mem_cons.mp hc with rfl | hc
        · exact ⟨h₁.of_resolve h₂ hr htaut, hne⟩
        · exact hk.derived c hc
      · exact (hk.resolve_mem q hq r' hr').imp_right fun h => mem_tree_insert.mpr (.inr h)
      · refine List.forall_mem_singleton.mpr fun r' hr' => ?_
        cases hr.symm.trans hr'
        exact .inr (mem_tree_insert.mpr (.inl rfl))

/-! ### Stages -/

/-- What every stage of the saturation of `F` keeps. -/
structure Stage.Invariant (F : Formula) (st : Stage U) : Prop where
  mem_known : ∀ c, c ∈ st.known ↔ c ∈ st.processed ++ st.frontier
  derived : ∀ c ∈ st.known, Derived F c ∧ c ≠ ∅
  input_mem : ∀ c ∈ F, c.isTautology = false → c ∈ st.known
  resolvent_mem : ∀ c ∈ st.processed, ∀ d ∈ st.processed, ∀ v, .pos v ∈ c → .neg v ∈ d →
    (Clause.resolventOn v c d).isTautology = false → Clause.resolventOn v c d ∈ st.known

theorem mem_known_start : c ∈ (start F).known ↔ c ∈ F ∧ c.isTautology = false := by
  unfold start
  dsimp only
  rw [Std.TreeSet.mem_ofList, List.contains_iff_mem, List.mem_filter, Bool.not_eq_true',
    mem_clauses]

theorem Stage.Invariant.start (h : F.hasEmptyClause = false) : (start F).Invariant F where
  mem_known c := by
    unfold Saturation.start
    dsimp only
    rw [List.nil_append, mem_distinct, Std.TreeSet.mem_ofList, List.contains_iff_mem]
  derived c hc := by
    obtain ⟨hcF, htaut⟩ := mem_known_start.mp hc
    refine ⟨.input hcF htaut, ?_⟩
    rintro rfl
    rw [hasEmptyClause_iff.mpr ⟨∅, hcF, Clause.not_mem_empty⟩] at h
    cases h
  input_mem c hc htaut := mem_known_start.mpr ⟨hc, htaut⟩
  resolvent_mem c hc := absurd hc List.not_mem_nil

variable {st : Stage U} {k : Findings}

theorem Stage.Invariant.derived_pairs (hst : st.Invariant F) {p : Clause × Clause}
    (hp : p ∈ pairs st.processed st.frontier) : Derived F p.1 ∧ Derived F p.2 := by
  obtain ⟨h₁, h₂⟩ := mem_of_mem_pairs hp
  exact ⟨(hst.derived _ ((hst.mem_known _).mpr h₁)).1, (hst.derived _ ((hst.mem_known _).mpr h₂)).1⟩

theorem Stage.Invariant.examined (hst : st.Invariant F) (h : pass st = .ok k) :
    Examined F st.known (pairs st.processed st.frontier) k := by
  rw [pass_eq] at h
  have hnone : Examined F st.known [] ⟨[], st.known⟩ :=
    ⟨fun c => (or_iff_left List.not_mem_nil).symm, fun c hc => absurd hc List.not_mem_nil,
      fun p hp => absurd hp List.not_mem_nil⟩
  refine examineAll_induction h hnone fun done p k₁ k₂ hp hex hk => ?_
  obtain ⟨h₁, h₂⟩ := hst.derived_pairs hp
  exact hk.append h₁ h₂ hex

/-- A pass keeps the invariant: each pair of clauses that are processed after it was looked at
before, or in this pass in one of the two orders. -/
theorem Stage.Invariant.next (hst : st.Invariant F) (h : pass st = .ok k) :
    (st.next k h).Invariant F := by
  have hk := hst.examined h
  have hderived : ∀ c ∈ k.known, Derived F c ∧ c ≠ ∅ := by
    intro c hc
    rcases (hk.mem_known c).mp hc with hc | hc
    · exact hst.derived c hc
    · exact hk.derived c hc
  refine ⟨fun c => ?_, hderived, fun c hc htaut => ?_, ?_⟩
  · show c ∈ k.known ↔ c ∈ (st.processed ++ st.frontier) ++ k.found.reverse
    rw [hk.mem_known, hst.mem_known, List.mem_append (t := k.found.reverse), List.mem_reverse]
  · exact (hk.mem_known c).mpr (.inl (hst.input_mem c hc htaut))
  · show ∀ c ∈ st.processed ++ st.frontier, ∀ d ∈ st.processed ++ st.frontier, _
    intro c hc d hd v hp hn htaut
    have hctaut := (hst.derived c ((hst.mem_known c).mpr hc)).1.isTautology
    rcases mem_pairs_of_mem hc hd with ⟨hc, hd⟩ | rfl | hpair | hpair
    · exact (hk.mem_known _).mpr (.inl (hst.resolvent_mem c hc d hd v hp hn htaut))
    · exact absurd hn (Clause.neg_not_mem_of_not_isTautology hctaut hp)
    · have hres := Clause.resolve_eq_resolventOn hp hn htaut
      refine (hk.resolve_mem _ hpair _ hres).resolve_left ?_
      rw [htaut]
      exact Bool.false_ne_true
    · have hres := Clause.resolve_eq_resolventOn hp hn htaut
      rw [Clause.resolve_comm] at hres
      refine (hk.resolve_mem _ hpair _ hres).resolve_left ?_
      rw [htaut]
      exact Bool.false_ne_true

theorem Stage.Invariant.derived_empty (hst : st.Invariant F) {q : Clause × Clause}
    (h : pass st = .error q) : Derived F ∅ := by
  rw [pass_eq] at h
  obtain ⟨hmem, hres⟩ := resolve_of_examineAll_error h
  obtain ⟨h₁, h₂⟩ := hst.derived_pairs hmem
  exact h₁.of_resolve h₂ hres rfl

/-- With nothing left in the frontier, all derived clauses are known. -/
theorem Stage.Invariant.mem_known_iff (hst : st.Invariant F) (h : st.frontier = []) :
    c ∈ st.known ↔ Derived F c := by
  refine ⟨fun hc => (hst.derived c hc).1, fun hc => ?_⟩
  have hprocessed : ∀ d, d ∈ st.known ↔ d ∈ st.processed := by
    intro d
    rw [hst.mem_known, h, List.append_nil]
  induction hc with
  | input hc htaut => exact hst.input_mem _ hc htaut
  | resolvent _ _ hp hn htaut ihc ihd =>
      exact hst.resolvent_mem _ ((hprocessed _).mp ihc) _ ((hprocessed _).mp ihd) _ hp hn htaut

/-! ### Runs -/

/-- The result of a saturation: the derived clauses, unless the empty clause is one of them. -/
inductive Saturates (F : Formula) : Option (SortedSet Clause) → Prop
  | refuted (h : Derived F ∅) : Saturates F none
  | closed {S : SortedSet Clause} (hempty : ¬ Derived F ∅) (hmem : ∀ c, c ∈ S ↔ Derived F c) :
      Saturates F (some S)

theorem Stage.Invariant.run {st : Stage U} (hst : st.Invariant F) :
    Saturates F (run st).result := by
  induction st using Stage.induction with
  | finished st hnil =>
      rw [run_of_nil hnil]
      refine .closed (fun hempty => ?_) fun c => ?_
      · exact (hst.derived ∅ ((hst.mem_known_iff hnil).mpr hempty)).2 rfl
      · rw [SortedSet.mem_ofTree]
        exact hst.mem_known_iff hnil
  | refuted st q hne h =>
      rw [run_of_error hne h]
      exact .refuted (hst.derived_empty h)
  | next st k hne h ih =>
      rw [run_of_ok hne h]
      exact ih (hst.next h)

theorem saturate_spec (F : Formula) : Saturates F (saturate F).result := by
  cases hempty : F.hasEmptyClause with
  | true =>
      rw [saturate_of_hasEmptyClause hempty]
      exact .refuted (.input (hasEmptyClause_iff_mem.mp hempty) rfl)
  | false =>
      rw [saturate_of_not_hasEmptyClause hempty]
      exact (Stage.Invariant.start hempty).run

/-! ### The verdict -/

/-- The derived clauses are closed, unless the empty clause is one of them. -/
theorem closed_of_mem_iff {S : SortedSet Clause} (hempty : ¬ Derived F ∅)
    (hmem : ∀ c, c ∈ S ↔ Derived F c) : Closed S where
  empty_not_mem h := hempty ((hmem ∅).mp h)
  resolve_mem c hc d hd r hr := by
    cases htaut : r.isTautology with
    | true => exact .inl rfl
    | false => exact .inr ((hmem r).mpr (((hmem c).mp hc).of_resolve ((hmem d).mp hd) hr htaut))

/-- The assignments first differ in a variable that is false in the first and true in the
second. -/
def LexBefore (s t : Assignment) : Prop :=
  ∃ v, (∀ w : Var, w.index < v.index → s.value? w = t.value? w) ∧
    s.value? v = some false ∧ t.value? v = some true

theorem exists_first_difference {s t : Assignment} (h : s ≠ t) :
    ∃ v, s.value? v ≠ t.value? v ∧ ∀ w : Var, w.index < v.index → s.value? w = t.value? w := by
  have hne : {v | s.value? v ≠ t.value? v}.Nonempty := by
    by_contra hno
    refine h (Assignment.ext fun l => ?_)
    have hl : s.value? l.var = t.value? l.var := by
      by_contra hl
      exact hno ⟨l.var, hl⟩
    obtain ⟨v, b⟩ := l
    rw [← Assignment.value?_eq_some, ← Assignment.value?_eq_some, hl]
  obtain ⟨v, hv, hmin⟩ := (measure Var.index).wf.has_min _ hne
  refine ⟨v, hv, fun w hw => ?_⟩
  by_contra hdiff
  exact hmin w hdiff hw

/-- A model whose true variables are all forced comes before all other models. -/
theorem lexBefore_of_forced {S : SortedSet Clause} {m m' : Assignment}
    (hS : ∀ c ∈ S, Derived F c) (hm : F.IsModel m) (hforced : ∀ v, .pos v ∈ m → Forced S m v)
    (hm' : F.IsModel m') (hne : m ≠ m') : LexBefore m m' := by
  obtain ⟨v, hv, hsame⟩ := exists_first_difference hne
  have hvF : v ∈ F.vars := by
    by_contra hvF
    have hfree : ∀ s : Assignment, F.IsModel s → s.value? v = none := by
      intro s hs
      rw [← hs.isAssigned_iff, Assignment.isAssigned, Option.not_isSome_iff_eq_none] at hvF
      exact hvF
    exact hv ((hfree m hm).trans (hfree m' hm').symm)
  obtain ⟨b, hb⟩ := Option.isSome_iff_exists.mp ((hm.isAssigned_iff v).mpr hvF)
  obtain ⟨b', hb'⟩ := Option.isSome_iff_exists.mp ((hm'.isAssigned_iff v).mpr hvF)
  refine ⟨v, hsame, ?_⟩
  rw [hb, hb'] at hv ⊢
  cases b with
  | false =>
      cases b' with
      | false => exact absurd rfl hv
      | true => exact ⟨rfl, rfl⟩
  | true =>
      -- the forcing clause is false in the second model as well
      obtain ⟨c, hc, hforce⟩ := hforced v (Assignment.value?_eq_some.mp hb)
      obtain ⟨l, hl, hlm'⟩ :=
        Clause.isSatisfiedBy_iff.mp ((hS c hc).isSatisfiedBy hm'.isSatisfiedBy)
      rcases hforce l hl with rfl | ⟨hlt, hneg⟩
      · have htrue : m'.value? v = some true := Assignment.value?_eq_some.mpr hlm'
        rw [hb'] at htrue
        exact absurd htrue.symm hv
      · have hvalue : m.value? l.var = some (!l.positive) := Assignment.value?_eq_some.mpr hneg
        rw [hsame l.var hlt] at hvalue
        exact absurd (Assignment.value?_eq_some.mp hvalue) (Assignment.neg_not_mem hlm')

/-- Values of all variables that make no derived clause false satisfy the formula. -/
theorem isSatisfiedBy_of_derived {m : Assignment} (hvars : ∀ v ∈ F.vars, m.isAssigned v = true)
    (hderived : ∀ c, Derived F c → c.eval m ≠ some false) : F.isSatisfiedBy m = true := by
  refine isSatisfiedBy_iff.mpr fun c hc => ?_
  refine (Clause.isSatisfiedBy_or_eval_eq_false fun l hl => ?_).resolve_right ?_
  · exact hvars l.var (mem_vars_of_mem hc hl)
  · cases htaut : c.isTautology with
    | true => exact Clause.eval_ne_false_of_isTautology htaut
    | false => exact hderived c (.input hc htaut)

/-- What is read off the derived clauses is a model, and the first one. -/
theorem exists_modelOf {S : SortedSet Clause} (hempty : ¬ Derived F ∅)
    (hmem : ∀ c, c ∈ S ↔ Derived F c) :
    ∃ m, modelOf S F.vars.toList = .ok m ∧ F.IsModel m ∧
      ∀ m', F.IsModel m' → m ≠ m' → LexBefore m m' := by
  have hS := closed_of_mem_iff hempty hmem
  have hvars : F.vars.toList.Pairwise fun v w => v.index < w.index :=
    F.vars.increasing.imp fun h => Var.compare_eq_lt.mp h
  obtain ⟨m, hm, hsettled⟩ := exists_settled hS hvars
  have hdomain : ∀ v, m.isAssigned v = true ↔ v ∈ F.vars := fun v => hsettled.isAssigned_iff_mem
  have hmodel : F.IsModel m := by
    refine ⟨hdomain, isSatisfiedBy_of_derived (fun v hv => (hdomain v).mpr hv) fun c hc => ?_⟩
    exact hsettled.eval_ne_false c ((hmem c).mpr hc)
  refine ⟨m, hm, hmodel, fun m' hm' hne => ?_⟩
  refine lexBefore_of_forced (fun c hc => (hmem c).mp hc) hmodel (fun v hv => ?_) hm' hne
  exact (hsettled.forced v hv).resolve_left (Assignment.not_mem_empty _)

theorem result_solve (F : Formula) : (solve F).result =
    match (saturate F).result with
    | some S => .sat <$> modelOf S F.vars.toList
    | none => .ok .unsat := by
  unfold solve
  refine (Traced.result_map _ _).trans ?_
  cases (saturate F).result with
  | none => rfl
  | some S => rfl

theorem decided_solve (F : Formula) : F.Decided (solve F).result := by
  have hsat := saturate_spec F
  rw [result_solve]
  generalize (saturate F).result = r at hsat
  cases hsat with
  | refuted hempty => exact decided_unsat fun ⟨_, hs⟩ => hempty.not_isSatisfiedBy hs
  | closed hempty hmem =>
      obtain ⟨m, hm, hmodel, -⟩ := exists_modelOf hempty hmem
      dsimp only
      rw [hm]
      exact hmodel.decided

theorem lexBefore_of_solve {m m' : Assignment} (h : (solve F).result = .ok (.sat m))
    (hm' : F.IsModel m') (hne : m ≠ m') : LexBefore m m' := by
  have hsat := saturate_spec F
  rw [result_solve] at h
  generalize (saturate F).result = r at h hsat
  cases hsat with
  | refuted hempty => cases h
  | closed hempty hmem =>
      obtain ⟨m₁, hm₁, -, hleast⟩ := exists_modelOf hempty hmem
      dsimp only at h
      rw [hm₁] at h
      cases h
      exact hleast m' hm' hne

/-- Saturation decides every formula, and answers with the first of its models. -/
theorem modelOf_decides (F : Formula) :
    F.Decided (solve F).result ∧
    ∀ m, (solve F).result = .ok (.sat m) → ∀ m', F.IsModel m' → m ≠ m' → LexBefore m m' := by
  exact ⟨decided_solve F, fun m hm m' => lexBefore_of_solve hm⟩

end Saturation

end Clausal
