import Clausal.Proofs.CaseSplitting
import Clausal.Proofs.ForcedLiterals
import Clausal.Proofs.Saturation
import Clausal.Proofs.VariableElimination

/-! # Verdicts do not depend on the order of the clauses

`F ≈ G` says that two formulas have the same clauses, in any order and any number of times.
Every operation on formulas keeps this relation, and what is read off a formula is the same on
both sides: its variables, its pure literals, what propagation makes true.  So two runs of a
search go side by side: case splitting by recursion along the search, and variable elimination
round by round, where the clauses removed with each variable are the same up to their order
(`SameEliminated`).  Saturation needs no second run, as its result is told by the derived clauses.

The main statement is `solve_eq_of_same_clauses`. -/

namespace Clausal

namespace Formula

variable {F G : Formula} {s : Assignment} {l : Literal} {v : Var} {ls : List Literal}

/-! ### Formulas with the same clauses -/

/-- Formulas are alike when they have the same clauses. -/
instance : HasEquiv Formula where
  Equiv F G := ∀ c, c ∈ F ↔ c ∈ G

theorem equiv_symm (h : F ≈ G) : G ≈ F := fun c => (h c).symm

theorem vars_congr (h : F ≈ G) : F.vars = G.vars := by
  refine SortedSet.ext fun v => ?_
  rw [mem_vars, mem_vars]
  simp only [h _]

theorem isEmpty_congr (h : F ≈ G) : F.isEmpty = G.isEmpty := by
  have hmono : ∀ {F G : Formula}, F ≈ G → G.isEmpty = true → F.isEmpty = true := by
    intro F G h hG
    rw [isEmpty, List.isEmpty_iff, List.eq_nil_iff_forall_not_mem] at hG ⊢
    exact fun c hc => hG c ((h c).mp hc)
  exact Bool.eq_iff_iff.mpr ⟨hmono (equiv_symm h), hmono h⟩

theorem hasEmptyClause_congr (h : F ≈ G) : F.hasEmptyClause = G.hasEmptyClause := by
  rw [Bool.eq_iff_iff, hasEmptyClause_iff_mem, hasEmptyClause_iff_mem]
  exact h ∅

theorem leastVar?_congr (h : F ≈ G) : F.leastVar? = G.leastVar? := by
  have hvars := vars_congr h
  cases hF : F.leastVar? with
  | none =>
      cases hG : G.leastVar? with
      | none => rfl
      | some w =>
          obtain ⟨v, hv, -⟩ := exists_leastVar? (hvars ▸ mem_vars_of_leastVar? hG)
          rw [hF] at hv
          cases hv
  | some v =>
      obtain ⟨w, hw, hwv⟩ := exists_leastVar? (hvars ▸ mem_vars_of_leastVar? hF)
      have hvw := index_le_of_leastVar? hF w (hvars ▸ mem_vars_of_leastVar? hw)
      rw [hw, Var.index_inj.mp (Nat.le_antisymm hvw hwv)]

/-- Two results are both formulas with the same clauses or both errors. -/
inductive Alike : Except Conflict Formula → Except Conflict Formula → Prop
  | error (e e' : Conflict) : Alike (.error e) (.error e')
  | ok {F G : Formula} (h : F ≈ G) : Alike (.ok F) (.ok G)

theorem condition_error_congr {e : Conflict} (h : F ≈ G) (he : F.condition l = .error e) :
    ∃ e', G.condition l = .error e' := by
  obtain ⟨hmem, hunit⟩ := unit?_of_condition_error he
  unfold condition
  split
  · exact ⟨_, rfl⟩
  · next hnone =>
      have hno := List.find?_eq_none.mp hnone _ ((h _).mp hmem)
      rw [hunit] at hno
      exact absurd (beq_self_eq_true (some (-l))) hno

theorem condition_congr (h : F ≈ G) (l : Literal) : Alike (F.condition l) (G.condition l) := by
  cases hF : F.condition l with
  | error e =>
      obtain ⟨e', he'⟩ := condition_error_congr h hF
      rw [he']
      exact .error e e'
  | ok F' =>
      cases hG : G.condition l with
      | error e =>
          obtain ⟨e', he'⟩ := condition_error_congr (equiv_symm h) hG
          rw [hF] at he'
          cases he'
      | ok G' =>
          refine .ok fun d => ?_
          rw [mem_condition hF, mem_condition hG]
          simp only [h _]

/-! ### Propagation and pure literals -/

theorem residue_congr (h : F ≈ G) (s : Assignment) : F.residue s ≈ G.residue s := by
  intro d
  rw [mem_residue, mem_residue]
  simp only [h _]

theorem forces_congr (h : F ≈ G) : Forces F s l ↔ Forces G s l :=
  ⟨.mono fun c hc => (h c).mp hc, .mono fun c hc => (h c).mpr hc⟩

theorem clashes_congr (h : F ≈ G) : Clashes F s ↔ Clashes G s := by
  unfold Clashes
  simp only [forces_congr h]

/-- Whichever units come first, propagation makes the same literals true. -/
theorem propagate_congr (h : F ≈ G) (s : Assignment) :
    (∃ e e', (F.propagate s).outcome = .error (.conflict e) ∧
      (G.propagate s).outcome = .error (.conflict e')) ∨
    ∃ F' G', (F.propagate s).outcome = .ok F' ∧ (G.propagate s).outcome = .ok G' ∧
      F' ≈ G' ∧ (F.propagate s).state = (G.propagate s).state := by
  have hF := propagate_closure F s
  have hG := propagate_closure G s
  generalize (F.propagate s).outcome = r, (F.propagate s).state = t at hF ⊢
  generalize (G.propagate s).outcome = r', (G.propagate s).state = t' at hG ⊢
  cases hF with
  | refuted hno =>
      cases hG with
      | refuted _ => exact .inl ⟨_, _, rfl, rfl⟩
      | finished hG ht' =>
          rw [h ∅, clashes_congr h] at hno
          exact absurd hno (not_or_intro hG (not_clashes ht'))
  | finished hF ht =>
      cases hG with
      | refuted hno =>
          rw [← h ∅, ← clashes_congr h] at hno
          exact absurd hno (not_or_intro hF (not_clashes ht))
      | finished hG ht' =>
          have htt' : t = t' := Assignment.ext fun l => by rw [ht, ht', forces_congr h]
          subst htt'
          exact .inr ⟨_, _, rfl, rfl, residue_congr h t, rfl⟩

theorem openLiterals_congr (h : F ≈ G) (s : Assignment) :
    SortedSet.ofTree (F.openLiterals s) = SortedSet.ofTree (G.openLiterals s) := by
  refine SortedSet.ext fun l => ?_
  rw [SortedSet.mem_ofTree, SortedSet.mem_ofTree, mem_openLiterals, mem_openLiterals]
  simp only [h _]

theorem pureLiterals_congr (h : F ≈ G) (s : Assignment) :
    F.pureLiterals s = G.pureLiterals s := by
  have hset := openLiterals_congr h s
  have hlist : (F.openLiterals s).toList = (G.openLiterals s).toList :=
    congrArg SortedSet.toList hset
  unfold pureLiterals
  dsimp only
  rw [hlist]
  refine List.filter_congr fun l _ => ?_
  rw [decide_eq_decide, ← SortedSet.mem_ofTree, hset, SortedSet.mem_ofTree]

theorem without_congr (h : F ≈ G) (ls : List Literal) : F.without ls ≈ G.without ls := by
  intro c
  rw [mem_without, mem_without, h c]

theorem eliminate_congr (h : F ≈ G) (v : Var) :
    (F.eliminate v).result ≈ (G.eliminate v).result ∧
      ∀ c, c ∈ (F.eliminate v).removed ↔ c ∈ (G.eliminate v).removed := by
  have hcandidates : ∀ c, c ∈ F.candidates v ↔ c ∈ G.candidates v := by
    intro c
    rw [mem_candidates, mem_candidates, h c]
  have hkept : ∀ c, c ∈ (F.eliminate v).kept ↔ c ∈ (G.eliminate v).kept := by
    intro c
    unfold eliminate
    rw [List.mem_filter, List.mem_filter, mem_clauses, mem_clauses, h c]
  refine ⟨fun c => ?_, fun c => by rw [mem_removed, mem_removed, h c]⟩
  unfold Elimination.result
  rw [mem_mk, mem_mk, List.mem_append, List.mem_append, hkept]
  refine or_congr_right ?_
  show c ∈ F.resolventsOn v ↔ c ∈ G.resolventsOn v
  rw [mem_resolventsOn, mem_resolventsOn]
  simp only [hcandidates]

end Formula

open Formula

/-! ### Case splitting -/

namespace CaseSplitting

theorem split_congr {F G : Formula} (h : F ≈ G) : (split F).result = (split G).result := by
  have hattempt : ∀ l : Literal, l.var ∈ F.vars →
      (attempt F l).result = (attempt G l).result := by
    intro l hl
    rw [result_attempt, result_attempt]
    have hcondition := condition_congr h l
    cases hF : F.condition l with
    | error e =>
        rw [hF] at hcondition
        generalize G.condition l = r at hcondition ⊢
        cases hcondition with
        | error _ e' => rfl
    | ok F' =>
        rw [hF] at hcondition
        generalize G.condition l = r at hcondition ⊢
        cases hcondition with
        | ok h' =>
            dsimp only
            rw [result_assigning, result_assigning, split_congr h']
  rw [result_split, result_split, ← hasEmptyClause_congr h, ← leastVar?_congr h]
  split
  · rfl
  cases hv : F.leastVar? with
  | none => rfl
  | some v =>
      have hmem := mem_vars_of_leastVar? hv
      dsimp only
      rw [Attempt.result_orElse, Attempt.result_orElse, hattempt (.pos v) hmem,
        hattempt (.neg v) hmem]
termination_by F.vars.size
decreasing_by exact size_vars_condition hF hl

theorem result_solve_congr {F G : Formula} (h : F ≈ G) : (solve F).result = (solve G).result := by
  have hfill : Verdict.ofAnswer F = Verdict.ofAnswer G := by
    funext a
    cases a with
    | none => rfl
    | some s => rw [Verdict.ofAnswer, Verdict.ofAnswer, vars_congr h]
  rw [result_solve, result_solve, split_congr h, hfill]

end CaseSplitting

/-! ### Saturation -/

namespace Saturation

theorem derived_congr {F G : Formula} (h : F ≈ G) {c : Clause} (hc : Derived F c) :
    Derived G c := by
  induction hc with
  | input hc htaut => exact .input ((h _).mp hc) htaut
  | resolvent _ _ hp hn htaut ihc ihd => exact .resolvent ihc ihd hp hn htaut

theorem saturate_congr {F G : Formula} (h : F ≈ G) :
    (saturate F).result = (saturate G).result := by
  have hderived : ∀ c, Derived F c ↔ Derived G c := fun c =>
    ⟨derived_congr h, derived_congr (equiv_symm h)⟩
  have hF := saturate_spec F
  have hG := saturate_spec G
  generalize (saturate F).result = r at hF ⊢
  generalize (saturate G).result = r' at hG ⊢
  cases hF with
  | refuted hempty =>
      cases hG with
      | refuted _ => rfl
      | closed hno _ => exact absurd ((hderived ∅).mp hempty) hno
  | closed hno hS =>
      cases hG with
      | refuted hempty => exact absurd ((hderived ∅).mpr hempty) hno
      | closed _ hS' =>
          refine congrArg some (SortedSet.ext fun c => ?_)
          rw [hS, hS', hderived]

theorem result_solve_congr {F G : Formula} (h : F ≈ G) : (solve F).result = (solve G).result := by
  rw [result_solve, result_solve, saturate_congr h, vars_congr h]

end Saturation

/-! ### Variable elimination -/

namespace VariableElimination

/-- The same variable was eliminated, and the removed clauses are the same up to their order. -/
structure SameEliminated (e e' : Eliminated) : Prop where
  var_eq : e.var = e'.var
  mem_removed_iff : ∀ c, c ∈ e.removed ↔ c ∈ e'.removed

/-- Positions that differ in the order of clauses only. -/
structure SamePosition (p q : Position) : Prop where
  formula : p.formula ≈ q.formula
  state_eq : p.state = q.state
  eliminated : List.Forall₂ SameEliminated p.eliminated q.eliminated

/-- Outcomes that differ in the order of clauses only, and in the clause that has become false. -/
inductive SameOutcome : Outcome → Outcome → Prop
  | conflict (e e' : Conflict) : SameOutcome (.conflict e) (.conflict e')
  | solved (s : Assignment) : SameOutcome (.solved s) (.solved s)
  | emptyClause : SameOutcome .emptyClause .emptyClause
  | noVariable (s : Assignment) : SameOutcome (.noVariable s) (.noVariable s)
  | eliminated {v : Var} {F G : Formula} {s : Assignment} (h : F ≈ G) :
      SameOutcome (.eliminated v (F.eliminate v) s) (.eliminated v (G.eliminate v) s)

theorem round_congr {p q : Position} (h : SamePosition p q) :
    SameOutcome (round p).outcome (round q).outcome := by
  unfold round
  dsimp only
  rw [← h.state_eq]
  rcases propagate_congr h.formula p.state with ⟨e, e', hp, hq⟩ | ⟨F, G, hp, hq, hFG, hstate⟩
  · rw [hp, hq]
    exact .conflict e e'
  rw [hp, hq, ← hstate]
  generalize (p.formula.propagate p.state).state = s
  dsimp only
  rw [purify_eq, purify_eq, ← isEmpty_congr hFG, ← pureLiterals_congr hFG]
  have hrest := without_congr hFG (F.pureLiterals s)
  split
  · exact .solved s
  dsimp only
  rw [← isEmpty_congr hrest, ← hasEmptyClause_congr hrest, ← leastVar?_congr hrest]
  split
  · exact .solved _
  split
  · exact .emptyClause
  split
  · exact .noVariable _
  · exact .eliminated hrest

theorem SamePosition.next {p q : Position} {F G : Formula} (h : SamePosition p q) (hFG : F ≈ G)
    (v : Var) (s : Assignment) :
    SamePosition (p.next v (F.eliminate v) s) (q.next v (G.eliminate v) s) where
  formula := (eliminate_congr hFG v).1
  state_eq := rfl
  eliminated := .cons ⟨rfl, (eliminate_congr hFG v).2⟩ h.eliminated

/-- Results of runs that differ in the order of the removed clauses only. -/
inductive SameResult : Except Fault (Option Finish) → Except Fault (Option Finish) → Prop
  | refuted : SameResult (.ok none) (.ok none)
  | finished {s : Assignment} {es es' : List Eliminated} (h : List.Forall₂ SameEliminated es es') :
      SameResult (.ok (some ⟨s, es⟩)) (.ok (some ⟨s, es'⟩))

theorem run_congr {p q : Position} (h : SamePosition p q) :
    SameResult (run p).result (run q).result := by
  have hround := round_congr h
  rw [result_run, result_run]
  generalize hp : (round p).outcome = o, (round q).outcome = o' at hround ⊢
  cases hround with
  | conflict e e' => exact .refuted
  | emptyClause => exact .refuted
  | solved s => exact .finished h.eliminated
  | noVariable s => exact .finished h.eliminated
  | @eliminated v F G s hFG => exact run_congr (h.next hFG v s)
termination_by p.formula.vars.size
decreasing_by exact size_vars_next hp

theorem restoreOne_congr {e e' : Eliminated} (h : SameEliminated e e') (s : Assignment) :
    restoreOne s e = restoreOne s e' := by
  have hall : ∀ f : Clause → Bool, e.removed.all f = e'.removed.all f := by
    intro f
    rw [Bool.eq_iff_iff, List.all_eq_true, List.all_eq_true]
    simp only [h.mem_removed_iff]
  unfold restoreOne
  rw [h.var_eq]
  simp only [hall]

theorem foldlM_restoreOne_congr {es es' : List Eliminated}
    (h : List.Forall₂ SameEliminated es es') (s : Assignment) :
    es.foldlM restoreOne s = es'.foldlM restoreOne s := by
  induction h generalizing s with
  | nil => rfl
  | cons he _ ih =>
      rw [List.foldlM_cons, List.foldlM_cons, restoreOne_congr he]
      simp only [ih]

theorem any_var_congr {es es' : List Eliminated} (h : List.Forall₂ SameEliminated es es')
    (v : Var) : es.any (fun e => decide (e.var = v)) = es'.any fun e => decide (e.var = v) := by
  induction h with
  | nil => rfl
  | cons he _ ih => rw [List.any_cons, List.any_cons, he.var_eq, ih]

theorem restore_congr {F G : Formula} {s : Assignment} {es es' : List Eliminated} (h : F ≈ G)
    (hes : List.Forall₂ SameEliminated es es') : restore F ⟨s, es⟩ = restore G ⟨s, es'⟩ := by
  unfold restore
  dsimp only
  simp only [any_var_congr hes]
  rw [vars_congr h, foldlM_restoreOne_congr hes]

theorem result_solve_congr {F G : Formula} (h : F ≈ G) : (solve F).result = (solve G).result := by
  have hrun := run_congr (p := ⟨F, ∅, []⟩) (q := ⟨G, ∅, []⟩) ⟨h, rfl, .nil⟩
  rw [result_solve, result_solve]
  generalize (run ⟨F, ∅, []⟩).result = r, (run ⟨G, ∅, []⟩).result = r' at hrun ⊢
  cases hrun with
  | refuted => rfl
  | finished hes =>
      dsimp only
      rw [restore_congr h hes]

end VariableElimination

/-- Formulas with the same clauses, in any order and any number of times, get the same verdict
from each of the three searches, with the same model where there is one. -/
theorem solve_eq_of_same_clauses {F G : Formula} (h : ∀ c, c ∈ F ↔ c ∈ G) :
    (VariableElimination.solve F).result = (VariableElimination.solve G).result ∧
    (Saturation.solve F).result = (Saturation.solve G).result ∧
    (CaseSplitting.solve F).result = (CaseSplitting.solve G).result :=
  ⟨VariableElimination.result_solve_congr h, Saturation.result_solve_congr h,
    CaseSplitting.result_solve_congr h⟩

/-- The hypothesis is met by two clauses and the same two the other way round, one of them twice. -/
theorem solve_eq_of_reversed_clauses :
    let c : Clause := .ofList [.pos ⟨1, Nat.one_pos⟩, .pos ⟨2, Nat.two_pos⟩]
    let d : Clause := .unit (.neg ⟨2, Nat.two_pos⟩)
    let F : Formula := ⟨[c, d]⟩
    let G : Formula := ⟨[d, c, d]⟩
    F ≠ G ∧ (∀ b, b ∈ F ↔ b ∈ G) ∧
      (VariableElimination.solve F).result = (VariableElimination.solve G).result ∧
      (Saturation.solve F).result = (Saturation.solve G).result ∧
      (CaseSplitting.solve F).result = (CaseSplitting.solve G).result := by
  intro c d F G
  have hsame : ∀ b, b ∈ F ↔ b ∈ G := by
    intro b
    show b ∈ [c, d] ↔ b ∈ [d, c, d]
    simp only [List.mem_cons, List.not_mem_nil, or_false]
    tauto
  exact ⟨by decide, hsame, solve_eq_of_same_clauses hsame⟩

end Clausal
