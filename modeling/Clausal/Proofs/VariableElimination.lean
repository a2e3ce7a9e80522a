import Clausal.Proofs.PureLiterals
import Clausal.Proofs.Resolution
import Clausal.Search.VariableElimination

/-! # Variable elimination decides every formula

`Outcome.Sound p` says what the outcome of a round has to do with the position `p` that it
started from; `sound_round` proves it of every round.

A run that comes to an end without a false clause leaves the variables that it eliminated
without a value.  `Restorable p q new` is the invariant of such a run from the position `p`:
of the variables that were eliminated on the way, listed in `new`, none has a value at the end,
and giving them their values in the listed order makes `p.formula` true.  One round adds one
variable at the end of the list (`Restorable.next`); `run_sound` is the induction over the
rounds.  The main statement is `restore_decides`. -/

namespace Clausal.VariableElimination

open Formula

variable {F G : Formula} {s : Assignment} {v : Var} {p : Position}

/-! ### One elimination -/

theorem restoreOne_eq {e : Eliminated} (he : s.isAssigned e.var = false) : restoreOne s e =
    if e.removed.all (·.isSatisfiedBy (s.assign (.neg e.var))) then .ok (s.assign (.neg e.var))
    else if e.removed.all (·.isSatisfiedBy (s.assign (.pos e.var))) then
      .ok (s.assign (.pos e.var))
    else .error .unrepaired := by
  have hneg : -(Literal.neg e.var) ∉ s := Assignment.not_mem_of_isAssigned he
  have hflip : (s.assign (.neg e.var)).flip e.var = s.assign (.pos e.var) :=
    Assignment.flip_assign s (.neg e.var)
  unfold restoreOne
  rw [Assignment.assign?_of_neg_not_mem hneg]
  dsimp only [bind, Except.bind]
  split
  · rfl
  · rw [hflip]

/-- Giving an eliminated variable its value succeeds and makes the formula true that it was
eliminated from. -/
theorem restoreOne_eliminate (hv : s.isAssigned v = false)
    (hs : ∀ w ∈ G.vars, w ≠ v → s.isAssigned w = true)
    (h : (G.eliminate v).result.isSatisfiedBy s = true) :
    ∃ l, l.var = v ∧ restoreOne s ⟨v, (G.eliminate v).removed⟩ = .ok (s.assign l) ∧
      G.isSatisfiedBy (s.assign l) = true := by
  rw [restoreOne_eq hv]
  split
  · next hall => exact ⟨.neg v, rfl, rfl, isSatisfiedBy_of_removed rfl h (List.all_eq_true.mp hall)⟩
  · next hall =>
      rw [List.all_eq_true] at hall
      have hpos := (removed_isSatisfiedBy hs h).resolve_left hall
      rw [if_pos (List.all_eq_true.mpr hpos)]
      exact ⟨.pos v, rfl, rfl, isSatisfiedBy_of_removed rfl h hpos⟩

/-! ### Rounds -/

/-- What the outcome of a round says about the position that the round started from. -/
def Outcome.Sound (p : Position) : Outcome → Prop
  | .conflict _ => ∀ u, p.state ⊆ u → ¬ p.formula.isSatisfiedBy u = true
  | .solved s => Simplifies p.formula p.state ∅ s
  | .eliminated v e s =>
      ∃ G, Simplifies p.formula p.state G s ∧ G.OpenIn s ∧ v ∈ G.vars ∧ e = G.eliminate v
  | .fault _ | .emptyClause | .noVariable _ => False

theorem sound_round (p : Position) : (round p).outcome.Sound p := by
  unfold round
  dsimp only
  split
  · next e he => exact fun u hu => not_isSatisfiedBy_of_propagate he hu
  · next f hf => exact absurd hf (propagate_ne_fault p.formula p.state f)
  · next G hG =>
      split
      · next hnil =>
          have hred := (reduces_propagate hG).simplifies
          rwa [eq_empty_of_isEmpty hnil] at hred
      have hsimp := simplifies_purify_propagate hG
      have hopen := openIn_purify (openIn_propagate hG)
      have hempty := hasEmptyClause_purify (s := (p.formula.propagate p.state).state)
        (hasEmptyClause_propagate hG)
      split
      · next f hf =>
          rw [purify_eq] at hf
          cases hf
      split
      · next hnil => rwa [eq_empty_of_isEmpty hnil] at hsimp
      next hnil =>
      rw [if_neg (by rw [hempty]; exact Bool.false_ne_true)]
      split
      · next hnone =>
          obtain ⟨c, hc, l, hl⟩ := exists_mem_clause hnil hempty
          obtain ⟨v, hv, -⟩ := exists_leastVar? (mem_vars_of_mem hc hl)
          rw [hnone] at hv
          cases hv
      · next v hv => exact ⟨_, hsimp, hopen, mem_vars_of_leastVar? hv, rfl⟩

theorem narrows_eliminate (G : Formula) (s : Assignment) (v : Var) :
    Narrows G s (G.eliminate v).result s :=
  ⟨Assignment.subset_refl s, fun _ hl => .inl hl, fun _ hw => (vars_eliminate hw).1⟩

/-! ### Runs -/

/-- From the end `q` of a run that started at `p` and eliminated `new`, the latest first, the
formula of `p` becomes true when the eliminated variables get their values. -/
structure Restorable (p : Position) (q : Finish) (new : List Eliminated) : Prop where
  eliminated_eq : q.eliminated = new ++ p.eliminated
  narrows : Narrows p.formula p.state ∅ q.state
  var_mem : ∀ e ∈ new, e.var ∈ p.formula.vars
  isAssigned_var : ∀ e ∈ new, q.state.isAssigned e.var = false
  restore : ∀ s, q.state ⊆ s → (∀ e ∈ new, s.isAssigned e.var = false) →
    (∀ v ∈ p.formula.vars, s.isAssigned v = true ∨ ∃ e ∈ new, e.var = v) →
    ∃ m, new.foldlM restoreOne s = .ok m ∧ s ⊆ m ∧
      (∀ v, m.isAssigned v = true ↔ s.isAssigned v = true ∨ ∃ e ∈ new, e.var = v) ∧
      p.formula.isSatisfiedBy m = true

theorem Restorable.solved (h : Simplifies p.formula p.state ∅ s) :
    Restorable p ⟨s, p.eliminated⟩ [] where
  eliminated_eq := rfl
  narrows := h.toNarrows
  var_mem _ he := absurd he List.not_mem_nil
  isAssigned_var _ he := absurd he List.not_mem_nil
  restore t hst _ _ := by
    have hsat := h.isSatisfiedBy t hst (isSatisfiedBy_empty t)
    refine ⟨t, rfl, Assignment.subset_refl t, fun v => ?_, hsat⟩
    exact (or_iff_left fun ⟨e, he, _⟩ => absurd he List.not_mem_nil).symm

theorem exists_var_append {new : List Eliminated} {cs : List Clause} {w : Var} :
    (∃ e ∈ new ++ [⟨v, cs⟩], e.var = w) ↔ (∃ e ∈ new, e.var = w) ∨ w = v := by
  simp only [List.mem_append, List.mem_singleton, or_and_right, exists_or, exists_eq_left,
    eq_comm (a := v)]

/-- A round adds its variable as the last one to get its value. -/
theorem Restorable.next {q : Finish} {new : List Eliminated}
    (hsimp : Simplifies p.formula p.state G s) (hopen : G.OpenIn s) (hv : v ∈ G.vars)
    (h : Restorable (p.next v (G.eliminate v) s) q new) :
    Restorable p q (new ++ [⟨v, (G.eliminate v).removed⟩]) := by
  have hnew : ∀ e ∈ new, e.var ∈ G.vars ∧ e.var ≠ v := fun e he => vars_eliminate (h.var_mem e he)
  have hvq : q.state.isAssigned v = false := by
    rw [Bool.eq_false_iff]
    intro hq
    rcases h.narrows.isAssigned_or_mem_vars hq with hs | hmem
    · exact Bool.eq_false_iff.mp (hopen v hv) hs
    · exact (vars_eliminate hmem).2 rfl
  refine ⟨?_, ?_, ?_, ?_, ?_⟩
  · rw [h.eliminated_eq, List.append_assoc]
    rfl
  · exact hsimp.toNarrows.trans ((narrows_eliminate G s v).trans h.narrows)
  · intro e he
    rcases List.mem_append.mp he with he | he
    · exact hsimp.vars_subset _ (hnew e he).1
    · rw [List.mem_singleton.mp he]
      exact hsimp.vars_subset _ hv
  · intro e he
    rcases List.mem_append.mp he with he | he
    · exact h.isAssigned_var e he
    · rw [List.mem_singleton.mp he]
      exact hvq
  · intro t hqt hfree hvars
    have hvars' : ∀ w ∈ G.vars, w ≠ v → t.isAssigned w = true ∨ ∃ e ∈ new, e.var = w := by
      intro w hw hwv
      refine (hvars w (hsimp.vars_subset w hw)).imp_right fun he => ?_
      exact (exists_var_append.mp he).resolve_right hwv
    -- the later eliminations come first: they make the result of this one true
    obtain ⟨m, hm, htm, hassigned, hsat⟩ := h.restore t hqt
      (fun e he => hfree e (List.mem_append_left _ he))
      (fun w hw => hvars' w (vars_eliminate hw).1 (vars_eliminate hw).2)
    have hvm : m.isAssigned v = false := by
      rw [Bool.eq_false_iff, ne_eq, hassigned, not_or]
      constructor
      · rw [hfree _ (List.mem_append_right _ (List.mem_singleton.mpr rfl))]
        exact Bool.false_ne_true
      · rintro ⟨e, he, hev⟩
        exact (hnew e he).2 hev
    obtain ⟨l, hlv, hrestore, hG⟩ := restoreOne_eliminate hvm
      (fun w hw hwv => (hassigned w).mpr (hvars' w hw hwv)) hsat
    have hml : m ⊆ m.assign l := by
      rw [← hlv] at hvm
      exact Assignment.subset_assign (Assignment.neg_not_mem_of_isAssigned hvm)
    have htl := Assignment.subset_trans htm hml
    refine ⟨m.assign l, ?_, htl, fun w => ?_, ?_⟩
    · rw [List.foldlM_append, hm]
      show [_].foldlM restoreOne m = _
      rw [List.foldlM_cons, hrestore]
      rfl
    · rw [Assignment.isAssigned_assign, hassigned, hlv, exists_var_append, or_comm, or_assoc]
    · refine hsimp.isSatisfiedBy _ ?_ hG
      exact Assignment.subset_trans h.narrows.subset (Assignment.subset_trans hqt htl)

/-- The result of a run: a proof that nothing satisfies the formula, or an end from which the
eliminated variables can get their values. -/
inductive RunSound (p : Position) : Except Fault (Option Finish) → Prop
  | refuted (h : ∀ u, p.state ⊆ u → ¬ p.formula.isSatisfiedBy u = true) : RunSound p (.ok none)
  | finished {q : Finish} {new : List Eliminated} (h : Restorable p q new) :
      RunSound p (.ok (some q))

theorem result_run (p : Position) : (run p).result =
    match (round p).outcome with
    | .conflict _ | .emptyClause => .ok none
    | .fault f => .error f
    | .solved s | .noVariable s => .ok (some ⟨s, p.eliminated⟩)
    | .eliminated v e s => (run (p.next v e s)).result := by
  rw [run]
  split
  · next e h => rw [h]
  · next h => rw [h]
  · next f h => rw [h]
  · next s h => rw [h]
  · next s h => rw [h]
  · next v e s h => rw [h]; rfl

theorem run_sound (p : Position) : RunSound p (run p).result := by
  have hsound := sound_round p
  rw [result_run]
  cases hout : (round p).outcome with
  | conflict e =>
      rw [hout] at hsound
      exact .refuted hsound
  | fault f => rw [hout] at hsound; exact hsound.elim
  | emptyClause => rw [hout] at hsound; exact hsound.elim
  | noVariable s => rw [hout] at hsound; exact hsound.elim
  | solved s =>
      rw [hout] at hsound
      exact .finished (.solved hsound)
  | eliminated v e s =>
      rw [hout] at hsound
      obtain ⟨G, hsimp, hopen, hv, rfl⟩ := hsound
      have ih := run_sound (p.next v (G.eliminate v) s)
      dsimp only
      generalize (run (p.next v (G.eliminate v) s)).result = r at ih
      cases ih with
      | refuted hno =>
          refine .refuted fun u hu hF => ?_
          obtain ⟨w, hsw, hG⟩ := hsimp.exists_isSatisfiedBy u hu hF
          exact hno w hsw (eliminate_isSatisfiedBy hG)
      | finished h => exact .finished (h.next hsimp hopen hv)
termination_by p.formula.vars.size
decreasing_by exact size_vars_next hout

/-! ### The procedure -/

/-- From the end of a run that began with `F` alone, `restore` finds a model of `F`. -/
theorem exists_isModel_restore {q : Finish} {new : List Eliminated}
    (h : Restorable ⟨F, ∅, []⟩ q new) : ∃ m, restore F q = .ok m ∧ F.IsModel m := by
  have heq : q.eliminated = new := h.eliminated_eq.trans (List.append_nil new)
  have hstate : ∀ v, q.state.isAssigned v = true → v ∈ F.vars := fun v hv =>
    (h.narrows.isAssigned_or_mem_vars hv).resolve_left Bool.false_ne_true
  unfold restore
  dsimp only
  rw [heq]
  generalize hW : F.vars.filter (fun v => !new.any fun e => decide (e.var = v)) = W
  have hmem : ∀ v, v ∈ W ↔ v ∈ F.vars ∧ ¬ ∃ e ∈ new, e.var = v := by
    intro v
    rw [← hW, SortedSet.mem_filter, Bool.not_eq_true', ← Bool.not_eq_true, List.any_eq_true]
    simp only [decide_eq_true_eq]
  obtain ⟨m, hm, hsub, hassigned, hsat⟩ := h.restore (q.state.fill W.toList false)
    (Assignment.subset_fill _ _ _)
    (fun e he => by
      rw [Bool.eq_false_iff, ne_eq, Assignment.isAssigned_fill, h.isAssigned_var e he, not_or]
      exact ⟨Bool.false_ne_true, fun hw => ((hmem _).mp hw).2 ⟨e, he, rfl⟩⟩)
    (fun v hv => by
      by_cases he : ∃ e ∈ new, e.var = v
      · exact .inr he
      · exact .inl (Assignment.isAssigned_fill.mpr (.inr ((hmem v).mpr ⟨hv, he⟩))))
  refine ⟨m, hm, fun v => ?_, hsat⟩
  rw [hassigned, Assignment.isAssigned_fill, SortedSet.mem_toList]
  constructor
  · rintro ((hv | hv) | ⟨e, he, rfl⟩)
    · exact hstate v hv
    · exact ((hmem v).mp hv).1
    · exact h.var_mem e he
  · intro hv
    by_cases he : ∃ e ∈ new, e.var = v
    · exact .inr he
    · exact .inl (.inr ((hmem v).mpr ⟨hv, he⟩))

theorem result_solve (F : Formula) : (solve F).result =
    match (run ⟨F, ∅, []⟩).result with
    | .ok (some q) => .sat <$> restore F q
    | .ok none => .ok .unsat
    | .error f => .error f := by
  unfold solve
  rw [Traced.result_map]
  cases (run ⟨F, ∅, []⟩).result with
  | error f => rfl
  | ok a => cases a <;> rfl

/-- The run comes to a finish from which a model is restored, or there is no model. -/
theorem run_restores (F : Formula) :
    (∃ q m, (run ⟨F, ∅, []⟩).result = .ok (some q) ∧ restore F q = .ok m ∧ F.IsModel m) ∨
      (run ⟨F, ∅, []⟩).result = .ok none ∧ ¬ F.Satisfiable := by
  have hrun := run_sound ⟨F, ∅, []⟩
  generalize (run ⟨F, ∅, []⟩).result = r at hrun
  cases hrun with
  | refuted hno => exact .inr ⟨rfl, not_satisfiable hno⟩
  | @finished q _ h =>
      obtain ⟨m, hm, hmodel⟩ := exists_isModel_restore h
      exact .inl ⟨q, m, rfl, hm, hmodel⟩

theorem decided_solve (F : Formula) : F.Decided (solve F).result := by
  rw [result_solve]
  rcases run_restores F with ⟨q, m, hrun, hm, hmodel⟩ | ⟨hrun, hunsat⟩
  · rw [hrun]
    dsimp only
    rw [hm]
    exact hmodel.decided
  · rw [hrun]
    exact decided_unsat hunsat

/-- Variable elimination decides every formula.  If there is a model, the run comes to a finish, and
restoring the eliminated variables from there gives the model it answers with. -/
theorem restore_decides (F : Formula) :
    F.Decided (solve F).result ∧
    (F.Satisfiable → ∃ q m, (run ⟨F, ∅, []⟩).result = .ok (some q) ∧ restore F q = .ok m ∧
      (solve F).result = .ok (.sat m) ∧ F.IsModel m) := by
  refine ⟨decided_solve F, fun hF => ?_⟩
  rcases run_restores F with ⟨q, m, hrun, hm, hmodel⟩ | ⟨-, hunsat⟩
  · refine ⟨q, m, hrun, hm, ?_, hmodel⟩
    rw [result_solve, hrun]
    dsimp only
    rw [hm]
    rfl
  · exact absurd hF hunsat

end Clausal.VariableElimination
