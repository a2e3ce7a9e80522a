import Clausal.Proofs.Attempts
import Clausal.Search.Backtracking

/-! # Backtracking decides every formula

`Node.Sound F s` says what a node of the search has to do with the formula `F` under `s` that
was simplified to get there; `sound_expand` proves it of every node, and with it that three of
the six kinds of nodes never come up.  `search_answers` puts the nodes together by recursion
along the search.  The main statement is `search_decides`. -/

namespace Clausal

/-- Some variable of a simplified formula that still has clauses is open. -/
theorem Formula.exists_firstOpenVar? {F : Formula} {s : Assignment} (hopen : F.OpenIn s)
    (hF : ¬ F.isEmpty = true) (h : F.hasEmptyClause = false) :
    ∃ v, F.firstOpenVar? s = some v := by
  obtain ⟨c, hc, l, hl⟩ := exists_mem_clause hF h
  cases hv : F.firstOpenVar? s with
  | some v => exact ⟨v, rfl⟩
  | none =>
      have hmem : l.var ∈ F.clauses.flatMap fun c => c.toList.map Literal.var :=
        List.mem_flatMap.mpr ⟨c, hc, List.mem_map_of_mem hl⟩
      have hassigned := List.find?_eq_none.mp hv l.var hmem
      rw [hopen l.var (mem_vars_of_mem hc hl)] at hassigned
      exact absurd rfl hassigned

namespace Backtracking

open Formula

variable {F G : Formula} {s t : Assignment} {v : Var} {l : Literal}

/-! ### Nodes -/

/-- What a node says about the formula and the assignment that were simplified. -/
def Node.Sound (F : Formula) (s : Assignment) : Node → Prop
  | .conflict _ => ∀ u, s ⊆ u → ¬ F.isSatisfiedBy u = true
  | .model t => Simplifies F s ∅ t
  | .branch G t v => Simplifies F s G t ∧ G.OpenIn t ∧ v ∈ G.vars
  | .fault _ | .emptyClause | .stuck => False

theorem sound_expand (F : Formula) (s : Assignment) : (expand F s).node.Sound F s := by
  unfold expand
  dsimp only
  split
  · next e he => exact fun u hsu => not_isSatisfiedBy_of_propagate he hsu
  · next f hf => exact absurd hf (propagate_ne_fault F s f)
  · next G hG =>
      have hempty := hasEmptyClause_propagate hG
      split
      · next hnil =>
          have hred := (reduces_propagate hG).simplifies
          rwa [eq_empty_of_isEmpty hnil] at hred
      rw [if_neg (by rw [hempty]; exact Bool.false_ne_true)]
      have hsimp := simplifies_purify_propagate hG
      have hopen := openIn_purify (openIn_propagate hG)
      have hempty' := hasEmptyClause_purify (s := (F.propagate s).state) hempty
      split
      · next f hf =>
          rw [purify_eq] at hf
          cases hf
      split
      · next hnil => rwa [eq_empty_of_isEmpty hnil] at hsimp
      · next hnil =>
          split
          · next hnone =>
              obtain ⟨v, hv⟩ := exists_firstOpenVar? hopen hnil hempty'
              rw [hnone] at hv
              cases hv
          · next v hv => exact ⟨hsimp, hopen, mem_vars_of_firstOpenVar? hv⟩

/-! ### The search -/

/-- The search below a node with one literal of its variable made true. -/
def attempt (G : Formula) (t : Assignment) (l : Literal) : Attempt :=
  match _ : G.condition l with
  | .error _ => ⟨.ok none, [.decision l]⟩
  | .ok H =>
      match t.clash? l with
      | some f => ⟨.error f, [.decision l]⟩
      | none => (search H (t.assign l)).after [.decision l]

theorem result_search (F : Formula) (s : Assignment) : (search F s).result =
    match (expand F s).node with
    | .conflict _ | .emptyClause | .stuck => .ok none
    | .fault f => .error f
    | .model t => .ok (some t)
    | .branch G t v => ((attempt G t (.pos v)).orElse fun _ => attempt G t (.neg v)).result := by
  rw [search]
  split
  · next e h => rw [h]
  · next h => rw [h]
  · next h => rw [h]
  · next f h => rw [h]
  · next t h => rw [h]
  · next G t v h =>
      rw [h]
      rfl

theorem attempt_answers (hl : -l ∉ t)
    (ih : ∀ H, G.condition l = .ok H → Answers H (t.assign l) (search H (t.assign l)).result) :
    Answers G (t.assign l) (attempt G t l).result := by
  have hmem := Assignment.mem_assign_self t l
  unfold attempt
  split
  · next e he => exact .of_condition_error he hmem
  · next H hH =>
      rw [Assignment.clash?_eq_none.mpr hl]
      exact (ih H hH).of_condition hH hmem

/-- The search answers for every formula and every assignment to begin with. -/
theorem search_answers (F : Formula) (s : Assignment) : Answers F s (search F s).result := by
  have hsound := sound_expand F s
  rw [result_search]
  cases hnode : (expand F s).node with
  | conflict e =>
      rw [hnode] at hsound
      exact .absent hsound
  | fault f => rw [hnode] at hsound; exact hsound.elim
  | emptyClause => rw [hnode] at hsound; exact hsound.elim
  | stuck => rw [hnode] at hsound; exact hsound.elim
  | model t =>
      rw [hnode] at hsound
      exact hsound.answers
        (.found (Assignment.subset_refl t) (fun _ h => .inl h) (isSatisfiedBy_empty t))
  | branch G t v =>
      rw [hnode] at hsound
      obtain ⟨hsimp, hopen, hv⟩ := hsound
      have hfree := hopen v hv
      refine hsimp.answers (.orElse hv hfree ?_ ?_)
      · refine attempt_answers (Assignment.not_mem_of_isAssigned hfree) fun H hH => ?_
        exact search_answers H (t.assign (.pos v))
      · refine attempt_answers (Assignment.not_mem_of_isAssigned hfree) fun H hH => ?_
        exact search_answers H (t.assign (.neg v))
termination_by F.vars.size
decreasing_by
  · exact size_vars_branch hnode rfl hH
  · exact size_vars_branch hnode rfl hH

/-! ### The verdict -/

theorem result_solve (F : Formula) :
    (solve F).result = Verdict.ofAnswer F <$> (search F ∅).result := by
  unfold solve
  rw [Traced.result_map]
  rcases (search F ∅).result with f | (_ | s) <;> rfl

theorem decided_solve (F : Formula) : F.Decided (solve F).result := by
  rw [result_solve]
  exact (search_answers F ∅).decided

/-- Backtracking decides every formula.  If there is a model, the search itself finds an assignment
that makes every clause true before the variables without a value are filled up, and every
assignment beyond it satisfies the formula. -/
theorem search_decides (F : Formula) :
    F.Decided (solve F).result ∧
    (F.Satisfiable → ∃ s, (search F ∅).result = .ok (some s) ∧
      (solve F).result = .ok (.sat (s.fill F.vars.toList false)) ∧
      (∀ c ∈ F, c.eval s = some true) ∧
      ∀ t, s ⊆ t → F.isSatisfiedBy t = true) := by
  refine ⟨decided_solve F, fun hF => ?_⟩
  have hanswer := search_answers F ∅
  rw [result_solve]
  generalize (search F ∅).result = r at hanswer
  cases hanswer with
  | @found s _ _ hsat =>
      refine ⟨s, rfl, rfl, fun c hc => ?_, fun t hst => isSatisfiedBy_mono hst hsat⟩
      exact eq_of_beq (isSatisfiedBy_iff.mp hsat c hc)
  | absent hno => exact absurd hF (not_satisfiable hno)

end Backtracking

end Clausal
