import Clausal.Proofs.Attempts
import Clausal.Search.Backtracking

/-! # Plain case splitting finds the canonical model

Case splitting decides every formula (`split_answers`), and the model that it answers with can
be told without the search: going through the variables in order, with the values of the
smaller variables made true, a variable is true exactly when it still occurs and can be true
(`split_decides`).

The search itself goes another way.  It makes literals true on the way down, skips the variables
that vanish, and gives the values on the way up.  The two meet in `under_eq_of_condition`: the
variables below the least one that occurs, and the ones that vanish, do not matter to a formula,
so what the search is left with at a node is what the values of all smaller variables leave. -/

namespace Clausal

theorem Literal.pos_var_of_positive {l : Literal} (h : l.positive = true) : pos l.var = l := by
  obtain ⟨v, p⟩ := l
  cases h
  rfl

namespace Formula

variable {F G : Formula} {s : Assignment} {l : Literal} {v : Var}

/-! ### What does not matter to a formula -/

/-- Making a literal of the least variable true first leaves what is left in any case. -/
theorem under_eq_of_condition (h : F.condition l = .ok G) (hl : l ∈ s)
    (hleast : ∀ v ∈ F.vars, l.var.index ≤ v.index) : F.under s = G.under s := by
  obtain ⟨as, bs, hlist⟩ := List.append_of_mem (show l ∈ s.literals.toList from hl)
  -- what stands before `l` is of smaller variables, which do not occur
  have hbefore : ∀ m ∈ as, m.var ∉ F.vars := by
    intro m hm hv
    have hlt := (Assignment.mem_below.mp ((Assignment.mem_below_iff_of_append hlist).mpr hm)).2
    have hle := hleast m.var hv
    omega
  have hG : ∀ w ∈ G.vars, w ∈ F.vars ∧ w ≠ l.var := fun w hw => vars_condition h hw
  have hF : as.foldlM condition F = .ok F := foldlM_condition_of_not_mem_vars hbefore
  have hG' : as.foldlM condition G = .ok G :=
    foldlM_condition_of_not_mem_vars fun m hm hv => hbefore m hm (hG _ hv).1
  have hlG : G.condition l = .ok G := condition_of_not_mem_vars fun hv => (hG _ hv).2 rfl
  unfold under
  rw [hlist, List.foldlM_append, List.foldlM_append, hF, hG']
  show (l :: bs).foldlM condition F = (l :: bs).foldlM condition G
  rw [List.foldlM_cons, List.foldlM_cons, h, hlG]

theorem index_le_of_leastVar? (h : F.leastVar? = some v) : ∀ w ∈ F.vars, v.index ≤ w.index := by
  intro w hw
  obtain ⟨v', hv', hle⟩ := exists_leastVar? hw
  rw [h] at hv'
  cases hv'
  exact hle

end Formula

namespace CaseSplitting

open Formula

variable {F G : Formula} {s t m : Assignment} {l : Literal} {v : Var}

/-! ### The search -/

/-- The search below a formula with a literal made true. -/
def attempt (F : Formula) (l : Literal) : Attempt :=
  match _ : F.condition l with
  | .error _ => ⟨.ok none, [.set l]⟩
  | .ok G => ((split G).assigning l).after [.set l]

theorem result_attempt (F : Formula) (l : Literal) : (attempt F l).result =
    match F.condition l with
    | .error _ => .ok none
    | .ok G => ((split G).assigning l).result := by
  unfold attempt
  split
  · next h => rw [h]
  · next h => rw [h]; rfl

theorem result_split (F : Formula) : (split F).result =
    if F.hasEmptyClause then .ok none
    else
      match F.leastVar? with
      | none => .ok (some ∅)
      | some v => ((attempt F (.pos v)).orElse fun _ => attempt F (.neg v)).result := by
  rw [split]
  split
  · rfl
  · split
    · next h => rw [h]
    · next v h => rw [h]; rfl

theorem result_assigning (t : Attempt) (l : Literal) : (t.assigning l).result =
    match t.result with
    | .ok (some s) => some <$> s.assign? l
    | .ok none => .ok none
    | .error f => .error f := by
  unfold Attempt.assigning
  rw [Traced.result_map]
  cases t.result with
  | error f => rfl
  | ok a => cases a <;> rfl

/-- The value on the way up is the first one of its variable, which no longer occurs below. -/
theorem answers_assigning {a : Attempt} (h : F.condition l = .ok G) (ha : Answers G ∅ a.result) :
    Answers F ((∅ : Assignment).assign l) (a.assigning l).result := by
  rw [result_assigning]
  generalize a.result = r at ha
  cases ha with
  | absent hno =>
      refine .absent fun u hu hF => hno u (Assignment.empty_subset u) ?_
      exact (isSatisfiedBy_condition h (hu l (Assignment.mem_assign_self _ l))).mpr hF
  | @found s hsub hmem hsat =>
      have hvars : ∀ k ∈ s, k.var ∈ F.vars ∧ k.var ≠ l.var := fun k hk =>
        vars_condition h ((hmem k hk).resolve_left (Assignment.not_mem_empty k))
      have hneg : -l ∉ s := fun hl => (hvars _ hl).2 rfl
      dsimp only
      rw [Assignment.assign?_of_neg_not_mem hneg]
      refine .found ?_ (fun k hk => ?_) ?_
      · exact Assignment.assign_subset (Assignment.empty_subset _) (Assignment.mem_assign_self s l)
      · rcases Assignment.mem_assign.mp hk with rfl | ⟨hk, -⟩
        · exact .inl (Assignment.mem_assign_self _ k)
        · exact .inr (hvars k hk).1
      · rw [← isSatisfiedBy_condition h (Assignment.mem_assign_self s l)]
        exact isSatisfiedBy_mono (Assignment.subset_assign hneg) hsat

theorem attempt_answers (ih : ∀ G, F.condition l = .ok G → Answers G ∅ (split G).result) :
    Answers F ((∅ : Assignment).assign l) (attempt F l).result := by
  unfold attempt
  split
  · next e he => exact .of_condition_error he (Assignment.mem_assign_self _ l)
  · next G hG => exact answers_assigning hG (ih G hG)

theorem split_answers (F : Formula) : Answers F ∅ (split F).result := by
  rw [result_split]
  cases hempty : F.hasEmptyClause with
  | true => exact .absent fun u _ => not_isSatisfiedBy_of_hasEmptyClause hempty
  | false =>
      rw [if_neg Bool.false_ne_true]
      cases hv : F.leastVar? with
      | none =>
          refine .found (Assignment.subset_refl ∅) (fun l hl => .inl hl) ?_
          by_cases hF : F.isEmpty = true
          · rw [eq_empty_of_isEmpty hF]
            exact isSatisfiedBy_empty ∅
          · obtain ⟨c, hc, l, hl⟩ := exists_mem_clause hF hempty
            obtain ⟨w, hw, -⟩ := exists_leastVar? (mem_vars_of_mem hc hl)
            rw [hv] at hw
            cases hw
      | some v =>
          have hmem := mem_vars_of_leastVar? hv
          refine .orElse hmem rfl ?_ ?_
          · exact attempt_answers fun G hG => split_answers G
          · exact attempt_answers fun G hG => split_answers G
termination_by F.vars.size
decreasing_by
  · exact size_vars_condition hG hmem
  · exact size_vars_condition hG hmem

/-! ### What the search finds -/

theorem attempt_eq_some (h : (attempt F l).result = .ok (some s)) :
    ∃ G t, F.condition l = .ok G ∧ (split G).result = .ok (some t) ∧ s = t.assign l := by
  unfold attempt at h
  split at h
  · cases h
  · next G hG =>
      rw [Traced.result_after, result_assigning] at h
      split at h
      · next t ht =>
          refine ⟨G, t, hG, ht, ?_⟩
          unfold Assignment.assign? at h
          split at h <;> cases h
          rfl
      · cases h
      · cases h

/-- A model that was found below the least variable `v` holds a literal of `v` and goes on with a
model of what is left; and it denies `v` only if `v` cannot be true. -/
theorem split_eq_some (h : (split F).result = .ok (some s)) :
    F.leastVar? = none ∧ s = ∅ ∨
    ∃ l G t, F.leastVar? = some l.var ∧ F.condition l = .ok G ∧
      (split G).result = .ok (some t) ∧ s = t.assign l ∧
      (l.positive = false → ∀ u, .pos l.var ∈ u → ¬ F.isSatisfiedBy u = true) := by
  rw [result_split] at h
  split at h
  · cases h
  split at h
  · next hv =>
      cases h
      exact .inl ⟨hv, rfl⟩
  · next v hv =>
      right
      have hpos : Answers F ((∅ : Assignment).assign (.pos v)) (attempt F (.pos v)).result :=
        attempt_answers fun G _ => split_answers G
      unfold Attempt.orElse at h
      split at h
      · next hnone =>
          obtain ⟨G, t, hG, ht, rfl⟩ := attempt_eq_some h
          refine ⟨.neg v, G, t, hv, hG, ht, rfl, fun _ u hu => ?_⟩
          rw [hnone] at hpos
          cases hpos with
          | absent hno => exact hno u (Assignment.assign_subset (Assignment.empty_subset u) hu)
      · obtain ⟨G, t, hG, ht, rfl⟩ := attempt_eq_some h
        exact ⟨.pos v, G, t, hv, hG, ht, rfl, nofun⟩

theorem var_mem_of_split (h : (split F).result = .ok (some s)) (hl : l ∈ s) : l.var ∈ F.vars := by
  have hanswer := split_answers F
  rw [h] at hanswer
  cases hanswer with
  | found _ hmem _ => exact (hmem l hl).resolve_left (Assignment.not_mem_empty l)

theorem isSatisfiedBy_of_split (h : (split F).result = .ok (some s)) :
    F.isSatisfiedBy s = true := by
  have hanswer := split_answers F
  rw [h] at hanswer
  cases hanswer with
  | found _ _ hsat => exact hsat

/-- In what the search finds, a variable is true exactly when it occurs in what the values of the
smaller variables leave, and can be true there; the values may be any that go on from it. -/
theorem pos_mem_split {F : Formula} {s : Assignment} (h : (split F).result = .ok (some s))
    (hsm : s ⊆ m) (v : Var) :
    ∃ R, F.under (m.below v) = .ok R ∧
      (.pos v ∈ s ↔ v ∈ R.vars ∧ ∃ u, .pos v ∈ u ∧ R.isSatisfiedBy u = true) := by
  rcases split_eq_some h with ⟨hnone, rfl⟩ | ⟨l, G, t, hv, hG, ht, rfl, hneg⟩
  · have hvars : ∀ w, w ∉ F.vars := fun w hw => by
      obtain ⟨w', hw', -⟩ := exists_leastVar? hw
      rw [hnone] at hw'
      cases hw'
    refine ⟨F, foldlM_condition_of_not_mem_vars fun l _ => hvars l.var, ?_⟩
    exact iff_of_false (Assignment.not_mem_empty _) fun hmem => hvars v hmem.1
  · have hleast := index_le_of_leastVar? hv
    have hlvar := mem_vars_of_leastVar? hv
    rcases Nat.lt_or_ge l.var.index v.index with hlt | hge
    · -- behind the least variable: go on with what is left
      have hlm : l ∈ m.below v :=
        Assignment.mem_below.mpr ⟨hsm l (Assignment.mem_assign_self t l), hlt⟩
      have hneg' : -l ∉ t := fun hl => (vars_condition hG (var_mem_of_split ht hl)).2 rfl
      obtain ⟨R, hR, hiff⟩ := pos_mem_split ht
        (Assignment.subset_trans (Assignment.subset_assign hneg') hsm) v
      refine ⟨R, (under_eq_of_condition hG hlm hleast).trans hR, ?_⟩
      rw [← hiff, Assignment.mem_assign]
      have hne : ∀ k : Literal, k.var = l.var → .pos v ≠ k := by
        rintro k hk rfl
        rw [← hk] at hlt
        exact Nat.lt_irrefl _ hlt
      rw [or_iff_right (hne l rfl), and_iff_left (hne (-l) rfl)]
    · -- up to the least variable: the smaller ones do not occur
      refine ⟨F, foldlM_condition_of_not_mem_vars fun k hk hkF => ?_, ?_⟩
      · have hkv := (Assignment.mem_below.mp hk).2
        have hle := hleast _ hkF
        omega
      by_cases hvl : v = l.var
      · subst hvl
        cases hp : l.positive with
        | true =>
            have hl := Literal.pos_var_of_positive hp
            refine iff_of_true ?_ ⟨hlvar, t.assign l, ?_, isSatisfiedBy_of_split h⟩
            · rw [hl]; exact Assignment.mem_assign_self t l
            · rw [hl]; exact Assignment.mem_assign_self t l
        | false =>
            have hl : Literal.pos l.var = -l :=
              Literal.pos_var_of_positive (l := -l) (by rw [Literal.positive_neg, hp]; rfl)
            refine iff_of_false ?_ fun ⟨_, u, hu, hF⟩ => hneg hp u hu hF
            rw [hl]
            exact Assignment.neg_not_mem (Assignment.mem_assign_self t l)
      · have hvF : v ∉ F.vars := fun hmem =>
          hvl (Var.index_inj.mp (Nat.le_antisymm hge (hleast v hmem)))
        exact iff_of_false (fun hmem => hvF (var_mem_of_split h hmem)) fun hmem => hvF hmem.1
termination_by F.vars.size
decreasing_by exact size_vars_condition hG hlvar

/-! ### The verdict -/

theorem result_solve (F : Formula) :
    (solve F).result = Verdict.ofAnswer F <$> (split F).result := by
  unfold solve
  rw [Traced.result_map]
  rcases (split F).result with f | (_ | s) <;> rfl

theorem decided_solve (F : Formula) : F.Decided (solve F).result := by
  rw [result_solve]
  exact (split_answers F).decided

/-- A model is an answer of the search, filled up. -/
theorem split_of_solve (h : (solve F).result = .ok (.sat m)) :
    ∃ s, (split F).result = .ok (some s) ∧ m = s.fill F.vars.toList false := by
  rw [result_solve] at h
  rcases hr : (split F).result with f | (_ | s)
  · rw [hr] at h
    cases h
  · rw [hr] at h
    cases h
  · rw [hr] at h
    cases h
    exact ⟨s, rfl, rfl⟩

/-- Case splitting decides every formula.  In the model it answers with, a variable is true
exactly when it occurs in what the values of the smaller variables leave of the formula, and
what they leave is satisfiable with that variable true. -/
theorem split_decides (F : Formula) :
    F.Decided (solve F).result ∧
    ∀ m, (solve F).result = .ok (.sat m) → ∀ v ∈ F.vars,
      ∃ R, F.under (m.below v) = .ok R ∧
        (m.value? v = some true ↔ v ∈ R.vars ∧ ∃ s, .pos v ∈ s ∧ R.isSatisfiedBy s = true) := by
  refine ⟨decided_solve F, fun m hm v _ => ?_⟩
  obtain ⟨s, hs, rfl⟩ := split_of_solve hm
  obtain ⟨R, hR, hiff⟩ := pos_mem_split hs (Assignment.subset_fill s F.vars.toList false) v
  refine ⟨R, hR, ?_⟩
  rw [← hiff, Assignment.value?_eq_some, Assignment.mem_fill]
  exact or_iff_left fun hfill => Bool.noConfusion hfill.2.2

end CaseSplitting

end Clausal
