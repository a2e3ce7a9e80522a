import Clausal.Proofs.Resolvents
import Clausal.Search.Saturation

/-! # Models of closed sets of clauses

A set of clauses is `Closed` when it holds neither the empty clause nor lacks a resolvent that
says something.  The values that `settle` gives to one variable after another never make a
clause of a closed set false (`settle_spec`): if both values of a variable did, the resolvent
of the two false clauses would have been false before.  `Settled` is what going through all
variables ends in (`foldlM_settle`): an assignment without a false clause, in which a variable
is true only if that is forced by a clause and the values of smaller variables.

So a closed set has a model with values for any variables that include its own, and the search for
it never turns back (`modelOf_isSatisfiedBy`). -/

namespace Clausal

namespace Saturation

variable {S : SortedSet Clause} {s m : Assignment} {v : Var} {vs : List Var}

/-! ### Closed sets -/

/-- Neither the empty clause is in the set, nor does it lack a resolvent that says something. -/
structure Closed (S : SortedSet Clause) : Prop where
  empty_not_mem : ∅ ∉ S
  resolve_mem : ∀ c ∈ S, ∀ d ∈ S, ∀ r, c.resolve d = .ok r → r.isTautology = true ∨ r ∈ S

instance (S : SortedSet Clause) : Decidable (Closed S) :=
  decidable_of_iff
    (∅ ∉ S ∧ ∀ c ∈ S.toList, ∀ d ∈ S.toList, ∀ r ∈ (c.resolve d).toOption,
      r.isTautology = true ∨ r ∈ S) <| by
    have hok : ∀ c d r : Clause, r ∈ (c.resolve d).toOption ↔ c.resolve d = .ok r := by
      intro c d r
      cases c.resolve d <;> simp [Except.toOption]
    simp only [hok]
    exact ⟨fun h => ⟨h.1, h.2⟩, fun h => ⟨h.empty_not_mem, h.resolve_mem⟩⟩

theorem Closed.eval_empty_ne_false (hS : Closed S) {c : Clause} (hc : c ∈ S) :
    c.eval ∅ ≠ some false := by
  intro hfalse
  have hempty : c = ∅ := Clause.ext fun l => by
    refine iff_of_false (fun hl => ?_) (Clause.not_mem_empty l)
    exact Assignment.not_mem_empty _ (Clause.eval_eq_false.mp hfalse l hl)
  exact hS.empty_not_mem (hempty ▸ hc)

/-- If no clause of a closed set is false, at most one value of a variable makes one false. -/
theorem Closed.false_of_eval (hS : Closed S) (hs : ∀ c ∈ S, c.eval s ≠ some false) {c d : Clause}
    (hc : c ∈ S) (hcs : c.eval (s.assign (.neg v)) = some false)
    (hd : d ∈ S) (hds : d.eval (s.assign (.pos v)) = some false) : False := by
  have hres := Clause.eval_resolventOn hcs hds
  have htaut := Clause.isTautology_of_eval hres
  have hpos : Literal.pos v ∈ c := Clause.neg_mem_of_eval_assign hcs (hs c hc)
  have hneg : Literal.neg v ∈ d := Clause.neg_mem_of_eval_assign hds (hs d hd)
  rcases hS.resolve_mem c hc d hd _ (Clause.resolve_eq_resolventOn hpos hneg htaut) with h | h
  · rw [htaut] at h
    cases h
  · exact hs _ h hres

/-! ### Settling one variable -/

/-- Some clause is false in the values of the smaller variables, but for the literal `v`. -/
def Forced (S : SortedSet Clause) (m : Assignment) (v : Var) : Prop :=
  ∃ c ∈ S, ∀ l ∈ c, l = .pos v ∨ l.var.index < v.index ∧ -l ∈ m

theorem Forced.mono (hsm : s ⊆ m) (h : Forced S s v) : Forced S m v := by
  obtain ⟨c, hc, hl⟩ := h
  exact ⟨c, hc, fun l hlc => (hl l hlc).imp_right fun h => ⟨h.1, hsm _ h.2⟩⟩

/-- Whether a clause that ends in `v` is false once `v` is denied. -/
def Rejected (S : SortedSet Clause) (s : Assignment) (v : Var) : Prop :=
  ∃ c ∈ S, c.lastVar? = some v ∧ c.eval (s.assign (.neg v)) = some false

theorem settle_of_rejected (hv : s.isAssigned v = false) (h : Rejected S s v) :
    settle S s v = .ok (s.assign (.pos v)) := by
  obtain ⟨c, hc, hlast, hfalse⟩ := h
  have hneg : -(Literal.neg v) ∉ s := Assignment.not_mem_of_isAssigned hv
  unfold settle
  rw [Assignment.assign?_of_neg_not_mem hneg]
  show Except.ok _ = _
  rw [if_pos, show (s.assign (.neg v)).flip v = _ from Assignment.flip_assign s (.neg v)]
  · rfl
  · refine List.any_eq_true.mpr ⟨c, List.mem_filter.mpr ⟨hc, beq_iff_eq.mpr hlast⟩, ?_⟩
    exact beq_iff_eq.mpr hfalse

theorem settle_of_not_rejected (hv : s.isAssigned v = false) (h : ¬ Rejected S s v) :
    settle S s v = .ok (s.assign (.neg v)) := by
  have hneg : -(Literal.neg v) ∉ s := Assignment.not_mem_of_isAssigned hv
  unfold settle
  rw [Assignment.assign?_of_neg_not_mem hneg]
  show Except.ok _ = _
  rw [if_neg]
  rw [List.any_eq_true]
  rintro ⟨c, hc, hfalse⟩
  obtain ⟨hc, hlast⟩ := List.mem_filter.mp hc
  exact h ⟨c, hc, beq_iff_eq.mp hlast, beq_iff_eq.mp hfalse⟩

/-- Settling the next variable makes no clause false, and makes it true only if it has to. -/
theorem settle_spec (hS : Closed S) (hs : ∀ c ∈ S, c.eval s ≠ some false)
    (hv : ∀ l ∈ s, l.var.index < v.index) :
    ∃ l, l.var = v ∧ settle S s v = .ok (s.assign l) ∧
      (∀ c ∈ S, c.eval (s.assign l) ≠ some false) ∧ (l = .pos v → Forced S s v) := by
  have hopen : s.isAssigned v = false := by
    rw [Bool.eq_false_iff, ne_eq, Assignment.isAssigned_iff]
    rintro ⟨l, hl, rfl⟩
    exact Nat.lt_irrefl _ (hv l hl)
  by_cases hrej : Rejected S s v
  · refine ⟨.pos v, rfl, settle_of_rejected hopen hrej, ?_, fun _ => ?_⟩
    · obtain ⟨c, hc, -, hcs⟩ := hrej
      exact fun d hd hds => hS.false_of_eval hs hc hcs hd hds
    · obtain ⟨c, hc, -, hcs⟩ := hrej
      refine ⟨c, hc, fun l hl => ?_⟩
      by_cases hlv : l = .pos v
      · exact .inl hlv
      · have hneg := (Clause.eval_assign_eq_false.mp hcs).2 l hl hlv
        exact .inr ⟨hv (-l) hneg, hneg⟩
  · refine ⟨.neg v, rfl, settle_of_not_rejected hopen hrej, fun d hd hds => ?_, nofun⟩
    -- a clause made false by denying `v` holds `v`, and only smaller variables besides
    have hsmall := (Clause.eval_assign_eq_false.mp hds).2
    have hpos : Literal.pos v ∈ d := Clause.neg_mem_of_eval_assign hds (hs d hd)
    refine hrej ⟨d, hd, Clause.lastVar?_eq_some.mpr ⟨⟨_, hpos, rfl⟩, fun l hl => ?_⟩, hds⟩
    by_cases hlv : l = .pos v
    · rw [hlv]
      exact Nat.le_refl _
    · exact Nat.le_of_lt (hv (-l) (hsmall l hl hlv))

/-! ### Settling all variables -/

/-- What becomes of `s` when the variables `vs` are settled one after another. -/
structure Settled (S : SortedSet Clause) (s : Assignment) (vs : List Var) (m : Assignment) :
    Prop where
  subset : s ⊆ m
  isAssigned_iff : ∀ v, m.isAssigned v = true ↔ s.isAssigned v = true ∨ v ∈ vs
  eval_ne_false : ∀ c ∈ S, c.eval m ≠ some false
  forced : ∀ v, .pos v ∈ m → .pos v ∈ s ∨ Forced S m v

theorem Settled.nil (hs : ∀ c ∈ S, c.eval s ≠ some false) : Settled S s [] s where
  subset := Assignment.subset_refl s
  isAssigned_iff _ := (or_iff_left List.not_mem_nil).symm
  eval_ne_false := hs
  forced _ hv := .inl hv

theorem Settled.cons {l : Literal} (hneg : -l ∉ s) (hl : l = .pos l.var → Forced S s l.var)
    (h : Settled S (s.assign l) vs m) : Settled S s (l.var :: vs) m := by
  have hsm := Assignment.subset_trans (Assignment.subset_assign hneg) h.subset
  refine ⟨hsm, fun w => ?_, h.eval_ne_false, fun w hw => ?_⟩
  · rw [h.isAssigned_iff, Assignment.isAssigned_assign, List.mem_cons, or_assoc, or_left_comm]
  · rcases h.forced w hw with hw | hw
    · rcases Assignment.mem_assign.mp hw with heq | ⟨hw, -⟩
      · subst heq
        exact .inr ((hl rfl).mono hsm)
      · exact .inl hw
    · exact .inr hw

theorem foldlM_settle (hS : Closed S) (hvs : vs.Pairwise fun v w => v.index < w.index)
    (hs : ∀ c ∈ S, c.eval s ≠ some false) (hv : ∀ v ∈ vs, ∀ l ∈ s, l.var.index < v.index) :
    ∃ m, vs.foldlM (settle S) s = .ok m ∧ Settled S s vs m := by
  induction vs generalizing s with
  | nil => exact ⟨s, rfl, .nil hs⟩
  | cons v vs ih =>
      rw [List.pairwise_cons] at hvs
      have hvl := hv v List.mem_cons_self
      obtain ⟨l, rfl, hsettle, hs', hforced⟩ := settle_spec hS hs hvl
      have hlater : ∀ w ∈ vs, ∀ k ∈ s.assign l, k.var.index < w.index := by
        intro w hw k hk
        rcases Assignment.mem_assign.mp hk with rfl | ⟨hk, -⟩
        · exact hvs.1 w hw
        · exact hv w (List.mem_cons_of_mem _ hw) k hk
      obtain ⟨m, hm, hsettled⟩ := ih hvs.2 hs' hlater
      have hneg : -l ∉ s := fun h => Nat.lt_irrefl _ (hvl (-l) h)
      refine ⟨m, ?_, hsettled.cons hneg hforced⟩
      rw [List.foldlM_cons, hsettle]
      exact hm

/-! ### The model of a closed set -/

theorem exists_settled (hS : Closed S) (hvs : vs.Pairwise fun v w => v.index < w.index) :
    ∃ m, modelOf S vs = .ok m ∧ Settled S ∅ vs m := by
  apply foldlM_settle hS hvs
  · intro c hc
    exact hS.eval_empty_ne_false hc
  · intro v _ l hl
    exact absurd hl (Assignment.not_mem_empty l)

theorem Settled.isAssigned_iff_mem (h : Settled S ∅ vs m) :
    m.isAssigned v = true ↔ v ∈ vs := by
  rw [h.isAssigned_iff]
  exact or_iff_right Bool.false_ne_true

/-- A set of clauses, tautologies among them or not, without the empty clause and with all its
resolvents but tautologies: giving one variable after another its value, in increasing order, meets
no value given before and ends with a model of the set, if the variables include those of the
set. -/
theorem modelOf_isSatisfiedBy (hS : Closed S) (hvs : vs.Pairwise fun v w => v.index < w.index)
    (hvars : ∀ c ∈ S, ∀ l ∈ c, l.var ∈ vs) :
    ∃ m, modelOf S vs = .ok m ∧ (∀ v, m.isAssigned v = true ↔ v ∈ vs) ∧
      ∀ c ∈ S, c.isSatisfiedBy m = true := by
  obtain ⟨m, hm, hsettled⟩ := exists_settled hS hvs
  refine ⟨m, hm, fun v => hsettled.isAssigned_iff_mem, fun c hc => ?_⟩
  have hassigned : ∀ l ∈ c, m.isAssigned l.var = true := by
    intro l hl
    apply hsettled.isAssigned_iff_mem.mpr
    exact hvars c hc l hl
  have hdecided := Clause.isSatisfiedBy_or_eval_eq_false hassigned
  exact hdecided.resolve_right (hsettled.eval_ne_false c hc)

/-- The set of `x1 ∨ ¬x1`, `x1 ∨ x2`, `¬x1 ∨ x2` and `x2` is closed.  Its model makes `x2` true,
which was false first, and has a value for `x4`, which does not occur. -/
theorem modelOf_isSatisfiedBy_of_tautology :
    let u : Var := ⟨1, by decide⟩
    let v : Var := ⟨2, by decide⟩
    let w : Var := ⟨4, by decide⟩
    let S : SortedSet Clause := .ofList [.ofList [.pos u, .neg u], .ofList [.pos u, .pos v],
      .ofList [.neg u, .pos v], .unit (.pos v)]
    Closed S ∧ ([u, v, w].Pairwise fun v w => v.index < w.index) ∧
      (∀ c ∈ S, ∀ l ∈ c, l.var ∈ [u, v, w]) ∧
      ∃ m, modelOf S [u, v, w] = .ok m ∧ (∀ x, m.isAssigned x = true ↔ x ∈ [u, v, w]) ∧
        ∀ c ∈ S, c.isSatisfiedBy m = true := by
  intro u v w S
  have hS : Closed S := by decide
  have hvs : [u, v, w].Pairwise fun v w => v.index < w.index := by decide
  have hvars : ∀ c ∈ S.toList, ∀ l ∈ c.toList, l.var ∈ [u, v, w] := by decide
  exact ⟨hS, hvs, hvars, modelOf_isSatisfiedBy hS hvs hvars⟩

end Saturation

end Clausal
