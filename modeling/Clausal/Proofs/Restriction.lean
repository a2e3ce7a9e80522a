import Mathlib.Order.Bounds.Basic
import Clausal.Proofs.ForcedLiterals

/-! # What an assignment leaves of a formula

`F.under s` makes one literal of `s` after another true and stops at the first that would empty a
clause.  What it comes to is a matter of each clause by itself: it stops if some clause that is not
empty is false under `s`, and else it leaves the residue (`Restricts`, `restricts_foldlM`).  A step
neither makes nor mends a false clause (`falsified_condition`), so this holds of the literals in any
order.

In the order of the variables the first step that fails belongs to a false clause that ends before
all others do (`isLeast_of_under`): the values of the smaller variables alone leave a unit there,
and make no clause false.

The value of the formula can be read off what is left.  The main statement is
`under_agrees_with_eval`. -/

namespace Clausal

namespace Clause

variable {c : Clause} {s : Assignment} {l : Literal}

/-- Nothing but the complement of a true literal may be left of a false clause. -/
theorem eval_eq_false_of_rest (hl : l ∈ s) (h : ∀ m ∈ c, m ≠ -l → -m ∈ s) :
    c.eval s = some false := by
  apply eval_eq_false.mpr
  intro m hm
  by_cases hml : m = -l
  · rw [hml, Literal.neg_neg]
    exact hl
  · exact h m hm hml

theorem eval_erase (hl : l ∈ s) :
    (c.erase (-l)).eval s = some false ↔ c.eval s = some false := by
  constructor
  · intro h
    apply eval_eq_false_of_rest hl
    intro m hm hml
    exact eval_eq_false.mp h m (mem_erase.mpr ⟨hm, hml⟩)
  · intro h
    apply eval_eq_false.mpr
    intro m hm
    exact eval_eq_false.mp h m (mem_erase.mp hm).1

end Clause

namespace Formula

variable {F G : Formula} {s : Assignment} {c : Clause} {l : Literal} {ls : List Literal}
  {e : Conflict}

/-! ### False clauses -/

/-- The clauses that are not empty and that the assignment makes false. -/
def falsified (F : Formula) (s : Assignment) : Set Clause :=
  {c | c ∈ F ∧ c ≠ ∅ ∧ c.eval s = some false}

/-- The numbers of the last variables of these clauses. -/
def lastIndices (F : Formula) (s : Assignment) : Set Nat :=
  {n | ∃ c ∈ F.falsified s, IsGreatest {k | ∃ v ∈ c.vars, v.index = k} n}

theorem falsified_eq_empty_of_openIn (h : F.OpenIn s) : F.falsified s = ∅ := by
  apply Set.eq_empty_of_forall_notMem
  rintro c ⟨hc, hne, hfalse⟩
  have hno : ∀ l, l ∉ c := by
    intro l hl
    have hneg : -l ∈ s := Clause.eval_eq_false.mp hfalse l hl
    exact Assignment.neg_not_mem_of_isAssigned (h l.var (mem_vars_of_mem hc hl)) hneg
  apply hne
  apply Clause.isEmpty_iff_eq_empty.mp
  exact Clause.isEmpty_iff.mpr hno

/-- Making a true literal true neither makes a clause false nor mends one. -/
theorem falsified_condition (h : F.condition l = .ok G) (hl : l ∈ s) :
    (G.falsified s).Nonempty ↔ (F.falsified s).Nonempty := by
  constructor
  · rintro ⟨d, hd, hne, hfalse⟩
    obtain ⟨c, hc, -, rfl⟩ := (mem_condition h).mp hd
    refine ⟨c, hc, ?_, (Clause.eval_erase hl).mp hfalse⟩
    rintro rfl
    exact hne rfl
  · rintro ⟨c, hc, hne, hfalse⟩
    have hlc : l ∉ c := by
      intro hlc
      exact Assignment.neg_not_mem hl (Clause.eval_eq_false.mp hfalse l hlc)
    have hd : c.erase (-l) ∈ G := (mem_condition h).mpr ⟨c, hc, hlc, rfl⟩
    exact ⟨_, hd, erase_ne_empty h hc hne, (Clause.eval_erase hl).mpr hfalse⟩

theorem mem_falsified_of_condition_error (h : F.condition l = .error e) (hl : l ∈ s) :
    e.clause ∈ F.falsified s := by
  obtain ⟨hmem, hunit⟩ := unit?_of_condition_error h
  rw [Clause.eq_unit_of_unit? hunit] at hmem ⊢
  refine ⟨hmem, by simp, ?_⟩
  simp [Clause.eval_eq_false, hl]

/-! ### One literal after another -/

theorem falsified_foldlM_condition (h : ls.foldlM condition F = .ok G) (hls : ∀ l ∈ ls, l ∈ s) :
    (G.falsified s).Nonempty ↔ (F.falsified s).Nonempty := by
  induction ls generalizing F with
  | nil =>
      cases h
      rfl
  | cons l ls ih =>
      obtain ⟨H, hH, h⟩ := foldlM_condition_cons.mp h
      rw [ih h fun m hm => hls m (List.mem_cons_of_mem l hm)]
      exact falsified_condition hH (hls l List.mem_cons_self)

/-- The step that fails, after the ones that did not. -/
theorem exists_of_foldlM_condition_error (h : ls.foldlM condition F = .error e) :
    ∃ as l bs H, ls = as ++ l :: bs ∧ as.foldlM condition F = .ok H ∧
      H.condition l = .error e := by
  induction ls generalizing F with
  | nil => cases h
  | cons l ls ih =>
      rw [List.foldlM_cons] at h
      cases hH : F.condition l with
      | error e' =>
          rw [hH] at h
          cases h
          exact ⟨[], l, ls, F, rfl, rfl, hH⟩
      | ok H =>
          rw [hH] at h
          obtain ⟨as, m, bs, I, rfl, has, hm⟩ := ih h
          exact ⟨l :: as, m, bs, I, rfl, foldlM_condition_cons.mpr ⟨H, hH, has⟩, hm⟩

/-- What making the literals of an assignment true comes to, told clause by clause. -/
inductive Restricts (F : Formula) (s : Assignment) : Except Conflict Formula → Prop
  | refuted {e : Conflict} (h : (F.falsified s).Nonempty) : Restricts F s (.error e)
  | left (h : F.falsified s = ∅) : Restricts F s (.ok (F.residue s))

/-- The literals may be made true in any order. -/
theorem restricts_foldlM (hls : ∀ l, l ∈ ls ↔ l ∈ s) : Restricts F s (ls.foldlM condition F) := by
  have hsub : ∀ l ∈ ls, l ∈ s := fun l hl => (hls l).mp hl
  cases h : ls.foldlM condition F with
  | error e =>
      obtain ⟨as, l, bs, H, rfl, has, hl⟩ := exists_of_foldlM_condition_error h
      have hfalse := mem_falsified_of_condition_error hl (hsub l (by simp))
      apply Restricts.refuted
      rw [← falsified_foldlM_condition has fun m hm => hsub m (List.mem_append_left _ hm)]
      exact ⟨_, hfalse⟩
  | ok G =>
      have hopen : G.OpenIn s := openIn_foldlM_condition h fun l hl => (hls l).mpr hl
      have hnone : F.falsified s = ∅ := by
        rw [← Set.not_nonempty_iff_eq_empty, ← falsified_foldlM_condition h hsub,
          Set.not_nonempty_iff_eq_empty]
        exact falsified_eq_empty_of_openIn hopen
      have hG : G = F.residue s := by
        rw [← residue_foldlM_condition h hsub, residue_of_openIn hopen]
      rw [hG]
      exact .left hnone

theorem foldlM_condition_error_iff (hls : ∀ l, l ∈ ls ↔ l ∈ s) :
    (∃ e, ls.foldlM condition F = .error e) ↔ (F.falsified s).Nonempty := by
  have h := restricts_foldlM (F := F) hls
  generalize ls.foldlM condition F = r at h
  cases h with
  | refuted h => exact iff_of_true ⟨_, rfl⟩ h
  | left h => exact iff_of_false nofun (Set.not_nonempty_iff_eq_empty.mpr h)

theorem foldlM_condition_ok_iff (hls : ∀ l, l ∈ ls ↔ l ∈ s) :
    ls.foldlM condition F = .ok G ↔ F.falsified s = ∅ ∧ G = F.residue s := by
  have h := restricts_foldlM (F := F) hls
  generalize ls.foldlM condition F = r at h
  cases h with
  | refuted h => exact iff_of_false nofun fun hnone => h.ne_empty hnone.1
  | left h => simp [h, eq_comm]

theorem under_error_iff : (∃ e, F.under s = .error e) ↔ (F.falsified s).Nonempty :=
  foldlM_condition_error_iff fun _ => Iff.rfl

theorem under_ok_iff : F.under s = .ok G ↔ F.falsified s = ∅ ∧ G = F.residue s :=
  foldlM_condition_ok_iff fun _ => Iff.rfl

/-! ### The conflict -/

/-- A step that fails in a residue leaves the complement of its literal alone in some clause. -/
theorem exists_of_condition_residue (h : (F.residue s).condition l = .error e) :
    e.clause = .unit (-l) ∧ ∃ c ∈ F, -l ∈ c ∧ ∀ m ∈ c, m ≠ -l → -m ∈ s := by
  obtain ⟨hmem, hunit⟩ := unit?_of_condition_error h
  have hclause := Clause.eq_unit_of_unit? hunit
  rw [hclause] at hmem
  obtain ⟨c, hc, -, hres⟩ := mem_residue.mp hmem
  simp only [Clause.mem_unit] at hres
  refine ⟨hclause, c, hc, ((hres (-l)).mp rfl).1, fun m hm hne => ?_⟩
  by_contra hms
  exact hne ((hres m).mpr ⟨hm, hms⟩)

/-- The literal at which `under` stops: the values of the smaller variables make no clause false,
but leave nothing of some clause but the complement of the literal. -/
theorem exists_of_under_error (h : F.under s = .error e) :
    ∃ l ∈ s, e.clause = .unit (-l) ∧ F.falsified (s.below l.var) = ∅ ∧
      ∃ c ∈ F, -l ∈ c ∧ ∀ m ∈ c, m ≠ -l → -m ∈ s.below l.var := by
  obtain ⟨as, l, bs, H, hlist, has, hl⟩ := exists_of_foldlM_condition_error h
  have hls : l ∈ s := by
    rw [← Assignment.mem_literals, ← SortedSet.mem_toList, hlist]
    simp
  obtain ⟨hnone, rfl⟩ := (foldlM_condition_ok_iff fun m =>
    (Assignment.mem_below_iff_of_append hlist).symm).mp has
  obtain ⟨hclause, hrest⟩ := exists_of_condition_residue hl
  exact ⟨l, hls, hclause, hnone, hrest⟩

/-- The clause that `under` stops at ends with the literal, and no false clause ends before. -/
theorem isLeast_of_under (h : F.under s = .error e) :
    ∃ l ∈ s, e.clause = .unit (-l) ∧ IsLeast (F.lastIndices s) l.var.index := by
  obtain ⟨l, hl, hclause, hnone, c, hc, hlc, hrest⟩ := exists_of_under_error h
  have hbelow : ∀ m ∈ c, m ≠ -l → -m ∈ s ∧ m.var.index < l.var.index := fun m hm hne =>
    Assignment.mem_below.mp (hrest m hm hne)
  refine ⟨l, hl, hclause, ⟨c, ⟨hc, ?_, ?_⟩, ?_, ?_⟩, ?_⟩
  · rintro rfl
    exact Clause.not_mem_empty _ hlc
  · exact Clause.eval_eq_false_of_rest hl fun m hm hne => (hbelow m hm hne).1
  · exact ⟨l.var, Clause.mem_vars.mpr ⟨-l, hlc, rfl⟩, rfl⟩
  · rintro k ⟨v, hv, rfl⟩
    obtain ⟨m, hm, rfl⟩ := Clause.mem_vars.mp hv
    by_cases hml : m = -l
    · rw [hml, Literal.var_neg]
    · exact Nat.le_of_lt (hbelow m hm hml).2
  · -- a false clause of smaller variables only would be false below `l` already
    rintro n ⟨d, ⟨hd, hne, hfalse⟩, -, hmax⟩
    by_contra hlt
    have hdfalse : d ∈ F.falsified (s.below l.var) := by
      refine ⟨hd, hne, Clause.eval_eq_false.mpr fun m hm => ?_⟩
      have hle : m.var.index ≤ n := hmax ⟨m.var, Clause.mem_vars.mpr ⟨m, hm, rfl⟩, rfl⟩
      apply Assignment.mem_below.mpr
      rw [Literal.var_neg]
      exact ⟨Clause.eval_eq_false.mp hfalse m hm, by omega⟩
    rw [hnone] at hdfalse
    exact hdfalse

/-! ### The value of the formula -/

/-- The residue in terms of values: the clauses that are not true, without their false literals. -/
theorem residue_eq (F : Formula) (s : Assignment) :
    F.residue s = ⟨(F.clauses.filter fun c => c.eval s != some true).map fun c =>
      ⟨c.literals.filter fun l => l.eval s != some false⟩⟩ := by
  have hlits : ∀ c : Clause, c.literals.filter (fun l => decide (-l ∉ s)) =
      c.literals.filter fun l => l.eval s != some false := by
    intro c
    apply SortedSet.ext
    intro l
    simp [Literal.eval_eq_false]
  rw [residue, ← List.filterMap_eq_map, List.filterMap_filter]
  congr 1
  apply List.filterMap_congr
  intro c _
  unfold Clause.residue? Clause.isSatisfiedBy
  rw [hlits]
  by_cases hc : c.eval s = some true <;> simp [hc]

theorem residue_eq_empty_iff : F.residue s = ∅ ↔ F.eval s = some true := by
  rw [eval_eq_true, residue_eq]
  show (⟨_⟩ : Formula) = ⟨[]⟩ ↔ _
  simp

theorem empty_mem_residue_iff : ∅ ∈ F.residue s ↔ F.eval s = some false := by
  rw [mem_residue, eval_eq_false]
  refine exists_congr fun c => and_congr_right fun _ => ?_
  rw [Clause.eval_eq_false]
  constructor
  · rintro ⟨-, hres⟩ l hl
    by_contra hneg
    exact Clause.not_mem_empty l ((hres l).mpr ⟨hl, hneg⟩)
  · intro hfalse
    constructor
    · intro l hl hls
      exact Assignment.neg_not_mem hls (hfalse l hl)
    · intro l
      simpa using hfalse l

theorem eval_eq_true_iff_under : F.eval s = some true ↔ F.under s = .ok ∅ := by
  rw [under_ok_iff, eq_comm (b := F.residue s), residue_eq_empty_iff]
  refine (and_iff_right_of_imp fun htrue => ?_).symm
  apply Set.eq_empty_of_forall_notMem
  rintro c ⟨hc, -, hfalse⟩
  rw [eval_eq_true.mp htrue c hc] at hfalse
  cases hfalse

theorem eval_eq_false_iff_under : F.eval s = some false ↔
    (∃ e, F.under s = .error e) ∨ ∃ G, F.under s = .ok G ∧ ∅ ∈ G := by
  rw [under_error_iff]
  constructor
  · intro hfalse
    rcases (F.falsified s).eq_empty_or_nonempty with hnone | hsome
    · exact .inr ⟨_, under_ok_iff.mpr ⟨hnone, rfl⟩, empty_mem_residue_iff.mpr hfalse⟩
    · exact .inl hsome
  · rintro (⟨c, hc, -, hfalse⟩ | ⟨G, hG, hempty⟩)
    · exact eval_eq_false.mpr ⟨c, hc, hfalse⟩
    · obtain ⟨-, rfl⟩ := under_ok_iff.mp hG
      exact empty_mem_residue_iff.mp hempty

theorem eval_eq_none_iff_under :
    F.eval s = none ↔ ∃ G, F.under s = .ok G ∧ G ≠ ∅ ∧ ∅ ∉ G := by
  have hvalues : F.eval s = none ↔ F.eval s ≠ some false ∧ F.eval s ≠ some true := by
    rw [Option.eq_none_iff_forall_ne_some, Bool.forall_bool]
  rw [hvalues, ne_eq, ne_eq, eval_eq_false_iff_under, eval_eq_true_iff_under]
  cases F.under s with
  | error e => simp
  | ok G => simp [and_comm]

/-- Making the literals of an assignment true one after another agrees with doing so at once, clause
by clause.  It stops if some clause that is not empty is false, and then at the last literal of such
a clause, of all these literals the first.  Otherwise it leaves the clauses that are not true, in
their order and without their false literals.  The literals may come in any order, but for which
conflict is found.  And the value of the formula is true if no clause is left, false if it stopped
or an empty clause is left, and open in all other cases. -/
theorem under_agrees_with_eval (F : Formula) (s : Assignment) :
    ((∃ e, F.under s = .error e) ↔ (F.falsified s).Nonempty) ∧
    (∀ e, F.under s = .error e →
      ∃ l ∈ s, e.clause = .unit (-l) ∧ IsLeast (F.lastIndices s) l.var.index) ∧
    (¬ (F.falsified s).Nonempty → F.under s =
      .ok ⟨(F.clauses.filter fun c => c.eval s != some true).map fun c =>
        ⟨c.literals.filter fun l => l.eval s != some false⟩⟩) ∧
    (∀ ls : List Literal, ls.Perm s.literals.toList →
      ((∃ e, ls.foldlM condition F = .error e) ↔ ∃ e, F.under s = .error e) ∧
      ∀ G, ls.foldlM condition F = .ok G ↔ F.under s = .ok G) ∧
    (F.eval s = some true ↔ F.under s = .ok ∅) ∧
    (F.eval s = some false ↔
      (∃ e, F.under s = .error e) ∨ ∃ G, F.under s = .ok G ∧ ∅ ∈ G) ∧
    (F.eval s = none ↔ ∃ G, F.under s = .ok G ∧ G ≠ ∅ ∧ ∅ ∉ G) := by
  refine ⟨under_error_iff, fun e he => isLeast_of_under he, fun hnone => ?_, fun ls hls => ?_,
    eval_eq_true_iff_under, eval_eq_false_iff_under, eval_eq_none_iff_under⟩
  · rw [← residue_eq]
    exact under_ok_iff.mpr ⟨Set.not_nonempty_iff_eq_empty.mp hnone, rfl⟩
  · have hmem : ∀ l, l ∈ ls ↔ l ∈ s := fun l => hls.mem_iff
    constructor
    · rw [foldlM_condition_error_iff hmem, under_error_iff]
    · intro G
      rw [foldlM_condition_ok_iff hmem, under_ok_iff]

/-- If `x1`, `x2` and `x3` are true, both of the clauses `¬x3` and `¬x1 ∨ ¬x2` are false.  The
second one ends first, at `x2`.  In the opposite order there is a conflict as well, but the other
one. -/
theorem under_agrees_with_eval_of_two_conflicts :
    let u : Var := ⟨1, by decide⟩
    let v : Var := ⟨2, by decide⟩
    let w : Var := ⟨3, by decide⟩
    let F : Formula := ⟨[.unit (.neg w), .ofList [.neg u, .neg v]]⟩
    let s := (((∅ : Assignment).assign (.pos u)).assign (.pos v)).assign (.pos w)
    F.under s = .error ⟨.unit (.neg v)⟩ ∧ IsLeast (F.lastIndices s) 2 ∧
      F.eval s = some false ∧ (∃ e, [.pos w, .pos v, .pos u].foldlM condition F = .error e) ∧
      [.pos w, .pos v, .pos u].foldlM condition F = .error ⟨.unit (.neg w)⟩ := by
  intro u v w F s
  have hstop : F.under s = .error ⟨.unit (.neg v)⟩ := by decide
  obtain ⟨-, hfirst, -, horder, -, hfalse, -⟩ := under_agrees_with_eval F s
  obtain ⟨l, -, hclause, hleast⟩ := hfirst _ hstop
  have hl : .neg v = -l := by
    rw [← Clause.mem_unit, ← hclause]
    exact Clause.mem_unit.mpr rfl
  have hindex : l.var.index = 2 := by
    rw [← Literal.var_neg, ← hl]
    rfl
  rw [hindex] at hleast
  have hperm : [.pos w, .pos v, .pos u].Perm s.literals.toList := by decide
  exact ⟨hstop, hleast, hfalse.mpr (.inl ⟨_, hstop⟩), (horder _ hperm).1.mpr ⟨_, hstop⟩, by decide⟩

end Formula

end Clausal
