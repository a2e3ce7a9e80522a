import Mathlib.Order.Defs.Unbundled
import Clausal.Proofs.Projection
import Clausal.Proofs.SaturationPasses

/-! # The graded order of clauses

Literals are listed by variable, the positive one before its complement (`Literal.Before`).  Clauses
are listed by the number of their literals, and clauses of one size like words, letter by letter
(`Clause.Before`).  The comparison that runs takes the places of literals as numbers and goes
through two lists at once; `Clause.compare_eq_lt_iff_before` says that it decides this order.

An ordered set looks for a clause by comparing it with others, and takes it for one that it has if
the comparison finds no difference.  `Keeps` says that nothing is lost or doubled by that.  The
saturation asks such a set whether a resolvent is new: `mem_known_of_examineAll` is what happens to
it as pairs are examined, and `mem_known_of_heads` what has happened when a pass begins.

The main statement is `graded_order_keeps_each_clause_once`. -/

namespace Clausal

/-! ### The order of literals -/

namespace Literal

/-- A literal comes before those of later variables, and a positive literal before its
complement. -/
inductive Before : Literal → Literal → Prop
  | of_index {l m : Literal} (h : l.var.index < m.var.index) : Before l m
  | of_sign (v : Var) : Before (.pos v) (.neg v)

variable {l m : Literal} {ls ms : List Literal}

theorem rank_lt_iff_before : l.rank < m.rank ↔ l.Before m := by
  constructor
  · intro h
    rcases Nat.lt_or_eq_of_le (index_le_of_lt (compare_eq_lt.mpr h)) with hlt | heq
    · exact .of_index hlt
    · obtain ⟨v, p⟩ := l
      obtain ⟨w, q⟩ := m
      obtain rfl : v = w := Var.index_inj.mp heq
      cases p with
      | true =>
          cases q with
          | true => exact absurd h (Nat.lt_irrefl _)
          | false => exact .of_sign v
      | false =>
          -- the negative literal has the larger number of the two
          simp only [rank, Bool.false_eq_true, if_false] at h
          split at h <;> omega
  · rintro (h | v)
    · unfold rank
      split <;> split <;> omega
    · exact Nat.lt_succ_self _

theorem compare_eq_lt_iff_before : compare l m = .lt ↔ l.Before m :=
  compare_eq_lt.trans rank_lt_iff_before

/-- The first difference between two lists decides. -/
theorem compare_list_eq_lt_iff : compare ls ms = .lt ↔ List.Lex Before ls ms := by
  induction ls generalizing ms with
  | nil =>
      cases ms with
      | nil => exact iff_of_false nofun nofun
      | cons m ms => exact iff_of_true List.compare_nil_cons .nil
  | cons l ls ih =>
      cases ms with
      | nil => exact iff_of_false (by rw [List.compare_cons_nil]; nofun) nofun
      | cons m ms =>
          rw [List.compare_cons_cons, Ordering.then_eq_lt, compare_eq_lt_iff_before,
            Std.compare_eq_iff_eq, ih, List.cons_lex_cons_iff]

end Literal

/-! ### The order of clauses -/

namespace Clause

variable {c d : Clause}

/-- Smaller clauses come first, and among clauses of one size the one with the earlier literal
where they first differ. -/
def Before (c d : Clause) : Prop :=
  c.size < d.size ∨ c.size = d.size ∧ List.Lex Literal.Before c.toList d.toList

theorem compare_eq_lt_iff_before : compare c d = .lt ↔ c.Before d := by
  have hcompare : compare c d = (compare c.size d.size).then (compare c.toList d.toList) := rfl
  rw [hcompare, Ordering.then_eq_lt, Nat.compare_eq_lt, Nat.compare_eq_eq,
    Literal.compare_list_eq_lt_iff]
  rfl

instance : DecidableRel Before := fun _ _ => decidable_of_iff _ compare_eq_lt_iff_before

/-- One literal comes before two, although `x1` comes before `x2`. -/
example : (unit (.pos ⟨2, by decide⟩)).Before
    (ofList [.pos ⟨1, by decide⟩, .pos ⟨2, by decide⟩]) := by
  decide

theorem compare_eq_eq_iff : compare c d = .eq ↔ ∀ l, l ∈ c ↔ l ∈ d := by
  rw [Std.compare_eq_iff_eq]
  constructor
  · rintro rfl l
    rfl
  · exact ext

/-- Of two clauses one comes first, unless they have the same literals. -/
instance : IsStrictTotalOrder Clause Before where
  irrefl c h := by
    have hlt := compare_eq_lt_iff_before.mpr h
    rw [Std.ReflOrd.compare_self] at hlt
    cases hlt
  trans c d e hcd hde := by
    rw [← compare_eq_lt_iff_before] at hcd hde ⊢
    exact Std.TransCmp.lt_trans hcd hde
  trichotomous c d hcd hdc := by
    rw [← compare_eq_lt_iff_before] at hcd hdc
    cases h : compare c d with
    | lt => exact absurd h hcd
    | eq => exact Std.compare_eq_iff_eq.mp h
    | gt => exact absurd (Std.OrientedCmp.gt_iff_lt.mp h) hdc

/-- A clause lists its literals in their order. -/
theorem pairwise_before_toList (c : Clause) : c.toList.Pairwise Literal.Before :=
  c.literals.increasing.imp Literal.compare_eq_lt_iff_before.mp

end Clause

/-! ### Ordered sets of clauses -/

/-- A set has kept some clauses that were put into it: it lists them in order, and each of them
once, however often it was put in. -/
structure Keeps (S : SortedSet Clause) (offered : List Clause) : Prop where
  increasing : S.toList.Pairwise Clause.Before
  count_eq : ∀ c, S.toList.count c = if c ∈ offered then 1 else 0

theorem keeps_of_mem_iff {S : SortedSet Clause} {offered : List Clause}
    (h : ∀ c, c ∈ S ↔ c ∈ offered) : Keeps S offered where
  increasing := S.increasing.imp Clause.compare_eq_lt_iff_before.mp
  count_eq c := by
    rw [S.nodup.count]
    exact if_congr (h c) rfl rfl

/-- A set that clauses are put into one after another keeps them, and `distinct` lists those that
were new to it. -/
theorem keeps_ofList (cs : List Clause) :
    Keeps (.ofTree (.ofList cs)) cs ∧
      (SortedSet.ofTree (.ofList cs)).toList.Perm (distinct cs) := by
  have hmem : ∀ c, c ∈ Std.TreeSet.ofList cs ↔ c ∈ cs := fun c => by
    rw [Std.TreeSet.mem_ofList, List.contains_iff_mem]
  refine ⟨keeps_of_mem_iff fun c => ?_, SortedSet.perm_ofTree nodup_distinct fun c => ?_⟩
  · rw [SortedSet.mem_ofTree]
    exact hmem c
  · rw [mem_distinct]
    exact hmem c

/-! ### The resolvents of an elimination -/

namespace Formula

variable {F : Formula} {v : Var} {r : Clause}

/-- The resolvents on `v` that say something, each as often as the elimination comes to it. -/
def offersOn (F : Formula) (v : Var) : List Clause :=
  let positives := (F.candidates v).filter fun c => decide (.pos v ∈ c)
  let negatives := (F.candidates v).filter fun c => decide (.neg v ∈ c)
  positives.flatMap fun c =>
    (negatives.map (Clause.resolventOn v c)).filter fun r => !r.isTautology

theorem resolvents_eliminate (F : Formula) (v : Var) :
    (F.eliminate v).resolvents = distinct (F.offersOn v) := rfl

theorem mem_offersOn : r ∈ F.offersOn v ↔
    r.IsConsistent ∧ ∃ c ∈ F, ∃ d ∈ F, c.IsConsistent ∧ d.IsConsistent ∧
      Clause.IsResolvent v c d r := by
  rw [← mem_resolvents, resolvents_eliminate, mem_distinct]

end Formula

/-! ### The clauses that a saturation knows -/

namespace Saturation

variable {F : Formula} {U : List Literal} {st head : Stage U} {k k' : Findings} {c : Clause}
  {p : Clause × Clause} {ps : List (Clause × Clause)}

/-- What a formula offers to the set of known clauses: its clauses that say something. -/
def inputOffers (F : Formula) : List Clause := F.clauses.filter fun c => !c.isTautology

/-- What a pair of clauses offers to the set of known clauses: its resolvent, if there is one and
it says something. -/
def offer? (p : Clause × Clause) : Option Clause :=
  match p.1.resolve p.2 with
  | .error _ => none
  | .ok r => if r.isTautology then none else some r

/-- What the pairs of a pass offer, in the order in which the pass looks at them. -/
def Stage.offers (st : Stage U) : List Clause := (pairs st.processed st.frontier).filterMap offer?

theorem offer?_eq_some : offer? p = some c ↔ p.1.resolve p.2 = .ok c ∧ c.isTautology = false := by
  unfold offer?
  cases p.1.resolve p.2 with
  | error e => exact iff_of_false nofun nofun
  | ok r =>
      dsimp only
      split
      · next htaut =>
          refine iff_of_false nofun ?_
          rintro ⟨⟨⟩, hno⟩
          rw [htaut] at hno
          cases hno
      · next htaut =>
          rw [Option.some.injEq, Except.ok.injEq, iff_self_and]
          rintro rfl
          exact Bool.eq_false_iff.mpr htaut

/-- Nothing but the offer of the pair comes in, and it is in afterwards. -/
theorem mem_known_of_examines (h : Examines p k (.ok k')) :
    c ∈ k'.known ↔ c ∈ k.known ∨ offer? p = some c := by
  rw [offer?_eq_some]
  cases h with
  | unresolved he =>
      rw [he]
      exact (or_iff_left nofun).symm
  | old hr hold =>
      rw [hr, Except.ok.injEq]
      refine ⟨.inl, ?_⟩
      rintro (hc | ⟨rfl, htaut⟩)
      · exact hc
      · exact hold.resolve_left (Bool.eq_false_iff.mp htaut)
  | new hr hne htaut hnew =>
      rw [hr, Except.ok.injEq, mem_tree_insert, or_comm, eq_comm, iff_comm]
      refine or_congr_right (and_iff_left_of_imp ?_)
      rintro rfl
      exact htaut

theorem mem_known_of_examineAll (h : examineAll ps k = .ok k') :
    c ∈ k'.known ↔ c ∈ k.known ∨ c ∈ ps.filterMap offer? := by
  refine examineAll_induction
    (P := fun ps k' => c ∈ k'.known ↔ c ∈ k.known ∨ c ∈ ps.filterMap offer?) h
    (or_iff_left List.not_mem_nil).symm fun done p k₁ k₂ _ hex hk => ?_
  have hone : c ∈ [p].filterMap offer? ↔ offer? p = some c := by simp
  rw [mem_known_of_examines hex, hk, or_assoc, List.filterMap_append, List.mem_append, hone]

theorem mem_known_of_pass (h : pass st = .ok k) : c ∈ k.known ↔ c ∈ st.known ∨ c ∈ st.offers := by
  rw [pass_eq] at h
  exact mem_known_of_examineAll h

theorem Stage.Tidy.perm_known (hst : st.Tidy F) :
    (SortedSet.ofTree st.known).toList.Perm (st.processed ++ st.frontier) := by
  refine SortedSet.perm_ofTree ?_ fun c => (hst.mem_known_iff c).trans List.mem_append.symm
  exact List.Nodup.append hst.nodup_processed hst.nodup_frontier hst.disjoint

/-- When a pass begins, the clauses are known that the passes before it were offered. -/
theorem mem_known_of_heads {before after : List (Stage U)}
    (h : (course st).heads = before ++ head :: after) :
    c ∈ head.known ↔ c ∈ st.known ∨ c ∈ before.flatMap Stage.offers := by
  induction st using Stage.induction generalizing before with
  | finished st hnil =>
      rw [course_of_nil hnil] at h
      cases before <;> cases h
  | refuted st q hne hq =>
      rw [course_of_error hne hq] at h
      cases before with
      | nil =>
          cases h
          exact (or_iff_left List.not_mem_nil).symm
      | cons b bs => cases bs <;> cases h
  | next st k hne hk ih =>
      rw [course_of_ok hne hk] at h
      cases before with
      | nil =>
          cases h
          exact (or_iff_left List.not_mem_nil).symm
      | cons b bs =>
          obtain ⟨rfl, hlater⟩ := List.cons.inj h
          rw [ih hlater, List.flatMap_cons, List.mem_append, ← or_assoc]
          exact or_congr_left (mem_known_of_pass hk)

theorem mem_result_of_course {S : SortedSet Clause} (h : (run st).result = some S) :
    c ∈ S ↔ c ∈ st.known ∨ c ∈ (course st).heads.flatMap Stage.offers := by
  induction st using Stage.induction with
  | finished st hnil =>
      rw [run_of_nil hnil] at h
      cases h
      rw [course_of_nil hnil, SortedSet.mem_ofTree]
      exact (or_iff_left List.not_mem_nil).symm
  | refuted st q hne hq =>
      rw [run_of_error hne hq] at h
      cases h
  | next st k hne hk ih =>
      rw [run_of_ok hne hk] at h
      rw [ih h, course_of_ok hne hk, List.flatMap_cons, List.mem_append, ← or_assoc]
      exact or_congr_left (mem_known_of_pass hk)

theorem mem_known_start_iff : c ∈ (start F).known ↔ c ∈ inputOffers F := by
  rw [mem_known_start, inputOffers, List.mem_filter, Bool.not_eq_true', Formula.mem_clauses]

/-- At any time in a pass, the set of known clauses has kept what was offered to it up to then, and
it lists the clauses that the passes work with. -/
theorem keeps_known {before after : List (Stage (literalsOf F))} {st : Stage (literalsOf F)}
    (h : (courseOf F).heads = before ++ st :: after)
    (hk : examineAll ps ⟨[], st.known⟩ = .ok k) :
    Keeps (.ofTree k.known)
        (inputOffers F ++ before.flatMap Stage.offers ++ ps.filterMap offer?) ∧
      (SortedSet.ofTree k.known).toList.Perm (st.processed ++ st.frontier ++ k.found) := by
  have htidy := tidy_of_mem_courseOf (h ▸ List.mem_append_right before List.mem_cons_self)
  constructor
  · refine keeps_of_mem_iff fun c => ?_
    have hhead : c ∈ st.known ↔ c ∈ inputOffers F ∨ c ∈ before.flatMap Stage.offers := by
      cases hempty : F.hasEmptyClause with
      | true =>
          rw [courseOf_of_hasEmptyClause hempty] at h
          cases before <;> cases h
      | false =>
          rw [courseOf_of_not_hasEmptyClause hempty] at h
          rw [mem_known_of_heads h, mem_known_start_iff]
    rw [SortedSet.mem_ofTree, mem_known_of_examineAll hk, List.mem_append, List.mem_append, hhead]
  · exact perm_known_of_examineAll (by rw [List.append_nil]; exact htidy.perm_known) hk

/-- The set that a saturation ends with has kept what was offered in the whole run. -/
theorem keeps_result {S : SortedSet Clause} (h : (saturate F).result = some S) :
    Keeps S (inputOffers F ++ (courseOf F).heads.flatMap Stage.offers) := by
  refine keeps_of_mem_iff fun c => ?_
  cases hempty : F.hasEmptyClause with
  | true =>
      rw [saturate_of_hasEmptyClause hempty] at h
      cases h
  | false =>
      rw [saturate_of_not_hasEmptyClause hempty] at h
      rw [courseOf_of_not_hasEmptyClause hempty, mem_result_of_course h, mem_known_start_iff,
        List.mem_append]

end Saturation

open Saturation in
/-- Clauses are compared by their number of literals and then by the literals in their order, by
variable and the positive one first.  This is a strict total order: swapping two clauses reverses
the result, and only clauses with the same literals are found equal.

So ordered sets neither lose nor double a clause.  A set that clauses are put into keeps them and
tells which of them were new.  In an elimination, the new ones among the resolvents that it comes to
are the resolvents of the result.  In a saturation, the set of known clauses has kept what was
offered to it at any time, when it agrees with the lists of clauses that the passes work with, and
in the end. -/
theorem graded_order_keeps_each_clause_once :
    (∀ c : Clause, c.toList.Pairwise Literal.Before) ∧
    (∀ c d : Clause, compare c d = .lt ↔ c.Before d) ∧
    IsStrictTotalOrder Clause Clause.Before ∧
    (∀ c d : Clause, compare d c = (compare c d).swap) ∧
    (∀ c d : Clause, compare c d = .eq ↔ ∀ l, l ∈ c ↔ l ∈ d) ∧
    (∀ cs : List Clause, Keeps (.ofTree (.ofList cs)) cs ∧
      (SortedSet.ofTree (.ofList cs)).toList.Perm (distinct cs)) ∧
    (∀ (F : Formula) (v : Var),
      (SortedSet.ofTree (.ofList (F.offersOn v))).toList.Perm (F.eliminate v).resolvents ∧
      ∀ r, r ∈ F.offersOn v ↔ r.IsConsistent ∧ ∃ c ∈ F, ∃ d ∈ F,
        c.IsConsistent ∧ d.IsConsistent ∧ Clause.IsResolvent v c d r) ∧
    (∀ (F : Formula) (before after : List (Stage (literalsOf F))) st,
      (courseOf F).heads = before ++ st :: after → ∀ ps k, examineAll ps ⟨[], st.known⟩ = .ok k →
        Keeps (.ofTree k.known)
            (inputOffers F ++ before.flatMap Stage.offers ++ ps.filterMap offer?) ∧
          (SortedSet.ofTree k.known).toList.Perm (st.processed ++ st.frontier ++ k.found)) ∧
    ∀ F S, (saturate F).result = some S →
      Keeps S (inputOffers F ++ (courseOf F).heads.flatMap Stage.offers) := by
  refine ⟨Clause.pairwise_before_toList, fun c d => Clause.compare_eq_lt_iff_before,
    inferInstance, fun c d => Std.OrientedCmp.eq_swap, fun c d => Clause.compare_eq_eq_iff,
    keeps_ofList, fun F v => ?_, ?_, fun F S => keeps_result⟩
  · rw [Formula.resolvents_eliminate]
    exact ⟨(keeps_ofList _).2, fun r => Formula.mem_offersOn⟩
  · intro F before after st h ps k hk
    exact keeps_known h hk

end Clausal
