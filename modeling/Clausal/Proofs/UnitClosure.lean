import Mathlib.Order.Bounds.Basic
import Clausal.Proofs.ClauseOrder

/-! # Unit propagation is closure under unit clauses

`UnitClosed F s L` says of a set `L` of literals that it holds the ones that are true under `s`,
and each literal of a clause of `F` whose other literals all have their complements in `L`.  The
forced literals are the least such set (`isLeast_forces`), and what they leave of a formula is a
matter of each clause by itself (`IsResidue`).

The main statement is `propagate_isLeast`.  The run takes one unit after another, first units
first; none of this is left in its result, which is told by the least closed set alone and is the
same for all formulas with the same clauses. -/

namespace Clausal.Formula

variable {F : Formula} {s t : Assignment} {L : Set Literal}

/-- A set of literals that holds what is true and what the clauses make true of it. -/
structure UnitClosed (F : Formula) (s : Assignment) (L : Set Literal) : Prop where
  given_mem : ∀ l ∈ s, l ∈ L
  unit_mem : ∀ c ∈ F, ∀ l ∈ c, (∀ m ∈ c, m ≠ l → -m ∈ L) → l ∈ L

/-- The forced literals are the least set that unit clauses do not lead out of. -/
theorem isLeast_forces (F : Formula) (s : Assignment) :
    IsLeast {L | UnitClosed F s L} {l | Forces F s l} := by
  constructor
  · exact ⟨fun l hl => .given hl, fun c hc l hl h => .unit hc hl h⟩
  · intro L hL l hl
    induction hl with
    | given h => exact hL.given_mem _ h
    | unit hc hl _ ih => exact hL.unit_mem _ hc _ hl ih

open scoped Classical in
/-- The second formula lists the clauses of the first that hold none of the literals, each
without the literals whose complements are among them. -/
def IsResidue (F : Formula) (L : Set Literal) (G : Formula) : Prop :=
  List.Forall₂ (fun c d => ∀ l, l ∈ d ↔ l ∈ c ∧ -l ∉ L)
    (F.clauses.filter fun c => decide (∀ l ∈ c, l ∉ L)) G.clauses

theorem isResidue_residue (hL : ∀ l, l ∈ t ↔ l ∈ L) : F.IsResidue L (F.residue t) := by
  obtain ⟨cs⟩ := F
  unfold IsResidue residue
  induction cs with
  | nil => exact .nil
  | cons c cs ih =>
      show List.Forall₂ _ ((c :: cs).filter _) ((c :: cs).filterMap (·.residue? t))
      by_cases hopen : ∀ l ∈ c, l ∉ t
      · obtain ⟨d, hd⟩ := Clause.exists_residue hopen
        have hmem := (Clause.residue?_eq_some.mp hd).2
        simp only [hL] at hopen hmem
        rw [List.filter_cons_of_pos (by simpa using hopen),
          List.filterMap_cons_some (f := fun c : Clause => c.residue? t) hd]
        exact .cons hmem ih
      · have hnone : c.residue? t = none := by
          rw [Option.eq_none_iff_forall_ne_some]
          exact fun d hd => hopen (Clause.residue?_eq_some.mp hd).1
        simp only [hL] at hopen
        rw [List.filter_cons_of_neg (by simpa using hopen),
          List.filterMap_cons_none (f := fun c : Clause => c.residue? t) hnone]
        exact ih

/-- Propagation finds the least set of literals that unit clauses do not lead out of: it fails if
there is an empty clause or if the set contradicts itself, and else makes exactly this set true
and leaves what that leaves of the clauses.  The order of the clauses and their repetitions
play no part. -/
theorem propagate_isLeast (F : Formula) (s : Assignment) :
    ∃ L : Set Literal, IsLeast {L | UnitClosed F s L} L ∧
      ((∃ e, (F.propagate s).outcome = .error (.conflict e)) ↔ ∅ ∈ F ∨ ∃ l ∈ L, -l ∈ L) ∧
      (¬ (∅ ∈ F ∨ ∃ l ∈ L, -l ∈ L) → ∃ G, (F.propagate s).outcome = .ok G ∧
        (∀ l, l ∈ (F.propagate s).state ↔ l ∈ L) ∧ F.IsResidue L G) ∧
      ∀ F' : Formula, (∀ c, c ∈ F ↔ c ∈ F') →
        (∃ e e', (F.propagate s).outcome = .error (.conflict e) ∧
          (F'.propagate s).outcome = .error (.conflict e')) ∨
        ∃ G G', (F.propagate s).outcome = .ok G ∧ (F'.propagate s).outcome = .ok G' ∧
          (F.propagate s).state = (F'.propagate s).state ∧ ∀ c, c ∈ G ↔ c ∈ G' := by
  refine ⟨{l | Forces F s l}, isLeast_forces F s, ?_⟩
  rw [← and_assoc]
  constructor
  · have hclosure := propagate_closure F s
    generalize (F.propagate s).outcome = r, (F.propagate s).state = t at hclosure
    cases hclosure with
    | refuted hno => exact ⟨iff_of_true ⟨_, rfl⟩ hno, fun h => absurd hno h⟩
    | finished hF ht =>
        refine ⟨iff_of_false nofun (not_or_intro hF (not_clashes ht)), fun _ => ?_⟩
        exact ⟨_, rfl, ht, isResidue_residue ht⟩
  · intro F' hsame
    rcases propagate_congr hsame s with herror | ⟨G, G', hG, hG', hclauses, hstate⟩
    · exact .inl herror
    · exact .inr ⟨G, G', hG, hG', hstate, hclauses⟩

end Clausal.Formula
