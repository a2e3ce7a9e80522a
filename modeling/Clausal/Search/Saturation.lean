import Clausal.Verdict

/-! # Deciding by saturation

A set of clauses is closed under resolution by resolving every pair of its clauses and adding
what is new and says something, until a pass over the pairs finds nothing new.  The formula has no
model if and only if the empty clause comes up on the way.

A pass resolves the clauses of the frontier, which the pass before it found, with all older
clauses and with each other, so that every pair is looked at once.  How two clauses are resolved
and what is done when a pass begins are the steps of a run, which takes them in any monad; they
can keep a record, and those of `saturate` keep none.

What a pair can do to the findings of a pass is told once, by `Examines`.  All clauses are over the
literals of the formula, so there are finitely many of them, and each pass but the last adds one.

A model of a closed set is read off by giving the variables their values in order: false, unless
that makes a clause false whose last variable this is. -/

namespace Clausal.Saturation

/-! ### The clauses over given literals -/

/-- All clauses over the literals of a list. -/
def clausesOver : List Literal → List Clause
  | [] => [∅]
  | l :: ls => clausesOver ls ++ (clausesOver ls).map (Clause.unit l).union

theorem mem_clausesOver {ls : List Literal} {c : Clause} (h : ∀ l ∈ c, l ∈ ls) :
    c ∈ clausesOver ls := by
  induction ls generalizing c with
  | nil =>
      refine List.mem_singleton.mpr (Clause.ext fun l => ⟨fun hl => ?_, fun hl => ?_⟩)
      · exact absurd (h l hl) List.not_mem_nil
      · exact absurd hl (Clause.not_mem_empty l)
  | cons m ls ih =>
      rw [clausesOver, List.mem_append, List.mem_map]
      by_cases hm : m ∈ c
      · refine .inr ⟨c.erase m, ih fun l hl => ?_, Clause.ext fun l => ?_⟩
        · rw [Clause.mem_erase] at hl
          exact (List.mem_cons.mp (h l hl.1)).resolve_left hl.2
        · rw [Clause.mem_union, Clause.mem_unit, Clause.mem_erase]
          by_cases hl : l = m <;> simp [hl, hm]
      · refine .inl (ih fun l hl => (List.mem_cons.mp (h l hl)).resolve_left ?_)
        rintro rfl
        exact hm hl

/-- How many clauses over the literals of `U` are not in the set. -/
def missing (U : List Literal) (known : Std.TreeSet Clause) : Nat :=
  ((clausesOver U).filter fun c => decide (c ∉ known)).length

theorem missing_lt {U : List Literal} {known more : Std.TreeSet Clause} {c : Clause}
    (h : ∀ d ∈ known, d ∈ more) (hU : ∀ l ∈ c, l ∈ U) (hc : c ∉ known) (hm : c ∈ more) :
    missing U more < missing U known := by
  have heq : (clausesOver U).filter (fun d => decide (d ∉ more)) =
      ((clausesOver U).filter fun d => decide (d ∉ known)).filter fun d => decide (d ∉ more) := by
    rw [List.filter_filter]
    refine List.filter_congr fun d _ => ?_
    by_cases hd : d ∈ known
    · simp [hd, h d hd]
    · simp [hd]
  rw [missing, heq]
  refine List.length_filter_lt_length_iff_exists.mpr ⟨c, ?_, by simp [hm]⟩
  exact List.mem_filter.mpr ⟨mem_clausesOver hU, by simp [hc]⟩

/-! ### Passes -/

/-- What the head of a pass knows. -/
structure Stage (U : List Literal) where
  /-- The clauses that have been resolved with each other. -/
  processed : List Clause
  /-- The clauses that are new since the pass before. -/
  frontier : List Clause
  /-- All of these clauses. -/
  known : Std.TreeSet Clause
  /-- Number of passes so far. -/
  passes : Nat
  literals_mem : ∀ c ∈ processed ++ frontier, ∀ l ∈ c, l ∈ U

/-- The pairs that a pass looks at: each clause of the frontier with the older clauses and with
the clauses that follow it in the frontier. -/
def pairs (processed : List Clause) : List Clause → List (Clause × Clause)
  | [] => []
  | c :: cs => (processed ++ cs).map (c, ·) ++ pairs processed cs

theorem mem_of_mem_pairs {processed frontier : List Clause} {c d : Clause}
    (h : (c, d) ∈ pairs processed frontier) :
    c ∈ processed ++ frontier ∧ d ∈ processed ++ frontier := by
  induction frontier with
  | nil => cases h
  | cons b cs ih =>
      rcases List.mem_append.mp h with h | h
      · obtain ⟨x, hx, heq⟩ := List.mem_map.mp h
        cases heq
        rw [List.mem_append] at hx
        exact ⟨List.mem_append_right _ List.mem_cons_self,
          List.mem_append.mpr (hx.imp_right (List.mem_cons_of_mem _))⟩
      · have := ih h
        rw [List.mem_append, List.mem_append] at this
        exact ⟨List.mem_append.mpr (this.1.imp_right (List.mem_cons_of_mem _)),
          List.mem_append.mpr (this.2.imp_right (List.mem_cons_of_mem _))⟩

/-- What a pass has found so far. -/
structure Findings where
  /-- The new clauses, the latest first. -/
  found : List Clause
  /-- The clauses known at the head of the pass and the new ones. -/
  known : Std.TreeSet Clause

/-- Take up what a pair of clauses resolves to, and fail with the pair if that is the empty
clause. -/
def Findings.takeUp (k : Findings) (p : Clause × Clause) :
    Except ResolutionError Clause → Except (Clause × Clause) Findings
  | .error _ => .ok k
  | .ok r =>
      if r.isEmpty then .error p
      else if r.isTautology || decide (r ∈ k.known) then .ok k
      else .ok ⟨r :: k.found, k.known.insert r⟩

section Loop

variable {m : Type → Type} [Monad m]
  (resolve : Clause → Clause → m (Except ResolutionError Clause))

@[inline]
def examineWith (p : Clause × Clause) (k : Findings) : m (Except (Clause × Clause) Findings) := do
  return k.takeUp p (← resolve p.1 p.2)

/-- Examine pairs one after another. -/
@[specialize]
def examineAllWith : List (Clause × Clause) → Findings → m (Except (Clause × Clause) Findings)
  | [], k => return .ok k
  | p :: ps, k => do
      match ← examineWith resolve p k with
      | .error q => return .error q
      | .ok k' => examineAllWith ps k'

/-- Examine the pairs of each clause of the frontier in turn. -/
@[specialize]
def examineFrontierWith (processed : List Clause) :
    List Clause → Findings → m (Except (Clause × Clause) Findings)
  | [], k => return .ok k
  | c :: cs, k => do
      match ← examineAllWith resolve ((processed ++ cs).map (c, ·)) k with
      | .error q => return .error q
      | .ok k' => examineFrontierWith processed cs k'

theorem examineAllWith_append [LawfulMonad m] {ps qs : List (Clause × Clause)} {k : Findings} :
    examineAllWith resolve (ps ++ qs) k = (do
      match ← examineAllWith resolve ps k with
      | .error q => return .error q
      | .ok k' => examineAllWith resolve qs k') := by
  induction ps generalizing k with
  | nil =>
      rw [List.nil_append, examineAllWith, pure_bind]
  | cons p ps ih =>
      rw [List.cons_append, examineAllWith, examineAllWith, bind_assoc]
      refine bind_congr fun r => ?_
      cases r with
      | error q =>
          dsimp only
          rw [pure_bind]
      | ok k' => exact ih

/-- All in all, a pass examines the pairs that it looks at. -/
theorem examineFrontierWith_eq [LawfulMonad m] {processed frontier : List Clause} {k : Findings} :
    examineFrontierWith resolve processed frontier k =
      examineAllWith resolve (pairs processed frontier) k := by
  induction frontier generalizing k with
  | nil => rfl
  | cons c cs ih =>
      rw [examineFrontierWith, pairs, examineAllWith_append]
      refine bind_congr fun r => ?_
      cases r with
      | error q => rfl
      | ok k' => exact ih

end Loop

/-- What a pass does with a pair. -/
def examine (p : Clause × Clause) (k : Findings) : Except (Clause × Clause) Findings :=
  Id.run (examineWith (m := Id) Clause.resolve p k)

def examineAll (ps : List (Clause × Clause)) (k : Findings) :
    Except (Clause × Clause) Findings :=
  Id.run (examineAllWith (m := Id) Clause.resolve ps k)

theorem examineAll_cons (p : Clause × Clause) (ps : List (Clause × Clause)) (k : Findings) :
    examineAll (p :: ps) k =
      match examine p k with
      | .error q => .error q
      | .ok k' => examineAll ps k' := rfl

/-- The steps of a run in a monad: how two clauses are resolved, and what is done when a pass
begins. -/
structure Steps (m : Type → Type) [Monad m] [MonadAttach m] (U : List Literal) where
  resolve : Clause → Clause → m (Except ResolutionError Clause)
  enter : Stage U → m Unit
  /-- Whatever is done besides, the two clauses are resolved. -/
  resolve_eq {c d : Clause} {r : Except ResolutionError Clause}
    (h : MonadAttach.CanReturn (resolve c d) r) : r = c.resolve d

/-- One pass over the pairs of the stage. -/
@[inline]
def Steps.pass {m : Type → Type} [Monad m] [MonadAttach m] {U : List Literal} (S : Steps m U)
    (st : Stage U) : m (Except (Clause × Clause) Findings) :=
  examineFrontierWith S.resolve st.processed st.frontier ⟨[], st.known⟩

variable {U : List Literal}

/-- The steps that leave no trace. -/
def plain : Steps Id U where
  resolve := Clause.resolve
  enter _ := ()
  resolve_eq h := h.symm

def pass (st : Stage U) : Except (Clause × Clause) Findings := Id.run (plain.pass st)

theorem pass_eq (st : Stage U) :
    pass st = examineAll (pairs st.processed st.frontier) ⟨[], st.known⟩ :=
  examineFrontierWith_eq (m := Id) Clause.resolve

/-! ### What a pass finds -/

/-- What a pair of clauses does to the findings. -/
inductive Examines (p : Clause × Clause) (k : Findings) : Except (Clause × Clause) Findings → Prop
  | unresolved {e : ResolutionError} (h : p.1.resolve p.2 = .error e) : Examines p k (.ok k)
  | refuted (h : p.1.resolve p.2 = .ok ∅) : Examines p k (.error p)
  /-- The resolvent says nothing, or it is known. -/
  | old {r : Clause} (h : p.1.resolve p.2 = .ok r) (hold : r.isTautology = true ∨ r ∈ k.known) :
      Examines p k (.ok k)
  | new {r : Clause} (h : p.1.resolve p.2 = .ok r) (hne : r ≠ ∅) (htaut : r.isTautology = false)
      (hnew : r ∉ k.known) : Examines p k (.ok ⟨r :: k.found, k.known.insert r⟩)

theorem examines (p : Clause × Clause) (k : Findings) : Examines p k (examine p k) := by
  have heq : examine p k = k.takeUp p (p.1.resolve p.2) := rfl
  rw [heq]
  cases h : p.1.resolve p.2 with
  | error e => exact .unresolved h
  | ok r =>
      rw [Findings.takeUp]
      split
      · next hempty => exact .refuted (Clause.isEmpty_iff_eq_empty.mp hempty ▸ h)
      · next hne =>
          split
          · next hold =>
              rw [Bool.or_eq_true, decide_eq_true_eq] at hold
              exact .old h hold
          · next hnew =>
              rw [Bool.or_eq_true, not_or, decide_eq_true_eq, Bool.not_eq_true] at hnew
              exact .new h (mt Clause.isEmpty_iff_eq_empty.mpr hne) hnew.1 hnew.2

/-- What each pair that is examined keeps, all of them keep. -/
theorem examineAll_induction {P : List (Clause × Clause) → Findings → Prop}
    {ps : List (Clause × Clause)} {k k' : Findings} (h : examineAll ps k = .ok k') (hk : P [] k)
    (step : ∀ done p k k', p ∈ ps → Examines p k (.ok k') → P done k → P (done ++ [p]) k') :
    P ps k' := by
  induction ps generalizing P k with
  | nil =>
      cases h
      exact hk
  | cons p ps ih =>
      have hp := examines p k
      rw [examineAll_cons] at h
      split at h
      · cases h
      · next k₁ h₁ =>
          rw [h₁] at hp
          -- from here on, the pairs that are done begin with `p`
          refine ih (P := fun done => P (p :: done)) h ?_ fun done q k k' hq => ?_
          · exact step [] p k k₁ List.mem_cons_self hp hk
          · exact step (p :: done) q k k' (List.mem_cons_of_mem p hq)

/-- A pass fails with a pair whose resolvent is empty. -/
theorem resolve_of_examineAll_error {ps : List (Clause × Clause)} {k : Findings}
    {q : Clause × Clause} (h : examineAll ps k = .error q) :
    q ∈ ps ∧ q.1.resolve q.2 = .ok ∅ := by
  induction ps generalizing k with
  | nil => cases h
  | cons p ps ih =>
      have hp := examines p k
      rw [examineAll_cons] at h
      split at h
      · next q' hq =>
          cases h
          rw [hq] at hp
          cases hp with
          | refuted hres => exact ⟨List.mem_cons_self, hres⟩
      · next k₁ h₁ =>
          obtain ⟨hmem, hres⟩ := ih h
          exact ⟨List.mem_cons_of_mem p hmem, hres⟩

/-- What a pass keeps: its findings are over `U`, and they are what was added. -/
structure Sound (U : List Literal) (known : Std.TreeSet Clause) (k : Findings) : Prop where
  known_subset : ∀ c ∈ known, c ∈ k.known
  found_new : ∀ c ∈ k.found, c ∈ k.known ∧ c ∉ known
  found_over : ∀ c ∈ k.found, ∀ l ∈ c, l ∈ U
  known_eq : k.found = [] → k.known = known

theorem Sound.insert {known : Std.TreeSet Clause} {k : Findings} {r : Clause}
    (hk : Sound U known k) (hU : ∀ l ∈ r, l ∈ U) (hnew : r ∉ k.known) :
    Sound U known ⟨r :: k.found, k.known.insert r⟩ where
  known_subset c hc := mem_tree_insert.mpr (.inr (hk.known_subset c hc))
  found_new c hc := by
    rcases List.mem_cons.mp hc with rfl | hc
    · exact ⟨mem_tree_insert.mpr (.inl rfl), fun h => hnew (hk.known_subset _ h)⟩
    · exact ⟨mem_tree_insert.mpr (.inr (hk.found_new c hc).1), (hk.found_new c hc).2⟩
  found_over c hc := by
    rcases List.mem_cons.mp hc with rfl | hc
    · exact hU
    · exact hk.found_over c hc
  known_eq h := absurd h (List.cons_ne_nil _ _)

theorem sound_pass {st : Stage U} {k : Findings} (h : pass st = .ok k) : Sound U st.known k := by
  rw [pass_eq] at h
  have hstart : Sound U st.known ⟨[], st.known⟩ :=
    ⟨fun _ hc => hc, by simp, by simp, fun _ => rfl⟩
  refine examineAll_induction (P := fun _ k => Sound U st.known k) h hstart ?_
  intro _ p k k' hp hex hk
  cases hex with
  | unresolved _ => exact hk
  | old _ _ => exact hk
  | new hr _ _ hnew =>
      obtain ⟨h₁, h₂⟩ := mem_of_mem_pairs hp
      refine hk.insert (fun l hl => ?_) hnew
      exact (Clause.mem_or_mem_of_resolve hr hl).elim (st.literals_mem _ h₁ l)
        (st.literals_mem _ h₂ l)

/-- The stage after a pass: the frontier is processed, and the findings are the new frontier. -/
def Stage.next (st : Stage U) (k : Findings) (h : pass st = .ok k) : Stage U where
  processed := st.processed ++ st.frontier
  frontier := k.found.reverse
  known := k.known
  passes := st.passes + 1
  literals_mem := by
    intro c hc
    rcases List.mem_append.mp hc with hc | hc
    · exact st.literals_mem c hc
    · exact (sound_pass h).found_over c (List.mem_reverse.mp hc)

/-! ### Runs -/

/-- A pass adds a clause, so that there are less to find, or else it empties the frontier. -/
theorem lex_next {st : Stage U} {k : Findings} (hne : st.frontier ≠ []) (h : pass st = .ok k) :
    Prod.Lex (· < ·) (· < ·)
      (missing U (st.next k h).known, (st.next k h).frontier.length)
      (missing U st.known, st.frontier.length) := by
  have hs := sound_pass h
  simp only [Stage.next]
  cases hf : k.found with
  | nil =>
      rw [hs.known_eq hf]
      exact Prod.Lex.right _ (List.length_pos_iff.mpr hne)
  | cons c cs =>
      have hc : c ∈ k.found := hf ▸ List.mem_cons_self
      obtain ⟨hmem, hnew⟩ := hs.found_new c hc
      exact Prod.Lex.left _ _ (missing_lt hs.known_subset (hs.found_over c hc) hnew hmem)

section Run

open MonadAttach LawfulMonadAttach

variable {m : Type → Type} [Monad m] [LawfulMonad m] [MonadAttach m] [LawfulMonadAttach m]
  (S : Steps m U) {st : Stage U}

theorem Steps.examine_eq {p : Clause × Clause} {k : Findings}
    {r : Except (Clause × Clause) Findings} (h : CanReturn (examineWith S.resolve p k) r) :
    r = examine p k := by
  obtain ⟨x, hx, h⟩ := canReturn_bind_imp' h
  rw [← eq_of_canReturn_pure h, S.resolve_eq hx]
  rfl

theorem Steps.examineAll_eq {ps : List (Clause × Clause)} {k : Findings}
    {r : Except (Clause × Clause) Findings} (h : CanReturn (examineAllWith S.resolve ps k) r) :
    r = examineAll ps k := by
  induction ps generalizing k with
  | nil => exact (eq_of_canReturn_pure h).symm
  | cons p ps ih =>
      obtain ⟨x, hx, h⟩ := canReturn_bind_imp' h
      rw [examineAll_cons, ← S.examine_eq hx]
      cases x with
      | error q => exact (eq_of_canReturn_pure h).symm
      | ok k' => exact ih h

/-- A pass comes to the same findings in every monad. -/
theorem Steps.pass_eq {r : Except (Clause × Clause) Findings}
    (h : CanReturn (S.pass st) r) : r = Saturation.pass st := by
  rw [Steps.pass, examineFrontierWith_eq] at h
  rw [Saturation.pass_eq]
  exact S.examineAll_eq h

/-- Go on pass by pass until the frontier is empty, or until the empty clause comes up. -/
@[specialize]
def runWith (st : Stage U) : m (Traced (Option (SortedSet Clause))) :=
  match _ : st.frontier with
  | [] => return ⟨some (SortedSet.ofTree st.known), []⟩
  | _ :: _ => do
      S.enter st
      match ← attach (S.pass st) with
      | ⟨.error (c, d), _⟩ => return ⟨none, [.emptyResolvent c d (st.passes + 1)]⟩
      | ⟨.ok k, h⟩ =>
          let later ← runWith (st.next k (S.pass_eq h).symm)
          return later.after [.pass (st.passes + 1) k.found.length k.known.size]
termination_by (missing U st.known, st.frontier.length)
decreasing_by exact lex_next (by simp [*]) (S.pass_eq h).symm

theorem runWith_of_nil (h : st.frontier = []) :
    runWith S st = pure ⟨some (SortedSet.ofTree st.known), []⟩ := by
  rw [runWith]
  split
  · rfl
  · next hcons => cases h.symm.trans hcons

theorem runWith_of_ne_nil (h : st.frontier ≠ []) :
    runWith S st = (do
      S.enter st
      match ← attach (S.pass st) with
      | ⟨.error (c, d), _⟩ => return ⟨none, [.emptyResolvent c d (st.passes + 1)]⟩
      | ⟨.ok k, h⟩ =>
          let later ← runWith S (st.next k (S.pass_eq h).symm)
          return later.after [.pass (st.passes + 1) k.found.length k.known.size]) := by
  rw [runWith]
  split
  · next hnil => exact absurd hnil h
  · rfl

end Run

def run (st : Stage U) : Traced (Option (SortedSet Clause)) := Id.run (runWith plain st)

variable {st : Stage U} {k : Findings} {q : Clause × Clause}

theorem run_of_nil (h : st.frontier = []) :
    run st = ⟨some (SortedSet.ofTree st.known), []⟩ := by
  rw [run, runWith_of_nil _ h]
  rfl

theorem run_of_error (hne : st.frontier ≠ []) (h : pass st = .error q) :
    run st = ⟨none, [.emptyResolvent q.1 q.2 (st.passes + 1)]⟩ := by
  have hpass : MonadAttach.attach (plain.pass st) =
      (⟨.error q, h⟩ : Subtype _) := Subtype.ext h
  rw [run, runWith_of_ne_nil _ hne, hpass]
  rfl

theorem run_of_ok (hne : st.frontier ≠ []) (h : pass st = .ok k) :
    run st =
      (run (st.next k h)).after [.pass (st.passes + 1) k.found.length k.known.size] := by
  have hpass : MonadAttach.attach (plain.pass st) =
      (⟨.ok k, h⟩ : Subtype _) := Subtype.ext h
  rw [run, runWith_of_ne_nil _ hne, hpass]
  rfl

/-- What follows for every stage from the stage after its pass. -/
theorem Stage.induction {P : Stage U → Prop}
    (finished : ∀ st, st.frontier = [] → P st)
    (refuted : ∀ st q, st.frontier ≠ [] → pass st = .error q → P st)
    (next : ∀ st k, st.frontier ≠ [] → ∀ h : pass st = .ok k, P (st.next k h) → P st)
    (st : Stage U) : P st := by
  by_cases hne : st.frontier = []
  · exact finished st hne
  · cases h : pass st with
    | error q => exact refuted st q hne h
    | ok k => exact next st k hne h (Stage.induction finished refuted next (st.next k h))
termination_by (missing U st.known, st.frontier.length)
decreasing_by exact lex_next hne h

/-! ### Saturated formulas -/

/-- The literals that occur in a formula. -/
def literalsOf (F : Formula) : List Literal := F.clauses.flatMap Clause.toList

/-- The stage before the first pass: the clauses that say something, each once. -/
def start (F : Formula) : Stage (literalsOf F) where
  processed := []
  frontier := distinct (F.clauses.filter fun c => !c.isTautology)
  known := Std.TreeSet.ofList (F.clauses.filter fun c => !c.isTautology)
  passes := 0
  literals_mem := by
    intro c hc l hl
    rw [List.nil_append, mem_distinct, List.mem_filter] at hc
    exact List.mem_flatMap.mpr ⟨c, hc.1, hl⟩

/-- The clauses that follow by resolution, or nothing if the empty clause is one of them.  There
is no pass if the formula holds the empty clause. -/
@[specialize]
def saturateWith {m : Type → Type} [Monad m] [LawfulMonad m] [MonadAttach m] [LawfulMonadAttach m]
    (F : Formula) (S : Steps m (literalsOf F)) : m (Traced (Option (SortedSet Clause))) :=
  if F.hasEmptyClause then return ⟨none, [.emptyInput]⟩ else runWith S (start F)

def saturate (F : Formula) : Traced (Option (SortedSet Clause)) := Id.run (saturateWith F plain)

theorem saturate_of_hasEmptyClause {F : Formula} (h : F.hasEmptyClause = true) :
    saturate F = ⟨none, [.emptyInput]⟩ := by
  rw [saturate, saturateWith, if_pos h]
  rfl

theorem saturate_of_not_hasEmptyClause {F : Formula} (h : F.hasEmptyClause = false) :
    saturate F = run (start F) := by
  rw [saturate, saturateWith, if_neg (Bool.eq_false_iff.mp h), run]

/-- Give `v` its value: true if false would make a clause false whose last variable is `v`. -/
def settle (closed : SortedSet Clause) (s : Assignment) (v : Var) : Except Fault Assignment := do
  let t ← s.assign? (.neg v)
  let ending := closed.toList.filter fun c => c.lastVar? == some v
  pure (if ending.any fun c => c.eval t == some false then t.flip v else t)

/-- A model of a closed set of clauses without the empty clause. -/
def modelOf (closed : SortedSet Clause) (vs : List Var) : Except Fault Assignment :=
  vs.foldlM (settle closed) ∅

/-- Decide a formula by saturation. -/
def solve (F : Formula) : Traced (Except Fault Verdict) :=
  (saturate F).map fun r =>
    match r with
    | some closed => .sat <$> modelOf closed F.vars.toList
    | none => .ok .unsat

end Clausal.Saturation
