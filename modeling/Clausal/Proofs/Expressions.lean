import Clausal.Expression
import Clausal.Proofs.Satisfaction

/-! # Expressions and their truth

`Expression.kleene` reads an expression in the strong three-valued logic: a disjunction is true as
soon as one side is, a conjunction is false as soon as one side is, and both are open only if
nothing settles them.  The operators on literals, clauses and formulas merge, wrap and append in
different ways, but each acts on values as its connective does (`Clause.eval_union`,
`Formula.eval_append`), so what an expression builds has the truth value of the expression
(`eval_of_value`).

`HasKind` says which operands can be joined.  It is met by exactly the expressions with a value
(`hasKind_iff`).  The main statement is `value_has_kleene_truth`. -/

namespace Clausal

/-! ### Three-valued connectives -/

namespace Kleene

variable {x y x' y' : Option Bool} {b : Bool}

/-- True as soon as one side is, false when both are. -/
def or : Option Bool → Option Bool → Option Bool
  | some true, _ | _, some true => some true
  | some false, some false => some false
  | _, _ => none

/-- False as soon as one side is, true when both are. -/
def and : Option Bool → Option Bool → Option Bool
  | some false, _ | _, some false => some false
  | some true, some true => some true
  | _, _ => none

def not (x : Option Bool) : Option Bool := x.map (! ·)

/-- The disjunction of any number of values. -/
def any (xs : List (Option Bool)) : Option Bool := xs.foldr or (some false)

theorem or_eq_true : or x y = some true ↔ x = some true ∨ y = some true := by
  rcases x with _ | _ | _ <;> rcases y with _ | _ | _ <;> decide

theorem or_eq_false : or x y = some false ↔ x = some false ∧ y = some false := by
  rcases x with _ | _ | _ <;> rcases y with _ | _ | _ <;> decide

theorem and_eq_true : and x y = some true ↔ x = some true ∧ y = some true := by
  rcases x with _ | _ | _ <;> rcases y with _ | _ | _ <;> decide

theorem and_eq_false : and x y = some false ↔ x = some false ∨ y = some false := by
  rcases x with _ | _ | _ <;> rcases y with _ | _ | _ <;> decide

theorem or_ne_none (hx : x ≠ none) (hy : y ≠ none) : or x y ≠ none := by
  rcases x with _ | _ | _ <;> rcases y with _ | _ | _ <;> simp_all [or]

theorem and_ne_none (hx : x ≠ none) (hy : y ≠ none) : and x y ≠ none := by
  rcases x with _ | _ | _ <;> rcases y with _ | _ | _ <;> simp_all [and]

theorem any_eq_true {xs : List (Option Bool)} : any xs = some true ↔ some true ∈ xs := by
  induction xs with
  | nil => simp [any]
  | cons x xs ih =>
      show or x (any xs) = some true ↔ _
      rw [or_eq_true, ih, List.mem_cons, eq_comm]

theorem any_eq_false {xs : List (Option Bool)} :
    any xs = some false ↔ ∀ x ∈ xs, x = some false := by
  induction xs with
  | nil => simp [any]
  | cons x xs ih =>
      show or x (any xs) = some false ↔ _
      rw [or_eq_false, ih, List.forall_mem_cons]

/-- A value is known by when it is true and when it is false. -/
theorem ext (ht : x = some true ↔ y = some true) (hf : x = some false ↔ y = some false) :
    x = y := by
  refine Option.ext fun b => ?_
  cases b with
  | true => exact ht
  | false => exact hf

end Kleene

/-! ### Values of what is joined -/

section Values

variable {s t : Assignment} {b : Bool}

theorem Literal.eval_neg (l : Literal) (s : Assignment) : (-l).eval s = Kleene.not (l.eval s) := by
  unfold Kleene.not Literal.eval
  rw [var_neg, positive_neg, Option.map_map]
  congr
  funext b
  cases b <;> cases l.positive <;> rfl

theorem Literal.eval_mono {l : Literal} (hst : s ⊆ t) (h : l.eval s = some b) :
    l.eval t = some b := by
  cases b with
  | true => exact eval_eq_true.mpr (hst l (eval_eq_true.mp h))
  | false => exact eval_eq_false.mpr (hst (-l) (eval_eq_false.mp h))

theorem Literal.eval_ne_none {l : Literal} (h : s.isAssigned l.var = true) : l.eval s ≠ none := by
  rcases Assignment.mem_or_neg_mem_of_isAssigned h with hl | hl
  · simp [eval_eq_true.mpr hl]
  · simp [eval_eq_false.mpr hl]

namespace Clause

variable {c d : Clause}

/-- A clause is the disjunction of its literals. -/
theorem eval_eq_any (c : Clause) (s : Assignment) :
    c.eval s = Kleene.any (c.toList.map fun l => l.eval s) := by
  apply Kleene.ext
  · simp [eval_eq_true, Kleene.any_eq_true, Literal.eval_eq_true]
  · simp [eval_eq_false, Kleene.any_eq_false, Literal.eval_eq_false]

theorem eval_union (c d : Clause) (s : Assignment) :
    (c.union d).eval s = Kleene.or (c.eval s) (d.eval s) := by
  apply Kleene.ext
  · simp only [Kleene.or_eq_true, eval_eq_true, mem_union, or_and_right, exists_or]
  · simp only [Kleene.or_eq_false, eval_eq_false, mem_union, or_imp, forall_and]

theorem eval_unit (l : Literal) (s : Assignment) : (unit l).eval s = l.eval s := by
  apply Kleene.ext
  · simp [eval_eq_true, Literal.eval_eq_true]
  · simp [eval_eq_false, Literal.eval_eq_false]

theorem eval_mono (hst : s ⊆ t) (h : c.eval s = some b) : c.eval t = some b := by
  cases b with
  | true =>
      obtain ⟨l, hl, hls⟩ := eval_eq_true.mp h
      exact eval_eq_true.mpr ⟨l, hl, hst l hls⟩
  | false => exact eval_eq_false.mpr fun l hl => hst (-l) (eval_eq_false.mp h l hl)

end Clause

namespace Formula

variable {F G : Formula}

theorem eval_single (c : Clause) (s : Assignment) : (single c).eval s = c.eval s := by
  apply Kleene.ext
  · simp [eval_eq_true, single]
  · simp [eval_eq_false, single]

theorem eval_append (F G : Formula) (s : Assignment) :
    (F.append G).eval s = Kleene.and (F.eval s) (G.eval s) := by
  have hmem : ∀ c, c ∈ F.append G ↔ c ∈ F ∨ c ∈ G := fun c => List.mem_append
  apply Kleene.ext
  · simp only [Kleene.and_eq_true, eval_eq_true, hmem, or_imp, forall_and]
  · simp only [Kleene.and_eq_false, eval_eq_false, hmem, or_and_right, exists_or]

theorem eval_mono (hst : s ⊆ t) (h : F.eval s = some b) : F.eval t = some b := by
  cases b with
  | true => exact eval_eq_true.mpr fun c hc => Clause.eval_mono hst (eval_eq_true.mp h c hc)
  | false =>
      obtain ⟨c, hc, hcs⟩ := eval_eq_false.mp h
      exact eval_eq_false.mpr ⟨c, hc, Clause.eval_mono hst hcs⟩

end Formula

end Values

/-! ### Kinds -/

/-- What an expression stands for. -/
inductive Kind
  | literal
  | clause
  | formula
deriving DecidableEq, Repr

namespace Value

variable {x y z : Value} {c : Clause} {s t : Assignment} {b : Bool}

def kind : Value → Kind
  | literal _ => .literal
  | clause _ => .clause
  | formula _ => .formula

theorem not?_eq_some : x.not? = some z ↔ ∃ l, x = literal l ∧ z = literal (-l) := by
  cases x <;> simp [not?, eq_comm]

theorem exists_clause?_iff : (∃ c, x.clause? = some c) ↔ x.kind ≠ .formula := by
  cases x <;> simp [clause?, kind]

theorem or?_eq_some : x.or? y = some z ↔
    ∃ c d, x.clause? = some c ∧ y.clause? = some d ∧ z = clause (c.union d) := by
  simp [or?, Option.bind_eq_some_iff, eq_comm (a := z)]

theorem and?_eq_some : x.and? y = some z ↔
    (y.kind = .formula → x.kind = .formula) ∧ z = formula (x.toFormula.append y.toFormula) := by
  cases x <;> cases y <;> simp [and?, kind, toFormula, eq_comm]

theorem eval_of_clause? (h : x.clause? = some c) : c.eval s = x.eval s := by
  cases x with
  | literal l =>
      cases h
      exact Clause.eval_unit l s
  | clause c =>
      cases h
      rfl
  | formula F => cases h

theorem eval_toFormula (x : Value) (s : Assignment) : x.toFormula.eval s = x.eval s := by
  cases x with
  | literal l => exact (Formula.eval_single _ s).trans (Clause.eval_unit l s)
  | clause c => exact Formula.eval_single c s
  | formula F => rfl

theorem eval_mono (hst : s ⊆ t) (h : x.eval s = some b) : x.eval t = some b := by
  cases x with
  | literal l => exact Literal.eval_mono hst h
  | clause c => exact Clause.eval_mono hst h
  | formula F => exact Formula.eval_mono hst h

end Value

/-! ### Expressions -/

namespace Expression

variable {e f : Expression} {x y z : Value} {k : Kind} {s : Assignment}

/-- Which expressions can be built, and what they stand for. -/
inductive HasKind : Expression → Kind → Prop
  | literal (l : Literal) : HasKind (.literal l) .literal
  | clause (c : Clause) : HasKind (.clause c) .clause
  | truth : HasKind .truth .formula
  | not {e : Expression} (he : HasKind e .literal) : HasKind (.not e) .literal
  | formula {e : Expression} {k : Kind} (he : HasKind e k) : HasKind (.formula e) .formula
  /-- A formula has no disjunction. -/
  | or {e f : Expression} {j k : Kind} (he : HasKind e j) (hf : HasKind f k)
      (hj : j ≠ .formula) (hk : k ≠ .formula) : HasKind (.or e f) .clause
  /-- Only a formula may come before a formula. -/
  | and {e f : Expression} {j k : Kind} (he : HasKind e j) (hf : HasKind f k)
      (hjk : k = .formula → j = .formula) : HasKind (.and e f) .formula

/-- The truth value in three-valued logic. -/
def kleene (s : Assignment) : Expression → Option Bool
  | literal l => l.eval s
  | clause c => Kleene.any (c.toList.map fun l => l.eval s)
  | truth => some true
  | not e => Kleene.not (e.kleene s)
  | formula e => e.kleene s
  | or e f => Kleene.or (e.kleene s) (f.kleene s)
  | and e f => Kleene.and (e.kleene s) (f.kleene s)
  | broken _ => none

/-- The variables of the literals in an expression. -/
def vars : Expression → List Var
  | literal l => [l.var]
  | clause c => c.toList.map Literal.var
  | truth | broken _ => []
  | not e | formula e => e.vars
  | or e f | and e f => e.vars ++ f.vars

theorem sorted_eq_ok {x? : Option Value} : sorted x? = .ok x ↔ x? = some x := by
  cases x? <;> simp [sorted]

theorem bind_eq_ok {ε α β : Type} {a : Except ε α} {g : α → Except ε β} {r : β} :
    (a >>= g) = .ok r ↔ ∃ x, a = .ok x ∧ g x = .ok r := by
  cases a <;> simp [bind, Except.bind]

theorem value_not : (not e).value = .ok z ↔ ∃ x, e.value = .ok x ∧ x.not? = some z := by
  simp only [value, bind_eq_ok, sorted_eq_ok]

theorem value_formula :
    (formula e).value = .ok z ↔ ∃ x, e.value = .ok x ∧ z = .formula x.toFormula := by
  simp only [value, bind_eq_ok, pure, Except.pure, Except.ok.injEq, eq_comm (a := z)]

theorem value_or : (or e f).value = .ok z ↔
    ∃ x y, e.value = .ok x ∧ f.value = .ok y ∧ x.or? y = some z := by
  simp only [value, bind_eq_ok, sorted_eq_ok, exists_and_left]

theorem value_and : (and e f).value = .ok z ↔
    ∃ x y, e.value = .ok x ∧ f.value = .ok y ∧ x.and? y = some z := by
  simp only [value, bind_eq_ok, sorted_eq_ok, exists_and_left]

/-- What fits together has a value. -/
theorem HasKind.exists_value (h : e.HasKind k) : ∃ x, e.value = .ok x ∧ x.kind = k := by
  induction h with
  | literal l => exact ⟨_, rfl, rfl⟩
  | clause c => exact ⟨_, rfl, rfl⟩
  | truth => exact ⟨_, rfl, rfl⟩
  | not _ ih =>
      obtain ⟨x, hx, hk⟩ := ih
      cases x with
      | literal l => exact ⟨_, value_not.mpr ⟨_, hx, rfl⟩, rfl⟩
      | clause c => cases hk
      | formula F => cases hk
  | formula _ ih =>
      obtain ⟨x, hx, -⟩ := ih
      exact ⟨_, value_formula.mpr ⟨x, hx, rfl⟩, rfl⟩
  | or _ _ hj hk ihe ihf =>
      obtain ⟨x, hx, rfl⟩ := ihe
      obtain ⟨y, hy, rfl⟩ := ihf
      obtain ⟨c, hc⟩ := Value.exists_clause?_iff.mpr hj
      obtain ⟨d, hd⟩ := Value.exists_clause?_iff.mpr hk
      exact ⟨_, value_or.mpr ⟨x, y, hx, hy, Value.or?_eq_some.mpr ⟨c, d, hc, hd, rfl⟩⟩, rfl⟩
  | and _ _ hjk ihe ihf =>
      obtain ⟨x, hx, rfl⟩ := ihe
      obtain ⟨y, hy, rfl⟩ := ihf
      exact ⟨_, value_and.mpr ⟨x, y, hx, hy, Value.and?_eq_some.mpr ⟨hjk, rfl⟩⟩, rfl⟩

/-- What has a value fits together. -/
theorem hasKind_of_value (h : e.value = .ok z) : e.HasKind z.kind := by
  induction e generalizing z with
  | literal l =>
      cases h
      exact .literal l
  | clause c =>
      cases h
      exact .clause c
  | truth =>
      cases h
      exact .truth
  | not e ih =>
      obtain ⟨x, hx, hz⟩ := value_not.mp h
      obtain ⟨l, rfl, rfl⟩ := Value.not?_eq_some.mp hz
      exact .not (ih hx)
  | formula e ih =>
      obtain ⟨x, hx, rfl⟩ := value_formula.mp h
      exact .formula (ih hx)
  | or e f ihe ihf =>
      obtain ⟨x, y, hx, hy, hz⟩ := value_or.mp h
      obtain ⟨c, d, hc, hd, rfl⟩ := Value.or?_eq_some.mp hz
      exact .or (ihe hx) (ihf hy) (Value.exists_clause?_iff.mp ⟨c, hc⟩)
        (Value.exists_clause?_iff.mp ⟨d, hd⟩)
  | and e f ihe ihf =>
      obtain ⟨x, y, hx, hy, hz⟩ := value_and.mp h
      obtain ⟨hjk, rfl⟩ := Value.and?_eq_some.mp hz
      exact .and (ihe hx) (ihf hy) hjk
  | broken f => cases h

theorem hasKind_iff : e.HasKind k ↔ ∃ x, e.value = .ok x ∧ x.kind = k := by
  refine ⟨HasKind.exists_value, ?_⟩
  rintro ⟨x, hx, rfl⟩
  exact hasKind_of_value hx

/-- What an expression builds has the truth value of the expression. -/
theorem eval_of_value (s : Assignment) (h : e.value = .ok z) : z.eval s = e.kleene s := by
  induction e generalizing z with
  | literal l =>
      cases h
      rfl
  | clause c =>
      cases h
      exact Clause.eval_eq_any c s
  | truth =>
      cases h
      rfl
  | not e ih =>
      obtain ⟨x, hx, hz⟩ := value_not.mp h
      obtain ⟨l, rfl, rfl⟩ := Value.not?_eq_some.mp hz
      rw [kleene, ← ih hx]
      exact Literal.eval_neg l s
  | formula e ih =>
      obtain ⟨x, hx, rfl⟩ := value_formula.mp h
      rw [kleene, ← ih hx]
      exact Value.eval_toFormula x s
  | or e f ihe ihf =>
      obtain ⟨x, y, hx, hy, hz⟩ := value_or.mp h
      obtain ⟨c, d, hc, hd, rfl⟩ := Value.or?_eq_some.mp hz
      rw [kleene, ← ihe hx, ← ihf hy, ← Value.eval_of_clause? hc, ← Value.eval_of_clause? hd]
      exact Clause.eval_union c d s
  | and e f ihe ihf =>
      obtain ⟨x, y, hx, hy, hz⟩ := value_and.mp h
      obtain ⟨-, rfl⟩ := Value.and?_eq_some.mp hz
      rw [kleene, ← ihe hx, ← ihf hy, ← Value.eval_toFormula x, ← Value.eval_toFormula y]
      exact Formula.eval_append _ _ s
  | broken f => cases h

/-- With a value for every variable nothing is left open. -/
theorem HasKind.kleene_ne_none (h : e.HasKind k) (hs : ∀ v ∈ e.vars, s.isAssigned v = true) :
    e.kleene s ≠ none := by
  induction h with
  | literal l => exact Literal.eval_ne_none (hs l.var (List.mem_singleton.mpr rfl))
  | clause c =>
      rw [kleene, ← Clause.eval_eq_any]
      have hopen : ∀ l ∈ c, s.isAssigned l.var = true := fun l hl => hs _ (List.mem_map_of_mem hl)
      rcases Clause.isSatisfiedBy_or_eval_eq_false hopen with h | h
      · rw [beq_iff_eq.mp h]
        exact Option.some_ne_none true
      · rw [h]
        exact Option.some_ne_none false
  | truth => exact Option.some_ne_none true
  | not _ ih => exact mt Option.map_eq_none_iff.mp (ih hs)
  | formula _ ih => exact ih hs
  | or _ _ _ _ ihe ihf =>
      exact Kleene.or_ne_none (ihe fun v hv => hs v (List.mem_append_left _ hv))
        (ihf fun v hv => hs v (List.mem_append_right _ hv))
  | and _ _ _ ihe ihf =>
      exact Kleene.and_ne_none (ihe fun v hv => hs v (List.mem_append_left _ hv))
        (ihf fun v hv => hs v (List.mem_append_right _ hv))

/-- The expressions of a kind are those that build something of it, and what is built has the
truth value of the expression under every assignment.  So a truth value that is known stays the same
when further variables get values, and once all variables have one it is known. -/
theorem value_has_kleene_truth (e : Expression) :
    (∀ k, e.HasKind k ↔ ∃ x, e.value = .ok x ∧ x.kind = k) ∧
    ∀ x, e.value = .ok x →
      (∀ s, x.eval s = e.kleene s) ∧
      (∀ s t b, s ⊆ t → x.eval s = some b → x.eval t = some b) ∧
      ∀ s, (∀ v ∈ e.vars, s.isAssigned v = true) → x.eval s ≠ none := by
  refine ⟨fun k => hasKind_iff, fun x hx => ⟨fun s => eval_of_value s hx, ?_, fun s hs => ?_⟩⟩
  · exact fun s t b hst h => Value.eval_mono hst h
  · rw [eval_of_value s hx]
    exact (hasKind_of_value hx).kleene_ne_none hs

end Expression

end Clausal
