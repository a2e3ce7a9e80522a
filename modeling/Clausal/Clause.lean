import Clausal.Assignment

/-! # Clauses

A clause is a finite set of literals and stands for their disjunction, so the empty clause is
false.  Clauses may hold a literal together with its complement; such a tautology is kept as it is
and recognised by `isTautology`, which looks at neighbours only.

Clauses are ordered by size and then lexicographically.  Under a partial assignment a clause has
one of the values `some true`, `some false` and `none`; `given l` is what is left of it once `l`
is known to be true.

From `v ∨ C` and `¬v ∨ D` follows the resolvent `C ∨ D`.  `resolveOn` resolves two clauses on a
given variable, in whichever direction their signs allow, and `resolve` on the first variable
that they clash on. -/

namespace Clausal

/-- A disjunction of literals. -/
structure Clause where
  literals : SortedSet Literal
deriving DecidableEq, Repr

namespace Clause

instance : Membership Literal Clause where
  mem c l := l ∈ c.literals

instance (l : Literal) (c : Clause) : Decidable (l ∈ c) :=
  inferInstanceAs (Decidable (l ∈ c.literals))

theorem mem_literals {c : Clause} {l : Literal} : l ∈ c.literals ↔ l ∈ c := Iff.rfl

@[simp]
theorem mem_mk {s : SortedSet Literal} {l : Literal} : l ∈ (⟨s⟩ : Clause) ↔ l ∈ s := Iff.rfl

theorem ext {c d : Clause} (h : ∀ l, l ∈ c ↔ l ∈ d) : c = d := by
  cases c; cases d
  congr
  exact SortedSet.ext h

/-! ### Building clauses -/

/-- The clause without literals, which is false. -/
instance : EmptyCollection Clause where
  emptyCollection := ⟨∅⟩

instance : Inhabited Clause := ⟨∅⟩

@[simp]
theorem not_mem_empty (l : Literal) : l ∉ (∅ : Clause) := SortedSet.not_mem_empty l

def ofList (ls : List Literal) : Clause := ⟨SortedSet.ofList ls⟩

@[simp]
theorem mem_ofList {ls : List Literal} {l : Literal} : l ∈ ofList ls ↔ l ∈ ls :=
  SortedSet.mem_ofList

/-- The clause of one literal. -/
def unit (l : Literal) : Clause := ofList [l]

@[simp]
theorem mem_unit {l m : Literal} : m ∈ unit l ↔ m = l := by simp [unit]

def erase (l : Literal) (c : Clause) : Clause := ⟨c.literals.erase l⟩

@[simp]
theorem mem_erase {c : Clause} {l m : Literal} : m ∈ c.erase l ↔ m ∈ c ∧ m ≠ l :=
  SortedSet.mem_erase

/-- The disjunction of two clauses. -/
def union (c d : Clause) : Clause := ⟨c.literals.union d.literals⟩

@[simp]
theorem mem_union {c d : Clause} {l : Literal} : l ∈ c.union d ↔ l ∈ c ∨ l ∈ d :=
  SortedSet.mem_union

/-! ### Looking at clauses -/

def toList (c : Clause) : List Literal := c.literals.toList

@[simp]
theorem mem_toList {c : Clause} {l : Literal} : l ∈ c.toList ↔ l ∈ c := Iff.rfl

def size (c : Clause) : Nat := c.toList.length

def isEmpty (c : Clause) : Bool := c.toList.isEmpty

theorem isEmpty_iff {c : Clause} : c.isEmpty = true ↔ ∀ l, l ∉ c := by
  rw [isEmpty, List.isEmpty_iff, List.eq_nil_iff_forall_not_mem]
  rfl

theorem toList_eq_nil {c : Clause} : c.toList = [] ↔ c = ∅ := by
  constructor
  · intro hnil
    refine ext fun l => iff_of_false (fun hl => ?_) (not_mem_empty l)
    rw [← mem_toList, hnil] at hl
    cases hl
  · rintro rfl
    rfl

theorem isEmpty_iff_eq_empty {c : Clause} : c.isEmpty = true ↔ c = ∅ := by
  rw [isEmpty, List.isEmpty_iff, toList_eq_nil]

/-- The literal of a clause that has no other. -/
def unit? (c : Clause) : Option Literal :=
  match c.toList with
  | [l] => some l
  | _ => none

theorem unit?_eq_some {c : Clause} {l : Literal} : c.unit? = some l ↔ c.toList = [l] := by
  rw [unit?]
  split
  · next h => rw [h, Option.some.injEq, List.cons.injEq, and_iff_left rfl]
  · next h => exact ⟨nofun, fun hl => absurd hl (h l)⟩

theorem mem_of_unit? {c : Clause} {l : Literal} (h : c.unit? = some l) : l ∈ c := by
  rw [← mem_toList, unit?_eq_some.mp h]
  exact List.mem_cons_self

/-- Whether a list holds a literal with its complement right behind it. -/
def adjacentComplements : List Literal → Bool
  | l :: m :: ls => l.isComplementOf m || adjacentComplements (m :: ls)
  | _ => false

/-- Whether the clause holds a literal and its complement, which are neighbours in the order. -/
def isTautology (c : Clause) : Bool := adjacentComplements c.toList

theorem adjacentComplements_of_mem {ls : List Literal} {l : Literal}
    (hls : ls.Pairwise (fun a b => compare a b = .lt)) (hl : l ∈ ls) (hneg : -l ∈ ls)
    (hlt : l.rank < (-l).rank) : adjacentComplements ls = true := by
  induction ls with
  | nil => cases hl
  | cons m ls ih =>
      rw [List.pairwise_cons] at hls
      cases ls with
      | nil =>
          rw [List.mem_singleton] at hl hneg
          exact absurd (hl.trans hneg.symm).symm (Literal.neg_ne_self l)
      | cons n ls =>
          rw [adjacentComplements, Bool.or_eq_true]
          have hmn := Literal.compare_eq_lt.mp (hls.1 n List.mem_cons_self)
          have hafter : ∀ k ∈ n :: ls, n.rank ≤ k.rank := by
            intro k hk
            rcases List.mem_cons.mp hk with rfl | hk
            · exact Nat.le_refl _
            · exact Nat.le_of_lt (Literal.compare_eq_lt.mp ((List.pairwise_cons.mp hls.2).1 k hk))
          rcases List.mem_cons.mp hl with rfl | hl
          · left
            rcases List.mem_cons.mp hneg with h | h
            · exact absurd h (Literal.neg_ne_self l)
            · have := hafter _ h
              have := Literal.rank_neg_of_lt hlt
              exact Literal.isComplementOf_iff.mpr (Literal.rank_inj.mp (by omega))
          · right
            rcases List.mem_cons.mp hneg with h | h
            · have := Literal.compare_eq_lt.mp (hls.1 l hl)
              rw [← h] at this
              omega
            · exact ih hls.2 hl h

theorem exists_of_adjacentComplements {ls : List Literal} (h : adjacentComplements ls = true) :
    ∃ l ∈ ls, -l ∈ ls := by
  fun_induction adjacentComplements ls with
  | case1 l m ls ih =>
      rcases (Bool.or_eq_true _ _).mp h with h | h
      · exact ⟨l, by simp, by simp [Literal.isComplementOf_iff.mp h]⟩
      · obtain ⟨k, hk, hneg⟩ := ih h
        exact ⟨k, List.mem_cons_of_mem l hk, List.mem_cons_of_mem l hneg⟩
  | case2 => cases h

theorem isTautology_iff {c : Clause} : c.isTautology = true ↔ ∃ l ∈ c, -l ∈ c := by
  refine ⟨exists_of_adjacentComplements, fun ⟨l, hl, hneg⟩ => ?_⟩
  have hne : l.rank ≠ (-l).rank := fun h => Literal.ne_neg_self l (Literal.rank_inj.mp h)
  rcases Nat.lt_or_gt_of_ne hne with h | h
  · exact adjacentComplements_of_mem c.literals.increasing hl hneg h
  · exact adjacentComplements_of_mem c.literals.increasing hneg (by rwa [Literal.neg_neg])
      (by rwa [Literal.neg_neg])

theorem neg_not_mem_of_not_isTautology {c : Clause} {l : Literal} (hc : c.isTautology = false)
    (hl : l ∈ c) : -l ∉ c := fun hneg => by
  rw [isTautology_iff.mpr ⟨l, hl, hneg⟩] at hc
  cases hc

def vars (c : Clause) : SortedSet Var := SortedSet.ofList (c.toList.map Literal.var)

theorem mem_vars {c : Clause} {v : Var} : v ∈ c.vars ↔ ∃ l ∈ c, l.var = v := by
  simp [vars]

/-- The variable of the first literal, which no other variable of the clause precedes. -/
def firstVar? (c : Clause) : Option Var := c.toList.head?.map Literal.var

theorem exists_firstVar? {c : Clause} {l : Literal} (hl : l ∈ c) :
    ∃ v, c.firstVar? = some v ∧ v.index ≤ l.var.index := by
  have hinc : c.toList.Pairwise (fun a b => compare a b = .lt) := c.literals.increasing
  rw [← mem_toList] at hl
  rw [firstVar?]
  cases hlist : c.toList with
  | nil => rw [hlist] at hl; cases hl
  | cons k ls =>
      refine ⟨k.var, rfl, ?_⟩
      rw [hlist] at hl hinc
      rcases List.mem_cons.mp hl with rfl | hl
      · exact Nat.le_refl _
      · exact Literal.index_le_of_lt ((List.pairwise_cons.mp hinc).1 l hl)

/-- The variable of the last literal, which no other variable of the clause follows. -/
def lastVar? (c : Clause) : Option Var := c.toList.getLast?.map Literal.var

theorem lastVar?_eq_some {c : Clause} {v : Var} :
    c.lastVar? = some v ↔ (∃ l ∈ c, l.var = v) ∧ ∀ l ∈ c, l.var.index ≤ v.index := by
  have hinc : c.toList.Pairwise (fun a b => compare a b = .lt) := c.literals.increasing
  have hle (ls : List Literal) (k : Literal) (hlist : c.toList = ls ++ [k]) :
      ∀ l ∈ c, l.var.index ≤ k.var.index := by
    intro l hl
    rw [← mem_toList, hlist, List.mem_append, List.mem_singleton] at hl
    rw [hlist, List.pairwise_append] at hinc
    rcases hl with hl | rfl
    · exact Literal.index_le_of_lt (hinc.2.2 l hl k List.mem_cons_self)
    · exact Nat.le_refl _
  rw [lastVar?, Option.map_eq_some_iff]
  constructor
  · rintro ⟨k, hk, rfl⟩
    obtain ⟨ls, hlist⟩ := List.getLast?_eq_some_iff.mp hk
    exact ⟨⟨k, List.mem_of_getLast? hk, rfl⟩, hle ls k hlist⟩
  · rintro ⟨⟨l, hl, rfl⟩, hmax⟩
    have hne : c.toList ≠ [] := List.ne_nil_of_mem hl
    refine ⟨c.toList.getLast hne, List.getLast?_eq_some_getLast hne, ?_⟩
    have hmem : c.toList.getLast hne ∈ c := List.getLast_mem hne
    have hlist := (List.dropLast_concat_getLast hne).symm
    exact Var.index_inj.mp (Nat.le_antisymm (hmax _ hmem) (hle _ _ hlist l hl))

/-! ### Order -/

/-- Smaller clauses come first, clauses of one size in lexicographic order. -/
instance : Ord Clause where
  compare := compareLex (compareOn size) (compareOn toList)

instance : Std.TransOrd Clause :=
  inferInstanceAs (Std.TransCmp (compareLex (compareOn size) (compareOn toList)))

instance : Std.LawfulEqOrd Clause where
  compare_self {c} := compareLex_eq_eq.mpr
    ⟨Std.ReflOrd.compare_self (α := Nat), Std.ReflOrd.compare_self (α := List Literal)⟩
  eq_of_compare {c d} h := by
    have hlist : c.toList = d.toList :=
      Std.LawfulEqOrd.eq_of_compare (α := List Literal) (compareLex_eq_eq.mp h).2
    cases c; cases d
    congr
    exact SortedSet.toList_inj.mp hlist

/-! ### Values -/

/-- True as soon as one literal is true, false when all are false, open otherwise. -/
def eval (c : Clause) (s : Assignment) : Option Bool :=
  if c.toList.any (fun l => l.eval s == some true) then some true
  else if c.toList.all (fun l => l.eval s == some false) then some false
  else none

def isSatisfiedBy (c : Clause) (s : Assignment) : Bool := c.eval s == some true

/-- What is left when `l` is true: nothing of a clause with `l`, else the clause without `-l`. -/
def given (c : Clause) (l : Literal) : Option Clause :=
  if l ∈ c then none else some (c.erase (-l))

theorem given_eq_some {c d : Clause} {l : Literal} :
    c.given l = some d ↔ l ∉ c ∧ c.erase (-l) = d := by
  rw [given]
  split <;> simp_all

/-! ### Text -/

/-- The literals joined by `∨`, and `⊥` for the empty clause. -/
def text (c : Clause) : String :=
  if c.isEmpty then "⊥" else " ∨ ".intercalate (c.toList.map Literal.text)

end Clause

/-! ### Resolution -/

/-- Why two clauses have no resolvent. -/
inductive ResolutionError
  /-- The clauses do not hold the variable with opposite signs. -/
  | notOpposite (c d : Clause) (v : Var)
  /-- The clauses hold no variable with opposite signs. -/
  | noClash
deriving DecidableEq, Repr

def ResolutionError.message : ResolutionError → String
  | notOpposite c d v => c.text ++ " and " ++ d.text ++ " cannot be resolved on " ++ v.text
  | noClash => "No complementary literals for resolution"

namespace Clause

/-- The resolvent on `v` of a clause with `v` and a clause with `¬v`. -/
def resolventOn (v : Var) (c d : Clause) : Clause :=
  (c.erase (.pos v)).union (d.erase (.neg v))

/-- Resolve two clauses on `v`, which they have to hold with opposite signs. -/
def resolveOn (c d : Clause) (v : Var) : Except ResolutionError Clause :=
  if .pos v ∈ c ∧ .neg v ∈ d then .ok (resolventOn v c d)
  else if .neg v ∈ c ∧ .pos v ∈ d then .ok (resolventOn v d c)
  else .error (.notOpposite c d v)

/-- The first literal of `c` whose complement is in `d`. -/
def pivot? (c d : Clause) : Option Literal := c.toList.find? (fun l => decide (-l ∈ d))

/-- Resolve two clauses on the first variable that they clash on. -/
def resolve (c d : Clause) : Except ResolutionError Clause :=
  match c.pivot? d with
  | some l => c.resolveOn d l.var
  | none => .error .noClash

theorem mem_resolventOn {v : Var} {c d : Clause} {l : Literal} :
    l ∈ resolventOn v c d ↔ l ∈ c ∧ l ≠ .pos v ∨ l ∈ d ∧ l ≠ .neg v := by
  simp [resolventOn]

/-- Every literal of a resolvent comes from one of the two clauses. -/
theorem mem_or_mem_of_resolveOn {c d r : Clause} {v : Var} {l : Literal}
    (h : c.resolveOn d v = .ok r) (hl : l ∈ r) : l ∈ c ∨ l ∈ d := by
  rw [resolveOn] at h
  split at h
  · cases h
    exact (mem_resolventOn.mp hl).imp And.left And.left
  · split at h
    · cases h
      exact ((mem_resolventOn.mp hl).imp And.left And.left).symm
    · cases h

theorem mem_or_mem_of_resolve {c d r : Clause} {l : Literal} (h : c.resolve d = .ok r)
    (hl : l ∈ r) : l ∈ c ∨ l ∈ d := by
  rw [resolve] at h
  split at h
  · exact mem_or_mem_of_resolveOn h hl
  · cases h

end Clause

end Clausal
