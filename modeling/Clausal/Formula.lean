import Clausal.Clause

/-! # Formulas in conjunctive normal form

A formula is a list of clauses and stands for their conjunction, so the formula without clauses
is true.  The order of the clauses and their repetitions are kept: the searches pick units and
branching variables by the order of the clauses.

`condition l` makes a literal true in every clause and fails on a clause that would become empty,
and `vars_condition` says that it uses up the variable of `l`, which is why the searches end. -/

namespace Clausal

/-- A conjunction of clauses. -/
structure Formula where
  clauses : List Clause
deriving DecidableEq, Repr

/-- A clause that the assignment at hand makes false. -/
structure Conflict where
  clause : Clause
deriving DecidableEq, Repr

def Conflict.message (e : Conflict) : String := "Conflict on " ++ e.clause.text

namespace Formula

instance : Membership Clause Formula where
  mem F c := c ∈ F.clauses

@[simp]
theorem mem_clauses {F : Formula} {c : Clause} : c ∈ F.clauses ↔ c ∈ F := Iff.rfl

@[simp]
theorem mem_mk {cs : List Clause} {c : Clause} : c ∈ (⟨cs⟩ : Formula) ↔ c ∈ cs := Iff.rfl

/-! ### Building formulas -/

/-- The formula without clauses, which is true. -/
instance : EmptyCollection Formula where
  emptyCollection := ⟨[]⟩

instance : Inhabited Formula := ⟨∅⟩

/-- The formula of one clause. -/
def single (c : Clause) : Formula := ⟨[c]⟩

def push (F : Formula) (c : Clause) : Formula := ⟨F.clauses ++ [c]⟩

def append (F G : Formula) : Formula := ⟨F.clauses ++ G.clauses⟩

/-! ### Looking at formulas -/

/-- Number of clauses. -/
def size (F : Formula) : Nat := F.clauses.length

def isEmpty (F : Formula) : Bool := F.clauses.isEmpty

def hasEmptyClause (F : Formula) : Bool := F.clauses.any Clause.isEmpty

/-- The variables that occur in the clauses. -/
def vars (F : Formula) : SortedSet Var :=
  SortedSet.ofList (F.clauses.flatMap fun c => c.toList.map Literal.var)

theorem mem_vars {F : Formula} {v : Var} : v ∈ F.vars ↔ ∃ c ∈ F, ∃ l ∈ c, l.var = v := by
  simp [vars]

theorem mem_vars_of_mem {F : Formula} {c : Clause} {l : Literal} (hc : c ∈ F) (hl : l ∈ c) :
    l.var ∈ F.vars := mem_vars.mpr ⟨c, hc, l, hl, rfl⟩

/-- The first literal that stands alone in its clause. -/
def unit? (F : Formula) : Option Literal := F.clauses.findSome? Clause.unit?

theorem mem_vars_of_unit? {F : Formula} {l : Literal} (h : F.unit? = some l) :
    ∃ c ∈ F, c.unit? = some l := by
  obtain ⟨c, hc, hl⟩ := List.exists_of_findSome?_eq_some h
  exact ⟨c, hc, hl⟩

/-- The variable of the smallest number. -/
def leastVar? (F : Formula) : Option Var :=
  (F.clauses.filterMap Clause.firstVar?).minOn? Var.index

theorem mem_vars_of_leastVar? {F : Formula} {v : Var} (h : F.leastVar? = some v) :
    v ∈ F.vars := by
  obtain ⟨c, hc, hv⟩ := List.mem_filterMap.mp (List.minOn?_mem h)
  obtain ⟨l, hl, rfl⟩ := Option.map_eq_some_iff.mp hv
  exact mem_vars_of_mem hc (List.mem_of_head? hl)

theorem exists_leastVar? {F : Formula} {v : Var} (hv : v ∈ F.vars) :
    ∃ w, F.leastVar? = some w ∧ w.index ≤ v.index := by
  obtain ⟨c, hc, l, hl, rfl⟩ := mem_vars.mp hv
  obtain ⟨k, hk, hle⟩ := Clause.exists_firstVar? hl
  have hmem : k ∈ F.clauses.filterMap Clause.firstVar? := List.mem_filterMap.mpr ⟨c, hc, hk⟩
  obtain ⟨w, hw⟩ := Option.isSome_iff_exists.mp (List.isSome_minOn?_of_mem (f := Var.index) hmem)
  have hmin := List.apply_get_minOn?_le_of_mem (f := Var.index) hmem
  simp only [hw, Option.get_some] at hmin
  exact ⟨w, hw, Nat.le_trans hmin hle⟩

/-- The variable of the first literal, clause by clause, that has no value yet. -/
def firstOpenVar? (F : Formula) (s : Assignment) : Option Var :=
  (F.clauses.flatMap fun c => c.toList.map Literal.var).find? fun v => !s.isAssigned v

theorem mem_vars_of_firstOpenVar? {F : Formula} {s : Assignment} {v : Var}
    (h : F.firstOpenVar? s = some v) : v ∈ F.vars :=
  SortedSet.mem_ofList.mpr (List.mem_of_find?_eq_some h)

/-! ### Values -/

/-- False as soon as one clause is false, true when all are true, open otherwise. -/
def eval (F : Formula) (s : Assignment) : Option Bool :=
  if F.clauses.any (fun c => c.eval s == some false) then some false
  else if F.clauses.all (fun c => c.eval s == some true) then some true
  else none

def isSatisfiedBy (F : Formula) (s : Assignment) : Bool := F.eval s == some true

/-- Make `l` true: drop the clauses with `l` and take `-l` out of the others.

It fails on the first clause of which nothing would be left; a clause that was empty before
stays as it is. -/
def condition (F : Formula) (l : Literal) : Except Conflict Formula :=
  match F.clauses.find? (fun c => c.unit? == some (-l)) with
  | some c => .error ⟨c⟩
  | none => .ok ⟨F.clauses.filterMap (·.given l)⟩

/-- Make every literal of an assignment true, in the order of the variables. -/
def under (F : Formula) (s : Assignment) : Except Conflict Formula :=
  s.literals.toList.foldlM condition F

/-- The clauses that hold none of the literals. -/
def without (F : Formula) (ls : List Literal) : Formula :=
  ⟨F.clauses.filter fun c => !ls.any fun l => decide (l ∈ c)⟩

/-! ### Conditioning uses up a variable -/

theorem eq_of_condition {F G : Formula} {l : Literal} (h : F.condition l = .ok G) :
    G = ⟨F.clauses.filterMap (·.given l)⟩ := by
  rw [condition] at h
  split at h <;> cases h
  rfl

/-- The clauses left are clauses without `l`, less `-l`. -/
theorem mem_condition {F G : Formula} {l : Literal} (h : F.condition l = .ok G) {d : Clause} :
    d ∈ G ↔ ∃ c ∈ F, l ∉ c ∧ c.erase (-l) = d := by
  rw [eq_of_condition h]
  simp [List.mem_filterMap, Clause.given_eq_some]

theorem vars_condition {F G : Formula} {l : Literal} (h : F.condition l = .ok G) {v : Var}
    (hv : v ∈ G.vars) : v ∈ F.vars ∧ v ≠ l.var := by
  obtain ⟨d, hd, m, hm, rfl⟩ := mem_vars.mp hv
  obtain ⟨c, hc, hlc, rfl⟩ := (mem_condition h).mp hd
  rw [Clause.mem_erase] at hm
  refine ⟨mem_vars_of_mem hc hm.1, fun heq => ?_⟩
  rcases Literal.eq_or_eq_neg heq with rfl | rfl
  · exact hlc hm.1
  · exact hm.2 rfl

theorem size_vars_condition {F G : Formula} {l : Literal} (h : F.condition l = .ok G)
    (hl : l.var ∈ F.vars) : G.vars.size < F.vars.size :=
  SortedSet.size_lt_size (fun _ hv => (vars_condition h hv).1) hl
    fun hv => (vars_condition h hv).2 rfl

/-- Making a unit true drops its clause. -/
theorem size_condition {F G : Formula} {l : Literal} (hl : F.unit? = some l)
    (h : F.condition l = .ok G) : G.size < F.size := by
  obtain ⟨c, hc, hu⟩ := mem_vars_of_unit? hl
  rw [eq_of_condition h, size, size]
  refine List.length_filterMap_lt_length_iff_exists.mpr ⟨c, hc, ?_⟩
  rw [Clause.given, if_pos (Clause.mem_of_unit? hu)]

theorem vars_without {F : Formula} {ls : List Literal} {v : Var} (hv : v ∈ (F.without ls).vars) :
    v ∈ F.vars := by
  obtain ⟨c, hc, l, hl, rfl⟩ := mem_vars.mp hv
  exact mem_vars_of_mem (List.mem_filter.mp hc).1 hl

/-! ### Text -/

/-- The clauses joined by `∧`, in parentheses where a clause of several literals is not alone,
and `⊤` for the formula without clauses. -/
def text (F : Formula) : String :=
  match F.clauses with
  | [] => "⊤"
  | [c] => c.text
  | cs => " ∧ ".intercalate <| cs.map fun c =>
      if 1 < c.size then "(" ++ c.text ++ ")" else c.text

end Formula

end Clausal
