import Clausal.Literal
import Clausal.SortedSet

/-! # Partial assignments

A partial assignment is the set of the literals that it makes true, and holds no literal
together with its complement.  A variable of neither literal has no value yet, and the value of a
literal is one of `some true`, `some false` and `none`.

`assign` gives a variable its value, `clash?` tells beforehand whether that contradicts the value
it has, and `extend` assigns one literal after another up to the first such contradiction. -/

namespace Clausal

/-- A consistent set of literals, the ones that are true. -/
structure Assignment where
  literals : SortedSet Literal
  consistent : ∀ l ∈ literals, -l ∉ literals

namespace Assignment

instance : DecidableEq Assignment := fun s t =>
  decidable_of_iff (s.literals = t.literals) <| by cases s; cases t; simp

instance : Repr Assignment where
  reprPrec s n := reprPrec s.literals n

instance : Membership Literal Assignment where
  mem s l := l ∈ s.literals

instance (l : Literal) (s : Assignment) : Decidable (l ∈ s) :=
  inferInstanceAs (Decidable (l ∈ s.literals))

theorem mem_literals {s : Assignment} {l : Literal} : l ∈ s.literals ↔ l ∈ s := Iff.rfl

theorem neg_not_mem {s : Assignment} {l : Literal} (h : l ∈ s) : -l ∉ s := s.consistent l h

theorem ext {s t : Assignment} (h : ∀ l, l ∈ s ↔ l ∈ t) : s = t := by
  cases s; cases t
  congr
  exact SortedSet.ext h

/-! ### Values -/

instance : EmptyCollection Assignment where
  emptyCollection := ⟨∅, fun _ h => absurd h (SortedSet.not_mem_empty _)⟩

instance : Inhabited Assignment := ⟨∅⟩

@[simp]
theorem not_mem_empty (l : Literal) : l ∉ (∅ : Assignment) := SortedSet.not_mem_empty l

/-- Number of variables with a value. -/
def size (s : Assignment) : Nat := s.literals.size

def isEmpty (s : Assignment) : Bool := s.literals.isEmpty

/-- The value that literals in increasing order give a variable. -/
def valueIn (v : Var) : List Literal → Option Bool
  | [] => none
  | l :: ls =>
      if l.var.index < v.index then valueIn v ls
      else if l.var.index = v.index then some l.positive
      else none

/-- The value of a variable. -/
def value? (s : Assignment) (v : Var) : Option Bool := valueIn v s.literals.toList

theorem mem_of_valueIn {v : Var} {ls : List Literal} {b : Bool} (h : valueIn v ls = some b) :
    ⟨v, b⟩ ∈ ls := by
  fun_induction valueIn v ls with
  | case1 => cases h
  | case2 l ls hlt ih => exact List.mem_cons_of_mem l (ih h)
  | case3 l ls hlt heq =>
      cases h
      rw [← Var.index_inj.mp heq]
      exact List.mem_cons_self
  | case4 => cases h

theorem valueIn_of_mem {v : Var} {ls : List Literal} {b : Bool}
    (hls : ls.Pairwise (fun a b => compare a b = .lt)) (hcon : ∀ l ∈ ls, -l ∉ ls)
    (h : ⟨v, b⟩ ∈ ls) : valueIn v ls = some b := by
  induction ls with
  | nil => cases h
  | cons l ls ih =>
      rw [List.pairwise_cons] at hls
      have hcon' : ∀ m ∈ ls, -m ∉ ls := fun m hm hneg =>
        hcon m (List.mem_cons_of_mem l hm) (List.mem_cons_of_mem l hneg)
      rw [valueIn]
      rcases List.mem_cons.mp h with rfl | hmem
      · simp
      · have hlt := Literal.index_le_of_lt (hls.1 _ hmem)
        dsimp only at hlt
        split
        · exact ih hls.2 hcon' hmem
        · next hge =>
            have heq : l.var = v := Var.index_inj.mp (by omega)
            rw [if_pos (by rw [heq])]
            rcases Literal.eq_or_eq_neg (l := l) (m := ⟨v, b⟩) heq with rfl | hneg
            · rfl
            · exact absurd (hneg ▸ List.mem_cons_self) (hcon _ h)

/-- A variable has a value exactly when the literal that says so is true. -/
theorem value?_eq_some {s : Assignment} {v : Var} {b : Bool} :
    s.value? v = some b ↔ ⟨v, b⟩ ∈ s :=
  ⟨mem_of_valueIn, valueIn_of_mem s.literals.increasing s.consistent⟩

def isAssigned (s : Assignment) (v : Var) : Bool := (s.value? v).isSome

/-! ### Assigning -/

/-- Make `l` true, whatever its variable was before. -/
def assign (s : Assignment) (l : Literal) : Assignment where
  literals := (s.literals.erase (-l)).insert l
  consistent := by
    intro m hm hneg
    rw [SortedSet.mem_insert, SortedSet.mem_erase] at hm hneg
    rcases hm with rfl | ⟨hm, hml⟩
    · rcases hneg with h | ⟨-, h⟩
      · exact Literal.neg_ne_self m h
      · exact h rfl
    · rcases hneg with h | ⟨h, -⟩
      · exact hml (by rw [← h, Literal.neg_neg])
      · exact s.consistent m hm h

@[simp]
theorem mem_assign {s : Assignment} {l m : Literal} :
    m ∈ s.assign l ↔ m = l ∨ m ∈ s ∧ m ≠ -l := by
  rw [← mem_literals, assign, SortedSet.mem_insert, SortedSet.mem_erase, mem_literals]

/-- The fault of making `l` true when it is false. -/
def clash? (s : Assignment) (l : Literal) : Option Fault :=
  if -l ∈ s then some (.reassigned l.var (!l.positive)) else none

/-- Make `l` true, which is promised not to be false. -/
def assign? (s : Assignment) (l : Literal) : Except Fault Assignment :=
  match s.clash? l with
  | some f => .error f
  | none => .ok (s.assign l)

/-- A run of assignments, and the fault that cut it short. -/
structure Extension where
  state : Assignment
  fault? : Option Fault

/-- Make the literals true one after another, up to and with the first that was false. -/
def extend (s : Assignment) : List Literal → Extension
  | [] => ⟨s, none⟩
  | l :: ls =>
      match s.clash? l with
      | some f => ⟨s.assign l, some f⟩
      | none => (s.assign l).extend ls

/-- The assignment that makes the literals true, which are promised not to contradict each other. -/
def ofList (ls : List Literal) : Except Fault Assignment :=
  match (∅ : Assignment).extend ls with
  | ⟨s, none⟩ => .ok s
  | ⟨_, some f⟩ => .error f

/-- Turn the value of a variable round, if it has one. -/
def flip (s : Assignment) (v : Var) : Assignment :=
  match s.value? v with
  | some b => s.assign ⟨v, !b⟩
  | none => s

/-- Give the variables that have no value yet the value `b`. -/
def fill (s : Assignment) (vs : List Var) (b : Bool) : Assignment :=
  vs.foldl (fun t v => if t.isAssigned v then t else t.assign ⟨v, b⟩) s

end Assignment

/-- The value of a literal. -/
def Literal.eval (l : Literal) (s : Assignment) : Option Bool :=
  (s.value? l.var).map (· == l.positive)

end Clausal
