import Std.Data.TreeSet

/-! # Finite sets as increasing lists

A `SortedSet` keeps its members in increasing order, each once, so two sets with the same
members are the same value (`SortedSet.ext`) and a set always has one way to be listed.
Literals of a clause, variables of a formula and the clauses of a saturated formula are
all kept in this way.

Every operation has one lemma that says what it does to membership; `size_lt_size` is the
counting fact behind the searches that use up a variable at each step.

`distinct l` keeps every member of a list where it stands first.  Which members have been met is
looked up in a search tree, so that long lists with many repetitions take little time, and
`SortedSet.ofTree` lists such a tree. -/

namespace Clausal

/-- A finite set, kept as its members in increasing order. -/
structure SortedSet (α : Type) [Ord α] where
  toList : List α
  increasing : toList.Pairwise (fun a b => compare a b = .lt)

namespace SortedSet

variable {α : Type} [Ord α]

/-! ### Membership -/

instance : Membership α (SortedSet α) where
  mem s a := a ∈ s.toList

instance [DecidableEq α] (a : α) (s : SortedSet α) : Decidable (a ∈ s) :=
  inferInstanceAs (Decidable (a ∈ s.toList))

instance [DecidableEq α] : DecidableEq (SortedSet α) := fun s t =>
  decidable_of_iff (s.toList = t.toList) <| by cases s; cases t; simp

instance [Repr α] : Repr (SortedSet α) where
  reprPrec s n := reprPrec s.toList n

theorem mem_toList {s : SortedSet α} {a : α} : a ∈ s.toList ↔ a ∈ s := Iff.rfl

@[simp]
theorem mem_mk {l : List α} {h : l.Pairwise (fun a b => compare a b = .lt)} {a : α} :
    a ∈ (⟨l, h⟩ : SortedSet α) ↔ a ∈ l := Iff.rfl

theorem toList_inj {s t : SortedSet α} : s.toList = t.toList ↔ s = t := by
  cases s; cases t; simp

/-! ### The empty set, size, filters -/

instance : EmptyCollection (SortedSet α) where
  emptyCollection := ⟨[], .nil⟩

instance : Inhabited (SortedSet α) := ⟨∅⟩

@[simp]
theorem toList_empty : (∅ : SortedSet α).toList = [] := rfl

@[simp]
theorem not_mem_empty (a : α) : a ∉ (∅ : SortedSet α) := List.not_mem_nil

def size (s : SortedSet α) : Nat := s.toList.length

def isEmpty (s : SortedSet α) : Bool := s.toList.isEmpty

theorem isEmpty_iff {s : SortedSet α} : s.isEmpty = true ↔ s = ∅ := by
  rw [isEmpty, List.isEmpty_iff, ← toList_inj, toList_empty]

/-- The members that pass the test. -/
def filter (p : α → Bool) (s : SortedSet α) : SortedSet α :=
  ⟨s.toList.filter p, s.increasing.filter p⟩

@[simp]
theorem mem_filter {p : α → Bool} {s : SortedSet α} {a : α} :
    a ∈ s.filter p ↔ a ∈ s ∧ p a = true := List.mem_filter

/-- All members but one. -/
def erase [DecidableEq α] (a : α) (s : SortedSet α) : SortedSet α :=
  s.filter (fun b => decide (b ≠ a))

@[simp]
theorem mem_erase [DecidableEq α] {a b : α} {s : SortedSet α} :
    b ∈ s.erase a ↔ b ∈ s ∧ b ≠ a := by simp [erase]

variable [Std.LawfulEqOrd α]

/-! ### Counting -/

theorem nodup (s : SortedSet α) : s.toList.Nodup := by
  refine s.increasing.imp fun {a b} h heq => ?_
  rw [heq, Std.ReflOrd.compare_self] at h
  cases h

theorem size_le_size {s t : SortedSet α} (h : ∀ a ∈ s, a ∈ t) : s.size ≤ t.size :=
  s.nodup.length_le_of_subset h

/-- A subset that misses a member is smaller. -/
theorem size_lt_size {s t : SortedSet α} {a : α} (h : ∀ b ∈ s, b ∈ t) (ha : a ∈ t)
    (hs : a ∉ s) : s.size < t.size := by
  have hnodup : (a :: s.toList).Nodup := List.nodup_cons.mpr ⟨hs, s.nodup⟩
  refine hnodup.length_le_of_subset fun b hb => ?_
  rcases List.mem_cons.mp hb with rfl | hb
  · exact ha
  · exact h b hb

/-! ### Insertion -/

/-- Put a value at its place in an increasing list; a value that is already there stays once. -/
def place (a : α) : List α → List α
  | [] => [a]
  | b :: l =>
      match compare a b with
      | .lt => a :: b :: l
      | .eq => b :: l
      | .gt => b :: place a l

@[simp]
theorem mem_place {a b : α} {l : List α} : b ∈ place a l ↔ b = a ∨ b ∈ l := by
  induction l with
  | nil => simp [place]
  | cons c l ih =>
      rw [place]
      split
      · simp
      · next h => rw [Std.compare_eq_iff_eq.mp h]; simp
      · simp [ih, or_left_comm]

variable [Std.TransOrd α]

theorem increasing_place {a : α} {l : List α} (h : l.Pairwise (fun a b => compare a b = .lt)) :
    (place a l).Pairwise (fun a b => compare a b = .lt) := by
  induction l with
  | nil => simp [place]
  | cons c l ih =>
      rw [place]
      rw [List.pairwise_cons] at h
      split
      · next hac =>
          refine List.pairwise_cons.mpr ⟨fun b hb => ?_, List.pairwise_cons.mpr h⟩
          rcases List.mem_cons.mp hb with rfl | hb
          · exact hac
          · exact Std.TransCmp.lt_trans hac (h.1 b hb)
      · exact List.pairwise_cons.mpr h
      · next hac =>
          refine List.pairwise_cons.mpr ⟨fun b hb => ?_, ih h.2⟩
          rcases mem_place.mp hb with rfl | hb
          · exact Std.OrientedCmp.gt_iff_lt.mp hac
          · exact h.1 b hb

/-- Add one value. -/
def insert (a : α) (s : SortedSet α) : SortedSet α :=
  ⟨place a s.toList, increasing_place s.increasing⟩

@[simp]
theorem mem_insert {a b : α} {s : SortedSet α} : b ∈ s.insert a ↔ b = a ∨ b ∈ s := mem_place

/-- The set of the values of a list. -/
def ofList (l : List α) : SortedSet α := l.foldr insert ∅

@[simp]
theorem mem_ofList {l : List α} {a : α} : a ∈ ofList l ↔ a ∈ l := by
  induction l with
  | nil => simp [ofList]
  | cons b l ih => rw [ofList, List.foldr_cons, mem_insert, List.mem_cons]; exact or_congr_right ih

/-- The members of either set. -/
def union (s t : SortedSet α) : SortedSet α := s.toList.foldr insert t

@[simp]
theorem mem_union {s t : SortedSet α} {a : α} : a ∈ s.union t ↔ a ∈ s ∨ a ∈ t := by
  have h (l : List α) : a ∈ l.foldr insert t ↔ a ∈ l ∨ a ∈ t := by
    induction l with
    | nil => simp
    | cons b l ih => rw [List.foldr_cons, mem_insert, ih, List.mem_cons, or_assoc]
  exact h s.toList

/-! ### One listing for one set -/

theorem eq_of_mem_iff {l m : List α} (hl : l.Pairwise (fun a b => compare a b = .lt))
    (hm : m.Pairwise (fun a b => compare a b = .lt)) (h : ∀ a, a ∈ l ↔ a ∈ m) : l = m := by
  have irrefl (a : α) : compare a a ≠ .lt := by rw [Std.ReflOrd.compare_self]; simp
  induction l generalizing m with
  | nil =>
      cases m with
      | nil => rfl
      | cons b m => exact absurd ((h b).mpr List.mem_cons_self) List.not_mem_nil
  | cons a l ih =>
      cases m with
      | nil => exact absurd ((h a).mp List.mem_cons_self) List.not_mem_nil
      | cons b m =>
          rw [List.pairwise_cons] at hl hm
          have hab : a = b := by
            rcases List.mem_cons.mp ((h a).mp List.mem_cons_self) with rfl | ha
            · rfl
            rcases List.mem_cons.mp ((h b).mpr List.mem_cons_self) with rfl | hb
            · rfl
            exact absurd (Std.TransCmp.lt_trans (hl.1 b hb) (hm.1 a ha)) (irrefl a)
          subst hab
          congr 1
          refine ih hl.2 hm.2 fun c => ⟨fun hc => ?_, fun hc => ?_⟩
          · rcases List.mem_cons.mp ((h c).mp (List.mem_cons_of_mem a hc)) with rfl | hc'
            · exact absurd (hl.1 c hc) (irrefl c)
            · exact hc'
          · rcases List.mem_cons.mp ((h c).mpr (List.mem_cons_of_mem a hc)) with rfl | hc'
            · exact absurd (hm.1 c hc) (irrefl c)
            · exact hc'

/-- Sets with the same members are equal. -/
theorem ext {s t : SortedSet α} (h : ∀ a, a ∈ s ↔ a ∈ t) : s = t :=
  toList_inj.mp (eq_of_mem_iff s.increasing t.increasing h)

end SortedSet

/-! ### The distinct members of a list -/

variable {α : Type} [Ord α] [Std.TransOrd α]

/-- The members of a tree in increasing order. -/
def SortedSet.ofTree (t : Std.TreeSet α) : SortedSet α := ⟨t.toList, t.ordered_toList⟩

/-- The members of a list that are not in the tree, each where it stands first. -/
def distinctBeyond (seen : Std.TreeSet α) : List α → List α
  | [] => []
  | a :: l =>
      if a ∈ seen then distinctBeyond seen l else a :: distinctBeyond (seen.insert a) l

/-- The members of a list, each where it stands first. -/
def distinct (l : List α) : List α := distinctBeyond ∅ l

variable [Std.LawfulEqOrd α]

@[simp]
theorem SortedSet.mem_ofTree {t : Std.TreeSet α} {a : α} : a ∈ SortedSet.ofTree t ↔ a ∈ t :=
  Std.TreeSet.mem_toList

theorem mem_tree_insert {t : Std.TreeSet α} {a b : α} : b ∈ t.insert a ↔ b = a ∨ b ∈ t := by
  rw [Std.TreeSet.mem_insert, Std.compare_eq_iff_eq, eq_comm]

theorem mem_distinctBeyond {seen : Std.TreeSet α} {l : List α} {a : α} :
    a ∈ distinctBeyond seen l ↔ a ∈ l ∧ a ∉ seen := by
  induction l generalizing seen with
  | nil => simp [distinctBeyond]
  | cons b l ih =>
      rw [distinctBeyond]
      split
      · next hb =>
          rw [ih, List.mem_cons, or_and_right]
          exact ⟨.inr, fun h => h.resolve_left fun ⟨hab, ha⟩ => ha (hab ▸ hb)⟩
      · next hb =>
          rw [List.mem_cons, List.mem_cons, ih, mem_tree_insert]
          by_cases hab : a = b
          · subst hab; simp [hb]
          · simp [hab]

theorem nodup_distinctBeyond {seen : Std.TreeSet α} {l : List α} :
    (distinctBeyond seen l).Nodup := by
  induction l generalizing seen with
  | nil => exact List.nodup_nil
  | cons b l ih =>
      rw [distinctBeyond]
      split
      · exact ih
      · refine List.nodup_cons.mpr ⟨fun h => ?_, ih⟩
        exact (mem_distinctBeyond.mp h).2 (mem_tree_insert.mpr (.inl rfl))

@[simp]
theorem mem_distinct {l : List α} {a : α} : a ∈ distinct l ↔ a ∈ l := by
  simp [distinct, mem_distinctBeyond]

theorem nodup_distinct {l : List α} : (distinct l).Nodup := nodup_distinctBeyond

end Clausal
