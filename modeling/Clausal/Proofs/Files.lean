import Mathlib.Tactic.SplitIfs
import Clausal.Files

/-! # Files that were written can be read

`Way` lists the steps by which a path leads somewhere (`follow_eq_ok_iff`).  It ends in a directory,
or in a place that holds a file or nothing.  Putting a file in such a place changes nothing on the
way there, so afterwards the path leads to this file, also when it is asked for without the intent
to create one (`Way.put`).

`Holds` says that a path leads to a file with given bytes.  Such a file is read with these bytes
(`Holds.read`), and changing it leaves a tree that holds the changed bytes (`Holds.exists_change`).
A path that leads to nothing holds what is written to it first (`exists_change_of_absent`). -/

namespace Clausal

namespace FileTree

variable {t : FileTree} {creating creating' : Bool} {links : Nat} {here place q : List String}
  {name path : String} {names rest : List String} {x : Target} {i : Item} {bytes : List UInt8}

/-! ### Items -/

theorem item?_put (hplace : place ≠ []) :
    (t.put place i).item? q = if q = place then some i else t.item? q := by
  unfold item? put
  by_cases hq : q = []
  · subst hq
    rw [if_neg (Ne.symm hplace)]
    rfl
  · have hempty : ¬ q.isEmpty = true := by simpa using hq
    rw [if_neg hempty, if_neg hempty]
    by_cases heq : q = place
    · subst heq
      simp
    · rw [if_neg heq, List.find?_cons_of_neg (by simpa using Ne.symm heq), List.find?_filter]
      congr 2
      funext e
      by_cases he : e.1 = q
      · simp [he, heq]
      · simp [he]

/-! ### Where paths lead -/

/-- A component that is looked up: it is short enough, and if a file is to be created under it, no
slash stands behind it. -/
structure LookedUp (creating : Bool) (name : String) (rest : List String) : Prop where
  not_here : ¬ (name = "" ∨ name = ".")
  not_up : name ≠ ".."
  no_slash : creating = true → ¬ (rest ≠ [] ∧ rest.all (·.isEmpty) = true)
  size_le : ¬ maxComponent < name.utf8ByteSize

/-- The way along components from a directory, with so many links to follow. -/
inductive Way (t : FileTree) (creating : Bool) :
    Nat → List String → List String → Target → Prop
  | arrived (links : Nat) (here : List String) :
      Way t creating links here [] ⟨here, some .directory⟩
  | stay {links : Nat} {here rest : List String} {name : String} {x : Target}
      (hname : name = "" ∨ name = ".") (way : Way t creating links here rest x) :
      Way t creating links here (name :: rest) x
  | up {links : Nat} {here rest : List String} {x : Target}
      (way : Way t creating links here.dropLast rest x) :
      Way t creating links here (".." :: rest) x
  /-- Nothing stands under the last name. -/
  | nothing {links : Nat} {here : List String} {name : String}
      (hname : LookedUp creating name []) (hitem : t.item? (here ++ [name]) = none) :
      Way t creating links here [name] ⟨here ++ [name], none⟩
  | file {links : Nat} {here : List String} {name : String} {bytes : List UInt8}
      (hname : LookedUp creating name [])
      (hitem : t.item? (here ++ [name]) = some (.file bytes)) :
      Way t creating links here [name] ⟨here ++ [name], some (.file bytes)⟩
  | enter {links : Nat} {here rest : List String} {name : String} {x : Target}
      (hname : LookedUp creating name rest) (hitem : t.item? (here ++ [name]) = some .directory)
      (way : Way t creating links (here ++ [name]) rest x) :
      Way t creating links here (name :: rest) x
  | link {links : Nat} {here rest : List String} {name target : String} {x : Target}
      (hname : LookedUp creating name rest)
      (hitem : t.item? (here ++ [name]) = some (.link target))
      (way : Way t creating links (if Path.isAbsolute target then [] else here)
        (Path.components target ++ rest) x) :
      Way t creating (links + 1) here (name :: rest) x

theorem way_of_follow (h : t.follow creating links here names = .ok x) :
    Way t creating links here names x := by
  fun_induction follow t creating links here names with
  | case1 links here =>
      cases h
      exact .arrived links here
  | case2 links here name rest hname ih => exact .stay hname (ih h)
  | case3 links here rest _ ih => exact .up (ih h)
  | case6 links here name rest hhere hup hslash hsize hitem hrest =>
      cases h
      obtain rfl := List.isEmpty_iff.mp hrest
      exact .nothing ⟨hhere, hup, fun hc hr => hslash ⟨hc, hr⟩, hsize⟩ hitem
  | case8 links here name rest hhere hup hslash hsize hitem ih =>
      exact .enter ⟨hhere, hup, fun hc hr => hslash ⟨hc, hr⟩, hsize⟩ hitem (ih h)
  | case9 links here name rest hhere hup hslash hsize bytes hitem hrest =>
      cases h
      obtain rfl := List.isEmpty_iff.mp hrest
      exact .file ⟨hhere, hup, fun hc hr => hslash ⟨hc, hr⟩, hsize⟩ hitem
  | case12 here name rest hhere hup hslash hsize target hitem links start ih =>
      exact .link ⟨hhere, hup, fun hc hr => hslash ⟨hc, hr⟩, hsize⟩ hitem (ih h)
  | _ => cases h

/-- A component that is looked up leads on by what stands under it. -/
theorem LookedUp.follow_eq (h : LookedUp creating name rest) :
    t.follow creating links here (name :: rest) =
      match t.item? (here ++ [name]) with
      | none => if rest.isEmpty then .ok ⟨here ++ [name], none⟩ else .error .notFound
      | some .directory => t.follow creating links (here ++ [name]) rest
      | some (.file bytes) =>
          if rest.isEmpty then .ok ⟨here ++ [name], some (.file bytes)⟩ else .error .notADirectory
      | some (.link target) =>
          match links with
          | 0 => .error .tooManyLinks
          | links + 1 =>
              t.follow creating links (if Path.isAbsolute target then [] else here)
                (Path.components target ++ rest) := by
  rewrite [follow, if_neg h.not_here, if_neg h.not_up, if_neg fun hs => h.no_slash hs.1 hs.2,
    if_neg h.size_le]
  rfl

theorem Way.follow_eq (h : Way t creating links here names x) :
    t.follow creating links here names = .ok x := by
  induction h with
  | arrived links here => rw [follow]
  | stay hname _ ih => rw [follow, if_pos hname, ih]
  | up _ ih => rw [follow, if_neg (by decide), if_pos rfl, ih]
  | nothing hname hitem =>
      rw [hname.follow_eq, hitem]
      rfl
  | file hname hitem =>
      rw [hname.follow_eq, hitem]
      rfl
  | enter hname hitem _ ih => rw [hname.follow_eq, hitem, ih]
  | link hname hitem _ ih =>
      rw [hname.follow_eq, hitem]
      exact ih

theorem follow_eq_ok_iff :
    t.follow creating links here names = .ok x ↔ Way t creating links here names x :=
  ⟨way_of_follow, Way.follow_eq⟩

/-! ### Ways in another tree -/

/-- A way ends in a directory, or in a place that holds a file or nothing. -/
theorem Way.directory_or (h : Way t creating links here names x) :
    x.item? = some .directory ∨ x.place ≠ [] ∧ t.item? x.place = x.item? ∧
      ∀ target, x.item? ≠ some (.link target) := by
  induction h with
  | arrived links here => exact .inl rfl
  | stay _ _ ih | up _ ih | enter _ _ _ ih | link _ _ _ ih => exact ih
  | nothing _ hitem => exact .inr ⟨by simp, hitem, nofun⟩
  | file _ hitem => exact .inr ⟨by simp, hitem, nofun⟩

theorem LookedUp.of_creating (h : LookedUp true name rest) : LookedUp creating name rest :=
  ⟨h.not_here, h.not_up, fun _ => h.no_slash rfl, h.size_le⟩

/-- What is found for a file to be created is found in any case. -/
theorem Way.of_creating (h : Way t true links here names x) :
    Way t creating links here names x := by
  induction h with
  | arrived links here => exact .arrived links here
  | stay hname _ ih => exact .stay hname ih
  | up _ ih => exact .up ih
  | nothing hname hitem => exact .nothing hname.of_creating hitem
  | file hname hitem => exact .file hname.of_creating hitem
  | enter hname hitem _ ih => exact .enter hname.of_creating hitem ih
  | link hname hitem _ ih => exact .link hname.of_creating hitem ih

/-- Once a file is put where a way leads, the way leads to this file. -/
theorem Way.put (h : Way t creating links here names x) (hx : x.item? ≠ some .directory) :
    Way (t.put x.place (.file bytes)) creating links here names
      ⟨x.place, some (.file bytes)⟩ := by
  obtain ⟨hplace, hitem, hlink⟩ := h.directory_or.resolve_left hx
  have hput : ∀ q, (t.put x.place (.file bytes)).item? q =
      if q = x.place then some (.file bytes) else t.item? q := fun q => item?_put hplace
  -- what the way goes through is not what it leads to, as that is no directory and no link
  have hother : ∀ q i, t.item? q = some i → some i ≠ x.item? →
      (t.put x.place (.file bytes)).item? q = some i := by
    intro q i hq hne
    rw [hput, if_neg, hq]
    rintro rfl
    exact hne (hq.symm.trans hitem)
  induction h with
  | arrived links here => exact absurd rfl hx
  | stay hname _ ih => exact .stay hname (ih hx hplace hitem hlink hput hother)
  | up _ ih => exact .up (ih hx hplace hitem hlink hput hother)
  | nothing hname _ => exact .file hname (by rw [hput, if_pos rfl])
  | file hname _ => exact .file hname (by rw [hput, if_pos rfl])
  | enter hname hdir _ ih =>
      exact .enter hname (hother _ _ hdir (Ne.symm hx)) (ih hx hplace hitem hlink hput hother)
  | link hname htarget _ ih =>
      exact .link hname (hother _ _ htarget (Ne.symm (hlink _)))
        (ih hx hplace hitem hlink hput hother)

/-! ### Paths -/

/-- Why a path leads nowhere, whatever the tree is. -/
def badPath? (path : String) : Option FileError :=
  if path.toList.contains '\x00' then some .zeroInName
  else if path.isEmpty then some .notFound
  else if maxPath < path.utf8ByteSize then some .nameTooLong
  else none

theorem find_eq_ok_iff : t.find creating path = .ok x ↔ badPath? path = none ∧
    Way t creating maxLinks (if Path.isAbsolute path then [] else t.workingDirectory)
      (Path.components path) x := by
  rw [← follow_eq_ok_iff]
  unfold find badPath?
  split_ifs <;> simp

theorem find_of_creating (h : t.find true path = .ok x) : t.find creating path = .ok x := by
  rw [find_eq_ok_iff] at h ⊢
  exact ⟨h.1, h.2.of_creating⟩

/-- Once a file is put where a path leads, the path leads to this file. -/
theorem find_put (h : t.find true path = .ok x) (hx : x.item? ≠ some .directory) :
    (t.put x.place (.file bytes)).find creating path = .ok ⟨x.place, some (.file bytes)⟩ := by
  rw [find_eq_ok_iff] at h ⊢
  exact ⟨h.1, (h.2.put hx).of_creating⟩

/-! ### Contents of files -/

/-- The path leads to a file with these bytes. -/
def Holds (t : FileTree) (path : String) (bytes : List UInt8) : Prop :=
  ∃ place, ∀ creating, t.find creating path = .ok ⟨place, some (.file bytes)⟩

theorem item_of_find (h : t.find false path = .ok ⟨place, some i⟩) :
    t.item path = .ok (place, i) := by
  rw [item, h]
  rfl

theorem Holds.read (h : t.Holds path bytes) : t.read path = .ok bytes := by
  obtain ⟨place, hfind⟩ := h
  rw [FileTree.read, item_of_find (hfind false)]
  rfl

theorem Holds.isPresent (h : t.Holds path bytes) : t.isPresent path = true := by
  obtain ⟨place, hfind⟩ := h
  rw [FileTree.isPresent, item_of_find (hfind false)]
  rfl

theorem Holds.exists_change (h : t.Holds path bytes) (f : List UInt8 → List UInt8) :
    ∃ t', t.change path f = .ok t' ∧ t'.Holds path (f bytes) := by
  obtain ⟨place, hfind⟩ := h
  refine ⟨t.put place (.file (f bytes)), ?_, place, fun creating => ?_⟩
  · rw [change, hfind true]
    rfl
  · exact find_put (hfind true) (by simp)

/-- A file that was not there is created with what a change makes of no bytes. -/
theorem exists_change_of_absent (hnew : t.isPresent path = false) (h : t.find true path = .ok x)
    (f : List UInt8 → List UInt8) : ∃ t', t.change path f = .ok t' ∧ t'.Holds path (f []) := by
  obtain ⟨place, item?⟩ := x
  have hnone : item? = none := by
    cases item? with
    | none => rfl
    | some i =>
        rw [isPresent, item_of_find (find_of_creating h)] at hnew
        cases hnew
  subst hnone
  refine ⟨t.put place (.file (f [])), ?_, place, fun creating => ?_⟩
  · rw [change, h]
    rfl
  · exact find_put h (by simp)

theorem change_of_find_error {e : FileError} (h : t.find true path = .error e)
    (f : List UInt8 → List UInt8) : t.change path f = .error e := by
  rw [change, h]
  rfl

/-! ### Operations that may fail -/

section Attempts

variable {t' : FileTree} {f : FileTree → Except FileError FileTree} {e : FileError}

theorem attempt_eq (f : FileTree → Except FileError FileTree) (t : FileTree) : attempt f t =
    (match f t with
      | .ok t' => do
          set t'
          return .ok ()
      | .error e => return .error e : StateM FileTree (Except FileError Unit)) t :=
  rfl

theorem attempt_of_ok (h : f t = .ok t') : attempt f t = (.ok (), t') := by
  rw [attempt_eq, h]
  rfl

theorem attempt_of_error (h : f t = .error e) : attempt f t = (.error e, t) := by
  rw [attempt_eq, h]
  rfl

end Attempts

end FileTree

end Clausal
