import Clausal.Proofs.Lines

/-! # Documents one behind the other

Two texts of which the first ends where a line does are read together as they are read apart
(`read_append_eq`): what stands in a line does not depend on its number, which only an error
mentions, and there as many lines are counted in front as the first text has line feeds
(`readLinesFrom_add`).  The line feeds are those of the lines, since such a text is made up of
complete lines (`exists_eq_flatMap`).

With this, `read_concatenates` says which error or which document the reader ends with. -/

namespace Clausal.Dimacs

variable {bs : List UInt8} {lines : List (List UInt8)} {n : Nat}

/-! ### Complete lines -/

theorem exists_eq_flatMap (h : bs = [] ∨ bs.getLast? = some 10) :
    ∃ lines : List (List UInt8), (∀ line ∈ lines, 10 ∉ line) ∧
      bs = lines.flatMap (· ++ [10]) := by
  induction bs with
  | nil => exact ⟨[], nofun, rfl⟩
  | cons b bs ih =>
      have htail : bs = [] ∨ bs.getLast? = some 10 := by
        cases bs with
        | nil => exact .inl rfl
        | cons b' bs => exact .inr (by simpa using h)
      obtain ⟨lines, hlines, rfl⟩ := ih htail
      by_cases hb : b = 10
      · refine ⟨[] :: lines, ?_, by rw [hb]; rfl⟩
        rw [List.forall_mem_cons]
        exact ⟨List.not_mem_nil, hlines⟩
      · -- the byte belongs to the first line, and there is one since `b` ends none
        cases lines with
        | nil =>
            have hfeed : b = 10 := by simpa using h
            exact absurd hfeed hb
        | cons line lines =>
            rw [List.forall_mem_cons] at hlines
            refine ⟨(b :: line) :: lines, ?_, rfl⟩
            rw [List.forall_mem_cons, List.mem_cons, not_or]
            exact ⟨⟨Ne.symm hb, hlines.1⟩, hlines.2⟩

theorem count_flatMap (h : ∀ line ∈ lines, 10 ∉ line) :
    (lines.flatMap (· ++ [10])).count 10 = lines.length := by
  induction lines with
  | nil => rfl
  | cons line lines ih =>
      rw [List.forall_mem_cons] at h
      rw [List.flatMap_cons, List.count_append, List.count_append, ih h.2,
        List.count_eq_zero_of_not_mem h.1, List.length_cons, List.count_singleton_self]
      omega

theorem splitLines_append (h : bs = [] ∨ bs.getLast? = some 10) (bs' : List UInt8) :
    splitLines (bs ++ bs') = splitLines bs ++ splitLines bs' := by
  obtain ⟨lines, hlines, rfl⟩ := exists_eq_flatMap h
  rw [splitLines_flatMap_append hlines, splitLines_flatMap hlines]

theorem length_splitLines (h : bs = [] ∨ bs.getLast? = some 10) :
    (splitLines bs).length = bs.count 10 := by
  obtain ⟨lines, hlines, rfl⟩ := exists_eq_flatMap h
  rw [splitLines_flatMap hlines, count_flatMap hlines]

/-! ### Numbers of lines -/

/-- The error behind `k` more lines. -/
def ReadError.behind (k : Nat) : ReadError → ReadError
  | notCnf line header => notCnf (line + k) header
  | invalidCount line header => invalidCount (line + k) header
  | notText => notText

theorem readProblem_add (n k : Nat) (cs : List Char) :
    readProblem (n + k) cs = (readProblem n cs).mapError (.behind k) := by
  unfold readProblem
  split
  · split <;> rfl
  · rfl

theorem readChars_add (n k : Nat) (cs : List Char) :
    readChars (n + k) cs = (readChars n cs).mapError (.behind k) := by
  unfold readChars
  split
  · rfl
  · split_ifs
    · rfl
    · exact readProblem_add n k _
    · rfl

theorem readLine_add (n k : Nat) (line : List UInt8) :
    readLine (n + k) line = (readLine n line).mapError (.behind k) := by
  unfold readLine
  split
  · exact readChars_add n k _
  · rfl

theorem readLinesFrom_add (n k : Nat) (lines : List (List UInt8)) :
    readLinesFrom (n + k) lines = (readLinesFrom n lines).mapError (.behind k) := by
  induction lines generalizing n with
  | nil => rfl
  | cons line lines ih =>
      rw [readLinesFrom_cons, readLinesFrom_cons, readLine_add, Nat.add_right_comm, ih]
      cases readLine n line with
      | error e => rfl
      | ok x => cases readLinesFrom (n + 1) lines <;> rfl

theorem readLinesFrom_append (n : Nat) (lines lines' : List (List UInt8)) :
    readLinesFrom n (lines ++ lines') = (do
      let xs ← readLinesFrom n lines
      let ys ← readLinesFrom (n + lines.length) lines'
      return xs ++ ys) := by
  rw [readLinesFrom, List.zipIdx_append, List.mapM_append]
  rfl

/-! ### Joined documents -/

/-- The clauses of both, with the number that the first of them declares. -/
def Document.append (d d' : Document) : Document :=
  ⟨d.formula.append d'.formula, d.declared?.or d'.declared?⟩

theorem ofLines_append (xs ys : List Line) :
    Document.ofLines (xs ++ ys) = (Document.ofLines xs).append (.ofLines ys) := by
  simp only [Document.ofLines, Document.append, Formula.append, List.filterMap_append,
    List.findSome?_append]

theorem read_append_eq (h : bs = [] ∨ bs.getLast? = some 10) (bs' : List UInt8) :
    read (bs ++ bs') = (do
      let d ← read bs
      let d' ← (read bs').mapError (.behind (bs.count 10))
      return d.append d') := by
  rw [read, read, read, readLines, splitLines_append h, readLinesFrom_append, length_splitLines h,
    readLinesFrom_add, ← readLines, ← readLines]
  cases readLines bs with
  | error e => rfl
  | ok xs =>
      cases readLines bs' with
      | error e => rfl
      | ok ys => exact congrArg Except.ok (ofLines_append xs ys)

/-! ### Problem lines -/

/-- The first character of the line that is not blank is a `p`. -/
def IsProblemLine (line : List UInt8) : Prop :=
  ∃ cs, decode? line = some cs ∧ (Text.trim cs).head? = some 'p'

theorem isSome_count?_of_readProblem {cs : List Char} {x : Line} (h : readProblem n cs = .ok x) :
    x.count?.isSome := by
  unfold readProblem at h
  split at h
  · split at h
    · cases h
      rfl
    · cases h
  · cases h

theorem isSome_count?_iff {line : List UInt8} {x : Line} (h : readLine n line = .ok x) :
    x.count?.isSome ↔ IsProblemLine line := by
  unfold readLine at h
  split at h
  · next cs hcs =>
      have hline : IsProblemLine line ↔ (Text.trim cs).head? = some 'p' := by
        simp [IsProblemLine, hcs]
      rw [hline]
      unfold readChars at h
      split at h
      · next htrim =>
          cases h
          simp [htrim, Line.count?]
      · next c rest htrim =>
          rw [htrim, List.head?_cons, Option.some_inj]
          split_ifs at h with hsilent hp
          · cases h
            refine iff_of_false nofun ?_
            rintro rfl
            simp at hsilent
          · exact iff_of_true (isSome_count?_of_readProblem h) hp
          · cases h
            exact iff_of_false nofun hp
  · cases h

theorem exists_isSome_count?_iff {xs : List Line} (h : readLinesFrom n lines = .ok xs) :
    (∃ x ∈ xs, x.count?.isSome) ↔ ∃ line ∈ lines, IsProblemLine line := by
  induction lines generalizing n xs with
  | nil =>
      cases h
      simp
  | cons line lines ih =>
      rw [readLinesFrom, List.zipIdx_cons, mapM_eq_ok, List.forall₂_cons_left_iff] at h
      obtain ⟨x, rest, hx, hrest, rfl⟩ := h
      rw [List.exists_mem_cons_iff, List.exists_mem_cons_iff, isSome_count?_iff hx,
        ih (mapM_eq_ok.mpr hrest)]

theorem isSome_declared?_iff {d : Document} (h : read bs = .ok d) :
    d.declared?.isSome ↔ ∃ line ∈ splitLines bs, IsProblemLine line := by
  obtain ⟨xs, hlines, rfl⟩ := exists_lines_eq h
  rw [Document.ofLines, List.findSome?_isSome_iff, exists_isSome_count?_iff hlines]

/-! ### Reading one text behind the other -/

/-- A text that ends where a line does and any text behind it are read as the two are.  If the first
cannot be read, they end with its error; if only the second cannot, they end with the error of the
second, but with its line counted from the start of the first; and otherwise the clauses of the
second stand behind those of the first, and the number of variables is that of the first if there is
a problem line in it, and that of the second if not. -/
theorem read_concatenates {A : List UInt8} (hA : A = [] ∨ A.getLast? = some 10) (B : List UInt8) :
    (∀ e, read A = .error e → read (A ++ B) = .error e) ∧
    (∀ d e, read A = .ok d → read B = .error e →
      read (A ++ B) = .error (e.behind (A.count 10))) ∧
    (∀ d d', read A = .ok d → read B = .ok d' → ∃ joined, read (A ++ B) = .ok joined ∧
      joined.formula.clauses = d.formula.clauses ++ d'.formula.clauses ∧
      ((∃ line ∈ splitLines A, IsProblemLine line) → joined.numVars = d.numVars) ∧
      ((¬ ∃ line ∈ splitLines A, IsProblemLine line) → joined.numVars = d'.numVars)) := by
  rw [read_append_eq hA]
  refine ⟨fun e he => ?_, fun d e hd he => ?_, fun d d' hd hd' => ?_⟩
  · rw [he]
    rfl
  · rw [hd, he]
    rfl
  · rw [hd, hd', ← isSome_declared?_iff hd]
    refine ⟨d.append d', rfl, rfl, fun hsome => ?_, fun hnone => ?_⟩
    · obtain ⟨count, hcount⟩ := Option.isSome_iff_exists.mp hsome
      rw [Document.numVars, Document.numVars, Document.append, hcount, Option.some_or]
    · rw [Option.not_isSome_iff_eq_none] at hnone
      rw [Document.numVars, Document.numVars, Document.append, hnone, Option.none_or]

/-- A problem line of another format in the second line is reported in the fourth if two lines stand
in front.  And the first text may declare nothing, then the number of the second one is kept. -/
theorem read_concatenates_of_two_lines :
    let A := utf8 "c\n1 -2 0\n".toList
    let B := utf8 "p cnf 5 1\n3 0".toList
    let C := utf8 "\np dnf 2".toList
    read (A ++ C) = .error (.notCnf 4 "p dnf 2") ∧
      ∃ d, read (A ++ B) = .ok d ∧ d.numVars = 5 ∧
        d.formula.clauses = [clauseOfText "1 -2", clauseOfText "3"] := by
  intro A B C
  have hA : A = [] ∨ A.getLast? = some 10 := .inr (by decide)
  have hfeeds : A.count 10 = 2 := by decide
  have hreadA : read A = .ok ⟨⟨[clauseOfText "1 -2"]⟩, none⟩ := by decide
  have hreadB : read B = .ok ⟨⟨[clauseOfText "3"]⟩, some 5⟩ := by decide
  have hreadC : read C = .error (.notCnf 2 "p dnf 2") := by decide
  have hsilent : ¬ ∃ line ∈ splitLines A, IsProblemLine line := by
    rw [← isSome_declared?_iff hreadA]
    exact nofun
  constructor
  · have herror := (read_concatenates hA C).2.1 _ _ hreadA hreadC
    rwa [hfeeds] at herror
  · obtain ⟨d, hd, hclauses, -, hnumVars⟩ := (read_concatenates hA B).2.2 _ _ hreadA hreadB
    exact ⟨d, hd, hnumVars hsilent, hclauses⟩

end Clausal.Dimacs
