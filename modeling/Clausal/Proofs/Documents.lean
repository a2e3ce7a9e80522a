import Mathlib.Order.Bounds.Defs
import Clausal.Dimacs
import Clausal.Proofs.Lines
import Clausal.Proofs.Satisfaction
import Clausal.Proofs.Tokens

/-! # Documents that are written and read back

What `write` makes of a formula, `read` takes back, but for the empty clauses: a line of no
literals adds no clause (`read_textOf`).  Every line is read for itself, so this comes down to two
kinds of lines: the problem line declares its number (`spells_problemLine`), and the line of a
clause names its literals (`spells_clauseLine`).  Both are words with one blank between any two.

Whatever is read has numbers that fit in the format and no empty clause (`isWritable_of_read`,
`ne_empty_of_read`), so writing it never fails and loses nothing (`read_write`). -/

namespace Clausal

open Clausal.Text

/-- All variables have numbers that can be written with a sign in 32 bits. -/
def Formula.IsWritable (F : Formula) : Prop := ∀ v ∈ F.vars, v.index ≤ Literal.maxNumber

/-- The clauses that are not empty. -/
def Formula.dropEmpty (F : Formula) : Formula := ⟨F.clauses.filter fun c => decide (c ≠ ∅)⟩

namespace Dimacs

variable {F : Formula} {c : Clause} {ls : List Literal} {ws : List (List Char)} {n : Nat}

/-! ### What is written -/

theorem numbers_eq_ok (h : ∀ l ∈ ls, l.var.index ≤ Literal.maxNumber) :
    numbers ls = .ok (ls.map fun l => toString l.number) := by
  apply mapM_map_eq_ok
  intro l hl
  rw [Literal.signed, if_pos (h l hl)]
  rfl

/-- The line of a clause: its literals and a zero. -/
def clauseLine (c : Clause) : String :=
  " ".intercalate (c.toList.map (fun l => toString l.number) ++ ["0"])

/-- The problem line: the declared number of variables and the number of clauses. -/
def problemLine (count size : Nat) : String := "p cnf " ++ toString count ++ " " ++ toString size

theorem writeClause_eq_ok (h : ∀ l ∈ c, l.var.index ≤ Literal.maxNumber) :
    writeClause c = .ok (clauseLine c) := by
  have hlist : ∀ l ∈ c.toList, l.var.index ≤ Literal.maxNumber := h
  rw [writeClause, numbers_eq_ok hlist]
  rfl

/-- The lines of a formula that is written. -/
def linesOf (n : Nat) (F : Formula) : List String :=
  problemLine (max n (maxIndex F)) F.size :: F.clauses.map clauseLine

/-- The text of a formula that is written. -/
def textOf (n : Nat) (F : Formula) : String := String.join ((linesOf n F).map (· ++ "\n"))

theorem write_eq_ok (h : F.IsWritable) (n : Nat) : write n F = .ok (textOf n F) := by
  have hclauses : F.clauses.mapM writeClause = .ok (F.clauses.map clauseLine) := by
    apply mapM_map_eq_ok
    intro c hc
    apply writeClause_eq_ok
    intro l hl
    exact h _ (Formula.mem_vars_of_mem hc hl)
  rw [write, hclauses]
  rfl

/-! ### The largest number -/

theorem index_le_maxIndex {v : Var} (hv : v ∈ F.vars) : v.index ≤ maxIndex F := by
  have hne : F.vars.toList ≠ [] := List.ne_nil_of_mem hv
  have hlast := List.dropLast_concat_getLast hne
  have hinc := F.vars.increasing
  rw [← hlast, List.pairwise_append] at hinc
  rw [maxIndex, List.getLast?_eq_some_getLast hne]
  rw [← SortedSet.mem_toList, ← hlast, List.mem_append, List.mem_singleton] at hv
  rcases hv with hv | rfl
  · exact Nat.le_of_lt (Var.compare_eq_lt.mp (hinc.2.2 v hv _ List.mem_cons_self))
  · exact Nat.le_refl _

theorem maxIndex_eq (F : Formula) : maxIndex F = 0 ∨ ∃ v ∈ F.vars, v.index = maxIndex F := by
  rw [maxIndex]
  cases h : F.vars.toList.getLast? with
  | none => exact .inl rfl
  | some v => exact .inr ⟨v, List.mem_of_getLast? h, rfl⟩

/-- The largest of the given number and the numbers of the variables is declared. -/
theorem isGreatest_declared (n : Nat) (F : Formula) :
    IsGreatest {k | k = n ∨ ∃ v ∈ F.vars, v.index = k} (max n (maxIndex F)) := by
  constructor
  · rcases Nat.le_total (maxIndex F) n with hle | hle
    · rw [Nat.max_eq_left hle]
      exact .inl rfl
    · rw [Nat.max_eq_right hle]
      rcases maxIndex_eq F with h0 | hv
      · left
        omega
      · exact .inr hv
  · rintro k (rfl | ⟨v, hv, rfl⟩)
    · exact Nat.le_max_left _ _
    · have := index_le_maxIndex hv
      omega

theorem declared_lt (h : F.IsWritable) (hn : n < Nat.pow 2 32) :
    max n (maxIndex F) < Nat.pow 2 32 := by
  have hmax : Literal.maxNumber < Nat.pow 2 32 := by decide
  rcases maxIndex_eq F with h0 | ⟨v, hv, heq⟩
  · omega
  · have := h v hv
    omega

/-! ### What the lines spell -/

/-- Words behind a first one that is no comment and no problem line are a line of literals. -/
theorem spells_words {s : String} {w : List Char} (hs : s.toList = [' '].intercalate (w :: ws))
    (hws : ∀ u ∈ w :: ws, IsWord u) (hw : ∀ c ∈ w.head?, c ≠ 'c' ∧ c ≠ '%' ∧ c ≠ 'p') :
    Spells s (.literals (clauseOfTokens (w :: ws))
      (((w :: ws).filter isIgnored).map String.ofList)) := by
  constructor
  · rw [hs]
    exact lineFeed_not_mem_intercalate hws
  · intro n
    have hwords := words_intercalate hws
    have hhead := head?_intercalate (hws w List.mem_cons_self) ws
    obtain ⟨c, cs, hc⟩ := List.exists_cons_of_ne_nil
      (intercalate_ne_nil (hws w List.mem_cons_self) ws)
    rw [hc] at hwords hhead
    obtain ⟨h1, h2, h3⟩ := hw c hhead.symm
    rw [hs, readChars, trim_intercalate hws, hc]
    simp [h1, h2, h3, hwords]

theorem isWord_tokens (ls : List Literal) : ∀ w ∈ tokens ls ++ [['0']], IsWord w := by
  intro w hw
  rcases List.mem_append.mp hw with hw | hw
  · exact isWord_of_mem_tokens hw
  · rw [List.mem_singleton.mp hw]
    exact Numeral.isWord_digits 0

/-- The zero at the end adds nothing. -/
theorem clauseOfTokens_tokens (h : ∀ l ∈ ls, l.var.index ≤ Literal.maxNumber) :
    clauseOfTokens (tokens ls ++ [['0']]) = .ofList ls := by
  have hzero : (number? ['0']).bind Literal.ofInt? = none := by decide
  rw [clauseOfTokens, List.filterMap_append, filterMap_tokens h, List.filterMap_cons, hzero,
    List.filterMap_nil, List.append_nil]

theorem filter_isIgnored_tokens (h : ∀ l ∈ ls, l.var.index ≤ Literal.maxNumber) :
    (tokens ls ++ [['0']]).filter isIgnored = [] := by
  rw [List.filter_eq_nil_iff]
  intro t ht
  rw [Bool.not_eq_true]
  rcases List.mem_append.mp ht with ht | ht
  · exact isIgnored_of_mem_tokens h ht
  · rw [List.mem_singleton.mp ht]
    decide

theorem toList_clauseLine (c : Clause) :
    (clauseLine c).toList = [' '].intercalate (tokens c.toList ++ [['0']]) := by
  rw [clauseLine, String.toList_intercalate, List.map_append, List.map_map]
  rfl

/-- Numbers begin neither like a comment nor like a problem line. -/
theorem head?_ne_of_mem_tokens {w : List Char} (hw : w ∈ tokens ls ++ [['0']]) :
    ∀ c ∈ w.head?, c ≠ 'c' ∧ c ≠ '%' ∧ c ≠ 'p' := by
  intro c hc
  have hmem : c ∈ w := List.mem_of_head? hc
  have hchar : c.isDigit = true ∨ c = '-' := by
    rcases List.mem_append.mp hw with hw | hw
    · obtain ⟨l, -, rfl⟩ := List.mem_map.mp hw
      exact Numeral.isDigit_or_eq_minus l.number c hmem
    · rw [List.mem_singleton.mp hw, List.mem_singleton] at hmem
      rw [hmem]
      exact .inl (by decide)
  rcases hchar with hdigit | rfl
  · refine ⟨?_, ?_, ?_⟩ <;> rintro rfl <;> exact absurd hdigit (by decide)
  · decide

theorem spells_clauseLine (h : ∀ l ∈ c, l.var.index ≤ Literal.maxNumber) :
    Spells (clauseLine c) (.literals c []) := by
  have hwritable : ∀ l ∈ c.toList, l.var.index ≤ Literal.maxNumber := h
  have hlist : Clause.ofList c.toList = c := by
    apply Clause.ext
    intro l
    rw [Clause.mem_ofList, Clause.mem_toList]
  -- the zero makes sure that even the line of the empty clause has a first word
  have hne : tokens c.toList ++ [['0']] ≠ [] := by simp
  obtain ⟨w, ws, hws⟩ := List.exists_cons_of_ne_nil hne
  have hline := toList_clauseLine c
  have hwords := isWord_tokens c.toList
  have hw : w ∈ tokens c.toList ++ [['0']] := by
    rw [hws]
    exact List.mem_cons_self
  rw [hws] at hline hwords
  have hspells := spells_words hline hwords (head?_ne_of_mem_tokens hw)
  rwa [← hws, clauseOfTokens_tokens hwritable, filter_isIgnored_tokens hwritable, hlist] at hspells

/-- The words of a problem line. -/
def problemWords (count size : Nat) : List (List Char) :=
  [['p'], ['c', 'n', 'f'], Numeral.digits count, Numeral.digits size]

theorem isWord_problemWords (count size : Nat) : ∀ w ∈ problemWords count size, IsWord w := by
  have hp : IsWord ['p'] := ⟨by simp, by simp [isBlank]⟩
  have hcnf : IsWord ['c', 'n', 'f'] := ⟨by simp, by simp [isBlank]⟩
  simp [problemWords, hp, hcnf, Numeral.isWord_digits]

theorem toList_problemLine (count size : Nat) :
    (problemLine count size).toList = [' '].intercalate (problemWords count size) := by
  simp [problemLine, problemWords, Numeral.digits, List.intercalate_cons_cons]

theorem spells_problemLine {count : Nat} (h : count < Nat.pow 2 32) (size : Nat) :
    Spells (problemLine count size) (.problem count (problemLine count size)) := by
  have hline := toList_problemLine count size
  have hwords := isWord_problemWords count size
  constructor
  · rw [hline]
    exact lineFeed_not_mem_intercalate hwords
  · intro n
    have hcut := words_intercalate hwords
    have htrim := trim_intercalate hwords
    -- the reader looks at the first character before it cuts the line into words
    obtain ⟨cs, hcs⟩ : ∃ cs, (problemLine count size).toList = 'p' :: cs := by
      rw [hline]
      exact ⟨_, rfl⟩
    rw [← hline, hcs] at hcut htrim
    have hread : Numeral.natOfBits? 32 (Numeral.digits count) = some count :=
      Numeral.natOfBits?_digits h
    have htext : String.ofList ('p' :: cs) = problemLine count size := by
      rw [← hcs, String.ofList_toList]
    rw [hcs, readChars, htrim]
    simp [readProblem, hcut, problemWords, hread, htext]

/-! ### Writing and reading -/

theorem spells_linesOf (h : F.IsWritable) (hn : n < Nat.pow 2 32) :
    List.Forall₂ Spells (linesOf n F)
      (.problem (max n (maxIndex F)) (problemLine (max n (maxIndex F)) F.size) ::
        F.clauses.map fun c => .literals c []) := by
  constructor
  · exact spells_problemLine (declared_lt h hn) F.size
  · rw [List.forall₂_map_left_iff, List.forall₂_map_right_iff, List.forall₂_same]
    intro c hc
    apply spells_clauseLine
    intro l hl
    exact h _ (Formula.mem_vars_of_mem hc hl)

theorem ofLines_linesOf (count : Nat) (text : String) (F : Formula) :
    Document.ofLines (.problem count text :: F.clauses.map fun c => .literals c []) =
      ⟨F.dropEmpty, some count⟩ := by
  have hclause : (Line.clause? ∘ fun c => .literals c []) =
      Option.guard fun c => decide (c ≠ ∅) := by
    funext c
    show (if c.isEmpty = true then none else some c) = Option.guard (fun c => decide (c ≠ ∅)) c
    simp only [Clause.isEmpty_iff_eq_empty, Option.guard, decide_eq_true_eq, ite_not]
  rw [Document.ofLines, Formula.dropEmpty]
  congr 2
  rw [List.filterMap_cons, Line.clause?, List.filterMap_map, hclause, List.filterMap_eq_filter]

theorem read_textOf (h : F.IsWritable) (hn : n < Nat.pow 2 32) :
    read (textOf n F).toUTF8.toList = .ok ⟨F.dropEmpty, some (max n (maxIndex F))⟩ := by
  rw [read, textOf, readLines_toUTF8 (spells_linesOf h hn), ← ofLines_linesOf]
  rfl

theorem dropEmpty_eq_self : F.dropEmpty = F ↔ ∅ ∉ F := by
  obtain ⟨cs⟩ := F
  rw [Formula.dropEmpty, Formula.mk.injEq, List.filter_eq_self]
  constructor
  · intro h hmem
    have hne := h ∅ hmem
    simp at hne
  · intro h c hc
    have hne : c ≠ ∅ := fun heq => h (heq ▸ hc)
    exact decide_eq_true hne

/-! ### What is read -/

/-- The numbers of a line fit in the format. -/
def Line.InRange : Line → Prop
  | silent => True
  | problem count _ => count < Nat.pow 2 32
  | literals c _ => ∀ l ∈ c, l.var.index ≤ Literal.maxNumber

theorem index_le_of_mem_clauseOfTokens {l : Literal} (h : l ∈ clauseOfTokens ws) :
    l.var.index ≤ Literal.maxNumber := by
  rw [clauseOfTokens, Clause.mem_ofList, List.mem_filterMap] at h
  obtain ⟨t, -, ht⟩ := h
  obtain ⟨n, -, hn⟩ := Option.bind_eq_some_iff.mp ht
  exact Literal.index_le_of_ofInt? hn

theorem inRange_of_readProblem {cs : List Char} {x : Line} (h : readProblem n cs = .ok x) :
    x.InRange := by
  unfold readProblem at h
  split at h
  · split at h
    · next count hcount =>
        obtain ⟨t, -, ht⟩ := Option.bind_eq_some_iff.mp hcount
        cases h
        exact Numeral.natOfBits?_lt ht
    · cases h
  · cases h

theorem inRange_of_readLine {bytes : List UInt8} {x : Line} (h : readLine n bytes = .ok x) :
    x.InRange := by
  unfold readLine readChars at h
  split at h
  · split at h
    · cases h
      trivial
    · split_ifs at h
      · cases h
        trivial
      · exact inRange_of_readProblem h
      · cases h
        exact fun l hl => index_le_of_mem_clauseOfTokens hl
  · cases h

/-- Every line of a document that was read is in range. -/
theorem exists_lines_of_read {bytes : List UInt8} {d : Document} (h : read bytes = .ok d) :
    ∃ xs : List Line, (∀ x ∈ xs, x.InRange) ∧ d = .ofLines xs := by
  obtain ⟨xs, hlines, rfl⟩ := exists_lines_eq h
  refine ⟨xs, fun x hx => ?_, rfl⟩
  obtain ⟨p, -, hp⟩ := exists_of_mapM hlines hx
  exact inRange_of_readLine hp

theorem clause?_eq_some {x : Line} (h : x.clause? = some c) :
    c ≠ ∅ ∧ ∃ ts, x = .literals c ts := by
  cases x with
  | silent => cases h
  | problem count text => cases h
  | literals d ts =>
      rw [Line.clause?] at h
      split at h
      · cases h
      · next hne =>
          cases h
          exact ⟨fun heq => hne (Clause.isEmpty_iff_eq_empty.mpr heq), ts, rfl⟩

theorem ne_empty_of_read {bytes : List UInt8} {d : Document} (h : read bytes = .ok d) :
    ∀ c ∈ d.formula, c ≠ ∅ := by
  obtain ⟨xs, -, rfl⟩ := exists_lines_of_read h
  intro c hc
  obtain ⟨x, -, hx⟩ := List.mem_filterMap.mp hc
  exact (clause?_eq_some hx).1

theorem isWritable_of_read {bytes : List UInt8} {d : Document} (h : read bytes = .ok d) :
    d.formula.IsWritable := by
  obtain ⟨xs, hxs, rfl⟩ := exists_lines_of_read h
  intro v hv
  obtain ⟨c, hc, l, hl, rfl⟩ := Formula.mem_vars.mp hv
  obtain ⟨x, hx, hclause⟩ := List.mem_filterMap.mp hc
  obtain ⟨-, ts, rfl⟩ := clause?_eq_some hclause
  exact hxs _ hx l hl

theorem numVars_lt_of_read {bytes : List UInt8} {d : Document} (h : read bytes = .ok d) :
    d.numVars < Nat.pow 2 32 := by
  obtain ⟨xs, hxs, rfl⟩ := exists_lines_of_read h
  rw [Document.numVars, Document.ofLines]
  cases hcount : xs.findSome? Line.count? with
  | none => exact Nat.two_pow_pos 32
  | some count =>
      obtain ⟨x, hx, hcount⟩ := List.exists_of_findSome?_eq_some hcount
      cases x with
      | silent => cases hcount
      | literals c ts => cases hcount
      | problem k text =>
          cases hcount
          exact hxs _ hx

/-! ### The round trip -/

/-- Every formula of numbers that fit in the format can be written, and reading it back gives its
clauses in their order, without the empty ones, with the largest of the given number and the numbers
of the variables declared.  So exactly the formulas without the empty clause come back as they are,
and all formulas that were read do. -/
theorem read_write :
    (∀ (F : Formula) (n : Nat), (∀ v ∈ F.vars, v.index ≤ Literal.maxNumber) → n < Nat.pow 2 32 →
      ∃ text d, write n F = .ok text ∧ read text.toUTF8.toList = .ok d ∧
        IsGreatest {k | k = n ∨ ∃ v ∈ F.vars, v.index = k} d.numVars ∧
        d.formula = ⟨F.clauses.filter fun c => decide (c ≠ ∅)⟩ ∧
        (d.formula = F ↔ ∅ ∉ F)) ∧
    ∀ (bytes : List UInt8) (d : Document), read bytes = .ok d →
      ∃ text d', write d.numVars d.formula = .ok text ∧ read text.toUTF8.toList = .ok d' ∧
        d'.formula = d.formula := by
  constructor
  · intro F n hF hn
    exact ⟨_, _, write_eq_ok hF n, read_textOf hF hn, isGreatest_declared n F, rfl,
      dropEmpty_eq_self⟩
  · intro bytes d hd
    have hwritable := isWritable_of_read hd
    have hempty : ∅ ∉ d.formula := fun hmem => ne_empty_of_read hd ∅ hmem rfl
    exact ⟨_, _, write_eq_ok hwritable d.numVars, read_textOf hwritable (numVars_lt_of_read hd),
      dropEmpty_eq_self.mpr hempty⟩

/-- The formula `(¬x1 ∨ x3) ∧ ⊥` loses its empty clause when it is written the first time, and
nothing more the second time. -/
theorem read_write_of_empty_clause :
    let c := Clause.ofList [.pos ⟨3, by decide⟩, .neg ⟨1, by decide⟩]
    ∃ text d text' d', write 2 ⟨[c, ∅]⟩ = .ok text ∧ read text.toUTF8.toList = .ok d ∧
      write d.numVars d.formula = .ok text' ∧ read text'.toUTF8.toList = .ok d' ∧
      d.formula = ⟨[c]⟩ ∧ d'.formula = d.formula := by
  intro c
  have hwritable : ∀ v ∈ (⟨[c, ∅]⟩ : Formula).vars.toList, v.index ≤ Literal.maxNumber := by decide
  obtain ⟨text, d, hwrite, hread, -, hformula, -⟩ := read_write.1 ⟨[c, ∅]⟩ 2 hwritable (by decide)
  obtain ⟨text', d', hwrite', hread', hsame⟩ := read_write.2 _ d hread
  have hdrop : [c, ∅].filter (fun c => decide (c ≠ ∅)) = [c] := by decide
  refine ⟨text, d, text', d', hwrite, hread, hwrite', hread', ?_, hsame⟩
  rw [hformula, hdrop]

end Dimacs

end Clausal
