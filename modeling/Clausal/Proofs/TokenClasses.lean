import Mathlib.Data.List.DropRight
import Clausal.Proofs.Lines
import Clausal.Proofs.Satisfaction
import Clausal.Proofs.Tokens

/-! # What becomes of the tokens of a line

A line that is neither a comment nor a problem line is read in two ways: its tokens are looked
through for those that are ignored, and its literals are put together to a clause.  Each way sorts
the tokens by itself.

Here a token is sorted by what it spells.  `Numeral.Denotes` are the spellings of a number: digits
behind an optional sign.  A token names a literal if it spells the signed number of the literal
(`Dimacs.Names`).  Reading a number is finding out what is spelt (`Numeral.int?_eq_some_iff`), and
a token is ignored exactly if it spells no zero and names no literal (`Dimacs.isIgnored_iff`).

The main statement is `Dimacs.readLines_sorts_tokens`: each token of the line is a zero, or is
ignored, or names a literal of its clause, and nothing else is in the clause.  That the tokens
ignored are the ones in the log is `Dimacs.ignoredToken_mem_noticesFrom`. -/

namespace Clausal

/-! ### Words -/

namespace Text

theorem words_dropWhile (cs : List Char) : words (cs.dropWhile isBlank) = words cs := by
  induction cs with
  | nil => rfl
  | cons c cs ih =>
      rw [List.dropWhile_cons]
      split
      · next hblank =>
          rw [ih, words, words, wordsBehind_cons, if_pos hblank, List.isEmpty_nil, if_pos rfl]
      · rfl

theorem wordsBehind_concat {c : Char} (hc : isBlank c = true) (begun cs : List Char) :
    wordsBehind begun (cs ++ [c]) = wordsBehind begun cs := by
  induction cs generalizing begun with
  | nil =>
      rw [List.nil_append, wordsBehind_cons, if_pos hc]
      cases begun <;> rfl
  | cons d cs ih => rw [List.cons_append, wordsBehind_cons, wordsBehind_cons, ih, ih]

theorem words_rdropWhile (cs : List Char) : words (cs.rdropWhile isBlank) = words cs := by
  induction cs using List.reverseRecOn with
  | nil => rfl
  | append_singleton cs c ih =>
      rw [List.rdropWhile_concat]
      split
      · next hblank => rw [ih, words, words, wordsBehind_concat hblank]
      · rfl

/-- Blanks at the ends of a text do not matter for its words. -/
theorem words_trim (cs : List Char) : words (trim cs) = words cs :=
  (words_rdropWhile (cs.dropWhile isBlank)).trans (words_dropWhile cs)

end Text

/-! ### Numbers -/

namespace Numeral

variable {cs : List Char}

/-- At least one digit, and nothing else. -/
structure IsDigits (cs : List Char) : Prop where
  ne_nil : cs ≠ []
  isDigit : ∀ c ∈ cs, c.isDigit = true

/-- The text spells the number, by its decimal digits behind an optional sign. -/
inductive Denotes : List Char → Int → Prop
  | digits {cs : List Char} (h : IsDigits cs) : Denotes cs (Nat.ofDigitChars 10 cs 0)
  | plus {cs : List Char} (h : IsDigits cs) : Denotes ('+' :: cs) (Nat.ofDigitChars 10 cs 0)
  | minus {cs : List Char} (h : IsDigits cs) :
      Denotes ('-' :: cs) (-(Nat.ofDigitChars 10 cs 0 : Nat))

theorem digits?_eq_some_iff {n : Nat} :
    digits? cs = some n ↔ IsDigits cs ∧ Nat.ofDigitChars 10 cs 0 = n := by
  rw [digits?]
  split
  · next h =>
      refine iff_of_false (Option.some_ne_none n).symm ?_
      rintro ⟨hcs, -⟩
      have hall : cs.all Char.isDigit = true := List.all_eq_true.mpr hcs.isDigit
      simp [hcs.ne_nil, hall] at h
  · next h =>
      rw [Bool.or_eq_true, not_or, List.isEmpty_iff, Bool.not_eq_true', Bool.not_eq_false,
        List.all_eq_true] at h
      rw [Option.some.injEq]
      exact (and_iff_right ⟨h.1, h.2⟩).symm

theorem int?_eq_some_iff {n : Int} : int? cs = some n ↔ Denotes cs n := by
  constructor
  · intro h
    unfold int? at h
    split at h
    · obtain ⟨m, hm, rfl⟩ := Option.map_eq_some_iff.mp h
      obtain ⟨hcs, rfl⟩ := digits?_eq_some_iff.mp hm
      exact .plus hcs
    · obtain ⟨m, hm, rfl⟩ := Option.map_eq_some_iff.mp ((int?_minus _).symm.trans h)
      obtain ⟨hcs, rfl⟩ := digits?_eq_some_iff.mp hm
      exact .minus hcs
    · obtain ⟨m, hm, rfl⟩ := Option.map_eq_some_iff.mp h
      obtain ⟨hcs, rfl⟩ := digits?_eq_some_iff.mp hm
      exact .digits hcs
  · intro h
    cases h with
    | digits h => rw [int?_of_isDigit h.isDigit, digits?_eq_some_iff.mpr ⟨h, rfl⟩]; rfl
    | plus h => rw [int?, digits?_eq_some_iff.mpr ⟨h, rfl⟩]; rfl
    | minus h => rw [int?_minus, digits?_eq_some_iff.mpr ⟨h, rfl⟩]; rfl

theorem Denotes.eq {m n : Int} (hm : Denotes cs m) (hn : Denotes cs n) : m = n :=
  Option.some.inj ((int?_eq_some_iff.mpr hm).symm.trans (int?_eq_some_iff.mpr hn))

end Numeral

theorem Literal.number_of_ofInt? {l : Literal} {i : Int} (h : ofInt? i = some l) :
    l.number = i := by
  rw [ofInt?] at h
  split at h
  · cases h
    rw [number]
    dsimp only
    split
    · next hpos =>
        have hpos := of_decide_eq_true hpos
        omega
    · next hneg =>
        have hneg := of_decide_eq_false (Bool.eq_false_iff.mpr hneg)
        omega
  · cases h

/-! ### Tokens -/

namespace Dimacs

variable {t : List Char} {tokens : List (List Char)} {l : Literal} {n : Nat}

/-- The token spells the signed number of the literal, whose variable fits in 31 bits. -/
def Names (t : List Char) (l : Literal) : Prop :=
  Numeral.Denotes t l.number ∧ l.var.index ≤ Literal.maxNumber

theorem number?_eq_some_iff {i : Int} :
    number? t = some i ↔ Numeral.Denotes t i ∧ -2147483648 ≤ i ∧ i < 2147483648 := by
  have hlimit : ((Nat.pow 2 (32 - 1) : Nat) : Int) = 2147483648 := rfl
  rw [number?, Numeral.intOfBits?, hlimit, Option.filter_eq_some_iff, Numeral.int?_eq_some_iff,
    Bool.and_eq_true, decide_eq_true_eq, decide_eq_true_eq]

theorem number?_eq_zero_iff : number? t = some 0 ↔ Numeral.Denotes t 0 := by
  rw [number?_eq_some_iff]
  exact and_iff_left (by decide)

/-- The tokens that are read as a literal are the ones that name it. -/
theorem bind_ofInt?_eq_some_iff : (number? t).bind Literal.ofInt? = some l ↔ Names t l := by
  rw [Option.bind_eq_some_iff]
  constructor
  · rintro ⟨i, hi, hl⟩
    rw [← Literal.number_of_ofInt? hl] at hi
    exact ⟨(number?_eq_some_iff.mp hi).1, Literal.index_le_of_ofInt? hl⟩
  · rintro ⟨hspelt, hle⟩
    have hmax : Literal.maxNumber = 2147483647 := rfl
    have habs := Literal.natAbs_number l
    refine ⟨l.number, number?_eq_some_iff.mpr ⟨hspelt, ?_⟩, Literal.ofInt?_number hle⟩
    omega

theorem isIgnored_iff :
    isIgnored t = true ↔ ¬ Numeral.Denotes t 0 ∧ ∀ l, ¬ Names t l := by
  simp only [← number?_eq_zero_iff, ← bind_ofInt?_eq_some_iff]
  rw [← Option.eq_none_iff_forall_ne_some, isIgnored]
  cases number? t <;> simp

theorem mem_clauseOfTokens : l ∈ clauseOfTokens tokens ↔ ∃ t ∈ tokens, Names t l := by
  simp only [clauseOfTokens, Clause.mem_ofList, List.mem_filterMap, bind_ofInt?_eq_some_iff]

/-- Zero is the number of no literal. -/
theorem not_denotes_zero_of_names (h : Names t l) : ¬ Numeral.Denotes t 0 := by
  intro hzero
  have hnumber := hzero.eq h.1
  have habs := Literal.natAbs_number l
  have hpos := l.var.index_pos
  omega

/-! ### Lines -/

variable {x : Line}

/-- The line is neither a comment nor a problem line. -/
def IsClauseLine (cs : List Char) : Prop :=
  ∀ c ∈ (Text.trim cs).head?, c ≠ 'c' ∧ c ≠ '%' ∧ c ≠ 'p'

/-- The clause of a line, which is empty if the line says nothing. -/
def Line.clause : Line → Clause
  | literals c _ => c
  | silent | problem .. => ∅

/-- The tokens of which there is a notice that they are ignored. -/
def Line.ignored : Line → List String
  | literals _ ignored => ignored
  | silent | problem .. => []

def Line.Ignores (x : Line) (t : List Char) : Prop := String.ofList t ∈ x.ignored

/-- The clause of the line has the literal that the token names. -/
def Line.Holds (x : Line) (t : List Char) : Prop := ∃ l ∈ x.clause, Names t l

/-- Among other lines, the line adds these clauses to the formula. -/
def Line.Adds (x : Line) (added : List Clause) : Prop :=
  ∀ before after, (Document.ofLines (before ++ x :: after)).formula.clauses =
    (Document.ofLines before).formula.clauses ++ added ++ (Document.ofLines after).formula.clauses

/-- The line sorts its tokens: each is a zero, is ignored or names a literal of the clause, and
only one of these.  The clause is made of the literals named, and is added if there are any. -/
structure Line.Sorts (x : Line) (tokens : List (List Char)) : Prop where
  exactly_one : ∀ t ∈ tokens,
    Numeral.Denotes t 0 ∧ ¬ x.Ignores t ∧ ¬ x.Holds t ∨
    ¬ Numeral.Denotes t 0 ∧ x.Ignores t ∧ ¬ x.Holds t ∨
    ¬ Numeral.Denotes t 0 ∧ ¬ x.Ignores t ∧ x.Holds t
  exists_token : ∀ l ∈ x.clause, ∃ t ∈ tokens, Names t l
  adds_clause_iff : x.Adds [x.clause] ↔ ∃ t ∈ tokens, x.Holds t
  adds_nothing_iff : x.Adds [] ↔ ∀ t ∈ tokens, ¬ x.Holds t

theorem Line.adds_iff {added : List Clause} : x.Adds added ↔ x.clause?.toList = added := by
  have hclauses (before after : List Line) :
      (Document.ofLines (before ++ x :: after)).formula.clauses =
        (Document.ofLines before).formula.clauses ++ x.clause?.toList ++
          (Document.ofLines after).formula.clauses := by
    show List.filterMap Line.clause? _ = _
    rw [List.filterMap_append, List.append_assoc]
    refine congrArg _ ?_
    cases hx : x.clause? with
    | none => rw [List.filterMap_cons_none hx]; rfl
    | some c => rw [List.filterMap_cons_some hx]; rfl
  constructor
  · intro h
    have halone := (hclauses [] []).symm.trans (h [] [])
    simpa [Document.ofLines] using halone
  · rintro rfl
    exact hclauses

theorem Line.sorts_silent : Line.silent.Sorts [] where
  exactly_one t ht := absurd ht List.not_mem_nil
  exists_token l hl := absurd hl (Clause.not_mem_empty l)
  adds_clause_iff := by
    rw [Line.adds_iff]
    exact iff_of_false nofun fun ⟨t, ht, _⟩ => List.not_mem_nil ht
  adds_nothing_iff := by
    rw [Line.adds_iff]
    exact iff_of_true rfl fun t ht => absurd ht List.not_mem_nil

/-- The line that the tokens are read as. -/
def lineOfTokens (tokens : List (List Char)) : Line :=
  .literals (clauseOfTokens tokens) ((tokens.filter isIgnored).map String.ofList)

theorem ignores_lineOfTokens (ht : t ∈ tokens) :
    (lineOfTokens tokens).Ignores t ↔ isIgnored t = true := by
  simp [Line.Ignores, Line.ignored, lineOfTokens, String.ofList_inj, ht]

theorem holds_lineOfTokens (ht : t ∈ tokens) :
    (lineOfTokens tokens).Holds t ↔ ∃ l, Names t l := by
  constructor
  · rintro ⟨l, -, hl⟩
    exact ⟨l, hl⟩
  · rintro ⟨l, hl⟩
    exact ⟨l, mem_clauseOfTokens.mpr ⟨t, ht, hl⟩, hl⟩

theorem exists_holds_lineOfTokens :
    (∃ t ∈ tokens, (lineOfTokens tokens).Holds t) ↔ clauseOfTokens tokens ≠ ∅ := by
  rw [ne_eq, ← Clause.isEmpty_iff_eq_empty, Clause.isEmpty_iff, not_forall_not]
  constructor
  · rintro ⟨t, -, l, hl, -⟩
    exact ⟨l, hl⟩
  · rintro ⟨l, hl⟩
    obtain ⟨t, ht, hname⟩ := mem_clauseOfTokens.mp hl
    exact ⟨t, ht, l, hl, hname⟩

theorem forall_not_holds_lineOfTokens :
    (∀ t ∈ tokens, ¬ (lineOfTokens tokens).Holds t) ↔ clauseOfTokens tokens = ∅ := by
  rw [← not_iff_not, ← ne_eq (clauseOfTokens tokens), ← exists_holds_lineOfTokens]
  push Not
  rfl

theorem clause?_lineOfTokens : (lineOfTokens tokens).clause? =
    if clauseOfTokens tokens = ∅ then none else some (clauseOfTokens tokens) := by
  rw [lineOfTokens, Line.clause?]
  simp only [Clause.isEmpty_iff_eq_empty]

theorem Line.sorts_lineOfTokens (tokens : List (List Char)) :
    (lineOfTokens tokens).Sorts tokens where
  exactly_one t ht := by
    rw [ignores_lineOfTokens ht, holds_lineOfTokens ht, isIgnored_iff]
    by_cases hname : ∃ l, Names t l
    · obtain ⟨l, hl⟩ := hname
      exact .inr (.inr ⟨not_denotes_zero_of_names hl, fun h => h.2 l hl, l, hl⟩)
    · by_cases hzero : Numeral.Denotes t 0
      · exact .inl ⟨hzero, fun h => h.1 hzero, hname⟩
      · exact .inr (.inl ⟨hzero, ⟨hzero, not_exists.mp hname⟩, hname⟩)
  exists_token l hl := mem_clauseOfTokens.mp hl
  adds_clause_iff := by
    rw [Line.adds_iff, exists_holds_lineOfTokens, clause?_lineOfTokens]
    split
    · next hempty => exact iff_of_false nofun fun hne => hne hempty
    · next hne => exact iff_of_true rfl hne
  adds_nothing_iff := by
    rw [Line.adds_iff, clause?_lineOfTokens, forall_not_holds_lineOfTokens]
    split
    · next hempty => exact iff_of_true rfl hempty
    · next hne => exact iff_of_false nofun hne

/-- Reading a clause line sorts its tokens. -/
theorem readChars_sorts {cs : List Char} (h : IsClauseLine cs) (n : Nat) :
    ∃ x, readChars n cs = .ok x ∧ x.Sorts (Text.words cs) := by
  rw [← Text.words_trim, readChars]
  rw [IsClauseLine] at h
  cases htrim : Text.trim cs with
  | nil => exact ⟨.silent, rfl, Line.sorts_silent⟩
  | cons c rest =>
      obtain ⟨hc, hpercent, hp⟩ := h c (by rw [htrim]; rfl)
      refine ⟨lineOfTokens (Text.words (c :: rest)), ?_, Line.sorts_lineOfTokens _⟩
      simp [hc, hpercent, hp, lineOfTokens]

theorem readLine_of_readLines {bytes line : List UInt8} {xs : List Line} {i : Nat}
    (h : readLines bytes = .ok xs) (hline : (splitLines bytes)[i]? = some line) :
    ∃ x, readLine (i + 1) line = .ok x ∧ xs[i]? = some x := by
  have hall := mapM_eq_ok.mp h
  have hnumbered : ((splitLines bytes).zipIdx 1)[i]? = some (line, i + 1) := by
    rw [List.getElem?_zipIdx, hline, Nat.add_comm]
    rfl
  obtain ⟨hi, hget⟩ := List.getElem?_eq_some_iff.mp hnumbered
  have hi' : i < xs.length := hall.length_eq ▸ hi
  refine ⟨xs[i], ?_, List.getElem?_eq_getElem hi'⟩
  have hread := hall.get hi hi'
  rwa [List.get_eq_getElem, List.get_eq_getElem, hget] at hread

theorem ignoredToken_mem_noticesFrom_cons {m : Nat} {s : String} {first? : Option Nat}
    {xs : List Line} : .ignoredToken m s ∈ noticesFrom n first? (x :: xs) ↔
      n = m ∧ s ∈ x.ignored ∨
        .ignoredToken m s ∈ noticesFrom (n + 1) (first?.or x.count?) xs := by
  cases x with
  | silent => cases first? <;> simp [noticesFrom, Line.ignored, Line.count?]
  | problem count text => cases first? <;> simp [noticesFrom, Line.ignored, Line.count?]
  | literals c ignored =>
      cases first? <;> simp [noticesFrom, Line.ignored, Line.count?, and_comm, eq_comm]

/-- The notices of ignored tokens are those of the lines, each with the number of its line. -/
theorem ignoredToken_mem_noticesFrom {m : Nat} {s : String} {first? : Option Nat}
    {xs : List Line} : .ignoredToken m s ∈ noticesFrom n first? xs ↔
      ∃ i x, xs[i]? = some x ∧ n + i = m ∧ s ∈ x.ignored := by
  induction xs generalizing n first? with
  | nil => simp [noticesFrom]
  | cons y ys ih =>
      rw [ignoredToken_mem_noticesFrom_cons, ih]
      constructor
      · rintro (⟨hm, hs⟩ | ⟨i, x, hx, hm, hs⟩)
        · exact ⟨0, y, rfl, hm, hs⟩
        · exact ⟨i + 1, x, hx, by omega, hs⟩
      · rintro ⟨i, x, hx, hm, hs⟩
        cases i with
        | zero =>
            cases hx
            exact .inl ⟨hm, hs⟩
        | succ i => exact .inr ⟨i, x, hx, by omega, hs⟩

/-- In every line of a file that is neither a comment nor a problem line, each word is a zero, or is
ignored, or names a literal of the clause of the line, and only one of these.  The clause has no
other literals, and is added to the formula if it has any.  The log of the file has a notice for
each token that the line ignores. -/
theorem readLines_sorts_tokens {bytes line : List UInt8} {cs : List Char} {i : Nat}
    (hline : (splitLines bytes)[i]? = some line) (hcs : decode? line = some cs)
    (hclause : IsClauseLine cs) :
    ∃ x, readLine (i + 1) line = .ok x ∧ x.Sorts (Text.words cs) ∧
      ∀ xs, readLines bytes = .ok xs → xs[i]? = some x ∧
        ∀ t, .ignoredToken (i + 1) (String.ofList t) ∈ notices xs ↔ x.Ignores t := by
  obtain ⟨x, hx, hsorts⟩ := readChars_sorts hclause (i + 1)
  have hread : readLine (i + 1) line = .ok x := by
    rw [readLine, hcs]
    exact hx
  refine ⟨x, hread, hsorts, fun xs hxs => ?_⟩
  obtain ⟨y, hy, hget⟩ := readLine_of_readLines hxs hline
  rw [hread] at hy
  cases hy
  refine ⟨hget, fun t => ?_⟩
  rw [notices, ignoredToken_mem_noticesFrom]
  constructor
  · rintro ⟨j, z, hz, hj, hs⟩
    obtain rfl : j = i := by omega
    cases hget.symm.trans hz
    exact hs
  · intro hs
    exact ⟨i, x, hget, Nat.add_comm 1 i, hs⟩

/-- Behind a comment, a variable with both signs stands among a negative zero and two tokens that
are ignored, one of them a number of 32 bits. -/
theorem readLines_sorts_tokens_of_five :
    let cs := " +1 -0 2x -2147483648 -01".toList
    let bytes := utf8 ("c\n".toList ++ cs)
    let c := clauseOfText "1 -1"
    let x := Line.literals c ["2x", "-2147483648"]
    (splitLines bytes)[1]? = some (utf8 cs) ∧ decode? (utf8 cs) = some cs ∧ IsClauseLine cs ∧
      readLine 2 (utf8 cs) = .ok x ∧
      x.Sorts ["+1".toList, "-0".toList, "2x".toList, "-2147483648".toList, "-01".toList] ∧
      readLines bytes = .ok [.silent, x] := by
  intro cs bytes c x
  have hline : (splitLines bytes)[1]? = some (utf8 cs) := by decide
  have hcs : decode? (utf8 cs) = some cs := decode?_utf8 cs
  have hclause : IsClauseLine cs := by
    intro d hd
    rw [show (Text.trim cs).head? = some '+' by decide] at hd
    obtain rfl : '+' = d := Option.some.inj hd
    decide
  have hread : readLine 2 (utf8 cs) = .ok x := by decide
  have hwords : Text.words cs =
      ["+1".toList, "-0".toList, "2x".toList, "-2147483648".toList, "-01".toList] := by decide
  obtain ⟨y, hy, hsorts, -⟩ := readLines_sorts_tokens hline hcs hclause
  rw [hread] at hy
  cases hy
  rw [hwords] at hsorts
  exact ⟨hline, hcs, hclause, hread, hsorts, by decide⟩

end Dimacs

end Clausal
