import Clausal.Dimacs

/-! # Words and the numbers they spell

A text of words with one blank between any two is cut into exactly these words and has nothing
to trim (`Text.words_intercalate`, `Text.trim_intercalate`).  The decimal digits of a number are
such a word and are read as that number (`Numeral.int?_toString`, `Numeral.nat?_digits`).

Both together say what becomes of a list of signed numbers: as tokens they name the literals they
come from, if the variables fit in 31 bits, and the zero behind them names none
(`Dimacs.filterMap_tokens`). -/

namespace Clausal

/-! ### Words -/

namespace Text

variable {w : List Char} {ws : List (List Char)}

/-- At least one character, and no blank. -/
structure IsWord (w : List Char) : Prop where
  ne_nil : w ≠ []
  isBlank_eq_false : ∀ c ∈ w, isBlank c = false

theorem wordsBehind_cons (begun : List Char) (c : Char) (cs : List Char) :
    wordsBehind begun (c :: cs) =
      if isBlank c then
        if begun.isEmpty then wordsBehind [] cs else begun.reverse :: wordsBehind [] cs
      else wordsBehind (c :: begun) cs := by
  cases begun <;> rfl

theorem wordsBehind_append (hw : ∀ c ∈ w, isBlank c = false) (begun cs : List Char) :
    wordsBehind begun (w ++ cs) = wordsBehind (w.reverse ++ begun) cs := by
  induction w generalizing begun with
  | nil => rfl
  | cons c w ih =>
      have hc : isBlank c = false := hw c List.mem_cons_self
      rw [List.cons_append, wordsBehind_cons, hc, if_neg Bool.false_ne_true,
        ih fun d hd => hw d (List.mem_cons_of_mem c hd)]
      simp

theorem wordsBehind_nil {begun : List Char} (h : begun ≠ []) :
    wordsBehind begun [] = [begun.reverse] := by
  cases begun with
  | nil => exact absurd rfl h
  | cons c cs => rfl

theorem words_of_isWord (hw : IsWord w) : words w = [w] := by
  have happend := wordsBehind_append hw.isBlank_eq_false [] []
  rw [List.append_nil, List.append_nil] at happend
  rw [words, happend, wordsBehind_nil (by simpa using hw.ne_nil), List.reverse_reverse]

/-- The first blank ends the first word. -/
theorem words_append (hw : IsWord w) (cs : List Char) : words (w ++ ' ' :: cs) = w :: words cs := by
  have hblank : isBlank ' ' = true := by decide
  have hempty : w.reverse.isEmpty = false := by simpa using hw.ne_nil
  rw [words, wordsBehind_append hw.isBlank_eq_false, List.append_nil, wordsBehind_cons, hblank,
    if_pos rfl, hempty, if_neg Bool.false_ne_true, List.reverse_reverse, words]

theorem words_intercalate (hws : ∀ w ∈ ws, IsWord w) : words ([' '].intercalate ws) = ws := by
  induction ws with
  | nil => rfl
  | cons w ws ih =>
      have hw : IsWord w := hws w List.mem_cons_self
      have ih := ih fun u hu => hws u (List.mem_cons_of_mem w hu)
      cases ws with
      | nil =>
          rw [List.intercalate_singleton]
          exact words_of_isWord hw
      | cons u ws =>
          rw [List.intercalate_cons_cons, List.append_assoc, List.singleton_append,
            words_append hw, ih]

/-! ### Nothing to trim -/

theorem trim_eq_self {cs : List Char} (hhead : ∀ c ∈ cs.head?, isBlank c = false)
    (hlast : ∀ c ∈ cs.getLast?, isBlank c = false) : trim cs = cs := by
  have hdrop : ∀ ds : List Char, (∀ c ∈ ds.head?, isBlank c = false) →
      ds.dropWhile isBlank = ds := by
    intro ds hds
    cases ds with
    | nil => rfl
    | cons d ds => rw [List.dropWhile_cons, hds d rfl, if_neg Bool.false_ne_true]
  rw [trim, hdrop cs hhead, hdrop cs.reverse, List.reverse_reverse]
  rwa [List.head?_reverse]

theorem intercalate_ne_nil {w : List Char} (hw : IsWord w) (ws : List (List Char)) :
    [' '].intercalate (w :: ws) ≠ [] := by
  cases ws with
  | nil => simpa using hw.ne_nil
  | cons u ws => simp

theorem head?_intercalate (hw : IsWord w) (ws : List (List Char)) :
    ([' '].intercalate (w :: ws)).head? = w.head? := by
  cases ws with
  | nil => rw [List.intercalate_singleton]
  | cons u ws =>
      obtain ⟨c, cs, rfl⟩ := List.exists_cons_of_ne_nil hw.ne_nil
      simp

theorem isBlank_getLast?_intercalate (hws : ∀ w ∈ ws, IsWord w) :
    ∀ c ∈ ([' '].intercalate ws).getLast?, isBlank c = false := by
  induction ws with
  | nil => nofun
  | cons w ws ih =>
      have ih := ih fun u hu => hws u (List.mem_cons_of_mem w hu)
      cases ws with
      | nil =>
          rw [List.intercalate_singleton]
          exact fun c hc => (hws w List.mem_cons_self).isBlank_eq_false c (List.mem_of_getLast? hc)
      | cons u ws =>
          have hne := intercalate_ne_nil (hws u (by simp)) ws
          rw [List.intercalate_cons_cons, List.getLast?_append,
            Option.or_of_isSome (List.getLast?_isSome.mpr hne)]
          exact ih

theorem mem_intercalate {c : Char} (h : c ∈ [' '].intercalate ws) : c = ' ' ∨ ∃ w ∈ ws, c ∈ w := by
  induction ws with
  | nil => cases h
  | cons w ws ih =>
      by_cases hnil : ws = []
      · simp_all
      · rw [List.intercalate_cons_of_ne_nil hnil] at h
        simp only [List.mem_append, List.mem_singleton] at h
        rcases h with (h | h) | h
        · exact .inr ⟨w, List.mem_cons_self, h⟩
        · exact .inl h
        · exact (ih h).imp_right fun ⟨u, hu, hc⟩ => ⟨u, List.mem_cons_of_mem w hu, hc⟩

/-- Joined words stay on one line. -/
theorem lineFeed_not_mem_intercalate (hws : ∀ w ∈ ws, IsWord w) : '\n' ∉ [' '].intercalate ws := by
  intro hmem
  have hfeed : isBlank '\n' = true := by decide
  rcases mem_intercalate hmem with heq | ⟨w, hw, hc⟩
  · exact absurd heq (by decide)
  · rw [(hws w hw).isBlank_eq_false _ hc] at hfeed
    cases hfeed

theorem trim_intercalate (hws : ∀ w ∈ ws, IsWord w) :
    trim ([' '].intercalate ws) = [' '].intercalate ws := by
  refine trim_eq_self ?_ (isBlank_getLast?_intercalate hws)
  cases ws with
  | nil => nofun
  | cons w ws =>
      have hw : IsWord w := hws w List.mem_cons_self
      rw [head?_intercalate hw]
      exact fun c hc => hw.isBlank_eq_false c (List.mem_of_head? hc)

end Text

/-! ### Digits -/

namespace Numeral

variable {cs : List Char}

/-- The decimal digits of a number. -/
def digits (n : Nat) : List Char := Nat.toDigits 10 n

theorem isDigit_digits (n : Nat) : ∀ c ∈ digits n, c.isDigit = true :=
  fun _ hc => Nat.isDigit_of_mem_toDigits (by decide) (by decide) hc

theorem digits?_digits (n : Nat) : digits? (digits n) = some n := by
  have hne : (digits n).isEmpty = false := by simp [digits]
  have hall : (digits n).all Char.isDigit = true := List.all_eq_true.mpr (isDigit_digits n)
  have hvalue : Nat.ofDigitChars 10 (digits n) 0 = n :=
    Nat.ofDigitChars_toDigits (by decide) (by decide)
  rw [digits?, hne, hall, if_neg (by decide), hvalue]

theorem nat?_of_isDigit (h : ∀ c ∈ cs, c.isDigit = true) : nat? cs = digits? cs := by
  unfold nat?
  split
  · exact absurd (h '+' List.mem_cons_self) (by decide)
  · rfl

theorem int?_of_isDigit (h : ∀ c ∈ cs, c.isDigit = true) :
    int? cs = (digits? cs).map Int.ofNat := by
  unfold int?
  split
  · exact absurd (h '+' List.mem_cons_self) (by decide)
  · exact absurd (h '-' List.mem_cons_self) (by decide)
  · rfl

theorem int?_minus (cs : List Char) :
    int? ('-' :: cs) = (digits? cs).map fun n : Nat => -(n : Int) := by
  rw [int?]
  cases digits? cs <;> rfl

theorem toList_toString_nat (n : Nat) : (toString n).toList = digits n := Nat.toList_repr

/-- A negative number has a minus sign before the digits of its absolute value. -/
theorem toList_toString_int (n : Int) :
    (toString n).toList = if n < 0 then '-' :: digits n.natAbs else digits n.natAbs := by
  cases n with
  | ofNat m =>
      rw [if_neg (by simp)]
      exact toList_toString_nat m
  | negSucc m =>
      rw [if_pos (Int.negSucc_lt_zero m)]
      show ("-" ++ toString (m + 1)).toList = _
      rw [String.toList_append, toList_toString_nat]
      rfl

theorem nat?_digits (n : Nat) : nat? (digits n) = some n := by
  rw [nat?_of_isDigit (isDigit_digits n), digits?_digits]

theorem int?_toString (n : Int) : int? (toString n).toList = some n := by
  rw [toList_toString_int]
  split
  · next hneg =>
      rw [int?_minus, digits?_digits, Option.map_some, Option.some.injEq]
      omega
  · next hneg =>
      rw [int?_of_isDigit (isDigit_digits _), digits?_digits, Option.map_some, Option.some.injEq]
      exact Int.natAbs_of_nonneg (Int.not_lt.mp hneg)

theorem natOfBits?_digits {bits n : Nat} (h : n < Nat.pow 2 bits) :
    natOfBits? bits (digits n) = some n := by
  rw [natOfBits?, nat?_digits, Option.filter_some]
  exact if_pos (decide_eq_true h)

theorem natOfBits?_lt {bits n : Nat} (h : natOfBits? bits cs = some n) : n < Nat.pow 2 bits := by
  obtain ⟨-, hlt⟩ := Option.filter_eq_some_iff.mp h
  exact of_decide_eq_true hlt

theorem isBlank_of_isDigit {c : Char} (h : c.isDigit = true) : Text.isBlank c = false := by
  obtain ⟨hlow, hhigh⟩ := Char.isDigit_iff_toNat.mp h
  have hlow : 48 ≤ c.toNat := hlow
  have hhigh : c.toNat ≤ 57 := hhigh
  simp [Text.isBlank]
  omega

theorem isWord_digits (n : Nat) : Text.IsWord (digits n) :=
  ⟨Nat.toDigits_ne_nil, fun c hc => isBlank_of_isDigit (isDigit_digits n c hc)⟩

theorem isDigit_or_eq_minus (n : Int) : ∀ c ∈ (toString n).toList, c.isDigit = true ∨ c = '-' := by
  intro c hc
  have hdigits := isDigit_digits n.natAbs c
  rw [toList_toString_int] at hc
  split at hc
  · rcases List.mem_cons.mp hc with rfl | hc
    · exact .inr rfl
    · exact .inl (hdigits hc)
  · exact .inl (hdigits hc)

theorem isWord_toString_int (n : Int) : Text.IsWord (toString n).toList := by
  constructor
  · rw [toList_toString_int]
    split
    · exact List.cons_ne_nil _ _
    · exact Nat.toDigits_ne_nil
  · intro c hc
    rcases isDigit_or_eq_minus n c hc with hdigit | rfl
    · exact isBlank_of_isDigit hdigit
    · decide

end Numeral

/-! ### Literals -/

namespace Literal

variable {l : Literal}

theorem natAbs_number (l : Literal) : l.number.natAbs = l.var.index := by
  rw [number]
  split <;> simp

theorem number_pos_iff (l : Literal) : 0 < l.number ↔ l.positive = true := by
  have := l.var.index_pos
  rw [number]
  split <;> simp_all

/-- A signed number goes back to its literal. -/
theorem ofInt?_number (h : l.var.index ≤ maxNumber) : ofInt? l.number = some l := by
  have hrange : 0 < l.number.natAbs ∧ l.number.natAbs ≤ maxNumber := by
    rw [natAbs_number]
    exact ⟨l.var.index_pos, h⟩
  rw [ofInt?, dif_pos hrange, Option.some.injEq]
  obtain ⟨v, p⟩ := l
  congr 1
  · exact Var.index_inj.mp (natAbs_number _)
  · rw [Bool.eq_iff_iff, decide_eq_true_eq, number_pos_iff]

theorem index_le_of_ofInt? {n : Int} (h : ofInt? n = some l) : l.var.index ≤ maxNumber := by
  rw [ofInt?] at h
  split at h <;> cases h
  next hrange => exact hrange.2

end Literal

namespace Dimacs

theorem number?_toString {n : Int} (h : n.natAbs ≤ Literal.maxNumber) :
    number? (toString n).toList = some n := by
  have hmax : Literal.maxNumber = 2147483647 := rfl
  have hlimit : ((Nat.pow 2 (32 - 1) : Nat) : Int) = 2147483648 := rfl
  rw [number?, Numeral.intOfBits?, Numeral.int?_toString, Option.filter_some, hlimit]
  refine if_pos ?_
  rw [Bool.and_eq_true, decide_eq_true_eq, decide_eq_true_eq]
  omega

variable {ls : List Literal}

/-- The signed numbers of literals, each as a token. -/
def tokens (ls : List Literal) : List (List Char) := ls.map fun l => (toString l.number).toList

theorem isWord_of_mem_tokens {t : List Char} (ht : t ∈ tokens ls) : Text.IsWord t := by
  obtain ⟨l, -, rfl⟩ := List.mem_map.mp ht
  exact Numeral.isWord_toString_int l.number

theorem number?_of_literal {l : Literal} (h : l.var.index ≤ Literal.maxNumber) :
    number? (toString l.number).toList = some l.number :=
  number?_toString (by rwa [Literal.natAbs_number])

/-- The tokens of literals name these literals. -/
theorem filterMap_tokens (h : ∀ l ∈ ls, l.var.index ≤ Literal.maxNumber) :
    (tokens ls).filterMap (fun t => (number? t).bind Literal.ofInt?) = ls := by
  induction ls with
  | nil => rfl
  | cons l ls ih =>
      have hl := h l List.mem_cons_self
      have hread : (number? (toString l.number).toList).bind Literal.ofInt? = some l := by
        rw [number?_of_literal hl]
        exact Literal.ofInt?_number hl
      have ih := ih fun m hm => h m (List.mem_cons_of_mem l hm)
      rw [tokens, List.map_cons, List.filterMap_cons, hread]
      exact congrArg (l :: ·) ih

theorem isIgnored_of_mem_tokens (h : ∀ l ∈ ls, l.var.index ≤ Literal.maxNumber)
    {t : List Char} (ht : t ∈ tokens ls) : isIgnored t = false := by
  obtain ⟨l, hl, rfl⟩ := List.mem_map.mp ht
  rw [isIgnored, number?_of_literal (h l hl)]
  dsimp only
  rw [Literal.ofInt?_number (h l hl)]
  simp

end Dimacs

end Clausal
