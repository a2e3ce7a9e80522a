import Clausal.CommandLine.Commands
import Clausal.Proofs.Files
import Clausal.Proofs.Lines

/-! # Tables read back

`rows` reads a table of comma-separated values: a line feed ends a row and a comma a cell, unless
they stand in quotes, and in quotes two quotes are read as one.  A reader before a cell takes in a
written cell as it was (`exists_foldl_step_cell`), so it takes in whole rows and tables
(`rows_addition`), whatever characters the cells have.

Each call that appends records adds their rows behind what the file holds, and only the call that
creates the file writes the header.  So a file that was not there before any number of calls holds
one table with the records of all of them (`table_of_appended_records`). -/

namespace Clausal

namespace Csv

/-! ### A reader of tables -/

/-- Where a reader stands in a cell. -/
inductive Place
  | start
  /-- In a cell that began without a quote. -/
  | plain
  /-- Behind the quote that opens a cell. -/
  | quoted
  /-- Behind a quote in a quoted cell, which ends it or is the first of two. -/
  | closed
deriving DecidableEq

/-- What was read so far. -/
structure Reader where
  /-- The rows that have ended. -/
  rows : List (List String)
  /-- The cells of the next row that have ended. -/
  cells : List String
  /-- The characters of the next cell. -/
  chars : List Char
  place : Place

namespace Reader

/-- The reader between two cells. -/
def between (rows : List (List String)) (cells : List String) : Reader := ⟨rows, cells, [], .start⟩

def endCell (r : Reader) : Reader := between r.rows (r.cells ++ [String.ofList r.chars])

def endRow (r : Reader) : Reader := between (r.rows ++ [r.cells ++ [String.ofList r.chars]]) []

def push (r : Reader) (c : Char) (place : Place) : Reader :=
  ⟨r.rows, r.cells, r.chars ++ [c], place⟩

/-- Read one character. -/
def step (r : Reader) (c : Char) : Reader :=
  if r.place = .quoted then
    if c = '"' then { r with place := .closed } else r.push c .quoted
  else if c = '\n' then r.endRow
  else if c = ',' then r.endCell
  else if c = '"' then
    match r.place with
    | .start => { r with place := .quoted }
    | .closed => r.push c .quoted
    | .plain | .quoted => r.push c .plain
  else r.push c .plain

end Reader

/-- The rows of a table; the last one may lack its line feed. -/
def rows (text : String) : List (List String) :=
  let r := text.toList.foldl Reader.step (.between [] [])
  if r.cells = [] ∧ r.place = .start then r.rows else r.endRow.rows

/-! ### Cells -/

variable {done : List (List String)} {before : List String} {chars : List Char} {place : Place}
  {c : Char}

theorem step_lineFeed (hplace : place ≠ .quoted) :
    Reader.step ⟨done, before, chars, place⟩ '\n' =
      .between (done ++ [before ++ [String.ofList chars]]) [] := by
  rw [Reader.step, if_neg hplace]
  rfl

theorem step_comma (hplace : place ≠ .quoted) :
    Reader.step ⟨done, before, chars, place⟩ ',' =
      .between done (before ++ [String.ofList chars]) := by
  rw [Reader.step, if_neg hplace]
  rfl

theorem step_plain (hc : needsQuotes c = false) (hplace : place ≠ .quoted) :
    Reader.step ⟨done, before, chars, place⟩ c = ⟨done, before, chars ++ [c], .plain⟩ := by
  simp only [needsQuotes, Bool.or_eq_false_iff, beq_eq_false_iff_ne] at hc
  simp [Reader.step, Reader.push, hplace, hc]

/-- The characters that a character is written with between quotes. -/
def quotedChar (c : Char) : List Char := if c = '"' then ['"', '"'] else [c]

theorem foldl_step_quoted (cs : List Char) :
    (cs.flatMap quotedChar).foldl Reader.step ⟨done, before, chars, .quoted⟩ =
      ⟨done, before, chars ++ cs, .quoted⟩ := by
  induction cs generalizing chars with
  | nil => simp
  | cons c cs ih =>
      have hc : (quotedChar c).foldl Reader.step ⟨done, before, chars, .quoted⟩ =
          ⟨done, before, chars ++ [c], .quoted⟩ := by
        by_cases h : c = '"' <;> simp [quotedChar, h, Reader.step, Reader.push]
      rw [List.flatMap_cons, List.foldl_append, hc, ih, List.append_assoc, List.singleton_append]

theorem foldl_step_plain {cs : List Char} (hcs : ∀ c ∈ cs, needsQuotes c = false)
    (hplace : place ≠ .quoted) : ∃ place', place' ≠ .quoted ∧
      cs.foldl Reader.step ⟨done, before, chars, place⟩ = ⟨done, before, chars ++ cs, place'⟩ := by
  induction cs generalizing chars place with
  | nil => exact ⟨place, hplace, by simp⟩
  | cons c cs ih =>
      obtain ⟨hc, hcs⟩ := List.forall_mem_cons.mp hcs
      have hplain : Place.plain ≠ .quoted := by decide
      rw [List.foldl_cons, step_plain hc hplace, List.append_cons chars c cs]
      exact ih hcs hplain

/-- The characters of a cell that is written in quotes. -/
theorem toList_cell_of_any {s : String} (h : s.toList.any needsQuotes = true) :
    (cell s).toList = '"' :: s.toList.flatMap quotedChar ++ ['"'] := by
  have hchar (c : Char) :
      (if c = '"' then "\"\"" else String.singleton c).toList = quotedChar c := by
    by_cases hc : c = '"' <;> simp [quotedChar, hc]
  rw [cell, if_pos h]
  simp [String.toList_join, List.flatMap_map, hchar]

/-- Whatever a cell says, a reader before it reads just this and stands behind it. -/
theorem exists_foldl_step_cell (done : List (List String)) (before : List String) (s : String) :
    ∃ place, place ≠ .quoted ∧ (cell s).toList.foldl Reader.step (.between done before) =
      ⟨done, before, s.toList, place⟩ := by
  cases h : s.toList.any needsQuotes with
  | true =>
      refine ⟨.closed, by decide, ?_⟩
      rw [toList_cell_of_any h, List.cons_append, List.foldl_cons, List.foldl_append]
      have hopen : Reader.step (.between done before) '"' = ⟨done, before, [], .quoted⟩ := rfl
      rw [hopen, foldl_step_quoted]
      rfl
  | false =>
      have hplain : ∀ c ∈ s.toList, needsQuotes c = false := by simpa using h
      rw [cell, if_neg (by simp [h])]
      exact foldl_step_plain hplain (by decide)

/-! ### Rows -/

theorem foldl_step_row (s : String) (ss : List String) :
    ((row (s :: ss)).toList ++ ['\n']).foldl Reader.step (.between done before) =
      .between (done ++ [before ++ s :: ss]) [] := by
  induction ss generalizing s before with
  | nil =>
      obtain ⟨place, hplace, hcell⟩ := exists_foldl_step_cell done before s
      have hrow : row [s] = cell s := rfl
      rw [hrow, List.foldl_append, hcell, List.foldl_cons, step_lineFeed hplace,
        String.ofList_toList]
      rfl
  | cons s' ss ih =>
      obtain ⟨place, hplace, hcell⟩ := exists_foldl_step_cell done before s
      have hrow : (row (s :: s' :: ss)).toList =
          (cell s).toList ++ ',' :: (row (s' :: ss)).toList := by
        simp [row, String.toList_intercalate]
      rw [hrow, List.append_assoc, List.cons_append, List.foldl_append, hcell, List.foldl_cons,
        step_comma hplace, String.ofList_toList, ih]
      simp

theorem foldl_step_rows {table : List (List String)} (h : ∀ ss ∈ table, ss ≠ []) :
    (table.flatMap fun ss => (row ss).toList ++ ['\n']).foldl Reader.step (.between done []) =
      .between (done ++ table) [] := by
  induction table generalizing done with
  | nil => simp
  | cons ss table ih =>
      obtain ⟨hss, htable⟩ := List.forall_mem_cons.mp h
      obtain ⟨s, ss, rfl⟩ := List.exists_cons_of_ne_nil hss
      rw [List.flatMap_cons, List.foldl_append, foldl_step_row, ih htable]
      simp

theorem cells_ne_nil (r : Record) : cells r ≠ [] := by
  unfold cells
  split <;> simp

theorem toList_addition (isNew : Bool) (rs : List Record) : (addition isNew rs).toList =
    ((if isNew then [header] else []) ++ rs.map cells).flatMap fun ss =>
      (row ss).toList ++ ['\n'] := by
  cases isNew <;> simp [addition, String.toList_join, List.flatMap_map, line]

/-- The rows of a new table are the header and the cells of its records. -/
theorem rows_addition (rs : List Record) : rows (addition true rs) = header :: rs.map cells := by
  have hcells : ∀ ss ∈ header :: rs.map cells, ss ≠ [] := by
    intro ss hss
    rcases List.mem_cons.mp hss with rfl | hss
    · exact List.cons_ne_nil _ _
    · obtain ⟨r, -, rfl⟩ := List.mem_map.mp hss
      exact cells_ne_nil r
  rw [rows, toList_addition, if_pos rfl, List.singleton_append, foldl_step_rows hcells]
  rfl

/-- Records may be added to a table at once or bit by bit. -/
theorem addition_append (isNew : Bool) (rs rs' : List Record) :
    addition isNew (rs ++ rs') = addition isNew rs ++ addition false rs' := by
  apply String.ext
  simp [toList_addition]

/-! ### Which cells are quoted -/

/-- The text is written into a cell as it is. -/
def IsPlain (s : String) : Prop := s.toList.any needsQuotes = false

instance (s : String) : Decidable (IsPlain s) := inferInstanceAs (Decidable (_ = false))

theorem isPlain_iff {s : String} : IsPlain s ↔ ∀ c ∈ s.toList, needsQuotes c = false := by
  simp [IsPlain]

theorem IsPlain.cell_eq {s : String} (h : IsPlain s) : cell s = s := by
  rw [cell, h]
  rfl

theorem IsPlain.append {s s' : String} (h : IsPlain s) (h' : IsPlain s') : IsPlain (s ++ s') := by
  rw [IsPlain, String.toList_append, List.any_append, h, h']
  rfl

theorem needsQuotes_of_isDigit {c : Char} (hc : c.isDigit = true) : needsQuotes c = false := by
  rw [Bool.eq_false_iff]
  intro hquotes
  simp only [needsQuotes, Bool.or_eq_true, beq_iff_eq] at hquotes
  rcases hquotes with (rfl | rfl) | rfl <;> exact absurd hc (by decide)

theorem isPlain_repr (n : Nat) : IsPlain (Nat.repr n) := by
  rw [isPlain_iff]
  intro c hc
  rw [Nat.toList_repr] at hc
  exact needsQuotes_of_isDigit (Nat.isDigit_of_mem_toDigits (by decide) (by decide) hc)

theorem isPlain_paddedDigits (width n : Nat) : IsPlain (Decimal.paddedDigits width n) := by
  rw [isPlain_iff]
  intro c hc
  rw [Decimal.paddedDigits, String.toList_ofList, List.mem_append] at hc
  rcases hc with hc | hc
  · obtain rfl := List.eq_of_mem_replicate hc
    rfl
  · exact isPlain_iff.mp (isPlain_repr n) c hc

/-- A time is never quoted, not even one that is no number. -/
theorem isPlain_timeCell (d : Duration) : IsPlain (timeCell d) := by
  rw [timeCell, Decimal.fixed]
  split
  · split_ifs <;> decide
  · refine IsPlain.append ?_ (((isPlain_repr _).append ?_).append (isPlain_paddedDigits _ _))
    · split_ifs <;> decide
    · decide

theorem row_of_four (s₁ s₂ s₃ s₄ : String) :
    row [s₁, s₂, s₃, s₄] = cell s₁ ++ "," ++ cell s₂ ++ "," ++ cell s₃ ++ "," ++ cell s₄ :=
  rfl

/-- Unless there was an error, only the name of the file may be quoted. -/
theorem line_of_not_isError {r : Record} (h : r.outcome.isError = false) :
    line r = cell r.filename ++ "," ++ timeCell r.elapsed ++ "," ++
      (r.peakMemory?.map toString).getD "" ++ "," ++ resultCell r.outcome := by
  have hmemory : IsPlain ((r.peakMemory?.map toString).getD "") := by
    cases r.peakMemory? with
    | none => decide
    | some kib => exact isPlain_repr kib
  have hresult : IsPlain (resultCell r.outcome) := by
    cases ho : r.outcome with
    | error _ =>
        rw [ho] at h
        cases h
    | _ => decide
  rw [line, cells, if_neg (by simp [h]), row_of_four, (isPlain_timeCell _).cell_eq,
    hmemory.cell_eq, hresult.cell_eq]

/-- For an error, the name of the file and the message may be quoted. -/
theorem line_of_error {r : Record} {message : String} (h : r.outcome = .error message) :
    line r = cell r.filename ++ ",ERROR,ERROR," ++ cell ("ERROR: " ++ message) := by
  have herror : r.outcome.isError = true := by
    rw [h]
    rfl
  have hplain : IsPlain "ERROR" := by decide
  have hconstants : "," ++ "ERROR" ++ "," ++ "ERROR" ++ "," = ",ERROR,ERROR," := by decide
  rw [line, cells, if_pos herror, row_of_four, hplain.cell_eq, ← hconstants, h]
  simp only [String.append_assoc]
  rfl

/-! ### What rows tell -/

/-- The words for the outcomes of a solver. -/
inductive Word : Outcome → String → Prop
  | sat : Word .sat "SAT"
  | unsat : Word .unsat "UNSAT"
  | unknown : Word .unknown "UNKNOWN"
  | timeout : Word .timeout "TIMEOUT"

/-- The cells that a row has for a record. -/
inductive Tells : Record → List String → Prop
  | error (filename : String) (elapsed : Duration) (peakMemory? : Option Nat) (message : String) :
      Tells ⟨filename, elapsed, peakMemory?, .error message⟩
        [filename, "ERROR", "ERROR", "ERROR: " ++ message]
  | unmeasured (filename : String) (elapsed : Duration) {outcome : Outcome} {word : String}
      (hword : Word outcome word) :
      Tells ⟨filename, elapsed, none, outcome⟩ [filename, timeCell elapsed, "", word]
  | measured (filename : String) (elapsed : Duration) (kib : Nat) {outcome : Outcome}
      {word : String} (hword : Word outcome word) :
      Tells ⟨filename, elapsed, some kib, outcome⟩
        [filename, timeCell elapsed, Nat.repr kib, word]

theorem word_resultCell {o : Outcome} (h : o.isError = false) : Word o (resultCell o) := by
  cases o with
  | sat => exact .sat
  | unsat => exact .unsat
  | unknown => exact .unknown
  | timeout => exact .timeout
  | error _ => cases h

theorem tells_cells (r : Record) : Tells r (cells r) := by
  obtain ⟨filename, elapsed, peakMemory?, outcome⟩ := r
  cases herror : outcome.isError with
  | true =>
      cases outcome with
      | error message => exact .error filename elapsed peakMemory? message
      | _ => cases herror
  | false =>
      rw [cells, if_neg (by simp [herror])]
      cases peakMemory? with
      | none => exact .unmeasured filename elapsed (word_resultCell herror)
      | some kib => exact .measured filename elapsed kib (word_resultCell herror)

end Csv

/-! ### Files of records -/

namespace CommandLine

open FileTree

variable {t t' : FileTree} {path : String} {text : String} {rs : List Record}
  {batches : List (List Record)}

/-- The bytes that a call adds to what stands under the path. -/
def addedBytes (t : FileTree) (path : String) (rs : List Record) : List UInt8 :=
  (Csv.addition (!t.isPresent path) rs).toUTF8.toList

theorem appendCsv_eq (t : FileTree) (path : String) (rs : List Record) :
    appendCsv (m := StateM FileTree) path rs t =
      let (r, t') := attempt (fun t' => t'.change path (· ++ addedBytes t path rs)) t
      (match r with
        | .ok () => return .ok ()
        | .error e => return .error (.cannotOpen path e) :
        StateM FileTree (Except CommandError Unit)) t' :=
  rfl

theorem appendCsv_of_change (h : t.change path (· ++ addedBytes t path rs) = .ok t') :
    appendCsv (m := StateM FileTree) path rs t = (.ok (), t') := by
  rw [appendCsv_eq, attempt_of_ok h]
  rfl

theorem appendCsv_of_find_error {e : FileError} (h : t.find true path = .error e) :
    appendCsv (m := StateM FileTree) path rs t = (.error (.cannotOpen path e), t) := by
  rw [appendCsv_eq, attempt_of_error (change_of_find_error h _)]
  rfl

/-- A call on a file adds the rows of the records, without a header. -/
theorem exists_appendCsv_of_holds (h : t.Holds path text.toUTF8.toList) (rs : List Record) :
    ∃ t', appendCsv (m := StateM FileTree) path rs t = (.ok (), t') ∧
      t'.Holds path (text ++ Csv.addition false rs).toUTF8.toList := by
  obtain ⟨t', hchange, ht'⟩ := h.exists_change (· ++ addedBytes t path rs)
  refine ⟨t', appendCsv_of_change hchange, ?_⟩
  rw [Dimacs.toList_toUTF8_append]
  rwa [addedBytes, h.isPresent] at ht'

/-- A call on a path under which nothing stands makes a file with the header and the rows. -/
theorem exists_appendCsv_of_absent {x : Target} (hnew : t.isPresent path = false)
    (h : t.find true path = .ok x) (rs : List Record) :
    ∃ t', appendCsv (m := StateM FileTree) path rs t = (.ok (), t') ∧
      t'.Holds path (Csv.addition true rs).toUTF8.toList := by
  obtain ⟨t', hchange, ht'⟩ := exists_change_of_absent hnew h (· ++ addedBytes t path rs)
  refine ⟨t', appendCsv_of_change hchange, ?_⟩
  rwa [addedBytes, hnew] at ht'

theorem mapM_cons_run {α β σ : Type} {f : α → StateM σ β} {x : α} {xs : List α} {y : β} {s s' : σ}
    (h : f x s = (y, s')) :
    (x :: xs).mapM f s = (y :: (xs.mapM f s').1, (xs.mapM f s').2) := by
  rw [List.mapM_cons]
  show (do let ys ← xs.mapM f; pure ((f x s).1 :: ys) : StateM σ (List β)) (f x s).2 = _
  rw [h]
  rfl

/-- Any number of calls on a file add the rows of all their records. -/
theorem mapM_appendCsv_of_holds (h : t.Holds path text.toUTF8.toList)
    (batches : List (List Record)) :
    ∃ t', batches.mapM (appendCsv (m := StateM FileTree) path) t =
        (batches.map fun _ => .ok (), t') ∧
      t'.Holds path (text ++ Csv.addition false batches.flatten).toUTF8.toList := by
  induction batches generalizing t text with
  | nil =>
      have hnone : Csv.addition false [] = "" := rfl
      refine ⟨t, rfl, ?_⟩
      rwa [List.flatten_nil, hnone, String.append_empty]
  | cons rs batches ih =>
      obtain ⟨t₁, hcall, ht₁⟩ := exists_appendCsv_of_holds h rs
      obtain ⟨t', hcalls, ht'⟩ := ih ht₁
      refine ⟨t', by rw [mapM_cons_run hcall, hcalls, List.map_cons], ?_⟩
      rwa [String.append_assoc, ← Csv.addition_append] at ht'

theorem mapM_appendCsv_of_find_error {e : FileError} (h : t.find true path = .error e)
    (batches : List (List Record)) :
    batches.mapM (appendCsv (m := StateM FileTree) path) t =
      (batches.map fun _ => .error (.cannotOpen path e), t) := by
  induction batches with
  | nil => rfl
  | cons rs batches ih => rw [mapM_cons_run (appendCsv_of_find_error h), ih, List.map_cons]

/-- Any number of calls on a path under which nothing stands at first.  If the path leads nowhere,
each call says so and changes nothing.  Otherwise all of them succeed, and the file that they leave
is read as one table, with the header in its first row only and a row for each record, in the order
of the calls. -/
theorem table_of_appended_records {t : FileTree} {path : String} {batches : List (List Record)}
    (hnew : t.isPresent path = false) (hcalls : batches ≠ []) :
    let appended := batches.mapM (appendCsv (m := StateM FileTree) path) t
    (∀ e, t.find true path = .error e →
      appended = (batches.map fun _ => .error (.cannotOpen path e), t)) ∧
    ∀ x, t.find true path = .ok x →
      appended.1 = batches.map (fun _ => .ok ()) ∧
      ∃ text table, appended.2.read path = .ok text.toUTF8.toList ∧
        Csv.rows text = ["filename", "time_sec", "peak_mem_kb", "result"] :: table ∧
        List.Forall₂ Csv.Tells batches.flatten table := by
  intro appended
  refine ⟨fun e hfind => mapM_appendCsv_of_find_error hfind batches, fun x hfind => ?_⟩
  obtain ⟨rs, batches, rfl⟩ := List.exists_cons_of_ne_nil hcalls
  -- the first call writes the header, and the others find its file
  obtain ⟨t₁, hcall, ht₁⟩ := exists_appendCsv_of_absent hnew hfind rs
  obtain ⟨t', hrest, ht'⟩ := mapM_appendCsv_of_holds ht₁ batches
  have happended : appended = (((rs :: batches).map fun _ => .ok ()), t') := by
    rw [List.map_cons]
    exact (mapM_cons_run hcall).trans (by rw [hrest])
  rw [← Csv.addition_append] at ht'
  rw [happended]
  refine ⟨rfl, _, _, ht'.read, Csv.rows_addition _, ?_⟩
  rw [List.flatten_cons, List.forall₂_map_right_iff, List.forall₂_same]
  exact fun r _ => Csv.tells_cells r

theorem table_of_appended_records_of_two :
    let solved : Record := ⟨"a,b.cnf", ⟨1000⟩, some 12, .sat⟩
    let broken : Record := .unreadable "b\"\n.cnf" "line 1: \"p\", 2\nline 2"
    (⟨[], []⟩ : FileTree).isPresent "t.csv" = false ∧ [[solved], [], [broken]] ≠ [] ∧
      ∃ text, ([[solved], [], [broken]].mapM
          (appendCsv (m := StateM FileTree) "t.csv") ⟨[], []⟩).2.read "t.csv" =
            .ok text.toUTF8.toList ∧
        Csv.rows text =
          [["filename", "time_sec", "peak_mem_kb", "result"],
            ["a,b.cnf", Csv.timeCell ⟨1000⟩, "12", "SAT"],
            ["b\"\n.cnf", "ERROR", "ERROR", "ERROR: line 1: \"p\", 2\nline 2"]] := by
  intro solved broken
  have habsolute : ¬ Path.isAbsolute "t.csv" = true := by decide
  have hcomponents : Path.components "t.csv" = ["t.csv"] := by decide
  have hname : ∀ creating, LookedUp creating "t.csv" [] :=
    fun creating => ⟨by decide, by decide, fun _ h => h.1 rfl, by decide⟩
  have hfind : ∀ creating,
      (⟨[], []⟩ : FileTree).find creating "t.csv" = .ok ⟨["t.csv"], none⟩ := by
    intro creating
    rw [find_eq_ok_iff, if_neg habsolute, hcomponents]
    exact ⟨by decide, .nothing (hname creating) rfl⟩
  have hnew : (⟨[], []⟩ : FileTree).isPresent "t.csv" = false := by
    rw [FileTree.isPresent, FileTree.item, hfind]
    rfl
  have hcalls : [[solved], [], [broken]] ≠ [] := by simp
  obtain ⟨-, text, table, hread, hrows, htable⟩ :=
    (table_of_appended_records hnew hcalls).2 _ (hfind true)
  refine ⟨hnew, hcalls, text, hread, ?_⟩
  rw [hrows]
  obtain _ | ⟨hsolved, _ | ⟨hbroken, _ | _⟩⟩ := htable
  change Csv.Tells ⟨_, _, some 12, .sat⟩ _ at hsolved
  change Csv.Tells ⟨_, _, none, .error _⟩ _ at hbroken
  cases hsolved with
  | measured _ _ _ hword =>
      cases hword
      cases hbroken with
      | error => rfl
      | unmeasured _ _ hword => cases hword

end CommandLine

end Clausal
