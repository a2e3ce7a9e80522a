import Clausal.CommandLine.Commands
import Clausal.Files
import Clausal.Proofs.Documents
import Clausal.Proofs.Verdicts

/-! # The model that is printed

`solve` prints the model of a verdict as one line of signed numbers behind a `v`.  That line is
words again, so it is read as a clause of just the literals of the model
(`mem_clauseOfText_modelLine`); the `v` stands for none of them.

A formula that was read has no numbers beyond the format, a model has no variables but those of
its formula, and so nothing on the way from the file to that line can fail
(`solve_prints_model`). -/

namespace Clausal

open Clausal.Text Clausal.Dimacs

/-! ### The line of a model -/

theorem Text.intercalate_concat {ws : List (List Char)} (hws : ws ≠ []) (w : List Char) :
    [' '].intercalate (ws ++ [w]) = [' '].intercalate ws ++ ' ' :: w := by
  induction ws with
  | nil => exact absurd rfl hws
  | cons u ws ih =>
      by_cases hnil : ws = []
      · simp [hnil, List.intercalate_cons_cons]
      · rw [List.cons_append, List.intercalate_cons_of_ne_nil (by simp),
          List.intercalate_cons_of_ne_nil hnil, ih hnil]
        simp

namespace Dimacs

variable {F : Formula} {s m : Assignment} {l : Literal} {v : Var}

/-- The tokens of a line of values: a `v`, the true literals and a zero. -/
def modelTokens (s : Assignment) : List (List Char) :=
  ['v'] :: (tokens s.literals.toList ++ [['0']])

/-- A line of values. -/
def modelLine (s : Assignment) : String := String.ofList ([' '].intercalate (modelTokens s))

theorem isWord_modelTokens (s : Assignment) : ∀ w ∈ modelTokens s, IsWord w := by
  have hv : IsWord ['v'] := ⟨by simp, by simp [isBlank]⟩
  intro w hw
  rcases List.mem_cons.mp hw with rfl | hw
  · exact hv
  · exact isWord_tokens _ w hw

theorem clauseOfText_modelLine (h : ∀ l ∈ s, l.var.index ≤ Literal.maxNumber) :
    clauseOfText (modelLine s) = .ofList s.literals.toList := by
  have hv : (number? ['v']).bind Literal.ofInt? = none := by decide
  rw [clauseOfText, modelLine, String.toList_ofList, words_intercalate (isWord_modelTokens s),
    ← clauseOfTokens_tokens h]
  simp [clauseOfTokens, modelTokens, hv]

theorem mem_clauseOfText_modelLine (h : ∀ l ∈ s, l.var.index ≤ Literal.maxNumber) :
    l ∈ clauseOfText (modelLine s) ↔ l ∈ s := by
  rw [clauseOfText_modelLine h, Clause.mem_ofList]
  rfl

theorem writeAssignment_eq_ok (h : ∀ l ∈ s, l.var.index ≤ Literal.maxNumber) :
    writeAssignment s =
      .ok (" ".intercalate (s.literals.toList.map fun l => toString l.number)) := by
  have hlist : ∀ l ∈ s.literals.toList, l.var.index ≤ Literal.maxNumber := h
  rw [writeAssignment, numbers_eq_ok hlist]
  rfl

/-- Between the `v` and the zero stand the literals with a blank behind them, if there are any. -/
theorem modelLine_eq (s : Assignment) : modelLine s = "v " ++
    (if s.isEmpty then "" else
      " ".intercalate (s.literals.toList.map fun l => toString l.number) ++ " ") ++ "0" := by
  apply String.ext
  rw [modelLine, String.toList_ofList, modelTokens, List.intercalate_cons_of_ne_nil (by simp)]
  by_cases hs : s.literals.toList = []
  · have hempty : s.isEmpty = true := by simp [Assignment.isEmpty, SortedSet.isEmpty, hs]
    simp [hempty, hs, tokens]
  · have hempty : s.isEmpty = false := by simp [Assignment.isEmpty, SortedSet.isEmpty, hs]
    have htokens : tokens s.literals.toList ≠ [] := by simp [tokens, hs]
    rw [intercalate_concat htokens, hempty]
    simp [String.toList_intercalate, tokens, Function.comp_def]

theorem verdictLines_sat (h : ∀ l ∈ s, l.var.index ≤ Literal.maxNumber) :
    CommandLine.verdictLines (.sat s) = .ok ("s SATISFIABLE\n" ++ modelLine s ++ "\n") := by
  rw [modelLine_eq, CommandLine.verdictLines, writeAssignment_eq_ok h]
  cases s.isEmpty with
  | true => rfl
  | false =>
      refine congrArg Except.ok (String.ext ?_)
      simp

theorem lineFeed_not_mem_modelLine (s : Assignment) : '\n' ∉ (modelLine s).toList := by
  rw [modelLine, String.toList_ofList]
  exact lineFeed_not_mem_intercalate (isWord_modelTokens s)

end Dimacs

/-! ### The command -/

namespace CommandLine

variable {a : Algorithm} {w : WalkSettings} {path : String} {json : Bool} {m : Assignment}

/-- What `solve` prints for a formula. -/
def printed (a : Algorithm) (json : Bool) (w : WalkSettings) (F : Formula) :
    Except Fault String := do
  let r ← (a.solve w F).result
  if json then pure (r.toJson.pretty ++ "\n") else verdictLines r

/-- What `solve` leaves behind, given what reading the file gave. -/
def runOfRead (a : Algorithm) (path : String) (json : Bool) (w : WalkSettings) :
    Except FileError (List UInt8) → Run
  | .error e => .failed (.cannotRead path (.file e))
  | .ok bytes =>
      match Dimacs.read bytes with
      | .error e => .failed (.cannotRead path (.document e))
      | .ok d =>
          match printed a json w d.formula with
          | .ok s => ⟨s, none, none⟩
          | .error f => .failed (.fault f)

/-- `solve` reads one file and does nothing else but print. -/
theorem runSolve_eq {m : Type → Type} [Monad m] [LawfulMonad m] [FileAccess m] (a : Algorithm)
    (path : String) (json : Bool) (w : WalkSettings) :
    runSolve (m := m) a path json w = runOfRead a path json w <$> FileAccess.read path := by
  rw [runSolve, Benchmark.load, bind_assoc, map_eq_pure_bind]
  congr
  funext r
  cases r with
  | error e => simp [runOfRead]
  | ok bytes =>
      dsimp only [runOfRead]
      cases Dimacs.read bytes with
      | error e => simp
      | ok d =>
          dsimp only
          rw [pure_bind]
          show (match printed a json w d.formula with
            | .ok s => pure (Run.mk s none none)
            | .error f => pure (Run.failed (.fault f))) = _
          cases printed a json w d.formula <;> rfl

theorem run_solve (files : FileTree) (a : Algorithm) (path : String) (json : Bool)
    (w : WalkSettings) : (Command.run (m := StateM FileTree) (.solve a path json w) files).1 =
      runOfRead a path json w (files.read path) := by
  rw [Command.run, runSolve_eq]
  rfl

/-! ### What is printed of a formula -/

theorem head?_pretty_record (members : List (String × Json)) :
    (Json.record members).pretty.toList.head? = some '\x7b' := by
  rw [Json.record, Json.pretty, Json.prettyFrom, Json.block]
  split <;> simp

theorem head?_pretty_toJson (r : Verdict) : r.toJson.pretty.toList.head? = some '\x7b' := by
  cases r <;> exact head?_pretty_record _

/-- Only a model that was found is announced. -/
theorem exists_model_of_printed {F : Formula} {rest : String}
    (h : printed a json w F = .ok ("s SATISFIABLE\n" ++ rest)) :
    ∃ m, (a.solve w F).result = .ok (.sat m) ∧
      verdictLines (.sat m) = .ok ("s SATISFIABLE\n" ++ rest) := by
  obtain ⟨r, hr⟩ := a.exists_verdict w F
  rw [printed, hr] at h
  cases json with
  | true =>
      have htext : r.toJson.pretty ++ "\n" = "s SATISFIABLE\n" ++ rest := Except.ok.inj h
      have hhead := congrArg (fun t => t.toList.head?) htext
      simp [head?_pretty_toJson] at hhead
  | false =>
      have hlines : verdictLines r = .ok ("s SATISFIABLE\n" ++ rest) := h
      cases r with
      | sat m => exact ⟨m, hr, hlines⟩
      | unsat =>
          have htext : "s UNSATISFIABLE\n" = "s SATISFIABLE\n" ++ rest := Except.ok.inj hlines
          have hthird := congrArg (fun t => t.toList[2]?) htext
          simp at hthird
      | unknown =>
          have htext : "s UNKNOWN\n" = "s SATISFIABLE\n" ++ rest := Except.ok.inj hlines
          have hthird := congrArg (fun t => t.toList[2]?) htext
          simp at hthird

/-- A file that was read is behind every model that is announced. -/
theorem exists_printed_of_output {r : Except FileError (List UInt8)} {rest : String}
    (h : (runOfRead a path json w r).output = "s SATISFIABLE\n" ++ rest) :
    ∃ bytes d, r = .ok bytes ∧ Dimacs.read bytes = .ok d ∧
      printed a json w d.formula = .ok ("s SATISFIABLE\n" ++ rest) := by
  have hfailed (e : CommandError) : (Run.failed e).output ≠ "s SATISFIABLE\n" ++ rest := by
    intro heq
    have hhead := congrArg (fun t => t.toList.head?) heq
    simp [Run.failed] at hhead
  cases r with
  | error e => exact absurd h (hfailed _)
  | ok bytes =>
      rw [runOfRead] at h
      cases hread : Dimacs.read bytes with
      | error e =>
          rw [hread] at h
          exact absurd h (hfailed _)
      | ok d =>
          rw [hread] at h
          dsimp only at h
          refine ⟨bytes, d, rfl, hread, ?_⟩
          cases hprinted : printed a json w d.formula with
          | error f =>
              rw [hprinted] at h
              exact absurd h (hfailed _)
          | ok s =>
              rw [hprinted] at h
              exact congrArg Except.ok h

/-! ### From the file to the line -/

theorem index_le_of_isModel {F : Formula} {l : Literal} (hF : F.IsWritable) (hm : F.IsModel m)
    (hl : l ∈ m) : l.var.index ≤ Literal.maxNumber := hF l.var (hm.var_mem hl)

/-- A formula that was read and its models can always be written.  If `solve` announces a model, the
line behind says a value for every variable of the formula in the file and for no other, and one of
its literals is in each clause. -/
theorem solve_prints_model :
    (∀ (bytes : List UInt8) (d : Document), Dimacs.read bytes = .ok d →
      (∀ c ∈ d.formula, c ≠ ∅) ∧ (∀ v ∈ d.formula.vars, v.index ≤ Literal.maxNumber) ∧
      (∀ n, ∃ text, Dimacs.write n d.formula = .ok text) ∧
      ∀ (a : Algorithm) (w : WalkSettings) (m : Assignment),
        (a.solve w d.formula).result = .ok (.sat m) → ∃ text, writeAssignment m = .ok text) ∧
    ∀ (files : FileTree) (a : Algorithm) (path : String) (json : Bool) (w : WalkSettings)
      (rest : String),
      (Command.run (m := StateM FileTree) (.solve a path json w) files).1.output =
        "s SATISFIABLE\n" ++ rest →
      ∃ bytes d line, files.read path = .ok bytes ∧ Dimacs.read bytes = .ok d ∧
        rest = line ++ "\n" ∧ '\n' ∉ line.toList ∧ ['v', ' '] <+: line.toList ∧
        (∀ v ∈ d.formula.vars, .pos v ∈ clauseOfText line ↔ .neg v ∉ clauseOfText line) ∧
        (∀ l ∈ clauseOfText line, l.var ∈ d.formula.vars) ∧
        ∀ c ∈ d.formula, ∃ l ∈ c, l ∈ clauseOfText line := by
  constructor
  · intro bytes d hread
    have hwritable := isWritable_of_read hread
    refine ⟨ne_empty_of_read hread, hwritable, fun n => ⟨_, write_eq_ok hwritable n⟩, ?_⟩
    intro a w m hsolve
    have hm := Algorithm.isModel_of_solve hsolve
    exact ⟨_, writeAssignment_eq_ok fun l hl => index_le_of_isModel hwritable hm hl⟩
  · intro files a path json w rest houtput
    rw [run_solve] at houtput
    obtain ⟨bytes, d, hfile, hread, hprinted⟩ := exists_printed_of_output houtput
    obtain ⟨m, hsolve, hlines⟩ := exists_model_of_printed hprinted
    have hm := Algorithm.isModel_of_solve hsolve
    have hindex : ∀ l ∈ m, l.var.index ≤ Literal.maxNumber := fun l hl =>
      index_le_of_isModel (isWritable_of_read hread) hm hl
    have hmem (l : Literal) : l ∈ clauseOfText (modelLine m) ↔ l ∈ m :=
      mem_clauseOfText_modelLine hindex
    have hrest : rest = modelLine m ++ "\n" := by
      rw [verdictLines_sat hindex, String.append_assoc, Except.ok.injEq] at hlines
      exact (String.append_right_inj _).mp hlines.symm
    refine ⟨bytes, d, modelLine m, hfile, hread, hrest, lineFeed_not_mem_modelLine m, ?_, ?_,
      ?_, ?_⟩
    · rw [modelLine_eq, String.append_assoc, String.toList_append]
      exact List.prefix_append _ _
    · intro v hv
      rw [hmem, hmem]
      exact hm.pos_mem_iff hv
    · intro l hl
      exact hm.var_mem ((hmem l).mp hl)
    · intro c hc
      obtain ⟨l, hlc, hlm⟩ := hm.exists_mem hc
      exact ⟨l, hlc, (hmem l).mpr hlm⟩

/-- What `solve` prints of a formula with a model. -/
theorem output_of_model {bytes : List UInt8} {d : Document} (hread : Dimacs.read bytes = .ok d)
    (hsolve : (a.solve w d.formula).result = .ok (.sat m)) :
    (runOfRead a path false w (.ok bytes)).output = "s SATISFIABLE\n" ++ (modelLine m ++ "\n") := by
  have hwritable := isWritable_of_read hread
  have hm := Algorithm.isModel_of_solve hsolve
  have hlines := verdictLines_sat fun l hl => index_le_of_isModel hwritable hm hl
  have hprinted : printed a false w d.formula = verdictLines (.sat m) := by
    rw [printed, hsolve]
    rfl
  rw [runOfRead, hread]
  dsimp only
  rw [hprinted, hlines, String.append_assoc]

theorem read_of_single (bytes : List UInt8) :
    (⟨[(["f.cnf"], .file bytes)], []⟩ : FileTree).read "f.cnf" = .ok bytes := by
  have hzero : ¬ "f.cnf".toList.contains '\x00' = true := by decide
  have hnonempty : ¬ "f.cnf".isEmpty = true := by decide
  have hpath : ¬ FileTree.maxPath < "f.cnf".utf8ByteSize := by decide
  have habsolute : ¬ Path.isAbsolute "f.cnf" = true := by decide
  have hcomponents : Path.components "f.cnf" = ["f.cnf"] := by decide
  have hname : ¬ FileTree.maxComponent < "f.cnf".utf8ByteSize := by decide
  have hfind : (⟨[(["f.cnf"], .file bytes)], []⟩ : FileTree).find false "f.cnf" =
      .ok ⟨["f.cnf"], some (.file bytes)⟩ := by
    rw [FileTree.find, if_neg hzero, if_neg hnonempty, if_neg hpath, if_neg habsolute, hcomponents,
      FileTree.follow]
    simp [hname, FileTree.item?]
  rw [FileTree.read, FileTree.item, hfind]
  rfl

/-- From a file with the clause `x1 ∨ ¬x2`, a model can be written and is printed that makes one of
the literals true and gives `x2` one value. -/
theorem solve_prints_model_of_clause :
    let c := Clause.ofList [.pos ⟨1, by decide⟩, .neg ⟨2, by decide⟩]
    let v : Var := ⟨2, by decide⟩
    ∃ (files : FileTree) (m : Assignment) (line : String),
      (Backtracking.solve ⟨[c]⟩).result = .ok (.sat m) ∧ (∃ text, writeAssignment m = .ok text) ∧
      (Command.run (m := StateM FileTree) (.solve .backtracking "f.cnf" false {}) files).1.output =
        "s SATISFIABLE\n" ++ (line ++ "\n") ∧
      (.pos v ∈ clauseOfText line ↔ .neg v ∉ clauseOfText line) ∧
      ∃ l ∈ c, l ∈ clauseOfText line := by
  intro c v
  have hvars : ∀ v ∈ (⟨[c]⟩ : Formula).vars.toList, v.index ≤ Literal.maxNumber := by decide
  have hread := read_textOf (n := 0) hvars (by decide)
  have hdrop : Formula.dropEmpty ⟨[c]⟩ = ⟨[c]⟩ := by decide
  rw [hdrop] at hread
  generalize (textOf 0 _).toUTF8.toList = bytes at hread
  have hfile := read_of_single bytes
  -- any model will do, so the search itself need not be evaluated
  have hsat : (⟨[c]⟩ : Formula).Satisfiable :=
    ⟨(∅ : Assignment).assign (.pos ⟨1, by decide⟩), by decide⟩
  obtain ⟨m, hsolve, -⟩ := (Backtracking.decided_solve ⟨[c]⟩).model hsat
  have houtput : (runOfRead .backtracking "f.cnf" false {} (.ok bytes)).output =
      "s SATISFIABLE\n" ++ (modelLine m ++ "\n") := output_of_model hread hsolve
  rw [← hfile, ← run_solve] at houtput
  have hwrite := (solve_prints_model.1 bytes _ hread).2.2.2 .backtracking {} m hsolve
  refine ⟨_, m, modelLine m, hsolve, hwrite, houtput, ?_⟩
  obtain ⟨bytes', d', line, hfile', hread', hrest, -, -, hone, -, htrue⟩ :=
    solve_prints_model.2 _ _ _ _ _ _ houtput
  rw [hfile] at hfile'
  cases hfile'
  rw [hread] at hread'
  cases hread'
  obtain rfl : modelLine m = line := (String.append_left_inj _).mp hrest
  exact ⟨hone v (by decide), htrue c List.mem_cons_self⟩

end CommandLine

end Clausal
