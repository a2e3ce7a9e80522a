import Clausal.Decimal
import Clausal.Formula
import Clausal.Text

/-! # The DIMACS format

A DIMACS file is read line by line.  Blank lines and lines that begin with `c` or `%` say nothing;
a line that begins with `p` is a problem line and declares a number of variables; every other line
is one clause, of the tokens on it that are numbers of literals.  Zeros are passed over and other
tokens are ignored with a notice.  A line whose tokens name no literal adds no clause.

The declared number is a hint only: the first problem line counts, and the variables of the
formula are those of its clauses.

A literal is written as its signed number, a clause as its literals and a zero, and a formula as
a problem line with one line for each clause.  Only variables whose number fits in 31 bits can be
written. -/

namespace Clausal

namespace Dimacs

/-! ### Tokens -/

/-- The number that a token stands for, if it fits in 32 bits. -/
def number? (token : List Char) : Option Int := Numeral.intOfBits? 32 token

/-- Whether a token is neither a zero nor a literal. -/
def isIgnored (token : List Char) : Bool :=
  match number? token with
  | some n => n != 0 && (Literal.ofInt? n).isNone
  | none => true

/-- The clause of the tokens that stand for literals. -/
def clauseOfTokens (tokens : List (List Char)) : Clause :=
  .ofList (tokens.filterMap fun t => (number? t).bind Literal.ofInt?)

/-- The clause of a text of tokens. -/
def clauseOfText (s : String) : Clause := clauseOfTokens (Text.words s.toList)

/-! ### Lines -/

/-- Why a DIMACS file cannot be read. -/
inductive ReadError
  /-- A problem line is not one of a formula in conjunctive normal form. -/
  | notCnf (line : Nat) (header : String)
  /-- The number of variables of a problem line cannot be read. -/
  | invalidCount (line : Nat) (header : String)
  /-- A line is not text in UTF-8. -/
  | notText
deriving DecidableEq, Repr

def ReadError.message : ReadError → String
  | notCnf line header => "Line " ++ toString line ++ ": not a CNF problem: " ++ Text.quote header
  | invalidCount line header =>
      "Line " ++ toString line ++ ": invalid variable count in " ++ Text.quote header
  | notText => "stream did not contain valid UTF-8"

/-- What a line says. -/
inductive Line
  /-- Nothing: it is blank or a comment. -/
  | silent
  /-- A problem line with its declared number of variables and its text. -/
  | problem (count : Nat) (text : String)
  /-- A line of literals, with the tokens on it that are ignored. -/
  | literals (clause : Clause) (ignored : List String)
deriving DecidableEq, Repr

/-- Read a problem line: a first word that does not matter, `cnf`, and the number of variables. -/
def readProblem (line : Nat) (cs : List Char) : Except ReadError Line :=
  match (Text.words cs).tail with
  | ['c', 'n', 'f'] :: rest =>
      match rest.head?.bind (Numeral.natOfBits? 32) with
      | some count => .ok (.problem count (String.ofList cs))
      | none => .error (.invalidCount line (String.ofList cs))
  | _ => .error (.notCnf line (String.ofList cs))

/-- Read the characters of line number `line`. -/
def readChars (line : Nat) (cs : List Char) : Except ReadError Line :=
  match Text.trim cs with
  | [] => .ok .silent
  | c :: rest =>
      if c = 'c' || c = '%' then .ok .silent
      else if c = 'p' then readProblem line (c :: rest)
      else
        let tokens := Text.words (c :: rest)
        .ok (.literals (clauseOfTokens tokens) ((tokens.filter isIgnored).map String.ofList))

/-- The characters of bytes in UTF-8. -/
def decode? (bytes : List UInt8) : Option (List Char) :=
  (ByteArray.utf8Decode? ⟨bytes.toArray⟩).map Array.toList

/-- Read the bytes of line number `line`. -/
def readLine (line : Nat) (bytes : List UInt8) : Except ReadError Line :=
  match decode? bytes with
  | some cs => readChars line cs
  | none => .error .notText

/-- The lines of some bytes behind lines and a line that was begun, all latest first. -/
def linesBehind (done : List (List UInt8)) : List UInt8 → List UInt8 → List (List UInt8)
  | [], [] => done.reverse
  | begun, [] => (begun.reverse :: done).reverse
  | begun, b :: bs =>
      if b = 10 then linesBehind (begun.reverse :: done) [] bs
      else linesBehind done (b :: begun) bs

/-- The lines of some bytes: each ends with a line feed, which the last one may lack. -/
def splitLines (bytes : List UInt8) : List (List UInt8) := linesBehind [] [] bytes

/-! ### Documents -/

/-- Read lines, which are numbered from `first` on, up to the first that cannot be read. -/
def readLinesFrom (first : Nat) (lines : List (List UInt8)) : Except ReadError (List Line) :=
  (lines.zipIdx first).mapM fun p => readLine p.2 p.1

/-- Read the lines of some bytes. -/
def readLines (bytes : List UInt8) : Except ReadError (List Line) :=
  readLinesFrom 1 (splitLines bytes)

/-- A formula with the number of variables declared for it, if any. -/
structure Document where
  formula : Formula
  declared? : Option Nat
deriving DecidableEq, Repr

/-- The declared number of variables, zero if there is no problem line. -/
def Document.numVars (d : Document) : Nat := d.declared?.getD 0

def Line.clause? : Line → Option Clause
  | literals c _ => if c.isEmpty then none else some c
  | silent | problem .. => none

def Line.count? : Line → Option Nat
  | problem n _ => some n
  | silent | literals .. => none

/-- What the lines say together. -/
def Document.ofLines (lines : List Line) : Document where
  formula := ⟨lines.filterMap Line.clause?⟩
  declared? := lines.findSome? Line.count?

/-- Read a document from bytes. -/
def read (bytes : List UInt8) : Except ReadError Document := Document.ofLines <$> readLines bytes

/-! ### Notices -/

/-- Something on a line that is passed over. -/
inductive Notice
  | ignoredToken (line : Nat) (token : String)
  /-- A problem line behind the first one, which declared `first` variables. -/
  | repeatedProblem (line first : Nat) (text : String)
deriving DecidableEq, Repr

/-- The notice in words, behind its level. -/
def Notice.line : Notice → String
  | ignoredToken line token =>
      "DEBUG Line " ++ toString line ++ ": ignore token " ++ Text.quote token
  | repeatedProblem line first text =>
      "DEBUG Line " ++ toString line ++ ": keep the first problem line (" ++ toString first ++
        " variables), ignore " ++ Text.quote text

/-- The notices of lines, which are numbered from `line` on, behind a first problem line. -/
def noticesFrom (line : Nat) (first? : Option Nat) : List Line → List Notice
  | [] => []
  | .silent :: ls => noticesFrom (line + 1) first? ls
  | .problem count text :: ls =>
      match first? with
      | some first => .repeatedProblem line first text :: noticesFrom (line + 1) first? ls
      | none => noticesFrom (line + 1) (some count) ls
  | .literals _ ignored :: ls =>
      ignored.map (.ignoredToken line) ++ noticesFrom (line + 1) first? ls

def notices (lines : List Line) : List Notice := noticesFrom 1 none lines

end Dimacs

/-! ### Writing -/

/-- The signed number of a literal, whose variable is promised to fit in 31 bits. -/
def Literal.signed (l : Literal) : Except Fault Int :=
  if l.var.index ≤ Literal.maxNumber then .ok l.number else .error .oversized

namespace Dimacs

/-- The signed numbers of literals in decimal digits. -/
def numbers (ls : List Literal) : Except Fault (List String) :=
  ls.mapM fun l => toString <$> l.signed

/-- The literals of a clause and a zero. -/
def writeClause (c : Clause) : Except Fault String := do
  return " ".intercalate ((← numbers c.toList) ++ ["0"])

/-- The true literals of an assignment. -/
def writeAssignment (s : Assignment) : Except Fault String := do
  return " ".intercalate (← numbers s.literals.toList)

/-- The largest variable number of a formula, zero if it has none. -/
def maxIndex (F : Formula) : Nat := (F.vars.toList.getLast?.map Var.index).getD 0

/-- A problem line, which declares at least `numVars` variables, and the clauses line by line. -/
def write (numVars : Nat) (F : Formula) : Except Fault String := do
  let clauses ← F.clauses.mapM writeClause
  let problem := "p cnf " ++ toString (max numVars (maxIndex F)) ++ " " ++ toString F.size
  return String.join ((problem :: clauses).map (· ++ "\n"))

end Dimacs

end Clausal
