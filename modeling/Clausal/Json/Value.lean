import Clausal.Decimal

/-! # JSON values and their text

Numbers are kept as they are written.  A string may name half of a surrogate pair, which no text
can hold; such a string is kept as `none` and may stand only where nobody looks at it.

`compact` writes a value without any space, `pretty` over several lines with two spaces for each
level. -/

namespace Clausal

inductive Json
  | null
  | bool (b : Bool)
  | number (text : String)
  | string (text? : Option String)
  | array (items : List Json)
  | object (members : List (Option String × Json))

namespace Json

/-! ### Building values -/

def ofNat (n : Nat) : Json := number (Nat.repr n)

def ofString (s : String) : Json := string (some s)

/-- Numbers are positional up to sixteen digits before the point and four zeros behind it, and an
exponent always has its sign. -/
def floatLayout : Decimal.Layout := ⟨16, 4, "+"⟩

/-- The shortest text of a number, and null for what has none. -/
def ofFloat (x : Float) : Json :=
  match Decimal.shortest? floatLayout x with
  | some s => number s
  | none => null

def ofOption {α : Type} (f : α → Json) : Option α → Json
  | some a => f a
  | none => null

/-- An object of named members. -/
def record (members : List (String × Json)) : Json :=
  object (members.map fun (k, v) => (some k, v))

/-! ### Text -/

/-- One character of a string: quotes, backslashes and controls are escaped. -/
def escapeChar (c : Char) : String :=
  if c = '"' then "\\\""
  else if c = '\\' then "\\\\"
  else if c = '\n' then "\\n"
  else if c = '\r' then "\\r"
  else if c = '\t' then "\\t"
  else if c.toNat = 8 then "\\b"
  else if c.toNat = 12 then "\\f"
  else if c.toNat < 32 then
    let ds := Nat.toDigits 16 c.toNat
    "\\u" ++ String.ofList (List.replicate (4 - ds.length) '0' ++ ds)
  else c.toString

def quoted (s : String) : String := "\"" ++ String.join (s.toList.map escapeChar) ++ "\""

/-- The text of half a surrogate pair is the replacement character. -/
def quotedOr (s : Option String) : String := quoted (s.getD "\ufffd")

mutual

/-- The text without any space. -/
def compact : Json → String
  | null => "null"
  | bool b => if b then "true" else "false"
  | number s => s
  | string s => quotedOr s
  | array items => "[" ++ ",".intercalate (compactItems items) ++ "]"
  | object members => "\x7b" ++ ",".intercalate (compactMembers members) ++ "\x7d"

def compactItems : List Json → List String
  | [] => []
  | v :: vs => v.compact :: compactItems vs

def compactMembers : List (Option String × Json) → List String
  | [] => []
  | (k, v) :: ms => (quotedOr k ++ ":" ++ v.compact) :: compactMembers ms

end

/-- Parts one below the other, indented by one level more than `indent`, between brackets. -/
def block (indent left right : String) (parts : List String) : String :=
  if parts.isEmpty then left ++ right
  else
    left ++ "\n" ++ ",\n".intercalate (parts.map fun p => indent ++ "  " ++ p) ++ "\n" ++
      indent ++ right

mutual

/-- The text over several lines, of which all but the first are indented. -/
def prettyFrom (indent : String) : Json → String
  | array items => block indent "[" "]" (prettyItems (indent ++ "  ") items)
  | object members => block indent "\x7b" "\x7d" (prettyMembers (indent ++ "  ") members)
  | v => v.compact

def prettyItems (indent : String) : List Json → List String
  | [] => []
  | v :: vs => prettyFrom indent v :: prettyItems indent vs

def prettyMembers (indent : String) : List (Option String × Json) → List String
  | [] => []
  | (k, v) :: ms => (quotedOr k ++ ": " ++ prettyFrom indent v) :: prettyMembers indent ms

end

def pretty (j : Json) : String := prettyFrom "" j

end Json

end Clausal
