import Clausal.Json.Value

/-! # Reading JSON

A text is cut into tokens character by character, and the tokens are put together with a stack of
the arrays and objects that are still open.  Both steps look at every character or token once, so
there is no limit on how deep values are nested.

A number is an optional minus sign, digits without a leading zero, and optionally a fraction and
an exponent.  As a whole number it is exact.  As a floating-point number it is read in two steps:
as many digits as fit in 64 bits are rounded to a number, which is then scaled by a power of ten;
the two roundings can differ from a single one in the last bit. -/

namespace Clausal.Json

/-! ### Numbers -/

/-- The parts of a written number. -/
structure NumberParts where
  negative : Bool
  whole : List Char
  /-- The digits behind the point, if there is one. -/
  fraction? : Option (List Char)
  /-- The sign and the digits of the exponent, if there is one. -/
  exponent? : Option (Bool × List Char)

/-- The digits at the beginning of a text, of which there has to be one, and what follows. -/
def someDigits (cs : List Char) : Option (List Char × List Char) :=
  let (ds, rest) := cs.span Char.isDigit
  if ds.isEmpty then none else some (ds, rest)

/-- Read an exponent, up to the end of the text. -/
def readExponent : List Char → Option (Option (Bool × List Char))
  | [] => some none
  | c :: cs =>
      if c = 'e' || c = 'E' then
        let (negative, cs) :=
          match cs with
          | '-' :: cs => (true, cs)
          | '+' :: cs => (false, cs)
          | cs => (false, cs)
        match someDigits cs with
        | some (ds, []) => some (some (negative, ds))
        | _ => none
      else none

/-- The parts of a text that is a number from beginning to end. -/
def NumberParts.ofText? (cs : List Char) : Option NumberParts := do
  let (negative, cs) :=
    match cs with
    | '-' :: cs => (true, cs)
    | cs => (false, cs)
  let (whole, cs) ← someDigits cs
  guard (whole.head? != some '0' || whole.length == 1)
  let (fraction?, cs) ←
    match cs with
    | '.' :: cs => (someDigits cs).map fun (ds, rest) => (some ds, rest)
    | cs => some (none, cs)
  let exponent? ← readExponent cs
  return { negative, whole, fraction?, exponent? }

/-- The number that is written, if it is whole, has no sign and fits in `bits` bits. -/
def NumberParts.nat? (bits : Nat) (p : NumberParts) : Option Nat :=
  if p.negative || p.fraction?.isSome || p.exponent?.isSome then none
  else
    let n := Nat.ofDigitChars 10 p.whole 0
    if n < Nat.pow 2 bits then some n else none

/-! ### Floating-point numbers -/

/-- Append digits to a number as long as it fits in 64 bits, and count the digits left over. -/
def absorb (n : Nat) : List Char → Nat × Nat
  | [] => (n, 0)
  | d :: ds =>
      let next := Nat.ofDigitChars 10 [d] n
      if next < Nat.pow 2 64 then absorb next ds else (n, ds.length + 1)

/-- A power of ten, rounded to the nearest number. -/
def powerOfTen (n : Nat) : Float := Float.ofScientific 1 false n

/-- Divide by a power of ten, by at most `10 ^ 308` at a time. -/
def scaleDown (x : Float) (n : Nat) : Float :=
  if n ≤ 308 then x / powerOfTen n
  else if x == 0 then x
  else scaleDown (x / powerOfTen 308) (n - 308)
termination_by n

/-- Multiply by a power of ten, unless the result is too large. -/
def scale? (x : Float) (e : Int) : Option Float :=
  if e < 0 then some (scaleDown x e.natAbs)
  else if x == 0 then some x
  else if 308 < e then none
  else
    let y := x * powerOfTen e.toNat
    if y.isInf then none else some y

/-- The floating-point number that is written, unless it is too large. -/
def NumberParts.float? (p : NumberParts) : Option Float := do
  let (n, skipped) := absorb 0 p.whole
  let fraction := p.fraction?.getD []
  let (n, unread) := absorb n fraction
  let shift : Int := skipped - (fraction.length - unread : Nat)
  let exponent : Int :=
    match p.exponent? with
    | some (true, ds) => -(Nat.ofDigitChars 10 ds 0 : Int)
    | some (false, ds) => Nat.ofDigitChars 10 ds 0
    | none => 0
  let x ← scale? n.toUInt64.toFloat (shift + exponent)
  return if p.negative then -x else x

/-! ### Tokens -/

inductive Token
  | leftBracket
  | rightBracket
  | leftBrace
  | rightBrace
  | comma
  | colon
  | text (text? : Option String)
  /-- A number or a word. -/
  | scalar (value : Json)

/-- Where the cutting of a text stands; characters and code units come latest first. -/
inductive Mode
  /-- Between tokens. -/
  | idle
  /-- In a number or a word. -/
  | word (begun : List Char)
  /-- In a string. -/
  | string (units : List Nat)
  /-- Behind a backslash in a string. -/
  | escape (units : List Nat)
  /-- In the hexadecimal digits of an escaped code unit, of which some are to come. -/
  | unit (units : List Nat) (toCome value : Nat)

/-- The tokens cut so far, the latest first, and the mode. -/
structure Cutting where
  tokens : List Token
  mode : Mode

/-- The value of a number or a word. -/
def wordValue? (cs : List Char) : Option Json :=
  match String.ofList cs with
  | "null" => some .null
  | "true" => some (.bool true)
  | "false" => some (.bool false)
  | s => (NumberParts.ofText? cs).map fun _ => .number s

/-- The characters of code units: a high and a low surrogate are one character, and a surrogate
that stands alone is none. -/
def charsOfUnits : List Nat → Option (List Char)
  | [] => some []
  | n :: ns =>
      if 0xd800 ≤ n && n < 0xdc00 then
        match ns with
        | m :: ms =>
            if 0xdc00 ≤ m && m < 0xe000 then
              (charsOfUnits ms).map
                (Char.ofNat (0x10000 + (n - 0xd800) * 0x400 + (m - 0xdc00)) :: ·)
            else none
        | [] => none
      else if 0xdc00 ≤ n && n < 0xe000 then none
      else (charsOfUnits ns).map (Char.ofNat n :: ·)

/-- The character that a letter behind a backslash stands for. -/
def escaped? : Char → Option Nat
  | '"' => some 0x22
  | '\\' => some 0x5c
  | '/' => some 0x2f
  | 'b' => some 0x08
  | 'f' => some 0x0c
  | 'n' => some 0x0a
  | 'r' => some 0x0d
  | 't' => some 0x09
  | _ => none

def hexDigit? (c : Char) : Option Nat :=
  if c.isDigit then some (c.toNat - '0'.toNat)
  else if 'a' ≤ c && c ≤ 'f' then some (c.toNat - 'a'.toNat + 10)
  else if 'A' ≤ c && c ≤ 'F' then some (c.toNat - 'A'.toNat + 10)
  else none

/-- The token of a character that is one by itself. -/
def mark? : Char → Option Token
  | '[' => some .leftBracket
  | ']' => some .rightBracket
  | '\x7b' => some .leftBrace
  | '\x7d' => some .rightBrace
  | ',' => some .comma
  | ':' => some .colon
  | _ => none

def isSpace (c : Char) : Bool := c == ' ' || c == '\n' || c == '\r' || c == '\t'

/-- Take in a character between tokens. -/
def startToken (tokens : List Token) (c : Char) : Cutting :=
  if isSpace c then ⟨tokens, .idle⟩
  else if c = '"' then ⟨tokens, .string []⟩
  else
    match mark? c with
    | some t => ⟨t :: tokens, .idle⟩
    | none => ⟨tokens, .word [c]⟩

/-- Take in the next character. -/
def cut (s : Cutting) (c : Char) : Option Cutting :=
  match s.mode with
  | .idle => some (startToken s.tokens c)
  | .word begun =>
      if isSpace c || c = '"' || (mark? c).isSome then
        (wordValue? begun.reverse).map fun v => startToken (.scalar v :: s.tokens) c
      else some ⟨s.tokens, .word (c :: begun)⟩
  | .string units =>
      if c = '"' then
        some ⟨.text ((charsOfUnits units.reverse).map String.ofList) :: s.tokens, .idle⟩
      else if c = '\\' then some ⟨s.tokens, .escape units⟩
      else if c.toNat < 0x20 then none
      else some ⟨s.tokens, .string (c.toNat :: units)⟩
  | .escape units =>
      if c = 'u' then some ⟨s.tokens, .unit units 4 0⟩
      else (escaped? c).map fun n => ⟨s.tokens, .string (n :: units)⟩
  | .unit units toCome value =>
      (hexDigit? c).map fun d =>
        let value := 16 * value + d
        if toCome ≤ 1 then ⟨s.tokens, .string (value :: units)⟩
        else ⟨s.tokens, .unit units (toCome - 1) value⟩

/-- The tokens of a text. -/
def tokens? (cs : List Char) : Option (List Token) := do
  let s ← cs.foldlM cut ⟨[], .idle⟩
  match s.mode with
  | .idle => return s.tokens.reverse
  | .word begun => return (.scalar (← wordValue? begun.reverse) :: s.tokens).reverse
  | .string _ | .escape _ | .unit .. => none

/-! ### Values -/

/-- An array or object that is still open, with what it holds so far, the latest first. -/
inductive Frame
  | array (items : List Json)
  /-- An object that waits for the value of a key. -/
  | object (members : List (Option String × Json)) (key : Option String)

/-- What may come next. -/
inductive Expected
  | value
  /-- A value, or the end of an array without items. -/
  | valueOrEnd
  /-- A key, or the end of an object without members. -/
  | keyOrEnd
  | key (members : List (Option String × Json))
  | colon
  /-- A comma or the end of an array. -/
  | moreItems (items : List Json)
  /-- A comma or the end of an object. -/
  | moreMembers (members : List (Option String × Json))
  /-- Nothing: the value is complete. -/
  | nothing (v : Json)

/-- Where the reading of tokens stands: the open frames, the innermost first. -/
structure Reading where
  frames : List Frame
  expected : Expected

/-- Put a complete value where it belongs. -/
def finish (frames : List Frame) (v : Json) : Reading :=
  match frames with
  | [] => ⟨[], .nothing v⟩
  | .array items :: rest => ⟨rest, .moreItems (v :: items)⟩
  | .object members key :: rest => ⟨rest, .moreMembers ((key, v) :: members)⟩

/-- Take in the first token of a value. -/
def startValue (frames : List Frame) : Token → Option Reading
  | .scalar v => some (finish frames v)
  | .text s => some (finish frames (.string s))
  | .leftBracket => some ⟨.array [] :: frames, .valueOrEnd⟩
  | .leftBrace => some ⟨frames, .keyOrEnd⟩
  | .rightBracket | .rightBrace | .comma | .colon => none

/-- Take in the next token. -/
def take (r : Reading) (t : Token) : Option Reading :=
  match r.expected, t with
  | .value, t => startValue r.frames t
  | .valueOrEnd, .rightBracket => some (finish r.frames.tail (.array []))
  | .valueOrEnd, t => startValue r.frames t
  | .keyOrEnd, .rightBrace => some (finish r.frames (.object []))
  | .keyOrEnd, .text k => some ⟨.object [] k :: r.frames, .colon⟩
  | .key members, .text k => some ⟨.object members k :: r.frames, .colon⟩
  | .colon, .colon => some ⟨r.frames, .value⟩
  | .moreItems items, .comma => some ⟨.array items :: r.frames, .value⟩
  | .moreItems items, .rightBracket => some (finish r.frames (.array items.reverse))
  | .moreMembers members, .comma => some ⟨r.frames, .key members⟩
  | .moreMembers members, .rightBrace => some (finish r.frames (.object members.reverse))
  | _, _ => none

/-- The value of a text that holds one JSON value and spaces. -/
def read? (s : String) : Option Json := do
  let r ← (← tokens? s.toList).foldlM take ⟨[], .value⟩
  match r.expected with
  | .nothing v => return v
  | _ => none

/-! ### Looking at values -/

def nat? (bits : Nat) : Json → Option Nat
  | number s => (NumberParts.ofText? s.toList).bind (NumberParts.nat? bits)
  | _ => none

def float? : Json → Option Float
  | number s => (NumberParts.ofText? s.toList).bind NumberParts.float?
  | _ => none

def text? : Json → Option String
  | string s => s
  | _ => none

/-- A choice among names: the name, or an object whose one member has that name and is null. -/
def choice? : Json → Option String
  | string s => s
  | object [(k, null)] => k
  | _ => none

def isNull : Json → Bool
  | null => true
  | _ => false

/-- A value that may be null or missing. -/
def optional? {α : Type} (read : Json → Option α) : Option Json → Option (Option α)
  | none | some null => some none
  | some j => (read j).map some

def items? {α : Type} (read : Json → Option α) : Json → Option (List α)
  | array items => items.mapM read
  | _ => none

/-- The members of an object under the given names, none of which may come twice.  Names that
nobody asks for are passed over if `others` allows them. -/
def named? (names : List String) (others : Bool) (members : List (Option String × Json)) :
    Option (List (Option Json)) := do
  let texts ← members.mapM fun (k, v) => k.map (·, v)
  guard (others || texts.all fun (k, _) => names.contains k)
  names.mapM fun name =>
    match texts.filter (·.1 == name) with
    | [] => some none
    | [(_, v)] => some (some v)
    | _ => none

/-- The fields of a record: an object with members of the given names, or an array with exactly
one item for each. -/
def fields? (names : List String) (others : Bool) : Json → Option (List (Option Json))
  | object members => named? names others members
  | array items => if items.length = names.length then some (items.map some) else none
  | _ => none

end Clausal.Json
