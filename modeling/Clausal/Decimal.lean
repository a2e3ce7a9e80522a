/-! # Numbers in decimal digits

A whole number is a run of ASCII digits, with any number of leading zeros, behind an optional sign.
A number that is to fit in a given number of bits is refused when it does not.

A finite floating-point number is `mantissa * 2 ^ exponent` with a sign.  `Binary.ofFloat?` reads
these off the bits of a number, so that everything after it is arithmetic on whole numbers.

A number stands for all reals that round to it.  Of the decimal fractions among them, `shortest?`
writes one with the fewest digits, the nearest to the number of those, and the even one of two
nearest.  On the grid of the decimal fractions with `n` digits, only the two neighbours of the
number have to be looked at: if any point of the grid rounds to the number, so does one of these.

`fixed` writes a given number of decimal places.  The exact value of a number is rounded to the
nearest multiple of `10 ^ -places`; of two nearest multiples the even one is taken.

`float?` reads an optional sign and then `inf`, `infinity` or `nan` in any case, or digits with an
optional point and an optional exponent.  There has to be a digit, on either side of the point.
The nearest floating-point number is taken. -/

/-! ### Whole numbers -/

namespace Clausal.Numeral

/-- The number of a run of at least one digit. -/
def digits? (cs : List Char) : Option Nat :=
  if cs.isEmpty || !cs.all Char.isDigit then none else some (Nat.ofDigitChars 10 cs 0)

/-- A number with an optional plus sign. -/
def nat? : List Char → Option Nat
  | '+' :: cs => digits? cs
  | cs => digits? cs

/-- A number with an optional sign. -/
def int? : List Char → Option Int
  | '+' :: cs => (digits? cs).map Int.ofNat
  | '-' :: cs => (digits? cs).map fun n => -(n : Int)
  | cs => (digits? cs).map Int.ofNat

/-- A number without a minus sign that fits in `bits` bits. -/
def natOfBits? (bits : Nat) (cs : List Char) : Option Nat :=
  (nat? cs).filter fun n => n < Nat.pow 2 bits

/-- A number that fits in `bits` bits, one of them for the sign. -/
def intOfBits? (bits : Nat) (cs : List Char) : Option Int :=
  let limit : Int := Nat.pow 2 (bits - 1)
  (int? cs).filter fun n => -limit ≤ n && n < limit

end Clausal.Numeral

namespace Clausal.Decimal

/-! ### Finite binary fractions -/

/-- The number `mantissa * 2 ^ exponent`, with a sign. -/
structure Binary where
  negative : Bool
  mantissa : Nat
  exponent : Int
  /-- Whether the next smaller number is only half as far away as the next larger one. -/
  narrowBelow : Bool
deriving DecidableEq, Repr

/-- The parts of a finite number; there are none of an infinity, nor of what is not a number. -/
def Binary.ofFloat? (x : Float) : Option Binary :=
  let bits : Nat := x.toBits.toNat
  let hidden : Nat := Nat.pow 2 52
  let fraction : Nat := bits % hidden
  let biased : Nat := bits / hidden % 2048
  let negative := bits / Nat.pow 2 63 == 1
  if biased = 2047 then none
  else if biased = 0 then some ⟨negative, fraction, -1074, false⟩
  else some ⟨negative, fraction + hidden, biased - 1075, fraction == 0 && biased != 1⟩

/-- The value without its sign as a quotient of whole numbers. -/
def Binary.quotient (b : Binary) : Nat × Nat :=
  match b.exponent with
  | .ofNat e => (b.mantissa * Nat.pow 2 e, 1)
  | .negSucc e => (b.mantissa, Nat.pow 2 (e + 1))

/-! ### The shortest text -/

/-- A decimal fraction `0.digits * 10 ^ point`. -/
structure Digits where
  digits : List Char
  point : Int
deriving DecidableEq, Repr

/-- The reals that round to a positive number, with a common denominator. -/
structure Rounding where
  low : Nat
  value : Nat
  high : Nat
  denominator : Nat
  /-- Whether the two ends belong to the interval. -/
  closed : Bool

/-- The interval of a number reaches half way to its neighbours, and takes the ends in when its
mantissa is even. -/
def Binary.rounding (b : Binary) : Rounding :=
  let low := 4 * b.mantissa - (if b.narrowBelow then 1 else 2)
  let closed := b.mantissa % 2 == 0
  match b.exponent with
  | .ofNat e =>
      let unit := Nat.pow 2 e
      ⟨low * unit, 4 * b.mantissa * unit, (4 * b.mantissa + 2) * unit, 4, closed⟩
  | .negSucc e => ⟨low, 4 * b.mantissa, 4 * b.mantissa + 2, 4 * Nat.pow 2 (e + 1), closed⟩

namespace Rounding

/-- The number of digits before the decimal point, less the zeros behind it if there are none. -/
def point (r : Rounding) : Int :=
  if r.denominator ≤ r.value then (Nat.repr (r.value / r.denominator)).length
  else
    let zeros := (List.range 400).find? fun j => r.denominator ≤ r.value * Nat.pow 10 (j + 1)
    Int.negOfNat (zeros.getD 0)

/-- Whether `n / d` lies in the interval. -/
def contains (r : Rounding) (n d : Nat) : Bool :=
  let scaled := n * r.denominator
  if r.closed then r.low * d ≤ scaled && scaled ≤ r.high * d
  else r.low * d < scaled && scaled < r.high * d

/-- A neighbour of the value on the grid of fractions with `n` digits that lies in the interval,
as the number of steps of the grid. -/
def onGrid? (r : Rounding) (n : Nat) : Option Nat :=
  let shift : Int := n - r.point
  let up := Nat.pow 10 shift.toNat
  let down := Nat.pow 10 (-shift).toNat
  let num := r.value * up
  let den := r.denominator * down
  let inside (k : Nat) : Bool := r.contains (k * down) up
  let below := num / den
  let twice := 2 * (num % den)
  let nearer :=
    if twice < den then below
    else if den < twice then below + 1
    else if below % 2 = 0 then below else below + 1
  let farther := if nearer = below then below + 1 else below
  if inside nearer then some nearer else if inside farther then some farther else none

/-- The shortest decimal fraction in the interval. -/
def shortest (r : Rounding) : Digits :=
  match (List.range 17).findSome? fun i => (r.onGrid? (i + 1)).map fun k => (i + 1, k) with
  | some (n, k) =>
      let ds := (Nat.repr k).toList
      let trimmed := (ds.reverse.dropWhile (· == '0')).reverse
      ⟨trimmed, r.point + (ds.length - n : Int)⟩
  | none => ⟨[], 0⟩

end Rounding

/-- How digits are laid out in a text. -/
structure Layout where
  /-- The largest number of digits before the point that is written without an exponent. -/
  maxWhole : Int
  /-- The largest number of zeros behind the point that is written without an exponent. -/
  maxZeros : Int
  /-- What stands before an exponent that is not negative. -/
  exponentSign : String
deriving DecidableEq, Repr

/-- Digits with a decimal point where the layout has it, or else with an exponent. -/
def Layout.write (a : Layout) (d : Digits) : String :=
  let n : Int := d.digits.length
  if n ≤ d.point ∧ d.point ≤ a.maxWhole then
    String.ofList (d.digits ++ List.replicate (d.point - n).toNat '0') ++ ".0"
  else if 0 < d.point ∧ d.point ≤ a.maxWhole then
    String.ofList (d.digits.take d.point.toNat) ++ "." ++
      String.ofList (d.digits.drop d.point.toNat)
  else if -a.maxZeros ≤ d.point ∧ d.point ≤ 0 then
    "0." ++ String.ofList (List.replicate (-d.point).toNat '0' ++ d.digits)
  else
    let tail := if d.digits.length ≤ 1 then "" else "." ++ String.ofList (d.digits.drop 1)
    let exponent := d.point - 1
    String.ofList (d.digits.take 1) ++ tail ++ "e" ++
      (if exponent < 0 then "" else a.exponentSign) ++ toString exponent

/-- The shortest text of a finite number. -/
def shortest? (a : Layout) (x : Float) : Option String :=
  (Binary.ofFloat? x).map fun b =>
    (if b.negative then "-" else "") ++
      if b.mantissa = 0 then "0.0" else a.write b.rounding.shortest

/-! ### A fixed number of decimal places -/

/-- The whole number nearest to `num / den`, the even one of two. -/
def roundHalfEven (num den : Nat) : Nat :=
  let q := num / den
  let twice := 2 * (num % den)
  if twice < den then q
  else if den < twice then q + 1
  else if q % 2 = 0 then q else q + 1

/-- The decimal digits of a number, with zeros before them up to the given width. -/
def paddedDigits (width n : Nat) : String :=
  let ds := (Nat.repr n).toList
  String.ofList (List.replicate (width - ds.length) '0' ++ ds)

/-- A quotient of whole numbers with the given number of decimal places. -/
def fixedQuotient (places num den : Nat) : String :=
  let scale := Nat.pow 10 places
  let n := roundHalfEven (num * scale) den
  Nat.repr (n / scale) ++ "." ++ paddedDigits places (n % scale)

/-- A finite number with the given number of decimal places. -/
def fixed (places : Nat) (x : Float) : String :=
  match Binary.ofFloat? x with
  | none => if x.isNaN then "NaN" else if x < 0 then "-inf" else "inf"
  | some b =>
      (if b.negative then "-" else "") ++ fixedQuotient places b.quotient.1 b.quotient.2

/-! ### Reading -/

/-- The number `mantissa * 10 ^ exponent`, of whose mantissa the number of digits is known. -/
def nearest (digits mantissa : Nat) (exponent : Int) : Float :=
  let size := digits + exponent
  if mantissa = 0 ∨ size < -400 then 0
  else if 400 < size then 1 / 0
  else if exponent < 0 then Float.ofScientific mantissa true exponent.natAbs
  else Float.ofScientific mantissa false exponent.natAbs

/-- Read an exponent behind its mark, up to the end of the text. -/
def exponent? (cs : List Char) : Option Int :=
  match cs with
  | [] => some 0
  | c :: cs => if c = 'e' ∨ c = 'E' then Numeral.int? cs else none

/-- Read a number without a sign. -/
def unsigned? (cs : List Char) : Option Float :=
  match String.ofList (cs.map Char.toLower) with
  | "inf" | "infinity" => some (1 / 0)
  | "nan" => some (0 / 0)
  | _ =>
      let whole := cs.takeWhile Char.isDigit
      let (fraction, rest) :=
        match cs.dropWhile Char.isDigit with
        | '.' :: cs => (cs.takeWhile Char.isDigit, cs.dropWhile Char.isDigit)
        | cs => ([], cs)
      let digits := whole ++ fraction
      if digits.isEmpty then none
      else
        (exponent? rest).map fun e =>
          let mantissa := Nat.ofDigitChars 10 digits 0
          nearest (Nat.repr mantissa).length mantissa (e - fraction.length)

/-- Read a number with an optional sign. -/
def float? : List Char → Option Float
  | '+' :: cs => unsigned? cs
  | '-' :: cs => (unsigned? cs).map fun x => -x
  | cs => unsigned? cs

end Clausal.Decimal
