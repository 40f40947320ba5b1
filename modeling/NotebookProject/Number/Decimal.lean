import NotebookProject.Number.Binary64

/-!
# Reading numbers

Numbers written in digits: whole numbers in any radix up to 36, and decimal fractions, which have
digits before or after a point and perhaps an exponent.
-/

namespace NotebookProject.Decimal

/-- The value of a digit of the radix. -/
def digit? (radix : Nat) (c : Char) : Option Nat :=
  let n :=
    if '0' ≤ c && c ≤ '9' then c.toNat - '0'.toNat
    else if 'a' ≤ c && c ≤ 'z' then c.toNat - 'a'.toNat + 10
    else if 'A' ≤ c && c ≤ 'Z' then c.toNat - 'A'.toNat + 10
    else radix
  if n < radix then some n else none

/-- The number that the digits form after those of `n`. -/
def digitsFrom (radix n : Nat) : List Char → Option Nat
  | [] => some n
  | c :: rest => (digit? radix c).bind fun d => digitsFrom radix (n * radix + d) rest

/-- A number in the digits of the radix, at least one. -/
def nat? (radix : Nat) (cs : List Char) : Option Nat :=
  if cs.isEmpty then none else digitsFrom radix 0 cs

/-- A sign and the text after it. -/
def splitSign : List Char → Bool × List Char
  | '-' :: rest => (true, rest)
  | '+' :: rest => (false, rest)
  | cs => (false, cs)

/-- The digits at the front, and the text after them. -/
def spanDigits (cs : List Char) : List Char × List Char :=
  (cs.takeWhile Char.isDigit, cs.dropWhile Char.isDigit)

/-- A decimal exponent: nothing, or `e` with a sign or none and at least one digit. -/
def exponent? : List Char → Option Int
  | [] => some 0
  | c :: rest =>
    if c == 'e' || c == 'E' then
      let (negative, digits) := splitSign rest
      (nat? 10 digits).map fun n => if negative then -(n : Int) else n
    else none

/-- The digits and the exponent of a decimal fraction without its sign. There is at least one
digit, before or after the point. -/
def fraction? (cs : List Char) : Option (Nat × Int) :=
  let (whole, rest) := spanDigits cs
  let (places, rest) := match rest with
    | '.' :: rest => spanDigits rest
    | rest => ([], rest)
  if whole.isEmpty && places.isEmpty then none
  else (exponent? rest).bind fun e =>
    (nat? 10 (whole ++ places)).map fun n => (n, e - places.length)

/-- A finite number in decimal form. -/
def float? (cs : List Char) : Option Binary64 :=
  let (negative, body) := splitSign cs
  (fraction? body).bind fun (digits, exponent) => Binary64.ofDecimal negative digits exponent

end NotebookProject.Decimal
