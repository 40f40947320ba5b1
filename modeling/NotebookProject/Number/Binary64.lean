import NotebookProject.Number.Power

/-!
# Binary floating point, 64 bits

Finite numbers of the 64-bit binary format, as a sign, a mantissa below `2 ^ 53` and a binary
exponent. `ofRatio` rounds an exact quotient to the nearest of them, a tie going to the even
mantissa; `ofDecimal` reads a decimal that way. `shortest` is the other direction: the fewest
decimal digits that read back as the same number, and among those the nearest to it.
-/

namespace NotebookProject

/-- The number `mantissa * 2 ^ exponent`, negated if `negative`. -/
structure Binary64 where
  negative : Bool
  mantissa : Nat
  exponent : Int
  deriving DecidableEq, Repr, Inhabited

namespace Binary64

/-- The least exponent, that of zero and of the subnormal numbers. -/
def minExponent : Int := -1074

/-- The greatest exponent. -/
def maxExponent : Int := 971

def zero (negative : Bool) : Binary64 := ⟨negative, 0, minExponent⟩

def isZero (x : Binary64) : Bool := x.mantissa == 0

/-- The number's magnitude as a quotient of natural numbers. -/
def numerator (x : Binary64) : Nat :=
  x.mantissa * twoTo x.exponent.toNat

def denominator (x : Binary64) : Nat :=
  twoTo (-x.exponent).toNat

/-- The quotient rounded to a whole number, half going to the even neighbour. -/
def roundHalfEven (num den : Nat) : Nat :=
  let q := num / den
  let twice := 2 * (num % den)
  if den < twice || (twice == den && q % 2 == 1) then q + 1 else q

/-- The exponent at which `num / den` has a mantissa of 53 bits, or the least one if that is
greater. -/
def exponentOf (num den : Nat) : Int :=
  let guess : Int := (num.log2 : Int) - (den.log2 : Int) - 52
  let fits := twoTo 52 * den * twoTo guess.toNat ≤ num * twoTo (-guess).toNat
  max minExponent (if fits then guess else guess - 1)

/-- The nearest number to `num / den`; none if that is past the greatest one. -/
def ofRatio (negative : Bool) (num den : Nat) : Option Binary64 :=
  if num == 0 then some (zero negative)
  else
    let e := exponentOf num den
    let m := roundHalfEven (num * twoTo (-e).toNat) (den * twoTo e.toNat)
    let (m, e) := if m == twoTo 53 then (twoTo 52, e + 1) else (m, e)
    if maxExponent < e then none else some ⟨negative, m, e⟩

/-- The number of decimal digits of a natural number. -/
def digitCount (n : Nat) : Nat :=
  (Nat.toDigits 10 n).length

/-- The nearest number to `digits * 10 ^ exponent`; none if that is past the greatest one. The
two bounds keep the powers small: beyond them the answer no longer depends on the digits. -/
def ofDecimal (negative : Bool) (digits : Nat) (exponent : Int) : Option Binary64 :=
  let magnitude := (digitCount digits : Int) + exponent
  if digits == 0 || magnitude < -400 then some (zero negative)
  else if 400 < magnitude then none
  else ofRatio negative (digits * tenTo exponent.toNat) (tenTo (-exponent).toNat)

/-- A decimal `digits * 10 ^ exponent`. -/
structure Decimal where
  digits : Nat
  exponent : Int
  deriving DecidableEq, Repr, Inhabited

/-- Whether the decimal reads back as the magnitude of `x`. -/
def readsBack (x : Binary64) (d : Decimal) : Bool :=
  ofDecimal x.negative d.digits d.exponent == some x

/-- The least `k ≤ fuel` with `den ≤ num * 10 ^ k`, counting up from `k`. -/
def leadingZeros : Nat → Nat → Nat → Nat → Nat
  | 0, k, _, _ => k
  | fuel + 1, k, num, den => if den ≤ num then k else leadingZeros fuel (k + 1) (num * 10) den

/-- The exponent of the first decimal digit of `num / den`. -/
def decimalExponent (num den : Nat) : Int :=
  if den ≤ num then (digitCount (num / den) : Int) - 1
  else -(leadingZeros 400 0 num den : Int)

/-- The neighbours of `num / den` among the multiples of `10 ^ exponent`, nearer one first; of
two equally near ones the even one comes first. -/
def neighbours (num den : Nat) (exponent : Int) : List Decimal :=
  let num := num * tenTo (-exponent).toNat
  let den := den * tenTo exponent.toNat
  let low := num / den
  let nearer := roundHalfEven num den
  let farther := if nearer == low then low + 1 else low
  [⟨nearer, exponent⟩, ⟨farther, exponent⟩]

/-- Drops up to `fuel` zeros from the end of the digits. -/
def stripZeros : Nat → Decimal → Decimal
  | 0, d => d
  | fuel + 1, d =>
    if d.digits % 10 == 0 && d.digits != 0 then stripZeros fuel ⟨d.digits / 10, d.exponent + 1⟩
    else d

/-- All digits of the number. -/
def exact (x : Binary64) : Decimal :=
  if 0 ≤ x.exponent then ⟨x.numerator, 0⟩
  else ⟨x.mantissa * Nat.pow 5 (-x.exponent).toNat, x.exponent⟩

/-- The fewest digits that read back as the magnitude of `x`, and of those the nearest ones. -/
def shortest (x : Binary64) : Decimal :=
  let num := x.numerator
  let den := x.denominator
  let first := decimalExponent num den
  let found := (List.range 17).findSome? fun (k : Nat) =>
    (neighbours num den (first - k)).find? x.readsBack
  stripZeros 400 (found.getD x.exact)

end Binary64

/-- How the digits of a number are laid out: which decimal exponents are written with all places,
whether a whole number keeps a fraction `.0`, and whether a positive exponent has a sign. -/
structure FloatLayout where
  positional : Int → Bool
  fraction : Bool
  signed : Bool

namespace FloatLayout

/-- The digits `ds` of `0.d₁d₂…` times `10 ^ point` with all places. -/
def places (fraction : Bool) (ds : List Char) (point : Int) : List Char :=
  if point ≤ 0 then '0' :: '.' :: (List.replicate (-point).toNat '0' ++ ds)
  else
    let n := point.toNat
    if n < ds.length then ds.take n ++ '.' :: ds.drop n
    else ds ++ List.replicate (n - ds.length) '0' ++ (if fraction then ['.', '0'] else [])

/-- One digit before the point, the exponent at the end. -/
def scientific (signed : Bool) (ds : List Char) (exponent : Int) : List Char :=
  let mantissa := match ds with
    | [] => []
    | [d] => [d]
    | d :: rest => d :: '.' :: rest
  let mark := if 0 ≤ exponent then (if signed then ['e', '+'] else ['e']) else ['e', '-']
  mantissa ++ mark ++ Nat.toDigits 10 exponent.natAbs

/-- The text of a finite number. -/
def render (layout : FloatLayout) (x : Binary64) : List Char :=
  let sign := if x.negative then ['-'] else []
  let body :=
    if x.isZero then (if layout.fraction then ['0', '.', '0'] else ['0'])
    else
      let d := x.shortest
      let ds := Nat.toDigits 10 d.digits
      let exponent := d.exponent + ds.length - 1
      if layout.positional exponent then places layout.fraction ds (exponent + 1)
      else scientific layout.signed ds exponent
  sign ++ body

end FloatLayout

end NotebookProject
