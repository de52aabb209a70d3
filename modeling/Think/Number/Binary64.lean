/-! # Exact values of binary64 numbers

A finite double is a signed integer times a power of two. `decode` gives that pair, and `nearest`
goes back from a quotient of naturals to the closest double, a tie going to the even neighbour.
All arithmetic in between is on naturals and hence exact.
-/

namespace Think.Binary64

/-- The value `± mantissa * 2 ^ exponent`. -/
structure Exact where
  negative : Bool
  mantissa : Nat
  exponent : Int
  deriving DecidableEq, Repr

/-- The exact value of a finite double; `none` for the infinities and for not-a-number. -/
def decode? (x : Float) : Option Exact :=
  let bits := x.toBits.toNat
  let negative := bits / Nat.pow 2 63 == 1
  let biased : Nat := bits / Nat.pow 2 52 % Nat.pow 2 11
  let fraction := bits % Nat.pow 2 52
  if biased == 2047 then none
  else if biased == 0 then some ⟨negative, fraction, -1074⟩
  else some ⟨negative, fraction + Nat.pow 2 52, (biased : Int) - 1075⟩

/-- The quotient rounded to the nearest natural, ties to even. -/
def roundDiv (num den : Nat) : Nat :=
  let q := num / den
  let r := num % den
  if den < 2 * r || (2 * r == den && q % 2 == 1) then q + 1 else q

def infinity : Float := Float.ofBits 0x7ff0000000000000

def notANumber : Float := Float.ofBits 0x7ff8000000000000

def signed (negative : Bool) (x : Float) : Float := if negative then -x else x

def isNegative (x : Float) : Bool := x.toBits.toNat / Nat.pow 2 63 == 1

/-- The power of two in whose units the quotient has 53 bits, or -1074 if that is larger. -/
def scale (num den : Nat) : Int :=
  let e : Int := (Nat.log2 num : Int) - (Nat.log2 den : Int) - 53
  let small := num * Nat.pow 2 (-e).toNat < den * Nat.pow 2 e.toNat * Nat.pow 2 53
  max (if small then e else e + 1) (-1074)

/-- The double nearest to `num / den`, ties to even; infinity if that is too large. -/
def nearest (negative : Bool) (num den : Nat) : Float :=
  if num == 0 then signed negative 0.0
  else
    let e := scale num den
    let q := roundDiv (num * Nat.pow 2 (-e).toNat) (den * Nat.pow 2 e.toNat)
    let bits := (e + 1074).toNat * Nat.pow 2 52 + q
    if bits < 0x7ff0000000000000 then signed negative (Float.ofBits bits.toUInt64)
    else signed negative infinity

def Exact.toFloat (d : Exact) : Float :=
  nearest d.negative (d.mantissa * Nat.pow 2 d.exponent.toNat) (Nat.pow 2 (-d.exponent).toNat)

/-- The nearest double to an integer, or `none` if it rounds beyond the largest one. -/
def ofInt? (n : Int) : Option Float :=
  let x := nearest (n < 0) n.natAbs 1
  if x.isFinite then some x else none

/-- The nearest double to a quotient of integers, or `none` if it rounds beyond the largest. -/
def ofQuotient? (num den : Int) : Option Float :=
  let x := nearest ((num < 0) != (den < 0)) num.natAbs den.natAbs
  if x.isFinite then some x else none

/-- The integer part, the fraction being dropped toward zero. -/
def truncate? (x : Float) : Option Int :=
  (decode? x).map fun d =>
    let magnitude : Nat := d.mantissa * Nat.pow 2 d.exponent.toNat / Nat.pow 2 (-d.exponent).toNat
    if d.negative then -(magnitude : Int) else magnitude

/-- How an integer compares with a finite double, without rounding either. -/
def compareInt (n : Int) (d : Exact) : Ordering :=
  let magnitude : Int := d.mantissa * Int.pow 2 d.exponent.toNat
  compare (n * Int.pow 2 (-d.exponent).toNat) (if d.negative then -magnitude else magnitude)

/-- The remainder of the magnitudes with the sign of the first operand; exact. -/
def remainder (x y : Float) : Float :=
  match decode? x, decode? y with
  | some a, some b =>
    if b.mantissa == 0 then notANumber
    else
      let e := min a.exponent b.exponent
      let divisor := b.mantissa * Nat.pow 2 (b.exponent - e).toNat
      let m := a.mantissa * Nat.pow 2 (a.exponent - e).toNat % divisor
      Exact.toFloat ⟨a.negative, m, e⟩
  | some _, none => if y.isNaN then notANumber else x
  | none, _ => notANumber

/-- The largest natural whose square is at most `n`, found bit by bit below `2 ^ bits`. -/
def squareRoot (n : Nat) : (bits acc : Nat) → Nat
  | 0, acc => acc
  | k + 1, acc =>
    let next := acc + Nat.pow 2 k
    squareRoot n k (if next * next ≤ n then next else acc)

/-- The length of the vector `(x, y)`, correctly rounded. -/
def hypotenuse (x y : Float) : Float :=
  match decode? x, decode? y with
  | some a, some b =>
    let e := min a.exponent b.exponent
    let m := a.mantissa * Nat.pow 2 (a.exponent - e).toNat
    let n := b.mantissa * Nat.pow 2 (b.exponent - e).toNat
    let square := (m * m + n * n) * Nat.pow 2 128
    let root := squareRoot square (Nat.log2 square / 2 + 1) 0
    let sticky := if root * root == square then 0 else 1
    let e := e - 65
    nearest false ((2 * root + sticky) * Nat.pow 2 e.toNat) (Nat.pow 2 (-e).toNat)
  | _, _ => if x.isInf || y.isInf then infinity else notANumber

end Think.Binary64
