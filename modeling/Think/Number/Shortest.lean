import Think.Number.Binary64

/-! # Shortest decimals

The fewest decimal digits that read back as a given double, and of those the ones nearest to it.
A double stands for the interval of reals that round to it. For one digit, two digits and so on,
its two neighbours on the decimal grid are tested for lying in that interval.
-/

namespace Think.Shortest

open Binary64

/-- The value `digits * 10 ^ exponent`. -/
structure Decimal where
  digits : Nat
  exponent : Int
  deriving DecidableEq, Repr

/-- Number of decimal digits; zero has none. -/
def width (n : Nat) : Nat := if n == 0 then 0 else (Nat.toDigits 10 n).length

/-- The exponent of the leading decimal digit of `num / den`. -/
def leading (num den : Nat) : Int :=
  if den ≤ num then (width (num / den) : Int) - 1 else -(width ((den - 1) / num) : Int)

/-- The candidate on the grid `10 ^ place` if one of the two neighbours reads back. The value is
`4 m` in units of `2 ^ (q - 2)`, and the interval runs from `low` to `high` in the same units. -/
def onGrid? (low value high : Nat) (closed : Bool) (unit place : Int) : Option Nat :=
  let up := Nat.pow 2 unit.toNat * Nat.pow 10 (-place).toNat
  let down := Nat.pow 2 (-unit).toNat * Nat.pow 10 place.toNat
  let inside (c : Nat) : Bool :=
    if closed then low * up ≤ c * down && c * down ≤ high * up
    else low * up < c * down && c * down < high * up
  let below := value * up / down
  let above := below + 1
  let gapBelow := value * up - below * down
  let gapAbove := above * down - value * up
  let nearer :=
    if gapBelow < gapAbove then [below, above]
    else if gapAbove < gapBelow then [above, below]
    else if below % 2 == 0 then [below, above] else [above, below]
  nearer.find? fun c => c != 0 && inside c

def search (low value high : Nat) (closed : Bool) (unit top : Int) (count : Nat) :
    (tries : Nat) → Option Decimal
  | 0 => none
  | k + 1 =>
    let place := top - count
    match onGrid? low value high closed unit place with
    | some c => some ⟨c, place⟩
    | none => search low value high closed unit top (count + 1) k

/-- Drops trailing zeros. -/
def trim (d : Decimal) : (budget : Nat) → Decimal
  | 0 => d
  | k + 1 =>
    if d.digits != 0 && d.digits % 10 == 0 then trim ⟨d.digits / 10, d.exponent + 1⟩ k else d

/-- The shortest decimal of a magnitude `mantissa * 2 ^ exponent`. -/
def ofExact (d : Exact) : Decimal :=
  if d.mantissa == 0 then ⟨0, 0⟩
  else
    let value := 4 * d.mantissa
    let low := if d.mantissa == Nat.pow 2 52 && d.exponent > -1074 then value - 1 else value - 2
    let high := value + 2
    let unit := d.exponent - 2
    let top := leading (value * Nat.pow 2 unit.toNat) (Nat.pow 2 (-unit).toNat)
    match search low value high (d.mantissa % 2 == 0) unit top 0 18 with
    | some c => trim c 20
    | none => ⟨d.mantissa, d.exponent⟩

end Think.Shortest
