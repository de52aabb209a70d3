import Think.Number.Binary64

/-! # Doubles with a fixed number of places

A double is rounded from its exact value to so many decimal places, a tie going to the even
neighbour. It is then written out or turned back into a double.
-/

namespace Think.Binary64

/-- The magnitude of a value in units of the last of so many places. -/
def Exact.units (d : Exact) (places : Nat) : Nat :=
  roundDiv (d.mantissa * Nat.pow 2 d.exponent.toNat * Nat.pow 10 places)
    (Nat.pow 2 (-d.exponent).toNat)

/-- A double written with so many places behind the point. -/
def fixed (places : Nat) (x : Float) : String :=
  match decode? x with
  | some d =>
    let digits := (toString (d.units places)).toList
    let padded := List.replicate (places + 1 - digits.length) '0' ++ digits
    let whole := padded.length - places
    let body := String.ofList (padded.take whole) ++
      (if places = 0 then "" else "." ++ String.ofList (padded.drop whole))
    if d.negative then "-" ++ body else body
  | none => if x.isNaN then "nan" else if isNegative x then "-inf" else "inf"

/-- The double nearest to a double rounded to so many places. -/
def rounded (places : Nat) (x : Float) : Float :=
  match decode? x with
  | some d => nearest d.negative (d.units places) (Nat.pow 10 places)
  | none => x

end Think.Binary64
