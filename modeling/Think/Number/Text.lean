import Think.Number.Shortest

/-! # Texts of doubles

Doubles are written with their shortest decimal: positionally while the leading digit stands
between the fourth place after the point and the sixteenth before it, with an exponent otherwise.
-/

namespace Think.Binary64

open Shortest

structure Style where
  /-- Smallest exponent of the leading digit that is written positionally. -/
  smallest : Int
  /-- First exponent of the leading digit that is not. -/
  largest : Int
  /-- Whether an integral value keeps its `.0`. -/
  keepPoint : Bool

def plain : Style := ⟨-4, 16, true⟩

/-- Inside a complex number an integral part is written without a point. -/
def bare : Style := ⟨-4, 16, false⟩

def exponentText (e : Int) : String :=
  let digits := toString e.natAbs
  let padded := if digits.length < 2 then "0" ++ digits else digits
  (if e < 0 then "e-" else "e+") ++ padded

def decimalText (style : Style) (d : Decimal) : String :=
  let digits := toString d.digits
  let count := digits.length
  let top := d.exponent + count - 1
  let cs := digits.toList
  if style.smallest ≤ top && top < style.largest then
    if 0 ≤ d.exponent then
      digits ++ String.ofList (List.replicate d.exponent.toNat '0') ++
        (if style.keepPoint then ".0" else "")
    else if 0 ≤ top then
      let whole := (top + 1).toNat
      String.ofList (cs.take whole) ++ "." ++ String.ofList (cs.drop whole)
    else
      "0." ++ String.ofList (List.replicate (-top - 1).toNat '0') ++ digits
  else
    let mantissa :=
      match cs with
      | [] => "0"
      | [c] => c.toString
      | c :: rest => c.toString ++ "." ++ String.ofList rest
    mantissa ++ exponentText top

def text (style : Style) (x : Float) : String :=
  match decode? x with
  | some d =>
    let body :=
      if d.mantissa == 0 then (if style.keepPoint then "0.0" else "0")
      else decimalText style (ofExact d)
    if d.negative then "-" ++ body else body
  | none => if x.isNaN then "nan" else if isNegative x then "-inf" else "inf"

end Think.Binary64
