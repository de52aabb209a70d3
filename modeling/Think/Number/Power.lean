import Think.Number

/-! # Powers

An integer to a natural power is an integer, and a negative number to a fractional power is
complex. All other powers are floats.
-/

namespace Think.Number

def isOdd (x : Float) : Bool := Binary64.remainder x.abs 2.0 == 1.0

def product (re im re' im' : Float) : Float × Float :=
  (re * re' - im * im', re * im' + im * re')

/-- The quotient, worked out from the larger part of the divisor. -/
def quotient (re im re' im' : Float) : Except Fault (Float × Float) :=
  if re'.abs >= im'.abs then
    if re'.abs == 0.0 then .error .divisionByZero
    else
      let ratio := im' / re'
      let den := re' + im' * ratio
      .ok ((re + im * ratio) / den, (im - re * ratio) / den)
  else if im'.abs >= re'.abs then
    let ratio := re' / im'
    let den := re' * ratio + im'
    .ok ((re * ratio + im) / den, (im * ratio - re) / den)
  else .ok (Binary64.notANumber, Binary64.notANumber)

/-- A natural power by repeated squaring, lowest bit of the exponent first. -/
def naturalPower : (bits exponent : Nat) → (acc base : Float × Float) → Float × Float
  | 0, _, acc, _ => acc
  | k + 1, n, acc, base =>
    if n = 0 then acc
    else
      let acc := if n % 2 = 1 then product acc.1 acc.2 base.1 base.2 else acc
      naturalPower k (n / 2) acc (product base.1 base.2 base.1 base.2)

def polarPower (re im re' im' : Float) : Except Fault (Float × Float) :=
  if re' == 0.0 && im' == 0.0 then .ok (1.0, 0.0)
  else if re == 0.0 && im == 0.0 then
    if im' != 0.0 || re' < 0.0 then .error .divisionByZero else .ok (0.0, 0.0)
  else
    let modulus := Binary64.hypotenuse re im
    let angle := Float.atan2 im re
    let length := Float.pow modulus re'
    let phase := angle * re'
    let (length, phase) :=
      if im' != 0.0 then
        (length * Float.exp (-angle * im'), phase + im' * Float.log modulus)
      else (length, phase)
    .ok (length * Float.cos phase, length * Float.sin phase)

def complexPower (re im re' im' : Float) : Except Fault Number := do
  let (r, i) ←
    if im' == 0.0 && re' == re'.floor && re'.abs <= 100.0 then
      let n := (Binary64.truncate? re'.abs).getD 0 |>.toNat
      let (r, i) := naturalPower 8 n (1.0, 0.0) (re, im)
      if re' > 0.0 then pure (r, i) else quotient 1.0 0.0 r i
    else polarPower re im re' im'
  if r.isInf || i.isInf then throw .tooLarge
  return .complex r i

def floatPower (x y : Float) : Except Fault Number :=
  if y == 0.0 then .ok (.float 1.0)
  else if x.isNaN then .ok (.float x)
  else if y.isNaN then .ok (.float (if x == 1.0 then 1.0 else y))
  else if y.isInf then
    if x.abs == 1.0 then .ok (.float 1.0)
    else if (y > 0.0) == (x.abs > 1.0) then .ok (.float Binary64.infinity)
    else .ok (.float 0.0)
  else if x.isInf then
    if y > 0.0 then .ok (.float (if isOdd y then x else Binary64.infinity))
    else .ok (.float (if isOdd y then Binary64.signed (x < 0.0) 0.0 else 0.0))
  else if x == 0.0 then
    if y < 0.0 then .error .divisionByZero
    else .ok (.float (if isOdd y then x else 0.0))
  else if x < 0.0 && y != y.floor then complexPower x 0.0 y 0.0
  else
    let negative := x < 0.0 && isOdd y
    if x.abs == 1.0 then .ok (.float (Binary64.signed negative 1.0))
    else
      let r := Float.pow x.abs y
      if r.isInf then .error .tooLarge else .ok (.float (Binary64.signed negative r))

def pow (a b : Number) : Except Fault Number :=
  match a, b with
  | int x, int y =>
    if 0 ≤ y then .ok (.int (Int.pow x y.toNat))
    else do floatPower (← floatOfInt x) (← floatOfInt y)
  | _, _ => do
    match ← pair a b with
    | .floats x y => floatPower x y
    | .complexes r i r' i' => complexPower r i r' i'
    | _ => throw .wrongKind

end Think.Number
