import Think.Number.Power
import Think.Number.Template

/-! # Arithmetic

The operations on numbers. An operation that its operands do not admit is a fault. Integers and
floats are compared exactly, without rounding the integer.
-/

namespace Think.Number

def add (a b : Number) : Except Fault Number := do
  match ← pair a b with
  | .ints x y => return .int (x + y)
  | .floats x y => return .float (x + y)
  | .complexes r i r' i' => return .complex (r + r') (i + i')
  | .texts x y => return .text (x ++ y)

def sub (a b : Number) : Except Fault Number := do
  match ← pair a b with
  | .ints x y => return .int (x - y)
  | .floats x y => return .float (x - y)
  | .complexes r i r' i' => return .complex (r - r') (i - i')
  | .texts _ _ => throw .wrongKind

/-- Sizes are counted in a word of 64 bits with a sign. -/
def sizeLimit : Nat := Nat.pow 2 63

/-- Most characters that a text of these characters may have: they take up one, two or four places
each, by the widest of them. -/
def longestText (s : String) : Nat :=
  let widest := (s.toList.map (·.toNat)).foldl max 0
  if widest < 128 then sizeLimit - 1 - 48 - 1
  else (sizeLimit - 1 - 72) / (if widest < 256 then 1 else if widest < 65536 then 2 else 4) - 1

/-- A text repeated; not at all for a count below one. -/
def repeatText (s : String) (count : Int) : Except Fault String :=
  if count < -sizeLimit || sizeLimit ≤ count then .error .tooLarge
  else if count ≤ 0 || s.isEmpty then .ok ""
  else if sizeLimit ≤ s.length * count.toNat then .error .tooLarge
  else if longestText s < s.length * count.toNat then .error .outOfMemory
  else .ok (String.join (List.replicate count.toNat s))

def mul (a b : Number) : Except Fault Number :=
  match a, b with
  | text s, int n => .text <$> repeatText s n
  | int n, text s => .text <$> repeatText s n
  | _, _ => do
    match ← pair a b with
    | .ints x y => return .int (x * y)
    | .floats x y => return .float (x * y)
    | .complexes r i r' i' => let (x, y) := product r i r' i'; return .complex x y
    | .texts _ _ => throw .wrongKind

/-- The quotient; that of two integers is the nearest float. -/
def div (a b : Number) : Except Fault Number := do
  match ← pair a b with
  | .ints x y =>
    if y = 0 then throw .divisionByZero
    match Binary64.ofQuotient? x y with
    | some q => return .float q
    | none => throw .tooLarge
  | .floats x y => if y == 0.0 then throw .divisionByZero else return .float (x / y)
  | .complexes r i r' i' => let (x, y) ← quotient r i r' i'; return .complex x y
  | .texts _ _ => throw .wrongKind

/-- The remainder with the sign of the divisor. -/
def floatMod (x y : Float) : Float :=
  let r := Binary64.remainder x y
  if r == 0.0 then Binary64.signed (Binary64.isNegative y) 0.0
  else if (y < 0.0) != (r < 0.0) then r + y
  else r

/-- The remainder, with the sign of the divisor. A text is a template for the second operand. -/
def mod (a b : Number) : Except Fault Number := do
  match a with
  | text t => return .text (← Template.fill t b)
  | _ =>
    match ← pair a b with
    | .ints x y => if y = 0 then throw .divisionByZero else return .int (x.fmod y)
    | .floats x y => if y == 0.0 then throw .divisionByZero else return .float (floatMod x y)
    | _ => throw .wrongKind

/-- The order of an integer and a float; none if the float is not a number. -/
def orderIntFloat? (n : Int) (x : Float) : Option Ordering :=
  match Binary64.decode? x with
  | some d => some (Binary64.compareInt n d)
  | none => if x.isNaN then none else some (if x > 0.0 then .lt else .gt)

def orderFloats? (x y : Float) : Option Ordering :=
  if x < y then some .lt else if x > y then some .gt else if x == y then some .eq else none

/-- The order of two numbers, if they are comparable at all. -/
def order (a b : Number) : Except Fault (Option Ordering) :=
  match a, b with
  | int x, int y => .ok (some (compare x y))
  | int x, float y => .ok (orderIntFloat? x y)
  | float x, int y => .ok ((orderIntFloat? y x).map Ordering.swap)
  | float x, float y => .ok (orderFloats? x y)
  | text x, text y => .ok (some (if x < y then .lt else if x = y then .eq else .gt))
  | _, _ => .error .wrongKind

def isEq : Number → Number → Bool
  | int x, int y => x == y
  | int x, float y => orderIntFloat? x y == some .eq
  | float x, int y => orderIntFloat? y x == some .eq
  | float x, float y => x == y
  | complex r i, complex r' i' => r == r' && i == i'
  | complex r i, int n => i == 0.0 && orderIntFloat? n r == some .eq
  | int n, complex r i => i == 0.0 && orderIntFloat? n r == some .eq
  | complex r i, float x => r == x && i == 0.0
  | float x, complex r i => r == x && i == 0.0
  | text x, text y => x == y
  | _, _ => false

def isZero (a : Number) : Bool := isEq a (.int 0)

def lt (a b : Number) : Except Fault Bool := do return (← order a b) == some .lt

def gt (a b : Number) : Except Fault Bool := do return (← order a b) == some .gt

def le (a b : Number) : Except Fault Bool := do
  let o ← order a b
  return o == some .lt || o == some .eq

def ge (a b : Number) : Except Fault Bool := do
  let o ← order a b
  return o == some .gt || o == some .eq

/-- The second number if the first counts, else the first; as an integer. -/
def and (a b : Number) : Except Fault Number :=
  .int <$> toInt (if a.isSomething then b else a)

/-- The first number if it counts, else the second; as an integer. -/
def or (a b : Number) : Except Fault Number :=
  .int <$> toInt (if a.isSomething then a else b)

/-- The name of the kind: a float without a fraction is an integer here. -/
def kindName (a : Number) : Except Fault String := do
  let r ← mod a (.int 1)
  return if isZero r then "<int>" else "<float>"

end Think.Number
