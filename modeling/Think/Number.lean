import Think.Fault
import Think.Number.Text

/-! # Numbers

Integers have no bound, floats are doubles, and complex numbers arise as powers. A loop over texts
binds its variable to a text that is treated as a number until an operation refuses it.
-/

namespace Think

inductive Number
  | int (value : Int)
  | float (value : Float)
  | complex (re im : Float)
  | text (value : String)
  deriving Repr, Inhabited

namespace Number

def ofBool (b : Bool) : Number := .int (if b then 1 else 0)

/-- Two numbers in a form that fits both. -/
inductive Pair
  | ints (a b : Int)
  | floats (a b : Float)
  | complexes (re im re' im' : Float)
  | texts (a b : String)

def floatOfInt (n : Int) : Except Fault Float :=
  match Binary64.ofInt? n with
  | some x => .ok x
  | none => .error .tooLarge

/-- The common form of two numbers; a text has one only with a text. -/
def pair : Number → Number → Except Fault Pair
  | int a, int b => .ok (.ints a b)
  | int a, float b => do return .floats (← floatOfInt a) b
  | float a, int b => do return .floats a (← floatOfInt b)
  | float a, float b => .ok (.floats a b)
  | complex r i, complex r' i' => .ok (.complexes r i r' i')
  | complex r i, int b => do return .complexes r i (← floatOfInt b) 0.0
  | complex r i, float b => .ok (.complexes r i b 0.0)
  | int a, complex r i => do return .complexes (← floatOfInt a) 0.0 r i
  | float a, complex r i => .ok (.complexes a 0.0 r i)
  | text a, text b => .ok (.texts a b)
  | _, _ => .error .wrongKind

/-- Longest integer that can be written out. -/
def maxDigits : Nat := 4300

/-- The least natural that is too long to be written out. -/
def digitLimit : Nat := Nat.pow 10 maxDigits

def complexText (re im : Float) : String :=
  let imaginary := Binary64.text Binary64.bare im
  if re == 0.0 && !Binary64.isNegative re then imaginary ++ "j"
  else
    let sign := if imaginary.startsWith "-" then "" else "+"
    "(" ++ Binary64.text Binary64.bare re ++ sign ++ imaginary ++ "j)"

/-- The number written out. -/
def written : Number → Except Fault String
  | int n => if digitLimit ≤ n.natAbs then .error .badValue else .ok (toString n)
  | float x => .ok (Binary64.text Binary64.plain x)
  | complex re im => .ok (complexText re im)
  | text s => .ok s

/-- Whether the number differs from zero; a text always does. -/
def isTrue : Number → Bool
  | int n => n != 0
  | float x => x != 0.0
  | complex re im => re != 0.0 || im != 0.0
  | text _ => true

/-- Whether the number counts as something: zero and the empty text do not. -/
def isSomething : Number → Bool
  | text s => !s.isEmpty
  | n => n.isTrue

end Number

end Think
