import Think.Number
import Think.Text.Blank
import Think.Text.Digit

/-! # Numbers from texts

A text is read as a number if, blanks around it apart, it is one as a whole. Digits of any script
count, and single underscores may stand between digits.
-/

namespace Think.Number

def isPlainBlank (c : Char) : Bool := c == ' ' || (0x9 ≤ c.toNat && c.toNat ≤ 0xd)

/-- The text in plain characters: digits and blanks of other scripts are replaced by ours. -/
def simplify (cs : List Char) : List Char :=
  if cs.all (·.toNat < 128) then cs
  else cs.map fun c =>
    if c.toNat < 128 then c
    else if Text.isBlank c then ' '
    else match Text.digitValue? c with
      | some d => Char.ofNat (d + '0'.toNat)
      | none => '?'

def isDigit (c : Char) : Bool := '0' ≤ c && c ≤ '9'

/-- The text without its underscores, if each stands between two digits. -/
def dropUnderscores? : (previous : Char) → List Char → Option (List Char)
  | p, [] => if p == '_' then none else some []
  | p, c :: rest =>
    if c == '_' then
      if isDigit p then dropUnderscores? c rest else none
    else if p == '_' && !isDigit c then none
    else (dropUnderscores? c rest).map (c :: ·)

def natOf (cs : List Char) : Nat := cs.foldl (fun n c => 10 * n + (c.toNat - '0'.toNat)) 0

/-- Splits off a sign. -/
def sign : List Char → Bool × List Char
  | '-' :: rest => (true, rest)
  | '+' :: rest => (false, rest)
  | cs => (false, cs)

def readInt (s : String) : Except Fault Int :=
  let (negative, body) := sign (Text.trimBoth isPlainBlank (simplify s.toList))
  match dropUnderscores? ' ' body with
  | none => .error .badValue
  | some digits =>
    if digits.isEmpty || !digits.all isDigit || maxDigits < digits.length then .error .badValue
    else .ok (if negative then -(natOf digits : Int) else natOf digits)

/-- An exponent with its sign; the empty text is none. -/
def exponent? : List Char → Option Int
  | [] => some 0
  | c :: rest =>
    if c == 'e' || c == 'E' then
      let (negative, digits) := sign rest
      if digits.isEmpty || !digits.all isDigit then none
      else some (if negative then -(natOf digits : Int) else natOf digits)
    else none

/-- Largest exponent that is worked out; beyond it every double is zero or infinite. -/
def exponentBound (digits : Nat) : Int := 2000 + digits

def decimal? (cs : List Char) : Option Float := do
  let whole := cs.takeWhile isDigit
  let after := cs.drop whole.length
  let (fraction, tail) := match after with
    | '.' :: more => (more.takeWhile isDigit, more.dropWhile isDigit)
    | _ => ([], after)
  if whole.isEmpty && fraction.isEmpty then none
  let e ← exponent? tail
  let digits := natOf (whole ++ fraction)
  let bound := exponentBound (whole.length + fraction.length)
  let e := max (-bound) (min bound e) - fraction.length
  return Binary64.nearest false (digits * Nat.pow 10 e.toNat) (Nat.pow 10 (-e).toNat)

def lower (c : Char) : Char := if 'A' ≤ c && c ≤ 'Z' then Char.ofNat (c.toNat + 32) else c

def readFloat (s : String) : Except Fault Float :=
  let body := Text.trimBoth isPlainBlank (simplify s.toList)
  match dropUnderscores? ' ' body with
  | none => .error .badValue
  | some plain =>
    let (negative, magnitude) := sign plain
    let word := String.ofList (magnitude.map lower)
    if word == "inf" || word == "infinity" then .ok (Binary64.signed negative Binary64.infinity)
    else if word == "nan" then .ok Binary64.notANumber
    else match decimal? magnitude with
      | some x => .ok (Binary64.signed negative x)
      | none => .error .badValue

/-- The number as an integer, a fraction being dropped. -/
def toInt : Number → Except Fault Int
  | int n => .ok n
  | float x =>
    match Binary64.truncate? x with
    | some n => .ok n
    | none => .error (if x.isNaN then .badValue else .tooLarge)
  | complex _ _ => .error .wrongKind
  | text s => readInt s

def toFloat : Number → Except Fault Float
  | int n => floatOfInt n
  | float x => .ok x
  | complex _ _ => .error .wrongKind
  | text s => readFloat s

end Think.Number
