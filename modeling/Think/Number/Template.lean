import Think.Number.Fixed
import Think.Number.Read
import Think.Text.Quoted

/-! # Templates

A template is a text with one mark, in whose place a number or a text is put. A mark is a percent
sign with flags, a width and a precision, all of which may be left out, and a letter that tells how
the value is written. A percent sign that is written twice stands for itself.
-/

namespace Think.Template

structure Mark where
  /-- Blanks are filled in behind the value and not in front of it. -/
  toLeft : Bool
  /-- A number without a sign gets a plus or a blank. -/
  plus : Bool
  blank : Bool
  /-- The base of an integer and the point of a float are always written. -/
  full : Bool
  /-- A number is filled up with zeros. -/
  zeros : Bool
  width : Nat
  precision : Option Nat
  letter : Char

def flags : Mark → List Char → Mark × List Char
  | m, '-' :: rest => flags { m with toLeft := true } rest
  | m, '+' :: rest => flags { m with plus := true } rest
  | m, ' ' :: rest => flags { m with blank := true } rest
  | m, '#' :: rest => flags { m with full := true } rest
  | m, '0' :: rest => flags { m with zeros := true } rest
  | m, rest => (m, rest)

/-- The value itself, where a star stands for a width or a precision. -/
def star (value : Number) (used : Bool) (limit : Int) : Except Fault Int :=
  match used, value with
  | false, .int n => if -limit ≤ n && n < limit then .ok n else .error .tooLarge
  | _, _ => .error .wrongKind

/-- The number that the characters start with, below a limit. -/
def count (limit : Nat) (cs : List Char) : Except Fault (Nat × List Char) :=
  let digits := cs.takeWhile Number.isDigit
  let n := Number.natOf digits
  if n < limit then .ok (n, cs.drop digits.length) else .error .badValue

def width (value : Number) (used : Bool) (m : Mark) :
    List Char → Except Fault (Mark × Bool × List Char)
  | '*' :: rest => do
    let n ← star value used (Int.pow 2 63)
    return ({ m with width := n.natAbs, toLeft := m.toLeft || n < 0 }, true, rest)
  | cs => do
    let (n, rest) ← count (Nat.pow 2 63) cs
    return ({ m with width := n }, used, rest)

def precision (value : Number) (used : Bool) (m : Mark) :
    List Char → Except Fault (Mark × Bool × List Char)
  | '.' :: '*' :: rest => do
    let n ← star value used (Int.pow 2 31)
    return ({ m with precision := some n.toNat }, true, rest)
  | '.' :: cs => do
    let (n, rest) ← count (Nat.pow 2 31) cs
    return ({ m with precision := some n }, used, rest)
  | cs => .ok (m, used, cs)

/-- A size in front of the letter says nothing. -/
def letter : List Char → Except Fault (Char × List Char)
  | [] => .error .badValue
  | c :: rest =>
    if c = 'h' || c = 'l' || c = 'L' then
      match rest with
      | [] => .error .badValue
      | d :: rest => .ok (d, rest)
    else .ok (c, rest)

/-- Reads what follows a percent sign. A name in brackets has no value here. -/
def read (value : Number) (used : Bool) (cs : List Char) :
    Except Fault (Mark × Bool × List Char) := do
  if cs.head? = some '(' then throw .wrongKind
  let (m, cs) := flags ⟨false, false, false, false, false, 0, none, ' '⟩ cs
  let (m, used, cs) ← width value used m cs
  let (m, used, cs) ← precision value used m cs
  let (c, rest) ← letter cs
  return ({ m with letter := c }, used, rest)

def zeroes (n : Nat) : String := String.ofList (List.replicate n '0')

/-- A value filled up to the width: a number with its sign and what tells its base. -/
def padded (m : Mark) (isNumber : Bool) (sign base body : String) : String :=
  let gap := m.width - (sign.length + base.length + body.length)
  let blanks := String.ofList (List.replicate gap ' ')
  if m.toLeft then sign ++ base ++ body ++ blanks
  else if isNumber && m.zeros then sign ++ base ++ zeroes gap ++ body
  else blanks ++ sign ++ base ++ body

def signText (m : Mark) (negative : Bool) : String :=
  if negative then "-" else if m.plus then "+" else if m.blank then " " else ""

def ofText (m : Mark) (t : String) : String :=
  padded m false "" "" (match m.precision with
    | some p => String.ofList (t.toList.take p)
    | none => t)

def whole : Number → Except Fault Int
  | .int n => .ok n
  | .float x => (Number.float x).toInt
  | _ => .error .wrongKind

def ofInteger (m : Mark) (base : String) (n : Int) (digits : String) : String :=
  padded m true (signText m (n < 0)) (if m.full then base else "")
    (zeroes (m.precision.getD 0 - digits.length) ++ digits)

/-- The digits of an integer in base eight or sixteen. -/
def inBase (base : Nat) : Number → Except Fault (Int × String)
  | .int n => .ok (n, String.ofList (Nat.toDigits base n.natAbs))
  | _ => .error .wrongKind

/-- The magnitude rounded to so many digits, and the exponent of the first of them. -/
def significant (digits : Nat) (d : Binary64.Exact) : List Char × Int :=
  if d.mantissa = 0 then (List.replicate digits '0', 0)
  else
    let num := d.mantissa * Nat.pow 2 d.exponent.toNat
    let den := Nat.pow 2 (-d.exponent).toNat
    let top := Shortest.leading num den
    let places := (digits : Int) - 1 - top
    let n := Binary64.roundDiv (num * Nat.pow 10 places.toNat) (den * Nat.pow 10 (-places).toNat)
    if n = Nat.pow 10 digits then (Nat.toDigits 10 (n / 10), top + 1) else (Nat.toDigits 10 n, top)

/-- Digits with a point behind the first `places` of them, which may be more than there are. -/
def pointed (full : Bool) (places : Nat) (digits : List Char) : String :=
  let fraction := digits.drop places
  String.ofList (digits.take places) ++ (if fraction.isEmpty && !full then "" else ".") ++
    String.ofList fraction

/-- The digits without the zeros at the end of the fraction. -/
def dropZeros (places : Nat) (digits : List Char) : List Char :=
  digits.take places ++ ((digits.drop places).reverse.dropWhile (· = '0')).reverse

def exponential (m : Mark) (digits : List Char) (top : Int) : String :=
  pointed m.full 1 digits ++ Binary64.exponentText top

/-- The shorter of the two forms, to so many digits. -/
def general (m : Mark) (count : Nat) (d : Binary64.Exact) : String :=
  let (digits, top) := significant count d
  let trimmed places digits := if m.full then digits else dropZeros places digits
  if -4 ≤ top && top < count then
    let places := (top + 1).toNat
    let digits := List.replicate (-top).toNat '0' ++ digits
    pointed m.full (max places 1) (trimmed (max places 1) digits)
  else exponential m (trimmed 1 digits) top

def magnitude (m : Mark) (d : Binary64.Exact) : String :=
  let p := m.precision.getD 6
  match m.letter.toLower with
  | 'e' =>
    let (digits, top) := significant (p + 1) d
    exponential m digits top
  | 'f' =>
    let digits := Nat.toDigits 10 (d.units p)
    let digits := List.replicate (p + 1 - digits.length) '0' ++ digits
    pointed m.full (digits.length - p) digits
  | _ => general m (max p 1) d

def ofFloat (m : Mark) (x : Float) : String :=
  let body := match Binary64.decode? x with
    | some d => magnitude m d
    | none => if x.isNaN then "nan" else "inf"
  padded m true (signText m (Binary64.isNegative x && !x.isNaN)) ""
    (if m.letter.isUpper then body.toUpper else body)

def real : Number → Except Fault Float
  | .int n => Number.floatOfInt n
  | .float x => .ok x
  | _ => .error .wrongKind

def character : Number → Except Fault Char
  | .int n => if 0 ≤ n && n < 0x110000 then .ok (Char.ofNat n.toNat) else .error .tooLarge
  | .text t =>
    match t.toList with
    | [c] => .ok c
    | _ => .error .wrongKind
  | _ => .error .wrongKind

/-- The value written as it would be in a program. -/
def literal : Number → Except Fault String
  | .text t => .ok (Text.quoted t)
  | n => n.written

/-- The value in the place of its mark. -/
def put (m : Mark) (value : Number) : Except Fault String :=
  match m.letter with
  | 's' => ofText m <$> value.written
  | 'r' => ofText m <$> literal value
  | 'a' => ofText m <$> Text.inAscii <$> literal value
  | 'c' => do return padded m false "" "" (← character value).toString
  | 'd' | 'i' | 'u' => do
    let n ← whole value
    return ofInteger m "" n (← (Number.int n.natAbs).written)
  | 'o' => do
    let (n, digits) ← inBase 8 value
    return ofInteger m "0o" n digits
  | 'x' => do
    let (n, digits) ← inBase 16 value
    return ofInteger m "0x" n digits
  | 'X' => do
    let (n, digits) ← inBase 16 value
    return ofInteger m "0X" n digits.toUpper
  | 'e' | 'E' | 'f' | 'F' | 'g' | 'G' => ofFloat m <$> real value
  | _ => .error .badValue

/-- Fills in a template from some character on. The next `skip` characters belong to a mark that was
read. The value has to be used exactly once. -/
def fillFrom (value : Number) : (used : Bool) → (skip : Nat) → List Char → Except Fault String
  | used, _, [] => if used then .ok "" else .error .wrongKind
  | used, skip + 1, _ :: rest => fillFrom value used skip rest
  | used, 0, c :: rest =>
    if c ≠ '%' then do return c.toString ++ (← fillFrom value used 0 rest)
    else if rest.head? = some '%' then do return "%" ++ (← fillFrom value used 1 rest)
    else do
      let (m, taken, behind) ← read value used rest
      if taken then throw .wrongKind
      let shown ← put m value
      return shown ++ (← fillFrom value true (rest.length - behind.length) rest)

def fill (template : String) (value : Number) : Except Fault String :=
  fillFrom value false 0 template.toList

end Think.Template
