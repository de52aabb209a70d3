import Think.Datum
import Think.Number.Read

/-! # Reading structured data

Each reader takes what is left of the text and gives a value with what is left behind it. A text
that cannot be read is reported with the place where reading stopped.
-/

namespace Think.Datum

/-- Why a text could not be read, with what was left of it then. -/
structure Unreadable where
  reason : String
  left : List Char

namespace Unreadable

/-- The wording, with the place as line, column and offset. -/
def message (e : Unreadable) (whole : List Char) : String :=
  let offset := whole.length - e.left.length
  let before := whole.take offset
  let line := before.count '\n' + 1
  let column := (before.reverse.takeWhile (· ≠ '\n')).length + 1
  s!"{e.reason}: line {line} column {column} (char {offset})"

end Unreadable

namespace Reader

def isSpace (c : Char) : Bool := c = ' ' || c = '\t' || c = '\n' || c = '\r'

def skip (cs : List Char) : List Char := cs.dropWhile isSpace

def isDigit (c : Char) : Bool := '0' ≤ c && c ≤ '9'

def hexValue? (c : Char) : Option Nat :=
  if isDigit c then some (c.toNat - '0'.toNat)
  else if 'a' ≤ c && c ≤ 'f' then some (c.toNat - 'a'.toNat + 10)
  else if 'A' ≤ c && c ≤ 'F' then some (c.toNat - 'A'.toNat + 10)
  else none

/-- The value of four hexadecimal digits. -/
def hex4? : List Char → Option (Nat × List Char)
  | a :: b :: c :: d :: rest => do
    let a ← hexValue? a
    let b ← hexValue? b
    let c ← hexValue? c
    let d ← hexValue? d
    return (((a * 16 + b) * 16 + c) * 16 + d, rest)
  | _ => none

def simpleEscape? : Char → Option Char
  | '"' => some '"'
  | '\\' => some '\\'
  | '/' => some '/'
  | 'b' => some (Char.ofNat 8)
  | 'f' => some (Char.ofNat 12)
  | 'n' => some '\n'
  | 'r' => some '\r'
  | 't' => some '\t'
  | _ => none

/-- A character given by number: one group of digits, or two that make up a surrogate pair. -/
def numbered? (cs : List Char) : Option (Char × List Char) := do
  let (hi, rest) ← hex4? cs
  if 0xd800 ≤ hi && hi < 0xdc00 then
    match rest with
    | '\\' :: 'u' :: more =>
      match hex4? more with
      | some (lo, after) =>
        if 0xdc00 ≤ lo && lo < 0xe000 then
          return (Char.ofNat (0x10000 + (hi - 0xd800) * 0x400 + (lo - 0xdc00)), after)
        else return (Char.ofNat 0xfffd, rest)
      | none => return (Char.ofNat 0xfffd, rest)
    | _ => return (Char.ofNat 0xfffd, rest)
  else if 0xdc00 ≤ hi && hi < 0xe000 then return (Char.ofNat 0xfffd, rest)
  else return (Char.ofNat hi, rest)

/-- The rest of a text behind its opening quote. `start` is what was left at that quote, and the
characters read so far are held last first. -/
def characters (start : List Char) : (fuel : Nat) → (done : List Char) → List Char →
    Except Unreadable (String × List Char)
  | 0, _, _ => .error ⟨"Unterminated string starting at", start⟩
  | _, _, [] => .error ⟨"Unterminated string starting at", start⟩
  | _, done, '"' :: rest => .ok (String.ofList done.reverse, rest)
  | k + 1, done, '\\' :: 'u' :: rest =>
    match numbered? rest with
    | some (c, after) => characters start k (c :: done) after
    | none => .error ⟨"Invalid \\uXXXX escape", 'u' :: rest⟩
  | _, _, ['\\'] => .error ⟨"Unterminated string starting at", start⟩
  | k + 1, done, '\\' :: e :: rest =>
    match simpleEscape? e with
    | some c => characters start k (c :: done) rest
    | none => .error ⟨"Invalid \\escape", '\\' :: e :: rest⟩
  | k + 1, done, c :: rest =>
    if c.toNat < 0x20 then .error ⟨"Invalid control character at", c :: rest⟩
    else characters start k (c :: done) rest

/-- Digits of a fraction with their point, if both are there. -/
def fraction : List Char → List Char × List Char
  | '.' :: rest =>
    if (rest.takeWhile isDigit).isEmpty then ([], '.' :: rest)
    else ('.' :: rest.takeWhile isDigit, rest.dropWhile isDigit)
  | cs => ([], cs)

/-- An exponent with its mark and sign, if there are digits. -/
def exponent (cs : List Char) : List Char × List Char :=
  match cs with
  | e :: rest =>
    if e = 'e' || e = 'E' then
      let (sign, body) := match rest with
        | '+' :: more => (['+'], more)
        | '-' :: more => (['-'], more)
        | _ => ([], rest)
      if (body.takeWhile isDigit).isEmpty then ([], cs)
      else (e :: sign ++ body.takeWhile isDigit, body.dropWhile isDigit)
    else ([], cs)
  | [] => ([], [])

/-- The integer part of a number: a zero, or digits that do not start with one. -/
def whole : List Char → List Char × List Char
  | '0' :: rest => (['0'], rest)
  | cs => (cs.takeWhile isDigit, cs.dropWhile isDigit)

def numeral? (cs : List Char) : Option (Number × List Char) :=
  let (sign, body) := match cs with
    | '-' :: rest => (['-'], rest)
    | _ => ([], cs)
  let (digits, rest) := whole body
  if digits.isEmpty then none
  else
    let (frac, rest) := fraction rest
    let (exp, rest) := exponent rest
    let written := String.ofList (sign ++ digits ++ frac ++ exp)
    if frac.isEmpty && exp.isEmpty then
      some (.int ((Number.readInt written).toOption.getD 0), rest)
    else some (.float ((Number.readFloat written).toOption.getD 0.0), rest)

/-- The words that stand for a value. -/
def words : List (String × Datum) :=
  [("null", .null), ("true", .flag true), ("false", .flag false),
    ("NaN", .float Binary64.notANumber), ("Infinity", .float Binary64.infinity),
    ("-Infinity", .float (-Binary64.infinity))]

/-- A value that has no parts and is no text. -/
def simple (cs : List Char) : Except Unreadable (Datum × List Char) :=
  match words.find? fun (w, _) => w.toList.isPrefixOf cs with
  | some (w, v) => .ok (v, cs.drop w.length)
  | none =>
    match numeral? cs with
    | some (n, rest) => .ok (.number n, rest)
    | none => .error ⟨"Expecting value", cs⟩

mutual

def value : (fuel : Nat) → List Char → Except Unreadable (Datum × List Char)
  | 0, cs => .error ⟨"Expecting value", cs⟩
  | _, '"' :: rest => do
    let (s, rest) ← characters ('"' :: rest) (rest.length + 1) [] rest
    return (.text s, rest)
  | k + 1, '[' :: rest =>
    match skip rest with
    | ']' :: rest => .ok (.list [], rest)
    | rest => elements k [] rest
  | k + 1, '\x7b' :: rest =>
    match skip rest with
    | '\x7d' :: rest => .ok (.fields [], rest)
    | rest => members k [] rest
  | _, cs => simple cs

/-- The elements of a list from one on, those before being held last first. -/
def elements : (fuel : Nat) → (done : List Datum) → List Char →
    Except Unreadable (Datum × List Char)
  | 0, _, cs => .error ⟨"Expecting value", cs⟩
  | k + 1, done, cs => do
    let (v, rest) ← value k cs
    match skip rest with
    | ']' :: rest => return (.list (v :: done).reverse, rest)
    | ',' :: rest => elements k (v :: done) (skip rest)
    | rest => .error ⟨"Expecting ',' delimiter", rest⟩

/-- The fields from one on. -/
def members : (fuel : Nat) → (done : List (String × Datum)) → List Char →
    Except Unreadable (Datum × List Char)
  | 0, _, cs => .error ⟨"Expecting value", cs⟩
  | k + 1, done, '"' :: rest => do
    let (name, rest) ← characters ('"' :: rest) (rest.length + 1) [] rest
    match skip rest with
    | ':' :: rest =>
      let (v, rest) ← value k (skip rest)
      let done := setField name v done
      match skip rest with
      | '\x7d' :: rest => return (.fields done, rest)
      | ',' :: rest => members k done (skip rest)
      | rest => .error ⟨"Expecting ',' delimiter", rest⟩
    | rest => .error ⟨"Expecting ':' delimiter", rest⟩
  | _ + 1, _, cs => .error ⟨"Expecting property name enclosed in double quotes", cs⟩

end

end Reader

/-- The datum that a whole text holds. Every value takes at least one character, so there are no
more values than characters. -/
def read (s : String) : Except Unreadable Datum := do
  let cs := s.toList
  let (v, rest) ← Reader.value (2 * cs.length + 1) (Reader.skip cs)
  match Reader.skip rest with
  | [] => return v
  | rest => .error ⟨"Extra data", rest⟩

end Think.Datum
