import Think.Diagnostic
import Think.Fault
import Think.Token

/-! # Scanning

A scanner stands at a place in a text. Each reading function takes one word from that place and
returns it with the scanner behind it. Past the end a step still moves the place, so that a text
that is never closed ends one place beyond the end.
-/

namespace Think

structure Scanner where
  /-- The place reached. -/
  place : Position
  /-- What is left to read from there. -/
  rest : List Char
  deriving Repr

namespace Scanner

def ofSource (source : Source) : Scanner := ⟨Position.origin source, source.text.toList⟩

def current? (s : Scanner) : Option Char := s.rest.head?

def advance (s : Scanner) : Scanner :=
  match s.rest with
  | [] => { s with place := s.place.next }
  | c :: rest => ⟨s.place.step c, rest⟩

/-- Steps over the given characters. -/
def skip (s : Scanner) (cs : List Char) : Scanner :=
  ⟨cs.foldl Position.step s.place, s.rest.drop cs.length⟩

/-- Reads on while `p` holds. -/
def readWhile (p : Char → Bool) (s : Scanner) : List Char × Scanner :=
  let taken := s.rest.takeWhile p
  (taken, s.skip taken)

def isDigit (c : Char) : Bool := '0' ≤ c && c ≤ '9'

def isLetter (c : Char) : Bool := ('a' ≤ c && c ≤ 'z') || ('A' ≤ c && c ≤ 'Z')

def isNameStart (c : Char) : Bool := isLetter c || c == '_'

def isNameChar (c : Char) : Bool := isLetter c || isDigit c || c == '_'

/-- The value of a run of digits. -/
def natOf (cs : List Char) : Nat := cs.foldl (fun n c => 10 * n + (c.toNat - '0'.toNat)) 0

/-- Longest run of digits that is read as an integer. -/
def maxDigits : Nat := 4300

/-- The text of a number: digits with at most one point among them. -/
def numeral (cs : List Char) : List Char :=
  let whole := cs.takeWhile isDigit
  match cs.drop whole.length with
  | '.' :: after => whole ++ '.' :: after.takeWhile isDigit
  | _ => whole

/-- The double nearest to a decimal of `whole` and `fraction` digits. -/
def decimal (whole fraction : List Char) : Float :=
  Binary64.nearest false (natOf (whole ++ fraction)) (Nat.pow 10 fraction.length)

/-- The value of a numeral; a lone point and an overlong integer have none. -/
def numeralValue (cs : List Char) : Except Fault Lexeme :=
  let whole := cs.takeWhile isDigit
  match cs.drop whole.length with
  | [] =>
    if whole.isEmpty || maxDigits < whole.length then .error .badValue
    else .ok (.int (natOf whole))
  | _ :: fraction =>
    if whole.isEmpty && fraction.isEmpty then .error .badValue
    else .ok (.float (decimal whole fraction))

def number (s : Scanner) : Except Fault (Token × Scanner) := do
  let cs := numeral s.rest
  let after := s.skip cs
  let lexeme ← numeralValue cs
  return (⟨lexeme, s.place, after.place⟩, after)

/-- The characters between single quotes, and how far they reach. A backslash is dropped and does
not protect what follows it. -/
def singleQuoted : List Char → List Char × List Char
  | [] => ([], [])
  | c :: rest =>
    if c = '\'' then ([], [])
    else
      let (value, raw) := singleQuoted rest
      (if c = '\\' then value else c :: value, c :: raw)

/-- What a character stands for behind a backslash. -/
def unescape : Char → Char
  | 'n' => '\n'
  | 't' => '\t'
  | c => c

/-- The characters between double quotes, and how far they reach. -/
def doubleQuoted : List Char → List Char × List Char
  | [] => ([], [])
  | ['\\'] => ([], ['\\'])
  | '\\' :: c :: rest =>
    let (value, raw) := doubleQuoted rest
    (unescape c :: value, '\\' :: c :: raw)
  | c :: rest =>
    if c = '"' then ([], [])
    else
      let (value, raw) := doubleQuoted rest
      (c :: value, c :: raw)

/-- A quoted text whose inside is read by `inside`. -/
def quoted (inside : List Char → List Char × List Char) (s : Scanner) : Token × Scanner :=
  let opened := s.advance
  let (value, raw) := inside opened.rest
  let closed := (opened.skip raw).advance
  (⟨.text (String.ofList value), s.place, closed.place⟩, closed)

/-- The first character that is not a space; the empty text at the end and none beyond it. -/
def peekPastSpaces? (s : Scanner) : Option (Option Char) :=
  if s.rest.isEmpty && s.place.source.text.length < s.place.idx then none
  else some (s.rest.dropWhile (· == ' ')).head?

/-- The character `steps` places on; none more than one place past the end. -/
def peekAhead? (s : Scanner) (steps : Nat) : Option (Option Char) :=
  let size := s.place.source.text.length
  if steps = 0 || s.place.idx + steps ≤ size + 1 then some (s.rest.drop steps).head? else none

/-- The character `steps` places back; none more than one place before the start. -/
def peekBack? (s : Scanner) (steps : Nat) : Option (Option Char) :=
  let cs := s.place.source.text.toList
  if steps = 0 then some s.current?
  else if steps ≤ s.place.idx then some (cs.drop (s.place.idx - steps)).head?
  else if steps = s.place.idx + 1 then some none
  else none

/-- Whether a name that ends here, after the token `previous?`, is being assigned without a `var`
in front: an `=` follows that does not start `==`, or `+=` does. -/
def declares (after : Scanner) (previous? : Option Token) : Bool :=
  let second := after.peekAhead? 2
  let compound := after.peekAhead? 1 == some (some '+') && second == some (some '=')
  let explicit := match previous? with
    | some t => t.lexeme.isVarText
    | none => false
  (after.peekPastSpaces? == some (some '=') || compound) && !explicit &&
    (compound || (second.isSome && second != some (some '=')))

/-- A name or keyword, behind the `var` that is understood before it, if any. -/
def word (s : Scanner) (previous? : Option Token) : List Token × Token × Scanner :=
  let (cs, after) := s.readWhile isNameChar
  let span : Span := ⟨s.place, after.place⟩
  let text := String.ofList cs
  let understood : List Token :=
    if declares after previous? then [⟨.keyword .varKw, span.start, span.stop⟩] else []
  let lexeme := match Keyword.ofText? text with
    | some k => .keyword k
    | none => .name text
  (understood, ⟨lexeme, span.start, span.stop⟩, after)

/-- One character, read as `long` if `second` follows and as `short` otherwise. -/
def oneOrTwo (short : Lexeme) (second : Char) (long : Lexeme) (s : Scanner) : Token × Scanner :=
  let one := s.advance
  if one.current? = some second then (⟨long, s.place, one.advance.place⟩, one.advance)
  else (⟨short, s.place, one.place⟩, one)

def minusOrArrow : Scanner → Token × Scanner := oneOrTwo .minus '>' .arrow

def equals : Scanner → Token × Scanner := oneOrTwo .assign '=' .equal

def lessThan : Scanner → Token × Scanner := oneOrTwo .less '=' .lessEqual

def greaterThan : Scanner → Token × Scanner := oneOrTwo .greater '=' .greaterEqual

def plusSign (s : Scanner) : Token × Scanner :=
  (⟨.plus, s.place, s.advance.place⟩, s.advance)

/-- An exclamation mark, which must be followed by `=`. -/
def notEquals (s : Scanner) : Except Diagnostic Token × Scanner :=
  let one := s.advance
  let two := one.advance
  if one.current? = some '=' then (.ok ⟨.unequal, s.place, two.place⟩, two)
  else (.error (.static .expectedChar ⟨s.place, two.place⟩ "'=' (after '!')"), two)

/-- Steps over a comment, up to the line break. -/
def comment (s : Scanner) : Scanner := (s.advance.readWhile (· ≠ '\n')).2

end Scanner

end Think
