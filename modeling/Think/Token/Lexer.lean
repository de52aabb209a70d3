import Think.Token.Scanner

/-! # From text to tokens

`Source.tokens` splits a text into tokens, the last of which marks the end. Blanks and comments
separate tokens and leave no trace. A name that is assigned to without `var` gets one.
-/

namespace Think

/-- What keeps a text from being evaluated. -/
inductive Failure
  | reported (error : Diagnostic)
  | fault (cause : Fault)

namespace Scanner

/-- The lexeme of a character that is a token by itself. -/
def punctuation? : Char → Option Lexeme
  | ';' | '\n' => some .newline
  | '+' => some .plus
  | '*' => some .times
  | '/' => some .divide
  | '^' => some .power
  | '%' => some .modulo
  | '(' => some .openParen
  | ')' => some .closeParen
  | '[' => some .openSquare
  | ']' => some .closeSquare
  | ',' => some .comma
  | '.' => some .dot
  | _ => none

/-- Reads from the character `c` on: the tokens found, if any, and the scanner behind them. -/
def readFrom (s : Scanner) (c : Char) (previous? : Option Token) :
    Except Failure (List Token × Scanner) :=
  if c = ' ' ∨ c = '\t' then .ok ([], s.advance)
  else if c = '#' then .ok ([], s.comment)
  else if isDigit c then
    match s.number with
    | .ok (t, after) => .ok ([t], after)
    | .error f => .error (.fault f)
  else if isNameStart c then
    let (understood, t, after) := s.word previous?
    .ok (understood ++ [t], after)
  else if c = '"' then one (s.quoted doubleQuoted)
  else if c = '\'' then one (s.quoted singleQuoted)
  else if c = '-' then one s.minusOrArrow
  else if c = '=' then one s.equals
  else if c = '<' then one s.lessThan
  else if c = '>' then one s.greaterThan
  else if c = '!' then
    match s.notEquals with
    | (.ok t, after) => .ok ([t], after)
    | (.error d, _) => .error (.reported d)
  else
    match punctuation? c with
    | some l => .ok ([.single l s.place], s.advance)
    | none =>
      .error (.reported (.static .illegalChar ⟨s.place, s.advance.place⟩ s!"'{c}'"))
where
  one : Token × Scanner → Except Failure (List Token × Scanner)
    | (t, after) => .ok ([t], after)

/-- Reads to the end. The tokens found so far are held last first; `fuel` bounds the characters
left. -/
def readAll : (fuel : Nat) → Scanner → List Token → Except Failure (List Token)
  | 0, s, found => .ok (.single .endOfText s.place :: found).reverse
  | fuel + 1, s, found =>
    match s.rest with
    | [] => .ok (.single .endOfText s.place :: found).reverse
    | c :: _ =>
      match s.readFrom c found.head? with
      | .ok (ts, after) => readAll fuel after (ts.reverse ++ found)
      | .error e => .error e

end Scanner

/-- The tokens of a text. -/
def Source.tokens (source : Source) : Except Failure (List Token) :=
  let s := Scanner.ofSource source
  s.readAll s.rest.length []

end Think
