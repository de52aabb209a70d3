import Think.Number.Text
import Think.Position

/-! # Tokens

The words of the language. A token is a lexeme together with the part of the text it stands for.
-/

namespace Think

inductive Keyword
  | varKw | andKw | orKw | notKw | ifKw | elifKw | elseKw | forKw | toKw | doKw | stepKw | whileKw
  | funcKw | thenKw | endKw | returnKw | continueKw | breakKw | importKw | thinkKw
  deriving DecidableEq, Repr, Inhabited

namespace Keyword

def text : Keyword → String
  | varKw => "var" | andKw => "and" | orKw => "or" | notKw => "not" | ifKw => "if"
  | elifKw => "elif" | elseKw => "else" | forKw => "for" | toKw => "to" | doKw => "do"
  | stepKw => "step" | whileKw => "while" | funcKw => "func" | thenKw => "then" | endKw => "end"
  | returnKw => "return" | continueKw => "continue" | breakKw => "break" | importKw => "import"
  | thinkKw => "think"

def all : List Keyword :=
  [varKw, andKw, orKw, notKw, ifKw, elifKw, elseKw, forKw, toKw, doKw, stepKw, whileKw, funcKw,
    thenKw, endKw, returnKw, continueKw, breakKw, importKw, thinkKw]

def ofText? (word : String) : Option Keyword := all.find? (·.text = word)

end Keyword

inductive Lexeme
  | int (value : Nat)
  | float (value : Float)
  | text (value : String)
  | name (value : String)
  | keyword (word : Keyword)
  | plus | minus | times | divide | power | modulo | assign
  | openParen | closeParen | openSquare | closeSquare
  | equal | unequal | less | greater | lessEqual | greaterEqual
  | comma | arrow | dot | newline | endOfText
  deriving Repr, Inhabited

namespace Lexeme

def kind : Lexeme → String
  | int _ => "INT" | float _ => "FLOAT" | text _ => "STRING" | name _ => "IDENTIFIER"
  | keyword _ => "KEYWORD" | plus => "PLUS" | minus => "MINUS" | times => "MUL" | divide => "DIV"
  | power => "POW" | modulo => "MOD" | assign => "EQ" | openParen => "LPAREN"
  | closeParen => "RPAREN" | openSquare => "LSQUARE" | closeSquare => "RSQUARE" | equal => "EE"
  | unequal => "NE" | less => "LT" | greater => "GT" | lessEqual => "LTE" | greaterEqual => "GTE"
  | comma => "COMMA" | arrow => "ARROW" | dot => "DOT" | newline => "NEWLINE" | endOfText => "EOF"

/-- What the lexeme carries, as text. -/
def value? : Lexeme → Option String
  | int n => some (toString n)
  | float x => some (Binary64.text Binary64.plain x)
  | text s => some s
  | name s => some s
  | keyword w => some w.text
  | dot => some "."
  | _ => none

/-- Whether nothing is carried, or zero or an empty text. -/
def isBlank : Lexeme → Bool
  | int n => n == 0
  | float x => x == 0.0
  | l => l.value?.all (·.isEmpty)

/-- The kind, followed by what is carried unless that is zero or empty. -/
def shown (l : Lexeme) : String :=
  if l.isBlank then l.kind else l.kind ++ ":" ++ l.value?.getD ""

/-- Whether the carried text is `var`, be it a keyword or a quoted text. -/
def isVarText : Lexeme → Bool
  | text s => s == "var"
  | name s => s == "var"
  | keyword .varKw => true
  | _ => false

end Lexeme

structure Token where
  lexeme : Lexeme
  start : Position
  stop : Position
  deriving Repr, Inhabited

namespace Token

def span (t : Token) : Span := ⟨t.start, t.stop⟩

/-- A token of one character. -/
def single (lexeme : Lexeme) (start : Position) : Token := ⟨lexeme, start, start.next⟩

end Token

end Think
