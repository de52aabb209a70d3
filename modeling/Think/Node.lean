import Think.Token

/-! # Syntax trees

A program is a list node of statements. Each node carries the part of the text it is reported
with, which need not be all of the text it was read from.
-/

namespace Think

inductive BinaryOp
  | add | sub | mul | div | mod | pow | dot | eq | ne | lt | gt | le | ge | and | or
  deriving DecidableEq, Repr, Inhabited

def BinaryOp.lexeme : BinaryOp → Lexeme
  | add => .plus | sub => .minus | mul => .times | div => .divide | mod => .modulo
  | pow => .power | dot => .dot | eq => .equal | ne => .unequal | lt => .less | gt => .greater
  | le => .lessEqual | ge => .greaterEqual | and => .keyword .andKw | or => .keyword .orKw

inductive UnaryOp
  | plus | minus | not
  deriving DecidableEq, Repr, Inhabited

def UnaryOp.lexeme : UnaryOp → Lexeme
  | plus => .plus | minus => .minus | not => .keyword .notKw

/-- A number as written. -/
inductive Numeral
  | int (value : Nat)
  | float (value : Float)
  deriving Repr, Inhabited

def Numeral.lexeme : Numeral → Lexeme
  | int n => .int n
  | float x => .float x

inductive Node
  | number (span : Span) (value : Numeral)
  | text (span : Span) (value : String)
  | list (span : Span) (items : List Node)
  | access (span : Span) (name : String)
  | assign (span : Span) (name : String) (value : Node)
  | binary (span : Span) (op : BinaryOp) (left right : Node)
  | unary (span : Span) (op : UnaryOp) (arg : Node)
  /-- Conditions with their bodies, and the body for when none holds. A body is marked when it is
  a block, whose value is dropped. -/
  | branch (span : Span) (cases : List (Node × Node × Bool)) (fallback : Option (Node × Bool))
  | forLoop (span : Span) (name : String) (first last : Node) (step : Option Node) (body : Node)
      (block : Bool)
  | whileLoop (span : Span) (condition body : Node) (block : Bool)
  /-- A function whose body is a single expression gives that expression's value. -/
  | function (span : Span) (name : Option String) (params : List String) (body : Node)
      (isExpression : Bool)
  | call (span : Span) (callee : Node) (args : List Node)
  | ret (span : Span) (value : Option Node)
  | think (span : Span) (value : Option Node)
  | importFile (span : Span) (path : String)
  | continueLoop (span : Span)
  | breakLoop (span : Span)
  deriving Repr, Inhabited

namespace Node

def span : Node → Span
  | number s _ | text s _ | list s _ | access s _ | assign s _ _ | binary s _ _ _ | unary s _ _
  | branch s _ _ | forLoop s _ _ _ _ _ _ | whileLoop s _ _ _ | function s _ _ _ _ | call s _ _
  | ret s _ | think s _ | importFile s _ | continueLoop s | breakLoop s => s

def start (n : Node) : Position := n.span.start

def stop (n : Node) : Position := n.span.stop

/-- The tree in brackets, for trees of literals and operators only. -/
def shown? : Node → Option String
  | number _ v => some v.lexeme.shown
  | text _ s => some (Lexeme.text s).shown
  | binary _ op l r => do
    let left ← l.shown?
    let right ← r.shown?
    return s!"({left}, {op.lexeme.shown}, {right})"
  | unary _ op a => do
    let arg ← a.shown?
    return s!"({op.lexeme.shown}, {arg})"
  | _ => none

end Node

/-- The cases of a branch as they are read: conditions with bodies, and the fallback. -/
abbrev Cases := List (Node × Node × Bool) × Option (Node × Bool)

end Think
