import Think.Machine

/-! # Operators

What each operator does to values of each kind. An operator that a kind does not have is an error
at the operands. List operators work on the storage of their left operand, so they change every
list that shares it.
-/

namespace Think

/-- What an operator gives: a value or, when two files are compared, a bare truth. -/
inductive Answer
  | value (v : Value)
  | truth (b : Bool)

namespace Operator

open Eval

/-- The error of an operator on operands it does not admit. An empty text does not count as an
operand here, and the first operand stands in for it. -/
def illegal {α : Type} (left : ObjectRef) (right : Value) (reason : String) : Eval α := do
  let o ← object left
  let details := "Illegal operation -> " ++ reason
  if (← store).isSomething right then
    let (_, other) ← objectOf right
    error o.start other.stop details o.context
  else error o.start o.stop details o.context

def unknown {α : Type} (left : ObjectRef) (right : Value) : Eval α := illegal left right "unknown"

/-- The error of an operand of the wrong kind, which the message names. -/
def illegalKind {α : Type} (left : ObjectRef) (right : Value) (action : String) : Eval α := do
  let kind ← kindName right
  illegal left right s!"{action} a type of '{kind}'"

/-- A new object in the context of the left operand. -/
def result (left : ObjectRef) (p : Payload) : Eval Answer := do
  let o ← object left
  return .value (.object (← allocate ((Object.fresh p).within o.context)))

def payload? (v : Value) : Eval (Option Payload) := do
  match v with
  | .object r => return some (← object r).payload
  | _ => return none

/-- What cannot be done to a number and an operand that is none. -/
def numberAction : BinaryOp → String
  | .add => "Can't add a number to"
  | .sub => "Can't subtract a number from"
  | .mul | .dot => "Can't multiply a number by"
  | .div => "Can't divide a number by"
  | .mod => "Can't mod a number by"
  | .pow => "Can't power a number by"
  | _ => "Can't compare a number to"

def numbers (op : BinaryOp) (a b : Number) : Except Fault Number :=
  match op with
  | .add => a.add b
  | .sub => a.sub b
  | .mul | .dot => a.mul b
  | .div => a.div b
  | .mod => a.mod b
  | .pow => a.pow b
  | .eq => .ok (.ofBool (a.isEq b))
  | .ne => .ok (.ofBool !(a.isEq b))
  | .lt => .ofBool <$> a.lt b
  | .gt => .ofBool <$> a.gt b
  | .le => .ofBool <$> a.le b
  | .ge => .ofBool <$> a.ge b
  | .and => a.and b
  | .or => a.or b

/-- An error at the right operand. -/
def errorAtRight {α : Type} (left : ObjectRef) (right : Value) (details : String) : Eval α := do
  let o ← object left
  let (_, other) ← objectOf right
  error other.start other.stop details o.context

def onNumber (op : BinaryOp) (left : ObjectRef) (a : Number) (right : Value) : Eval Answer := do
  match ← payload? right with
  | some (.number b) =>
    if op = .div && b.isZero then errorAtRight left right "Division by zero"
    else result left (.number (← lift (numbers op a b)))
  | _ => illegalKind left right (numberAction op)

/-- The index into something of `size` parts that a number means, counted from the end if it is
negative; `none` if it is outside. -/
def index? (size : Nat) (i : Int) : Option Nat :=
  if 0 ≤ i then if i < size then some i.toNat else none
  else if -i ≤ size then some (size - (-i).toNat) else none

/-- The kind of thing whose method would be shown for a value. -/
def ownerName : Payload → String
  | .number _ => "Number"
  | .text _ => "String"
  | .list _ => "List"
  | .function _ _ _ _ => "Function"
  | .file _ _ => "File"
  | _ => "Object"

def onText (op : BinaryOp) (left : ObjectRef) (a : String) (right : Value) : Eval Answer := do
  let other ← payload? right
  match op, other with
  | .add, some (.text b) => result left (.text (a ++ b))
  | .add, _ => illegalKind left right "Can't add a string to"
  | .mul, some (.number (.int n)) => result left (.text (← lift (Number.repeatText a n)))
  | .mul, some (.number _) => fault .wrongKind
  | .mul, _ => illegalKind left right "Can't multiply a string by"
  | .eq, some (.text b) => result left (.number (.ofBool (a == b)))
  | .ne, some (.text b) => result left (.number (.ofBool (a != b)))
  | .eq, _ | .ne, _ => illegalKind left right "Can't compare a string to"
  | .dot, some (.text b) => result left (.text (a ++ b))
  | .dot, some (.number n) =>
    let found? := match n with
      | .int i => (index? a.length i).bind fun k => a.toList[k]?
      | _ => none
    match found? with
    | some c => result left (.text c.toString)
    | none => errorAtRight left right "String index out of bounds"
  | .dot, some p =>
    let other ← shown right
    let method := s!"<bound method {ownerName p}.type of {other}>"
    illegal left right s!"Can't get a string from a type of '{method}'"
  | .dot, none => fault .noSuchPart
  | _, _ => unknown left right

/-- The elements without the one at an index. -/
def removeAt (vs : Array Value) (i : Nat) : Array Value := (vs.toList.eraseIdx i).toArray

/-- Takes out the element that a number means, if there is one. -/
def takeElement (cells : ListRef) (n : Number) : Eval (Option Value) := do
  let vs ← elements cells
  let i? := match n with
    | .int i => index? vs.size i
    | _ => none
  match i? with
  | some i =>
    modifyStore (·.updateList cells (removeAt · i))
    return vs[i]?
  | none => return none

def onList (op : BinaryOp) (left : ObjectRef) (cells : ListRef) (right : Value) : Eval Answer := do
  let other ← payload? right
  match op, other with
  | .add, _ =>
    let c ← copy left
    modifyStore (·.updateList cells (·.push right))
    return .value (.object c)
  | .sub, some (.number n) =>
    let c ← copy left
    match ← takeElement cells n with
    | some _ => return .value (.object c)
    | none =>
      errorAtRight left right
        "Element at this index could not be removed from list because index is out of bounds"
  | .sub, _ => illegalKind left right "Can't subtract a list by"
  | .mul, some (.list others) =>
    let c ← copy left
    let added ← elements others
    modifyStore (·.updateList cells (· ++ added))
    return .value (.object c)
  | .mul, _ => illegalKind left right "Can't multiply a list by"
  | .gt, some (.number (.int i)) =>
    let vs ← elements cells
    match (index? vs.size i).bind (vs[·]?) with
    | some v => return .value v
    | none =>
      errorAtRight left right
        "Element at this index could not be retrieved from list because index is out of bounds"
  | .gt, some (.number _) => fault .wrongKind
  | .gt, _ => illegal left right "Index must be a number type"
  | _, _ => unknown left right

def onFile (op : BinaryOp) (left : ObjectRef) (path : String) (right : Value) : Eval Answer := do
  match op with
  | .eq =>
    match ← payload? right with
    | some (.file _ p) => return .truth (path == p)
    | _ => illegalKind left right "Can't compare a File to"
  | _ => unknown left right

/-- The binary operator `op` on an object and a value. -/
def binary (op : BinaryOp) (left : ObjectRef) (right : Value) : Eval Answer := do
  match (← object left).payload with
  | .number a => onNumber op left a right
  | .text a => onText op left a right
  | .list cells => onList op left cells right
  | .file _ path => onFile op left path right
  | .null => if op = .add then return .value right else unknown left right
  | _ => unknown left right

/-- Logical negation, which only numbers and null have. -/
def negate (arg : ObjectRef) : Eval Answer := do
  match (← object arg).payload with
  | .number a => result arg (.number (.ofBool a.isZero))
  | .null => result arg (.number (.int 0))
  | _ => fault .wrongKind

/-- Negation with a second operand, which numbers and null do not take and nothing admits. -/
def negateWith (arg : ObjectRef) (other : Value) : Eval Answer := do
  match (← object arg).payload with
  | .number _ | .null => fault .wrongKind
  | _ => unknown arg other

/-- The characters of a text; no other value has any. -/
def characters (arg : ObjectRef) : Eval (List Char) := do
  match (← object arg).payload with
  | .text s => return s.toList
  | _ => fault .wrongKind

/-- The failure of a function of the language that is not there. -/
def noSuchFunction {α : Type} (arg : ObjectRef) : Eval α := do
  match (← object arg).payload with
  | .builtin name => fault (.stated s!"No execute_{name} method defined")
  | _ => fault .noSuchPart

/-- A field of a value. Only texts have one, their size. -/
def field (arg : ObjectRef) (name : String) : Eval Answer := do
  let o ← object arg
  match o.payload with
  | .text a =>
    if name == "size" then result arg (.number (.int a.length))
    else error o.start o.stop s!"String has no field '{name}'" o.context
  | _ =>
    let whole ← written (.object arg)
    error o.start o.stop s!"{whole} has no field named '{name}'" o.context

end Operator

end Think
