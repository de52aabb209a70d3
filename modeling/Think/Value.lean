import Think.Node
import Think.Number
import Think.Scope

/-! # Values

A value is held by reference: an object remembers where in a text it arose and in which context,
and both may change while several places hold it. Lists hold their elements in a storage of its
own, which copies of a list share.
-/

namespace Think

structure ObjectRef where
  index : Nat
  deriving DecidableEq, Repr, Inhabited

structure ListRef where
  index : Nat
  deriving DecidableEq, Repr, Inhabited

inductive Value
  | object (ref : ObjectRef)
  /-- Nothing at all, which is what a statement without a value leaves. -/
  | absent
  /-- A text that is not an object, such as the code that a prompt gave. -/
  | bare (text : String)
  deriving DecidableEq, Repr, Inhabited

inductive Payload
  | number (value : Number)
  | text (value : String)
  | list (cells : ListRef)
  | null
  | function (name : String) (params : List String) (body : Node) (isExpression : Bool)
  | builtin (name : String)
  | file (name path : String)
  /-- An object of no particular kind. -/
  | plain
  deriving Inhabited

structure Object where
  payload : Payload
  start : Option Position
  stop : Option Position
  context : Option Context
  deriving Inhabited

namespace Object

/-- An object that arose nowhere in particular. -/
def fresh (payload : Payload) : Object := ⟨payload, none, none, none⟩

def placed (o : Object) (span : Span) : Object :=
  { o with start := some span.start, stop := some span.stop }

def within (o : Object) (context : Option Context) : Object := { o with context }

end Object

end Think
