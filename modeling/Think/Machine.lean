import Think.Diagnostic
import Think.Value.Snapshot
import Think.World

/-! # Machines

A machine is a store and the world it runs in. Evaluation changes the machine and gives a value,
or stops: with a fault, with an error, or with one of the signals that leave a loop or a function.
What was done before a stop stays done.
-/

namespace Think

structure Machine where
  store : Store
  world : World

inductive Stop
  | fault (cause : Fault)
  | error (report : Diagnostic)
  | returned (value : Value)
  | continued
  | broke

abbrev Eval (α : Type) := ExceptT Stop (StateM Machine) α

namespace Eval

variable {α : Type}

def fault (f : Fault) : Eval α := throw (.fault f)

/-- The result of a step that may fail by itself. -/
def lift (r : Except Fault α) : Eval α :=
  match r with
  | .ok a => pure a
  | .error f => fault f

/-- How an evaluation ends, without ending here. -/
def outcome (x : Eval α) : Eval (Except Stop α) := fun m =>
  let (r, m') := x m
  (.ok r, m')

def store : Eval Store := do return (← get).store

def world : Eval World := do return (← get).world

def modifyStore (f : Store → Store) : Eval Unit :=
  modify fun m => { m with store := f m.store }

def modifyWorld (f : World → World) : Eval Unit :=
  modify fun m => { m with world := f m.world }

def object (r : ObjectRef) : Eval Object := do return (← store).object r

def allocate (o : Object) : Eval ObjectRef := fun m =>
  let (r, s) := m.store.allocate o
  (.ok r, { m with store := s })

def allocateList (vs : Array Value) : Eval ListRef := fun m =>
  let (r, s) := m.store.allocateList vs
  (.ok r, { m with store := s })

def childTable (t : TableRef) : Eval TableRef := fun m =>
  let (r, s) := m.store.childOf t
  (.ok r, { m with store := s })

/-- A new table with nothing behind it. -/
def newTable : Eval TableRef := fun m =>
  let (r, s) := m.store.allocateTable ⟨[], []⟩
  (.ok r, { m with store := s })

def bind (t : TableRef) (name : String) (v : Value) : Eval Unit :=
  modifyStore (·.bind t name v)

def lookup (t : TableRef) (name : String) : Eval Value := do return (← store).lookup t name

/-- A new value without a place or context. -/
def make (p : Payload) : Eval Value := do return .object (← allocate (.fresh p))

/-- The object that a value is; anything else has no parts. -/
def objectOf : Value → Eval (ObjectRef × Object)
  | .object r => do return (r, ← object r)
  | _ => fault .noSuchPart

/-- A copy, which shares the storage of a list. -/
def copy (r : ObjectRef) : Eval ObjectRef := do
  let o ← object r
  match o.payload with
  | .plain => fault (.stated "No copy method defined")
  | _ => allocate o

def place (r : ObjectRef) (span : Span) : Eval Unit := modifyStore (·.update r (·.placed span))

def enter (r : ObjectRef) (context : Option Context) : Eval Unit :=
  modifyStore (·.update r (·.within context))

/-- A copy that arises at a place in a context. -/
def copyTo (r : ObjectRef) (span : Span) (context : Context) : Eval ObjectRef := do
  let c ← copy r
  place c span
  enter c (some context)
  return c

def error (start stop : Option Position) (details : String) (context : Option Context) : Eval α :=
  throw (.error ⟨.runtime, details, start, stop, context⟩)

def elements (cells : ListRef) : Eval (Array Value) := do return (← store).elements cells

def snapshot (v : Value) : Eval Snapshot := do return (← store).snapshot v

/-- The value written without quotes or brackets. -/
def written (v : Value) : Eval String := do lift (← snapshot v).written

/-- The value written as inside a list. -/
def shown (v : Value) : Eval String := do lift (← snapshot v).shown

/-- Whether a condition with this value holds. -/
def isTrue (v : Value) : Eval Bool := do
  let (_, o) ← objectOf v
  match o.payload with
  | .number n => return n.isTrue
  | .text t => return !t.isEmpty
  | .list cells => return !(← elements cells).isEmpty
  | _ => return false

/-- The name of the kind of a value. -/
def kindName (v : Value) : Eval String := do
  let (_, o) ← objectOf v
  match o.payload with
  | .number n => lift n.kindName
  | .text _ => return "<string>"
  | .list _ => return "<list>"
  | .function _ _ _ _ => return "<function>"
  | .file _ _ => return "<File>"
  | _ => return "Object"

end Eval

end Think
