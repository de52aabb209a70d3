import Think.Store

/-! # Tables by name

Tables that are made and changed one by one. Changing a table to another makes both hold the same
names from then on, so names are kept apart from the tables that show them.
-/

namespace Think

namespace Registry

structure Shown where
  /-- Which set of names the table shows. -/
  names : Nat
  parent : Option Nat

end Registry

structure Registry where
  contents : Array (List (String × Value))
  tables : Array Registry.Shown

namespace Registry

def empty : Registry := ⟨#[], #[]⟩

/-- A new table with no names of its own. -/
def add (r : Registry) (parent : Option Nat) : Nat × Registry :=
  (r.tables.size, ⟨r.contents.push [], r.tables.push ⟨r.contents.size, parent⟩⟩)

def shown (r : Registry) (t : Nat) : Shown := r.tables[t]?.getD ⟨0, none⟩

/-- The names of a table itself, with their values. -/
def entries (r : Registry) (t : Nat) : List (String × Value) :=
  r.contents[(r.shown t).names]?.getD []

def set (r : Registry) (t : Nat) (name : String) (v : Value) : Registry :=
  { r with contents := r.contents.modify (r.shown t).names (Table.setIn name v) }

/-- The value of a name in the first table from `t` on that has one. Tables that follow each other
in a circle are searched for ever; no other search takes more steps than there are tables. -/
def getWithin (r : Registry) (name : String) : (steps t : Nat) → Except Fault Value
  | 0, _ => .error .endlessNesting
  | k + 1, t =>
    match ((r.entries t).lookup name).getD .absent, (r.shown t).parent with
    | .absent, some p => getWithin r name k p
    | v, _ => .ok v

def get (r : Registry) (t : Nat) (name : String) : Except Fault Value :=
  r.getWithin name (r.tables.size + 1) t

def remove (r : Registry) (t : Nat) (name : String) : Except Fault Registry :=
  if (r.entries t).any (·.1 = name) then
    .ok { r with contents := r.contents.modify (r.shown t).names (·.filter (·.1 ≠ name)) }
  else .error .noSuchKey

/-- Makes a table show what another does. -/
def change (r : Registry) (t other : Nat) : Registry :=
  { r with tables := r.tables.modify t fun _ => r.shown other }

/-- Whether a table itself holds a value. -/
def holds (r : Registry) (t : Nat) (v : Value) : Bool := (r.entries t).any (·.2 = v)

/-- The names of a table itself, in order. -/
def names (r : Registry) (t : Nat) : List String :=
  ((r.entries t).map (·.1)).mergeSort (· ≤ ·)

end Registry

end Think
