import Think.Value

/-! # Stores

The store holds all objects, list storages and tables of names. Nothing is ever removed from it,
so a reference stays good.
-/

namespace Think

/-- Names with their values. -/
structure Table where
  entries : List (String × Value)
  /-- The tables searched after this one, nearest first. -/
  ancestors : List TableRef
  deriving Inhabited

namespace Table

def setIn (name : String) (v : Value) : List (String × Value) → List (String × Value)
  | [] => [(name, v)]
  | (n, w) :: rest => if n = name then (n, v) :: rest else (n, w) :: setIn name v rest

def set (t : Table) (name : String) (v : Value) : Table :=
  { t with entries := setIn name v t.entries }

/-- The value of a name in this table itself. -/
def get (t : Table) (name : String) : Value := (t.entries.lookup name).getD .absent

end Table

structure Store where
  objects : Array Object
  lists : Array (Array Value)
  tables : Array Table
  deriving Inhabited

namespace Store

def empty : Store := ⟨#[], #[], #[]⟩

def object (s : Store) (r : ObjectRef) : Object := s.objects[r.index]?.getD (.fresh .plain)

def elements (s : Store) (r : ListRef) : Array Value := s.lists[r.index]?.getD #[]

def table (s : Store) (r : TableRef) : Table := s.tables[r.index]?.getD ⟨[], []⟩

def allocate (s : Store) (o : Object) : ObjectRef × Store :=
  (⟨s.objects.size⟩, { s with objects := s.objects.push o })

def allocateList (s : Store) (vs : Array Value) : ListRef × Store :=
  (⟨s.lists.size⟩, { s with lists := s.lists.push vs })

def allocateTable (s : Store) (t : Table) : TableRef × Store :=
  (⟨s.tables.size⟩, { s with tables := s.tables.push t })

def update (s : Store) (r : ObjectRef) (f : Object → Object) : Store :=
  { s with objects := s.objects.modify r.index f }

def updateList (s : Store) (r : ListRef) (f : Array Value → Array Value) : Store :=
  { s with lists := s.lists.modify r.index f }

def bind (s : Store) (r : TableRef) (name : String) (v : Value) : Store :=
  { s with tables := s.tables.modify r.index (·.set name v) }

/-- The value of a name in the first of some tables that has one. -/
def search (s : Store) (name : String) : List TableRef → Value
  | [] => .absent
  | r :: rest =>
    match (s.table r).get name with
    | .absent => search s name rest
    | v => v

/-- The value of a name in a table or the tables behind it. -/
def lookup (s : Store) (r : TableRef) (name : String) : Value :=
  s.search name (r :: (s.table r).ancestors)

/-- A new empty table in front of another. -/
def childOf (s : Store) (r : TableRef) : TableRef × Store :=
  s.allocateTable ⟨[], r :: (s.table r).ancestors⟩

/-- Whether a value counts as something: nothing and empty texts do not. -/
def isSomething (s : Store) : Value → Bool
  | .absent => false
  | .bare t => !t.isEmpty
  | .object r =>
    match (s.object r).payload with
    | .text t => !t.isEmpty
    | _ => true

end Store

end Think
