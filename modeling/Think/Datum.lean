import Think.Number

/-! # Structured data

Data that is exchanged as text: numbers, texts, lists, and fields by name. Integers are kept apart
from floats, and fields keep the order in which their names first appeared.
-/

namespace Think

inductive Datum
  | null
  | flag (value : Bool)
  | number (value : Number)
  | text (value : String)
  | list (items : List Datum)
  | fields (entries : List (String × Datum))
  deriving Inhabited

namespace Datum

def int (n : Int) : Datum := .number (.int n)

def float (x : Float) : Datum := .number (.float x)

/-- Sets a field. One that is there already keeps its place. -/
def setField (name : String) (v : Datum) : List (String × Datum) → List (String × Datum)
  | [] => [(name, v)]
  | (n, w) :: rest => if n = name then (n, v) :: rest else (n, w) :: setField name v rest

/-- The fields of a datum; none unless it has fields. -/
def entries : Datum → List (String × Datum)
  | fields es => es
  | _ => []

/-- The value of a field, null if there is no such field. -/
def get (d : Datum) (name : String) : Datum := (d.entries.lookup name).getD .null

def items : Datum → List Datum
  | list xs => xs
  | _ => []

def text? : Datum → Option String
  | text s => some s
  | _ => none

def number? : Datum → Option Number
  | number n => some n
  | _ => none

def int? : Datum → Option Int
  | number (.int n) => some n
  | _ => none

end Datum

end Think
