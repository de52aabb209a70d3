import Think.Datum.Reader
import Think.Report.Coverage
import Think.Text.Split

/-! # Trouble with a program

What can keep the results of a program out of the report. The rest of the report is made without
them.
-/

namespace Think.Report

inductive Trouble
  /-- The program could not be started. -/
  | notStarted (why : String)
  /-- It left something that is not structured data. -/
  | unreadable (message : String)
  /-- A text stands where a number should, and is none. -/
  | notNumeric (text : String)
  /-- Something that cannot be a number stands where one should. -/
  | noNumber (kind : String)

namespace Trouble

def message : Trouble → String
  | .notStarted why => s!"RuntimeError: {why}"
  | .unreadable m => s!"JSONDecodeError: {m}"
  | .notNumeric t => "ValueError: could not convert string to float: " ++ Text.quoted t
  | .noNumber kind =>
    s!"TypeError: float() argument must be a string or a real number, not '{kind}'"

/-- A number, also if it is given as a text or as a truth value. -/
def readNumber : Datum → Except Trouble Float
  | .number n => .ok (toFloat (.number n))
  | .flag b => .ok (if b then 1.0 else 0.0)
  | .text s => (Number.readFloat s).mapError fun _ => .notNumeric s
  | .null => .error (.noNumber "NoneType")
  | .list _ => .error (.noNumber "list")
  | .fields _ => .error (.noNumber "dict")

/-- The datum on the last line of what a program wrote. -/
def readLast (out : String) : Except Trouble Datum :=
  match (Text.split (Text.strip out) "\n").getLast? with
  | none | some "" => .ok (.fields [])
  | some line => (Datum.read line).mapError fun e => .unreadable (e.message line.toList)

end Trouble

end Think.Report
