import Think.Report.Trouble

/-! # Shares of time

The share of a benchmark's time that is spent in the measured code. A negative share stands for a
benchmark that failed.
-/

namespace Think.Report

structure Share where
  name : String
  percent : Float
  /-- What else took time, with how much of it. -/
  elsewhere : List (Float × String)

namespace Share

/-- The mark below which a share is too low. -/
def mark : Float := 45.0

def isMeasured (s : Share) : Bool := 0.0 ≤ s.percent

def isLow (s : Share) : Bool := s.isMeasured && s.percent < mark

def elsewhereOf (d : Datum) : List (Float × String) :=
  d.items.filterMap fun e =>
    match e.items with
    | [p, .text name] => some (toFloat p, name)
    | _ => none

def allOf (d : Datum) : Except Trouble (List Share) :=
  (d.get "repo_time_pct").entries.mapM fun (name, p) => do
    return ⟨name, ← Trouble.readNumber p, elsewhereOf ((d.get "hot_ext").get name)⟩

def line (s : Share) : String :=
  let shown := if s.isMeasured then s.percent else 0.0
  (if s.isLow then "  * " else "    ") ++ Text.padRight 32 s.name ++ " " ++
    Text.padLeft 5 (Binary64.fixed 1 shown) ++ "%" ++
    (if s.isMeasured then "" else "  <error>") ++
    (if s.isLow && !s.elsewhere.isEmpty then
      " (hot: " ++ " ".intercalate (s.elsewhere.map fun (p, n) =>
        n ++ " " ++ Binary64.fixed 0 p ++ "%") ++ ")"
    else "")

/-- The number of shares below the mark, if any were measured. -/
def below? (shares : List Share) : Option Nat :=
  if shares.any isMeasured then some (shares.countP isLow) else none

def lines (shares : List Share) : List String :=
  if shares.isEmpty then []
  else ["", "repo_time (target 50%; * = below 45%):"] ++
    (shares.mergeSort fun a b => a.percent ≤ b.percent).map line

end Share

end Think.Report
