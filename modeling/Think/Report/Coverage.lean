import Think.Datum.Writer
import Think.Number.Fixed
import Think.Text.Column

/-! # Coverage

How many statements of each file were reached, as a table with the least covered file first.
-/

namespace Think.Report

/-- A number as a double; what is none counts as zero. -/
def toFloat (d : Datum) : Float :=
  match d.number? with
  | some (.int n) => (Binary64.ofInt? n).getD 0.0
  | some (.float x) => x
  | _ => 0.0

structure FileCoverage where
  name : String
  statements : Int
  missing : Int
  percent : Float
  /-- The lines that were not reached. -/
  lines : List Datum

structure Coverage where
  files : List FileCoverage
  percent : Number
  covered : Int
  statements : Int
  /-- Benchmarks that failed, each with its error. -/
  errors : List (String × Datum)

namespace FileCoverage

/-- Where the files under measurement lie. -/
def root : String := "/repo/"

def ofDatum (path : String) (d : Datum) : FileCoverage :=
  let summary := d.get "summary"
  { name := if root.toList.isPrefixOf path.toList then String.ofList (path.toList.drop root.length)
      else path
    statements := ((summary.get "num_statements").int?).getD 0
    missing := ((summary.get "missing_lines").int?).getD 0
    percent := toFloat (summary.get "percent_covered")
    lines := (d.get "missing_lines").items }

/-- The less covered file first; of two covered alike, the one that misses more. -/
def before (a b : FileCoverage) : Bool :=
  if a.percent == b.percent then b.missing ≤ a.missing else a.percent < b.percent

/-- Most lines that are listed. -/
def maxLines : Nat := 12

def linesText (f : FileCoverage) : String :=
  ",".intercalate ((f.lines.take maxLines).map Datum.written) ++
    (if maxLines < f.lines.length then "…" else "")

end FileCoverage

namespace Coverage

def ofDatum (d : Datum) : Coverage :=
  let totals := d.get "totals"
  { files := ((d.get "files").entries.map fun (path, f) => FileCoverage.ofDatum path f).mergeSort
      FileCoverage.before
    percent := ((totals.get "percent_covered").number?).getD (.float 0.0)
    covered := ((totals.get "covered_lines").int?).getD 0
    statements := ((totals.get "num_statements").int?).getD 0
    errors := ((d.get "meta").get "_pti_bench_errors").entries }

def percentage (c : Coverage) : Float := toFloat (.number c.percent)

/-- The width of the column of names. -/
def nameWidth (c : Coverage) : Nat := (c.files.map (·.name.length)).foldl max "Name".length

def row (width : Nat) (name : String) (statements missing : Int) (percent : Float) : String :=
  "  ".intercalate
    [Text.padRight width name, Text.padLeft 5 (toString statements),
      Text.padLeft 4 (toString missing), Text.padLeft 4 (Binary64.fixed 0 percent) ++ "%"]

def table (c : Coverage) : List String :=
  let w := c.nameWidth
  let rule := String.ofList (List.replicate (w + 42) '-')
  [Text.padRight w "Name" ++ "  Stmts  Miss  Cover  Missing", rule] ++
    c.files.map (fun f => row w f.name f.statements f.missing f.percent ++ "  " ++ f.linesText) ++
    [rule, row w "TOTAL" c.statements (c.statements - c.covered) c.percentage]

/-- Most errors that are listed. -/
def maxErrors : Nat := 8

def errorText : Datum → String
  | .text s => s
  | d => d.written

def errorLines (c : Coverage) : List String :=
  if c.errors.isEmpty then []
  else
    let count := c.errors.length
    ["", s!"{count} bench error(s):"] ++
      (c.errors.take maxErrors).map fun (name, e) => s!"  {name}: " ++ errorText e

/-- Least coverage with which a series of rounds can be over. -/
def enough : Float := 60.0

end Coverage

end Think.Report
