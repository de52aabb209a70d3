import Think.Report.Plateau
import Think.Report.Share
import Think.Report.Verdict
import Think.Text.Lines

/-! # Rounds

Each round leaves one line of data, and the lines of earlier rounds tell how the series went.
-/

namespace Think.Report

/-- What one round found. -/
structure Findings where
  coverage : Coverage
  benchmarks : Nat
  shares : List Share
  checked : List Checked
  elapsed : Float
  now : Float

/-- What earlier rounds left. -/
structure Past where
  /-- Seconds since the last of them. -/
  wait : Float
  /-- How many shares were below the mark, where any were measured. -/
  below : List Int

namespace Past

/-- The lines that hold something. -/
def linesOf (text : String) : List String :=
  ((Text.linesOf text.toList).map String.ofList).filter fun l => !(Text.strip l).isEmpty

/-- The seconds since a round: none if it did not say when it was. -/
def waitSince? (now : Float) (last : Datum) : Option Float :=
  match last.entries.lookup "ts" with
  | none => some 0.0
  | some (.number n) => some (Binary64.rounded 2 (now - toFloat (.number n)))
  | some _ => none

/-- Reads the lines of earlier rounds; all of them have to be data with fields. -/
def read? (now : Float) (lines : List String) : Option Past := do
  let rounds ← lines.mapM fun l =>
    match Datum.read l with
    | .ok (.fields es) => some (Datum.fields es)
    | _ => none
  let wait ← match rounds.getLast? with
    | none => some 0.0
    | some last => waitSince? now last
  return ⟨wait, rounds.filterMap fun r => (r.get "n_below_repo_time").int?⟩

end Past

/-- The data of a round. -/
def Findings.record (f : Findings) (round : Nat) (wait : Float) : Datum :=
  .fields [
    ("round", .int round),
    ("ts", .float f.now),
    ("wall_since_prev_s", .float wait),
    ("coverage_pct", .number f.coverage.percent),
    ("covered_lines", .int f.coverage.covered),
    ("num_statements", .int f.coverage.statements),
    ("n_bench_fns", .int f.benchmarks),
    ("n_bench_errors", .int f.coverage.errors.length),
    ("cov_measure_s", .float (Binary64.rounded 3 f.elapsed)),
    ("repo_time_pct", .fields (f.shares.map fun s => (s.name, .float s.percent))),
    ("n_below_repo_time", ((Share.below? f.shares).map fun n => Datum.int n).getD .null),
    ("semcheck", .fields (f.checked.map fun c => (c.name, .text c.verdict.name))),
    ("n_not_self_checking", .int (Checked.unsound f.checked))]

/-- The round in one line. -/
def Findings.summary (f : Findings) (round : Nat) : String :=
  let measured := f.shares.countP Share.isMeasured
  let below := (Share.below? f.shares).getD 0
  let unsound := Checked.unsound f.checked
  let checked := f.checked.length
  s!"[round {round}: {f.benchmarks} benches, " ++ Binary64.fixed 1 f.coverage.percentage ++
    "% covered" ++
    (if f.shares.isEmpty then "" else s!", {below}/{measured} below repo_time 45%") ++
    (if f.checked.isEmpty then "" else s!", {unsound}/{checked} not self-checking") ++
    ", measured in " ++ Binary64.fixed 1 f.elapsed ++ "s]"

/-- Whether the series is over, given what earlier rounds left. -/
def Findings.stop? (f : Findings) (history : List Int) : Option Stop :=
  match Share.below? f.shares with
  | some n => if Coverage.enough ≤ f.coverage.percentage then Stop.after? history n else none
  | none => none

end Think.Report
