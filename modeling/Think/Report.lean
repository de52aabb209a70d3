import Think.Report.Round

/-! # The report of a round of measurements

Programs measure a set of benchmarks, and the report puts together what they left: coverage, shares
of time, verdicts, and whether the series of rounds is over. Only the coverage is needed; trouble
with any other program is noted and the report goes on.
-/

namespace Think.Report

/-- The programs that are run. -/
inductive Tool
  | coverage
  | shares
  /-- Tells which files were changed. -/
  | changes
  | checks
  deriving DecidableEq, Repr

/-- What came of running a program. -/
inductive Run
  | finished (out err : String) (code : Nat)
  | notStarted (why : String)

/-- Where a report is made. -/
structure Setting where
  run : Tool → Run
  hasShares : Bool
  hasChecks : Bool
  /-- What the coverage program left behind. -/
  coverage : Option String
  /-- The text that defines the benchmarks. -/
  benchmarks : String
  /-- The lines of earlier rounds. -/
  history : Option String
  elapsed : Float
  now : Float

/-- What a report leaves. -/
structure Outcome where
  out : String
  err : String
  tools : List Tool
  /-- The lines of all rounds, if one was added. -/
  history : Option String
  fault : Option Fault

def isWordChar (c : Char) : Bool := c.isAlphanum || c = '_'

/-- Whether a text starts with the definition of a benchmark. -/
def startsBenchmark (cs : List Char) : Bool :=
  "def bench_".toList.isPrefixOf cs &&
    let rest := cs.drop "def bench_".length
    !(rest.takeWhile isWordChar).isEmpty &&
      ((rest.dropWhile isWordChar).dropWhile Text.isBlank).head? = some '('

/-- The number of benchmarks that are defined at the start of a line. -/
def countBenchmarks : (atStart : Bool) → List Char → Nat
  | _, [] => 0
  | atStart, c :: rest =>
    (if atStart && startsBenchmark (c :: rest) then 1 else 0) + countBenchmarks (c = '\n') rest

/-- The shares of time, if they are measured, with what the program complained of. -/
def sharesIn (s : Setting) : List Share × String :=
  let noted (t : Trouble) := "[repotime runner: " ++ t.message ++ "]\n"
  if s.hasShares then
    match s.run .shares with
    | .notStarted why => ([], noted (.notStarted why))
    | .finished out err _ =>
      match Trouble.readLast out >>= Share.allOf with
      | .ok shares => (shares, err)
      | .error t => ([], err ++ noted t)
  else ([], "")

/-- The files that were changed; none if that cannot be told. -/
def changedIn (s : Setting) : List String :=
  match s.run .changes with
  | .notStarted _ => []
  | .finished out _ _ =>
    ((Text.split out "\n").filter fun l => !(Text.strip l).isEmpty).map fun l =>
      String.ofList (l.toList.drop 3)

def checkedIn (s : Setting) (modified : Bool) : List Checked × String :=
  let noted (t : Trouble) := "[semcheck runner: " ++ t.message ++ "]\n"
  match s.run .checks with
  | .notStarted why => ([], noted (.notStarted why))
  | .finished out err _ =>
    match Trouble.readLast out with
    | .error t => ([], err ++ noted t)
    | .ok d =>
      let (checked, t) := Checked.allOf modified (d.get "semcheck").entries
      (checked, err ++ (t.map noted).getD "")

def unlines (lines : List String) : String := String.join (lines.map (· ++ "\n"))

def stopLines : Option Stop → List String
  | some stop => ["", stop.message]
  | none => []

/-- What earlier rounds left, if all of it can be read. -/
def pastIn (s : Setting) : Option Past := Past.read? s.now (Past.linesOf (s.history.getD ""))

/-- How many shares were below the mark in each of the earlier rounds. -/
def belowIn (s : Setting) : List Int := ((pastIn s).map (·.below)).getD []

/-- The report once the coverage is known, with what the program that measured it complained of. -/
def reportOn (s : Setting) (coverage : Coverage) (coverageErr : String) : Outcome :=
  let shares := sharesIn s
  let changed := if s.hasChecks then changedIn s else []
  let checks := if s.hasChecks then checkedIn s !changed.isEmpty else ([], "")
  let found : Findings :=
    { coverage
      shares := shares.1
      checked := checks.1
      benchmarks := countBenchmarks true s.benchmarks.toList
      elapsed := s.elapsed
      now := s.now }
  let round := (Past.linesOf (s.history.getD "")).length + 1
  { out := unlines (coverage.table ++ coverage.errorLines ++ Share.lines found.shares ++
      Checked.lines changed found.checked ++ ["", found.summary round] ++
      stopLines (found.stop? (belowIn s)))
    err := coverageErr ++ shares.2 ++ checks.2
    tools := [.coverage] ++ (if s.hasShares then [.shares] else []) ++
      (if s.hasChecks then [.changes, .checks] else [])
    history := (pastIn s).map fun past =>
      s.history.getD "" ++ (found.record round past.wait).written ++ "\n"
    fault := none }

/-- The coverage and what the program that measured it complained of, or how the report ends
without it. -/
def coverageIn (s : Setting) : Except Outcome (Coverage × String) :=
  let ended (out err : String) (f : Fault) : Outcome := ⟨out, err, [.coverage], none, some f⟩
  match s.run .coverage, s.coverage with
  | .notStarted _, _ => .error (ended "" "" .notStarted)
  | .finished _ err 0, some text =>
    match Datum.read text with
    | .error _ => .error (ended "" err .malformedData)
    | .ok d => .ok (Coverage.ofDatum d, err)
  | .finished out err code, _ =>
    .error (ended (unlines [s!"coverage measurement failed (exit {code})", out]) err
      (.exit (max code 1)))

/-- The report of a round. -/
def make (s : Setting) : Outcome :=
  match coverageIn s with
  | .ok (coverage, err) => reportOn s coverage err
  | .error ended => ended

end Think.Report
