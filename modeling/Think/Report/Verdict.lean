import Think.Report.Trouble

/-! # Verdicts on benchmarks

A benchmark is sound if it gives the same result each time, spends its time in the measured code,
and has a result that depends on its parameter. The first thing that is wrong decides.
-/

namespace Think.Report

/-- What is known of a benchmark. -/
structure Evidence where
  /-- The kind of its result, if it has one. -/
  kind : Option String
  /-- Marks of its result in repeated runs. -/
  repeated : List String
  /-- Marks of its result for each value of its parameter. -/
  perValue : List String
  /-- Marks of the values of its parameter themselves. -/
  values : List String
  /-- Milliseconds in the measured code. -/
  times : List Float
  /-- Parts of its time in the measured code. -/
  parts : List Float

inductive Verdict
  | repoModified | error | returnsNone | unstable | returnsInput | lowShare | tooFast
  | withoutParameter | paramInvariant | ok
  deriving DecidableEq, Repr

namespace Evidence

def marks (ds : List Datum) : List String := ds.map Datum.written

def ofDatum (d : Datum) : Except Trouble Evidence := do
  let times ← (d.get "repo_tt_ms").entries.mapM fun (_, v) => Trouble.readNumber v
  let parts ← (d.get "repo_frac").entries.mapM fun (_, v) => Trouble.readNumber v
  return {
    kind := (d.get "ret_type").text?
    repeated := marks (d.get "fp_stable").items
    perValue := marks ((d.get "fp_by_param").entries.map (·.2))
    values := marks (d.get "param_fps").items
    times, parts }

/-- The middle time, or the mean of the two in the middle; zero if there are none. -/
def time (e : Evidence) : Float :=
  let sorted := e.times.mergeSort (· ≤ ·)
  let half := sorted.length / 2
  match sorted.drop (half - 1), sorted.length % 2 with
  | a :: b :: _, 0 => (a + b) / 2.0
  | _, _ => (sorted[half]?).getD 0.0

/-- The smallest part; zero if there are none. -/
def part (e : Evidence) : Float :=
  match e.parts with
  | [] => 0.0
  | p :: rest => rest.foldl (fun a b => if b < a then b else a) p

def isConstant : List String → Bool
  | [] => false
  | m :: rest => rest.all (· = m)

def isFailure : Option String → Bool
  | none => true
  | some k => k.isEmpty || k.startsWith "<"

def verdict (e : Evidence) (modified : Bool) : Verdict :=
  if modified then .repoModified
  else if isFailure e.kind then .error
  else if e.kind = some "NoneType" then .returnsNone
  else if !isConstant e.repeated then .unstable
  else if e.repeated.take 1 |>.any e.values.contains then .returnsInput
  else if !e.parts.isEmpty && e.part < 0.5 then .lowShare
  else if !e.times.isEmpty && e.time < 1.0 then .tooFast
  else if e.perValue.length < 2 then .withoutParameter
  else if isConstant e.perValue then .paramInvariant
  else .ok

end Evidence

namespace Verdict

def name : Verdict → String
  | .repoModified => "repo-modified"
  | .error => "error"
  | .returnsNone => "returns-none"
  | .unstable => "unstable"
  | .returnsInput => "returns-input"
  | .lowShare => "low-repo-time"
  | .tooFast => "too-fast"
  | .withoutParameter => "ok-unparam"
  | .paramInvariant => "param-invariant"
  | .ok => "ok"

def isSound : Verdict → Bool
  | .ok | .withoutParameter => true
  | _ => false

end Verdict

/-- A benchmark with what is known of it and the verdict on it. -/
structure Checked where
  name : String
  evidence : Evidence
  verdict : Verdict

namespace Checked

/-- Checks benchmarks one after the other, up to one whose data cannot be used. What is no
benchmark's data is passed over. -/
def allOf (modified : Bool) : List (String × Datum) → List Checked × Option Trouble
  | [] => ([], none)
  | (name, .fields es) :: rest =>
    match Evidence.ofDatum (.fields es) with
    | .error t => ([], some t)
    | .ok e =>
      let (more, t) := allOf modified rest
      (⟨name, e, e.verdict modified⟩ :: more, t)
  | _ :: rest => allOf modified rest

def line (c : Checked) : String :=
  (if c.verdict.isSound then "    " else "  * ") ++ Text.padRight 32 c.name ++ " " ++
    Text.padRight 16 c.verdict.name ++ " (" ++ kindText c.evidence.kind ++ ", repo " ++
    Binary64.fixed 0 (Binary64.rounded 2 c.evidence.part * 100.0) ++ "%) " ++
    Binary64.fixed 1 (Binary64.rounded 2 c.evidence.time) ++ "ms"
where
  kindText : Option String → String
    | none | some "" => "?"
    | some k => k

/-- What each verdict asks for. -/
def legend : List String :=
  ["self-check (* = fix needed):",
    "  returns-none: run() has no return — collect and return the call results",
    "  unstable: seed RNG in setup; avoid time/uuid/id in the return",
    "  returns-input: return repo output, not the parameter value",
    "  low-repo-time: <50% of run() time is in repo code — move glue to setup",
    "  param-invariant: return something derived from run()'s work, not setup",
    "  repo-modified: revert edits to repo files (git checkout -- <path>)"]

def modifiedLines (modified : List String) : List String :=
  if modified.isEmpty then []
  else
    let count := modified.length
    [s!"** repo modified ({count} file(s)) — revert these; only microbench.py is yours to edit:"] ++
      modified.map ("   " ++ ·) ++ [""]

def unsound (cs : List Checked) : Nat := cs.countP fun c => !c.verdict.isSound

/-- The benchmarks with something to mend come first. -/
def lines (modified : List String) (cs : List Checked) : List String :=
  if cs.isEmpty then []
  else [""] ++ modifiedLines modified ++ legend ++
    (cs.filter (!·.verdict.isSound)).map line ++ (cs.filter (·.verdict.isSound)).map line

end Checked

end Think.Report
