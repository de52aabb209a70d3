import Think.Eval
import Think.Library

/-! # Sessions

A session is a machine that keeps its names and values from one program to the next. A fresh one
knows the constants and functions of the language, and its files include the standard library.
-/

namespace Think

namespace Machine

/-- The objects that every program shares: null, zero, false and true, in the order of the
references that name them. -/
def sharedObjects : Array Object :=
  #[.null, .number (.int 0), .number (.int 0), .number (.int 1)].map Object.fresh

/-- Names bound to texts. -/
def kindNames : List (String × String) :=
  [("list", "<list>"), ("str", "<str>"), ("int", "<int>"), ("float", "<float>"),
    ("function", "<function>")]

def bindNew (s : Store) (t : TableRef) (name : String) (p : Payload) : Store :=
  let (r, s) := s.allocate (.fresh p)
  s.bind t name (.object r)

/-- The store of a fresh session. -/
def freshStore : Store :=
  let s : Store := ⟨sharedObjects, #[], #[⟨[], []⟩, ⟨[], []⟩]⟩
  let s := [("null", 1), ("false", 2), ("true", 3)].foldl
    (fun s (name, i) => s.bind Eval.globals name (.object ⟨i⟩)) s
  let s := kindNames.foldl (fun s (name, t) => bindNew s Eval.globals name (.text t)) s
  let s := Builtin.all.foldl
    (fun s b => bindNew s Eval.globals b.name (.builtin b.name)) s
  let s := s.bind Eval.globals "Run" (s.lookup Eval.globals Builtin.run.name)
  bindNew s Eval.programNames "is_main" (.number (.int 0))

/-- Settings that the language model needs. -/
def modelSettings (home : String) : List (String × String) :=
  [("TRANSFORMERS_VERBOSITY", "error"), ("PYTHONWARNINGS", "ignore"),
    ("HF_HOME", home ++ "/cache/models")]

/-- A fresh session in a world. -/
def start (w : World) : Machine :=
  ⟨freshStore, { w with environment := modelSettings w.files.home ++ w.environment }⟩

/-- How a run in a session ended. -/
inductive Ending
  | value (v : Value)
  | error (report : Diagnostic)
  | fault (cause : Fault)

def endingOf : Except Stop (Except Diagnostic Value) → Ending
  | .ok (.ok v) => .value v
  | .ok (.error d) => .error d
  | .error (.fault f) => .fault f
  | .error (.error d) => .error d
  | .error _ => .value .absent

/-- Runs a program. A longer text may take more steps, so that no text is too deep. -/
def run (m : Machine) (source : Source) : Ending × Machine :=
  let (r, m) := Eval.runText (Eval.maxFuel + source.text.length) Eval.maxDepth source m
  (endingOf r, m)

/-- Imports the file at a path, if there is one. -/
def importModule (m : Machine) (path : String) : Option (Ending × Machine) :=
  if m.world.files.isFile m.world.cwd path then
    let (r, m) := Eval.importText Eval.maxFuel Eval.maxDepth path m
    some (endingOf r, m)
  else none

end Machine

end Think
